/-!
Lists whose items carry a name.

`firsts` drops repetitions, keeping first positions. `Keyed.put` replaces the item of the same name in
place or appends, and `Keyed.collect` runs it over a list, so of several items with one name the last
stays, at the place of the first.
-/

set_option autoImplicit false

namespace DocGraph

def firsts {α : Type} [DecidableEq α] : List α → List α
  | [] => []
  | item :: rest => item :: (firsts rest).filter (fun other => !(other == item))

theorem mem_firsts {α : Type} [DecidableEq α] (item : α) (items : List α) :
    item ∈ firsts items ↔ item ∈ items := by
  induction items with
  | nil => simp [firsts]
  | cons head rest ih =>
      by_cases same : item = head
      · simp [firsts, same]
      · simp [firsts, same, ih]

theorem nodup_firsts {α : Type} [DecidableEq α] (items : List α) : (firsts items).Nodup := by
  induction items with
  | nil => exact List.nodup_nil
  | cons head rest ih =>
      refine List.nodup_cons.2 ⟨?_, ih.filter _⟩
      simp

namespace Keyed

variable {α : Type} (name : α → String)

def find? (key : String) (items : List α) : Option α := items.find? (fun item => name item == key)

def put (item : α) : List α → List α
  | [] => [item]
  | held :: rest => if name held = name item then item :: rest else held :: put item rest

def collect (items : List α) : List α := items.foldl (fun held item => put name item held) []

theorem names_put (item : α) (items : List α) :
    (put name item items).map name =
      if name item ∈ items.map name then items.map name else items.map name ++ [name item] := by
  induction items with
  | nil => simp [put]
  | cons held rest ih =>
      by_cases same : name held = name item
      · simp [put, same]
      · have other : ¬ name item = name held := fun h => same h.symm
        by_cases found : name item ∈ rest.map name
        · rw [if_pos found] at ih
          simp only [put, if_neg same, List.map_cons, ih, List.mem_cons, found, or_true, if_true]
        · rw [if_neg found] at ih
          simp only [put, if_neg same, List.map_cons, ih, List.mem_cons, found, other, or_self, if_false,
            List.cons_append]

end Keyed

end DocGraph
