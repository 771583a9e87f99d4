
set_option autoImplicit false

namespace DocGraph.Text

def after? : List Char → List Char → Option (List Char)
  | [], text => some text
  | _ :: _, [] => none
  | expected :: start, found :: text => if expected = found then after? start text else none

def before? (stop text : List Char) : Option (List Char) :=
  (after? stop.reverse text.reverse).map List.reverse

theorem after?_eq_some_iff (start text rest : List Char) :
    after? start text = some rest ↔ text = start ++ rest := by
  induction start generalizing text with
  | nil => simp [after?, eq_comm]
  | cons expected start ih =>
      cases text with
      | nil => simp [after?]
      | cons found text =>
          by_cases same : expected = found
          · subst same
            simp [after?, ih]
          · simp [after?, same, Ne.symm same]

theorem before?_eq_some_iff (stop text rest : List Char) :
    before? stop text = some rest ↔ text = rest ++ stop := by
  unfold before?
  rw [Option.map_eq_some_iff]
  constructor
  · rintro ⟨cut, found, rfl⟩
    have whole := (after?_eq_some_iff _ _ _).1 found
    have back := congrArg List.reverse whole
    simpa using back
  · rintro rfl
    refine ⟨rest.reverse, (after?_eq_some_iff _ _ _).2 ?_, List.reverse_reverse rest⟩
    simp

end DocGraph.Text
