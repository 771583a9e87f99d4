import DocGraph.Proofs.Update.Writes
import Mathlib.Data.List.Flatten

set_option autoImplicit false

namespace DocGraph.Update

def Laxer (lax strict : WriteMode) : Prop := ∀ flag, lax.replaces flag = true → strict.replaces flag = true

theorem laxer_refl (mode : WriteMode) : Laxer mode mode := fun _ replaces => replaces

theorem laxer_of_flag : Laxer (WriteMode.ofFlag false) (WriteMode.ofFlag true) := by
  intro flag replaces
  cases flag with
  | none => rfl
  | some explicit => exact replaces

theorem laxer_passed_on (lax strict : WriteMode) (laxer : Laxer lax strict) (flag : Option Bool) :
    Laxer (WriteMode.passedOn (lax.replaces flag)) (WriteMode.passedOn (strict.replaces flag)) :=
  replaces_passed_on (lax.replaces flag) (strict.replaces flag) (laxer flag)

theorem laxer_root (update : Members) : Laxer (rootMode update false) (rootMode update true) := by
  unfold rootMode
  split
  · exact laxer_refl .replace
  · exact laxer_of_flag

-- Two checks that fail alike, though not over what they found, or of which the second finds all that the first does.
inductive Within : Except Error (List Violation) → Except Error (List Violation) → Prop where
  | failed (error : Error) (other : ∀ found, error ≠ .incomplete found) : Within (.error error) (.error error)
  | found (fewer more : List Violation) (kept : fewer.Sublist more) : Within (.ok fewer) (.ok more)

section

variable {α : Type}

theorem within_bind (shared : Except Error α) (lax strict : α → Except Error (List Violation))
    (other : ∀ found, shared ≠ .error (.incomplete found)) (each : ∀ value, Within (lax value) (strict value)) :
    Within (shared >>= lax) (shared >>= strict) := by
  cases shared with
  | error error => exact .failed error (fun found same => other found (congrArg Except.error same))
  | ok value => exact each value

theorem within_run (items : List α) (lax strict : α → Except Error (List Violation)) (fewer more : List Violation)
    (own : fewer.Sublist more) (each : ∀ item ∈ items, Within (lax item) (strict item)) :
    Within (items.mapM lax >>= fun below => .ok (fewer ++ below.flatten))
      (items.mapM strict >>= fun below => .ok (more ++ below.flatten)) := by
  induction items generalizing fewer more with
  | nil => exact .found _ _ (by simpa using own)
  | cons head rest ih =>
      have later (first others : List Violation) (kept : first.Sublist others) :=
        ih (fewer ++ first) (more ++ others) (own.append kept) (fun item member => each item (List.mem_cons_of_mem head member))
      have first := each head (List.mem_cons_self ..)
      rw [List.mapM_cons, List.mapM_cons]
      generalize lax head = a at first
      generalize strict head = b at first
      cases first with
      | failed error other => exact .failed error other
      | found a b kept =>
          simp only [bind_assoc, pure_bind, List.flatten_cons, ← List.append_assoc]
          exact later a b kept

end

theorem first_explicit_error (path : String) (objects : List Members) (found : List Violation) :
    Overwrite.firstExplicit path objects ≠ .error (.incomplete found) := by
  intro failed
  induction objects with
  | nil => cases failed
  | cons object rest ih =>
      cases reads : Overwrite.readable object with
      | false =>
          rw [Overwrite.firstExplicit, Overwrite.explicit_unreadable object path reads] at failed
          cases failed
      | true =>
          rw [Overwrite.firstExplicit, Overwrite.explicit_readable object path reads] at failed
          cases flag : Overwrite.flag? object with
          | none =>
              rw [flag] at failed
              exact ih failed
          | some value =>
              rw [flag] at failed
              cases failed

theorem composite_error (schema : Schema) (type : CompositeIndex) (found : List Violation) :
    schema.composite type ≠ .error (.incomplete found) := by
  unfold Schema.composite
  split <;> nofun

theorem field_error (composite : Composite) (key : String) (found : List Violation) :
    composite.field key ≠ .error (.incomplete found) := by
  unfold Composite.field
  split <;> nofun

theorem respects_none (type : FieldType) : respectsElements type [] = true := by
  induction type with
  | named type => rfl
  | nonNull of ih => exact ih
  | list of ih => exact ih

theorem field_violations_kept (objects : List Members) (path : String) (lax strict : Bool)
    (laxer : lax = true → strict = true) (field : Field) :
    (fieldViolations objects path lax field).Sublist (fieldViolations objects path strict field) := by
  cases lax with
  | true =>
      cases laxer rfl
      exact List.Sublist.refl _
  | false =>
      cases strict with
      | false => exact List.Sublist.refl _
      | true =>
          unfold fieldViolations
          by_cases skipped : (!field.type.isNonNull || (path == "" && field.name == "_id")) = true
          · simp [skipped]
          · by_cases absent : valuesOf objects field.name = []
            · simp [skipped, absent, respects_none]
            · simp [skipped, absent]

variable (schema : Schema) (computed : FieldTest)

theorem violations_below_within
    (check : List Members → CompositeIndex → String → WriteMode → Except Error (List Violation))
    (composite : Composite) (objects : List Members) (path : String) (lax strict : WriteMode) (key : String)
    (deeper : ∀ objects type path lax strict, Laxer lax strict →
      Within (check objects type path lax) (check objects type path strict))
    (laxer : Laxer lax strict) :
    Within (violationsBelow check computed composite objects path lax key)
      (violationsBelow check computed composite objects path strict key) := by
  refine within_bind _ _ _ (field_error composite key) ?_
  intro field
  cases field.type.composite? with
  | none => exact .found [] [] (List.Sublist.refl _)
  | some nested =>
      by_cases skipped : computed field = true
      · simp only [skipped, if_true]
        exact .found [] [] (List.Sublist.refl _)
      · by_cases lists : field.type.isList = true
        · simp only [skipped, lists, if_true]
          -- Elements replace in either mode.
          exact within_run _ _ _ [] [] (List.Sublist.refl _)
            (fun element _ => deeper [element] nested _ .replace .replace (laxer_refl .replace))
        · simp only [skipped, lists]
          exact deeper _ nested _ lax strict laxer

theorem violations_at_within (depth : Nat) : ∀ (objects : List Members) (type : CompositeIndex) (path : String)
    (lax strict : WriteMode), Laxer lax strict →
    Within (violationsAt schema computed depth objects type path lax)
      (violationsAt schema computed depth objects type path strict) := by
  induction depth with
  | zero => exact fun _ _ _ _ _ _ => .found [] [] (List.Sublist.refl _)
  | succ depth ih =>
      intro objects type path lax strict laxer
      refine within_bind _ _ _ (first_explicit_error path objects) ?_
      intro flag
      refine within_bind _ _ _ (composite_error schema type) ?_
      intro composite
      refine within_run _ _ _ _ _ ?_ ?_
      · exact List.Sublist.flatMap_right _ (fun field _ =>
          field_violations_kept objects path (lax.replaces flag) (strict.replaces flag) (laxer flag) field)
      · intro key _
        exact violations_below_within computed _ composite objects path _ _ key ih (laxer_passed_on lax strict laxer flag)

theorem violations_error (type : CompositeIndex) (update : Members) (overwrite : Bool) (found : List Violation) :
    violations schema type update overwrite computed ≠ .error (.incomplete found) := by
  have within : Within (violations schema type update overwrite computed) (violations schema type update overwrite computed) :=
    violations_at_within schema computed _ _ type "" _ _ (laxer_refl _)
  intro failed
  rw [failed] at within
  cases within with
  | failed _ other => exact other found rfl

theorem violations_of_refused (type : CompositeIndex) (update : Members) (overwrite : Bool) (found : List Violation)
    (refused : check schema type update overwrite computed = .error (.incomplete found)) :
    violations schema type update overwrite computed = .ok found := by
  cases checked : violations schema type update overwrite computed with
  | error error =>
      rw [check, checked] at refused
      cases refused
      exact absurd checked (violations_error schema computed type update overwrite found)
  | ok all =>
      rw [check, checked] at refused
      cases all with
      | nil => cases refused
      | cons first rest =>
          cases refused
          rfl

def reported : Except Error Unit → Option (List Violation)
  | .ok () => some []
  | .error (.incomplete found) => some found
  | .error _ => none

theorem reported_check (type : CompositeIndex) (update : Members) (overwrite : Bool) (found : List Violation)
    (checked : violations schema type update overwrite computed = .ok found) :
    reported (check schema type update overwrite computed) = some found := by
  rw [check, checked]
  cases found <;> rfl

-- Asking to overwrite adds to what is reported and takes nothing away, and adds nothing to an update with a
-- `setOnInsert`, which is written whole anyway.
theorem overwriting_reports_more (type : CompositeIndex) (update : Members) :
    (∃ error, (∀ found, error ≠ .incomplete found) ∧ check schema type update false computed = .error error ∧
      check schema type update true computed = .error error) ∨
    ∃ merging overwriting, reported (check schema type update false computed) = some merging ∧
      reported (check schema type update true computed) = some overwriting ∧ merging.Sublist overwriting ∧
      ∀ object, Members.get? "setOnInsert" update = some (.obj object) → merging = overwriting := by
  have within : Within (violations schema type update false computed) (violations schema type update true computed) :=
    violations_at_within schema computed _ _ type "" _ _ (laxer_root update)
  generalize merged : violations schema type update false computed = merging at within
  generalize overwritten : violations schema type update true computed = overwriting at within
  cases within with
  | failed error other => exact .inl ⟨error, other, by rw [check, merged]; rfl, by rw [check, overwritten]; rfl⟩
  | found fewer more kept =>
      refine .inr ⟨fewer, more, reported_check schema computed type update false fewer merged,
        reported_check schema computed type update true more overwritten, kept, ?_⟩
      intro object given
      have same : violations schema type update false computed = violations schema type update true computed := by
        simp [violations, rootMode, given, Json.members?]
      exact Except.ok.inj (merged.symm.trans (same.trans overwritten))

end DocGraph.Update
