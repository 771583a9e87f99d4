import DocGraph.Proofs.Outcome

set_option autoImplicit false

namespace DocGraph

namespace Outcome

variable {α β : Type}

def Succeeds (outcome : Outcome α) : Prop := ∃ value, outcome.result = .ok value

theorem mem_raised_bind (first : Outcome α) (next : α → Outcome β) (notice : Notice) :
    notice ∈ (first >>= next).raised ↔
      notice ∈ first.raised ∨ ∃ value, first.result = .ok value ∧ notice ∈ (next value).raised := by
  change notice ∈ (first.andThen next).raised ↔ _
  unfold andThen
  cases first.result with
  | error error => simp
  | ok value => simp

theorem raised_return (first : Outcome α) (f : α → β) : (first >>= fun value => pure (f value)).raised = first.raised := by
  change (first.andThen _).raised = _
  unfold andThen
  cases first.result with
  | error error => rfl
  | ok value => exact List.append_nil _

theorem mem_raised_lift_bind (computed : Except Error α) (next : α → Outcome β) (notice : Notice) :
    notice ∈ ((liftM computed : Outcome α) >>= next).raised ↔
      ∃ value, computed = .ok value ∧ notice ∈ (next value).raised := by
  rw [mem_raised_bind]
  exact or_iff_right List.not_mem_nil

theorem mem_raised_then (first : Outcome α) (next : α → Outcome β) (notice : Notice) (later : Prop)
    (same : ∀ value, notice ∈ (next value).raised ↔ later) :
    notice ∈ (first >>= next).raised ↔ notice ∈ first.raised ∨ first.Succeeds ∧ later := by
  rw [mem_raised_bind]
  simp only [same, Succeeds, exists_and_right]

theorem not_raised_bind (first : Outcome α) (next : α → Outcome β) (notice : Notice) (early : notice ∉ first.raised)
    (late : ∀ value, notice ∉ (next value).raised) : notice ∉ (first >>= next).raised := by
  rw [mem_raised_bind]
  rintro (here | ⟨value, _, later⟩)
  · exact early here
  · exact late value later

end Outcome

namespace NoticeLog

-- A log with the notices that it reported since it was reset and those that were due.
structure Account (log : NoticeLog) (notices : List Notice) (due : Notice → Prop) : Prop where
  subjects : notices.map Notice.subject = log.reported
  distinct : log.reported.Nodup
  told : ∀ notice ∈ notices, due notice
  heard : ∀ notice, due notice → notice.subject ∈ log.reported

variable {log : NoticeLog} {notices : List Notice} {due : Notice → Prop}

theorem account_fresh (none : ∀ notice, ¬ due notice) : Account {} [] due :=
  ⟨rfl, .nil, fun _ listed => absurd listed List.not_mem_nil, fun notice owed => absurd owed (none notice)⟩

theorem account_congr (account : Account log notices due) (other : Notice → Prop)
    (same : ∀ notice, other notice ↔ due notice) : Account log notices other :=
  ⟨account.subjects, account.distinct, fun notice listed => (same notice).mpr (account.told notice listed),
    fun notice owed => account.heard notice ((same notice).mp owed)⟩

theorem account_known (account : Account log notices due) (notice : Notice) (known : notice.subject ∈ log.reported) :
    Account log notices (fun other => due other ∨ other = notice) := by
  refine ⟨account.subjects, account.distinct, fun other listed => .inl (account.told other listed), ?_⟩
  rintro other (owed | rfl)
  · exact account.heard other owed
  · exact known

theorem account_new (account : Account log notices due) (notice : Notice) (new : notice.subject ∉ log.reported) :
    Account ⟨log.reported ++ [notice.subject]⟩ (notices ++ [notice]) (fun other => due other ∨ other = notice) := by
  refine ⟨?_, ?_, ?_, ?_⟩
  · rw [List.map_append, account.subjects, List.map_singleton]
  · exact List.nodup_append.mpr ⟨account.distinct, List.pairwise_singleton _ _, fun subject held other here same =>
      new (List.mem_singleton.mp here ▸ same ▸ held)⟩
  · intro other listed
    rcases List.mem_append.mp listed with held | here
    · exact .inl (account.told other held)
    · exact .inr (List.mem_singleton.mp here)
  · rintro other (owed | rfl)
    · exact List.mem_append_left _ (account.heard other owed)
    · exact List.mem_append_right _ (List.mem_singleton.mpr rfl)

theorem account_report (account : Account log notices due) (raised : List Notice) (after : Notice → Prop)
    (grows : ∀ notice, after notice ↔ due notice ∨ notice ∈ raised) :
    Account (log.report raised).1 (notices ++ (log.report raised).2) after := by
  induction raised generalizing log notices due with
  | nil =>
      rw [report, List.append_nil]
      exact account_congr account after (fun notice => (grows notice).trans (or_iff_left List.not_mem_nil))
  | cons notice rest ih =>
      have split (other : Notice) : after other ↔ (due other ∨ other = notice) ∨ other ∈ rest := by
        rw [grows, List.mem_cons, or_assoc]
      rw [report]
      by_cases known : notice.subject ∈ log.reported
      · rw [if_pos known]
        exact ih (account_known account notice known) split
      · rw [if_neg known]
        have later := ih (account_new account notice known) split
        rwa [List.append_assoc] at later

theorem reported_once (account : Account log notices due) : (notices.map Notice.subject).Nodup :=
  account.subjects ▸ account.distinct

theorem reported_iff (account : Account log notices due) (notice : Notice)
    (only : ∀ other, due notice → due other → other.subject = notice.subject → other = notice) :
    notice ∈ notices ↔ due notice := by
  refine ⟨account.told notice, fun owed => ?_⟩
  have heard := account.heard notice owed
  rw [← account.subjects] at heard
  obtain ⟨other, listed, same⟩ := List.mem_map.mp heard
  exact only other owed (account.told other listed) same ▸ listed

end NoticeLog

end DocGraph
