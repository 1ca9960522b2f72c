import TruthLint.Proofs.Analysis.Report

/-! What is reported of some of the findings. Ordering and leaving out repetitions only look at
keys. It therefore makes no difference whether all findings with a key are dropped before that or
after it, or whether something that is no part of the key is changed before or after. -/

namespace TruthLint

namespace Diagnostic

/-- Nothing comes before the line of the first finding. -/
theorem line_le_of_mem {d e : Diagnostic} {ds : List Diagnostic}
    (h : (d :: ds).Pairwise fun d e => d.line ≤ e.line) (he : e ∈ d :: ds) : d.line ≤ e.line := by
  rcases List.mem_cons.mp he with hEq | hLater
  · exact Nat.le_of_eq (congrArg Diagnostic.line hEq.symm)
  · exact (List.pairwise_cons.mp h).1 e hLater

/-- Lists that agree on the line of a finding both have it or both do not. -/
theorem mem_of_filter_line_eq {d : Diagnostic} {ds es : List Diagnostic}
    (h : ds.filter (·.line == d.line) = es.filter (·.line == d.line)) (hd : d ∈ ds) : d ∈ es := by
  have hLine : d ∈ es.filter (·.line == d.line) := by
    rw [← h]
    exact List.mem_filter.mpr ⟨hd, beq_self_eq_true _⟩
  exact (List.mem_filter.mp hLine).1

/-- Lists in the order of lines are the same if they agree on every line. Each head is in the other
list as well, so that both are on the first line there is. -/
theorem eq_of_filter_line_eq {ds es : List Diagnostic}
    (hFirst : ds.Pairwise fun d e => d.line ≤ e.line)
    (hSecond : es.Pairwise fun d e => d.line ≤ e.line)
    (h : ∀ line, ds.filter (·.line == line) = es.filter (·.line == line)) : ds = es := by
  induction ds generalizing es with
  | nil =>
      cases es with
      | nil => rfl
      | cons e es => simpa using h e.line
  | cons d ds ih =>
      cases es with
      | nil => simpa using h d.line
      | cons e es =>
          have hLine : e.line = d.line := Nat.le_antisymm
            (line_le_of_mem hSecond (mem_of_filter_line_eq (h d.line) List.mem_cons_self))
            (line_le_of_mem hFirst (mem_of_filter_line_eq (h e.line).symm List.mem_cons_self))
          have hHead : d = e := by
            have hHere := h d.line
            simp only [List.filter_cons, hLine, beq_self_eq_true, if_true] at hHere
            exact (List.cons.inj hHere).1
          subst hHead
          have hTail (line : Nat) : ds.filter (·.line == line) = es.filter (·.line == line) := by
            have hHere := h line
            simp only [List.filter_cons] at hHere
            split at hHere
            · exact (List.cons.inj hHere).2
            · exact hHere
          rw [ih (List.pairwise_cons.mp hFirst).2 (List.pairwise_cons.mp hSecond).2 hTail]

/-- Ordering by line is stable, so that it commutes with leaving out findings. -/
theorem byLine_filter (keep : Diagnostic → Bool) (ds : List Diagnostic) :
    byLine (ds.filter keep) = (byLine ds).filter keep := by
  refine eq_of_filter_line_eq (pairwise_byLine _) ((pairwise_byLine ds).filter keep) fun line => ?_
  calc (byLine (ds.filter keep)).filter (·.line == line)
    _ = (ds.filter keep).filter (·.line == line) := filter_byLine _ line
    _ = (ds.filter (·.line == line)).filter keep := by
      simp only [List.filter_filter, Bool.and_comm]
    _ = ((byLine ds).filter (·.line == line)).filter keep := by rw [filter_byLine]
    _ = ((byLine ds).filter keep).filter (·.line == line) := by
      simp only [List.filter_filter, Bool.and_comm]

/-- Findings that are changed without being moved to other lines are sorted as before. -/
theorem byLine_map {f : Diagnostic → Diagnostic} (hLine : ∀ d, (f d).line = d.line)
    (ds : List Diagnostic) : byLine (ds.map f) = (byLine ds).map f := by
  refine (List.map_mergeSort fun d _ e _ => ?_).symm
  rw [hLine, hLine]

/-- Whether a key has been seen does not matter for the findings that are left out. -/
theorem distinct_filter {keep : Diagnostic → Bool}
    (hKey : ∀ d e, d.key = e.key → keep d = keep e) {seen seen' : List (String × Nat × String)}
    (hSeen : ∀ d, keep d = true → (d.key ∈ seen ↔ d.key ∈ seen')) (ds : List Diagnostic) :
    distinct seen (ds.filter keep) = (distinct seen' ds).filter keep := by
  induction ds generalizing seen seen' with
  | nil => rfl
  | cons d ds ih =>
      cases hKeep : keep d with
      | true =>
          have hContains : seen.contains d.key = seen'.contains d.key := by
            simp only [List.contains_eq_mem, hSeen d hKeep]
          rw [List.filter_cons_of_pos hKeep, distinct, distinct, hContains]
          split
          · exact ih hSeen
          · rw [List.filter_cons_of_pos hKeep]
            refine congrArg (d :: ·) (ih fun e he => ?_)
            rw [List.mem_cons, List.mem_cons, hSeen e he]
      | false =>
          have hDrop : ¬keep d = true := by simp [hKeep]
          rw [List.filter_cons_of_neg hDrop, distinct]
          split
          · exact ih hSeen
          · rw [List.filter_cons_of_neg hDrop]
            refine ih fun e he => ?_
            have hOther : e.key ≠ d.key := fun hEq => hDrop ((hKey e d hEq).symm.trans he)
            simp [hSeen e he, hOther]

/-- Changes that leave the keys alone do not change which findings are repetitions. -/
theorem distinct_map {f : Diagnostic → Diagnostic} (hKey : ∀ d, (f d).key = d.key)
    (seen : List (String × Nat × String)) (ds : List Diagnostic) :
    distinct seen (ds.map f) = (distinct seen ds).map f := by
  induction ds generalizing seen with
  | nil => rfl
  | cons d ds ih =>
      simp only [List.map_cons, distinct, hKey, ih]
      split
      · rfl
      · rfl

/-- A selection that goes by the key may be made before the report or after it. Otherwise a finding
could be left out in favour of an earlier one with its key that is then not selected. -/
theorem report_filter {keep : Diagnostic → Bool} (hKey : ∀ d e, d.key = e.key → keep d = keep e)
    (ds : List Diagnostic) : report (ds.filter keep) = (report ds).filter keep := by
  rw [report, report, byLine_filter]
  exact distinct_filter hKey (fun _ _ => Iff.rfl) _

theorem report_map {f : Diagnostic → Diagnostic} (hKey : ∀ d, (f d).key = d.key)
    (ds : List Diagnostic) : report (ds.map f) = (report ds).map f := by
  have hLine (d : Diagnostic) : (f d).line = d.line := congrArg (·.2.1) (hKey d)
  rw [report, report, byLine_map hLine, distinct_map hKey]

end Diagnostic

end TruthLint
