import Mathlib.Order.Interval.Finset.Nat
import TruthLint.Proofs.Reduction.BlockScan
import TruthLint.Proofs.Reduction.Transcript

/-! How long a reduction takes and which lines it reads. Every block that is removed takes lines
away that were not empty, and the next one is looked for behind it. So the loop over blocks comes
to an end by itself, and the number of questions is bounded by the number of lines. -/

namespace TruthLint.Reduction

/-- The lines from line `i` on that are not empty. -/
def filled (lines : List Line) (i : Nat) : Finset Nat :=
  (Finset.Ico i lines.length).filter fun k => lines[k]? ≠ some []

/-- A line counts if it exists, stands at the place or behind it, and is not empty. -/
theorem mem_filled {lines : List Line} {i k : Nat} :
    k ∈ filled lines i ↔ (i ≤ k ∧ k < lines.length) ∧ lines[k]? ≠ some [] := by
  rw [filled, Finset.mem_filter, Finset.mem_Ico]

theorem card_filled_le (lines : List Line) (i : Nat) : (filled lines i).card ≤ lines.length := by
  calc (filled lines i).card ≤ (Finset.Ico i lines.length).card := Finset.card_filter_le _ _
    _ = lines.length - i := Nat.card_Ico i lines.length
    _ ≤ lines.length := Nat.sub_le _ _

/-- Emptying lines does not bring new ones into the count. -/
theorem Emptied.filled_subset {lines original : List Line} (h : Emptied lines original) (i : Nat) :
    filled lines i ⊆ filled original i := by
  intro k hk
  rw [mem_filled] at hk ⊢
  exact ⟨by rw [← h.length_eq]; exact hk.1, fun hEmpty => hk.2 (h.getElem?_eq_nil hEmpty)⟩

theorem mem_filled_of_getElem? {lines : List Line} {i k : Nat} {line : Line} (hFrom : i ≤ k)
    (hLine : lines[k]? = some line) (hNonempty : line ≠ []) : k ∈ filled lines i := by
  refine mem_filled.mpr ⟨⟨hFrom, (List.getElem?_eq_some_iff.mp hLine).1⟩, fun hEmpty => ?_⟩
  exact hNonempty (Option.some.inj (hLine.symm.trans hEmpty))

/-- Lines that are emptied leave the count if one of them was not empty before. -/
theorem card_filled_blank_lt {lines : List Line} {i first last : Nat} {line : Line}
    (hFrom : i ≤ first) (hOrder : first ≤ last) (hLine : lines[first]? = some line)
    (hNonempty : line ≠ []) :
    (filled (blank first last lines) i).card < (filled lines i).card := by
  have hSubset := (emptied_blank first last lines).filled_subset i
  refine Finset.card_lt_card ((Finset.ssubset_iff_of_subset hSubset).mpr ⟨first, ?_, ?_⟩)
  · exact mem_filled_of_getElem? hFrom hLine hNonempty
  · intro hStill
    refine (mem_filled.mp hStill).2 ?_
    rw [getElem?_blank, hLine, Option.map_some, if_pos ⟨Nat.le_refl first, hOrder⟩]

theorem filled_succ_subset (lines : List Line) (i : Nat) :
    filled lines (i + 1) ⊆ filled lines i := by
  intro k hk
  obtain ⟨⟨hFrom, hInside⟩, hNonempty⟩ := mem_filled.mp hk
  exact mem_filled.mpr ⟨⟨by omega, hInside⟩, hNonempty⟩

/-- Past a line that is not empty, fewer are left. -/
theorem card_filled_succ_lt {lines : List Line} {i : Nat} {line : Line}
    (hLine : lines[i]? = some line) (hNonempty : line ≠ []) :
    (filled lines (i + 1)).card < (filled lines i).card := by
  have hSubset := filled_succ_subset lines i
  refine Finset.card_lt_card ((Finset.ssubset_iff_of_subset hSubset).mpr ⟨i, ?_, ?_⟩)
  · exact mem_filled_of_getElem? (Nat.le_refl i) hLine hNonempty
  · intro hAgain
    have hFrom := (mem_filled.mp hAgain).1.1
    omega

namespace Reducer

variable {oracle : Oracle}

/-- The blocks after line `anchor` are removed one after the other, until there is none or the
oracle objects. Nothing bounds their number, and lines are read by their numbers. -/
inductive ClearsBlocks (oracle : Oracle) : (anchor : Nat) → Reducer → Reducer → Prop where
  | none {anchor : Nat} {r : Reducer}
      (found : BlockScan.findBlock r.lines (anchor + 1) = .ok none) : ClearsBlocks oracle anchor r r
  | kept {anchor first last : Nat} {r : Reducer}
      (found : BlockScan.findBlock r.lines (anchor + 1) = .ok (some (first, last)))
      (needed : (r.tryBlank oracle .block first last).1 = false) :
      ClearsBlocks oracle anchor r (r.tryBlank oracle .block first last).2
  | removed {anchor first last : Nat} {r finish : Reducer}
      (found : BlockScan.findBlock r.lines (anchor + 1) = .ok (some (first, last)))
      (removed : (r.tryBlank oracle .block first last).1 = true)
      (later : ClearsBlocks oracle last (r.tryBlank oracle .block first last).2 finish) :
      ClearsBlocks oracle anchor r finish

/-- The loop over blocks ends before it reaches its bound, if there are not more lines than that
after the first one. -/
theorem removeBlocks_clears (bound anchor : Nat) (r : Reducer)
    (h : r.lines.length ≤ anchor + 1 + bound) :
    ClearsBlocks oracle anchor r (r.removeBlocks oracle bound anchor) := by
  induction bound generalizing anchor r with
  | zero =>
      refine .none ?_
      rw [BlockScan.findBlock_eq]
      cases hFound : findBlock? r.lines (anchor + 1) with
      | none => rfl
      | some block =>
          obtain ⟨first, last⟩ := block
          have hBounds := bounds_of_findBlock? hFound
          omega
  | succ bound ih =>
      rw [removeBlocks]
      cases hFound : findBlock? r.lines (anchor + 1) with
      | none =>
          refine .none ?_
          rw [BlockScan.findBlock_eq, hFound]
      | some block =>
          obtain ⟨first, last⟩ := block
          have hBounds := bounds_of_findBlock? hFound
          have hScan : BlockScan.findBlock r.lines (anchor + 1) = .ok (some (first, last)) := by
            rw [BlockScan.findBlock_eq, hFound]
          dsimp only
          split_ifs with hRemoved
          · refine .removed hScan hRemoved (ih last _ ?_)
            rw [(emptied_tryBlank oracle .block first last r).length_eq]
            omega
          · exact .kept hScan (Bool.eq_false_iff.mpr hRemoved)

/-- The questions on record, and twice the lines from line `i` on that may still lead to more. -/
def potential (r : Reducer) (i : Nat) : Nat := r.asked.size + 2 * (filled r.lines i).card

/-- An attempt costs its question, whatever comes of it. -/
theorem potential_tryBlank_le (kind : StepKind) (first last : Nat) (r : Reducer) (i : Nat) :
    (r.tryBlank oracle kind first last).2.potential i ≤ r.potential i + 1 := by
  have hCard := Finset.card_le_card ((emptied_tryBlank oracle kind first last r).filled_subset i)
  rw [potential, potential, tryBlank_asked, Array.size_push]
  omega

/-- An attempt that empties lines pays for itself. -/
theorem potential_tryBlank_lt {kind : StepKind} {first last i : Nat} {r : Reducer} {line : Line}
    (hRemoved : (r.tryBlank oracle kind first last).1 = true) (hFrom : i ≤ first)
    (hOrder : first ≤ last) (hLine : r.lines[first]? = some line) (hNonempty : line ≠ []) :
    (r.tryBlank oracle kind first last).2.potential i < r.potential i := by
  have hCard := card_filled_blank_lt hFrom hOrder hLine hNonempty
  have hLines : (r.tryBlank oracle kind first last).2.lines = blank first last r.lines :=
    if_pos hRemoved
  rw [potential, potential, tryBlank_asked, Array.size_push, hLines]
  omega

/-- Only the last attempt of the loop over blocks may be without effect. -/
theorem potential_removeBlocks_le (oracle : Oracle) {i : Nat} (bound anchor : Nat) (r : Reducer)
    (hAnchor : i ≤ anchor + 1) :
    (r.removeBlocks oracle bound anchor).potential i ≤ r.potential i + 1 := by
  induction bound generalizing anchor r with
  | zero => exact Nat.le_succ _
  | succ bound ih =>
      rw [removeBlocks]
      cases hFound : findBlock? r.lines (anchor + 1) with
      | none => exact Nat.le_succ _
      | some block =>
          obtain ⟨first, last⟩ := block
          have hBounds := bounds_of_findBlock? hFound
          obtain ⟨header, hHeader, hNonempty⟩ := header_of_findBlock? hFound
          dsimp only
          split_ifs with hRemoved
          · have hFewer := potential_tryBlank_lt (i := i) hRemoved (by omega) (by omega) hHeader
              hNonempty
            have hLater := ih last (r.tryBlank oracle .block first last).2 (by omega)
            omega
          · exact potential_tryBlank_le .block first last r i

/-- At each line there are at most two attempts without effect, and none if it is empty. -/
theorem potential_removeAt_le (r : Reducer) (i : Nat) :
    (r.removeAt oracle i).potential (i + 1) ≤ r.potential i := by
  unfold removeAt
  split
  case h_2 =>
    have hCard := Finset.card_le_card (filled_succ_subset r.lines i)
    rw [potential, potential]
    omega
  case h_1 first last hFirst hLast =>
    obtain ⟨line, hLine, hHead⟩ := Option.bind_eq_some_iff.mp hFirst
    have hCard := card_filled_succ_lt hLine (by rintro rfl; cases hHead)
    have hHere : r.potential (i + 1) + 2 ≤ r.potential i := by
      rw [potential, potential]
      omega
    have hTried : (if first.isAlpha && last == ';' then (r.tryBlank oracle .declaration i i).2
        else r).potential (i + 1) ≤ r.potential (i + 1) + 1 := by
      split_ifs
      · exact potential_tryBlank_le .declaration i i r (i + 1)
      · exact Nat.le_succ _
    dsimp only
    generalize (if first.isAlpha && last == ';' then (r.tryBlank oracle .declaration i i).2
      else r) = tried at hTried ⊢
    split_ifs
    · have hBlocks := potential_removeBlocks_le oracle tried.lines.length i tried
        (Nat.le_refl (i + 1))
      omega
    · omega

/-- What all attempts of the second pass cost is paid for by the lines that they are at. -/
theorem potential_foldl_removeAt_le (oracle : Oracle) (count i : Nat) (r : Reducer) :
    ((List.range' i count).foldl (removeAt oracle) r).potential (i + count) ≤ r.potential i := by
  induction count generalizing i r with
  | zero => exact Nat.le_refl _
  | succ count ih =>
      rw [List.range'_succ, List.foldl_cons, ← Nat.add_assoc, Nat.add_right_comm]
      exact (ih (i + 1) (r.removeAt oracle i)).trans (potential_removeAt_le r i)

/-- At a line the first pass asks at most once. -/
theorem asked_removeInclude_le (oracle : Oracle) (r : Reducer) (i : Nat) :
    (r.removeInclude oracle i).asked.size ≤ r.asked.size + 1 := by
  unfold removeInclude
  split_ifs
  · rw [tryBlank_asked, Array.size_push]
  · exact Nat.le_succ _

/-- So it asks no more often than there are lines. -/
theorem asked_foldl_removeInclude_le (oracle : Oracle) (order : List Nat) (r : Reducer) :
    (order.foldl (removeInclude oracle) r).asked.size ≤ r.asked.size + order.length := by
  induction order generalizing r with
  | nil => exact Nat.le_refl _
  | cons i order ih =>
      have hLater := ih (r.removeInclude oracle i)
      have hFirst := asked_removeInclude_le oracle r i
      rw [List.foldl_cons, List.length_cons]
      omega

/-- The passes ask at most three questions for each line. -/
theorem asked_passes_le (oracle : Oracle) (r : Reducer) :
    (r.passes oracle).asked.size ≤ r.asked.size + 3 * r.lines.length := by
  obtain ⟨steps, run⟩ := foldl_run (removeInclude_run oracle) (List.range r.lines.length) r
  have hLines := run.length_lines
  have hFirst := asked_foldl_removeInclude_le oracle (List.range r.lines.length) r
  unfold passes
  dsimp only
  generalize (List.range r.lines.length).foldl (removeInclude oracle) r = middle at hLines hFirst ⊢
  have hSecond := potential_foldl_removeAt_le oracle r.lines.length 0 middle
  have hFilled := card_filled_le middle.lines 0
  rw [List.length_range] at hFirst
  rw [← List.range_eq_range', potential, potential] at hSecond
  omega

/-- The number of lines stays the same throughout a run. -/
theorem length_lines_of_mem_states {start r : Reducer} {steps : List Step}
    (hr : r ∈ states oracle start steps) : r.lines.length = start.lines.length := by
  induction steps generalizing start with
  | nil =>
      obtain rfl : r = start := by simpa [states] using hr
      rfl
  | cons step steps ih =>
      rw [states, List.scanl_cons] at hr
      rcases List.mem_cons.mp hr with hEq | hLater
      · rw [hEq]
      · have hTried := emptied_tryBlank oracle step.kind (step.first - 1) (step.last - 1) start
        exact (ih hLater).trans hTried.length_eq

theorem asked_cleaned (r : Reducer) (source : String) :
    (r.cleaned source).asked.size = r.asked.size + 2 := by
  rw [cleaned, Array.size_push, Array.size_push]

/-- Two questions come before the passes, and at most three for each line after them. -/
theorem asked_of_ok {source text : String} {r : Reducer}
    (h : (r.reduce oracle source).1 = .ok text) :
    (r.reduce oracle source).2.asked.size ≤
      r.asked.size + 2 + 3 * (Text.lines source.toList).length := by
  obtain ⟨-, hPasses, -⟩ := reduce_of_ok h
  have hAsked := asked_passes_le oracle (r.cleaned source)
  have hLines : (r.cleaned source).lines.length = (Text.lines source.toList).length :=
    length_normalize source
  rw [asked_cleaned, hLines] at hAsked
  rw [hPasses]
  exact hAsked

/-- A reduction that fails asks about the source and its canonical lines at most. -/
theorem asked_of_error {source : String} {failure : Failure} {r : Reducer}
    (h : (r.reduce oracle source).1 = .error failure) :
    (r.reduce oracle source).2.asked.size ≤ r.asked.size + 2 := by
  cases failure with
  | notReproduced =>
      rw [(asked_of_notReproduced h).1, Array.size_push]
      exact Nat.le_succ _
  | cleanupFailed => rw [(asked_of_cleanupFailed h).1, Array.size_push, Array.size_push]

/-- A reduction ends, whatever the oracle answers. It asks at most two questions and three for each
line of the source. Each attempt is on lines that exist, whose number stays the same in between,
the loop over blocks comes to its end without a bound, and the search for a block reads lines that
exist only, from wherever it starts. -/
theorem reduce_bounded (oracle : Oracle) (source : String) (r : Reducer) :
    let count := (Text.lines source.toList).length
    let finish := (r.reduce oracle source).2
    finish.asked.size ≤ r.asked.size + 2 + 3 * count ∧
    (match (r.reduce oracle source).1 with
      | .ok _ =>
        finish.asked.size = r.asked.size + 2 + finish.steps.size ∧
          (∀ step ∈ finish.steps, step.Within count) ∧
          ∀ s ∈ states oracle (r.cleaned source) finish.steps.toList, s.lines.length = count
      | .error _ => finish.asked.size ≤ r.asked.size + 2) ∧
    (∀ (anchor : Nat) (s : Reducer),
      ClearsBlocks oracle anchor s (s.removeBlocks oracle s.lines.length anchor)) ∧
    ∀ (lines : List Line) (start : Nat),
      BlockScan.findBlock lines start = .ok (findBlock? lines start) := by
  intro count finish
  have hCount : (r.cleaned source).lines.length = count := length_normalize source
  refine ⟨?_, ?_, fun anchor s => removeBlocks_clears _ anchor s (by omega), BlockScan.findBlock_eq⟩
  · cases hResult : (r.reduce oracle source).1 with
    | ok text => exact asked_of_ok hResult
    | error failure => exact (asked_of_error hResult).trans (Nat.le_add_right _ _)
  · split
    next text hOk =>
      have run := run_of_ok hOk
      refine ⟨?_, fun step hStep => ?_, fun s hs => (length_lines_of_mem_states hs).trans hCount⟩
      · rw [run.size_asked, asked_cleaned, Array.length_toList]
      · rw [← hCount]
        exact run.within step (Array.mem_toList_iff.mpr hStep)
    next failure hError => exact asked_of_error hError

end Reducer

end TruthLint.Reduction
