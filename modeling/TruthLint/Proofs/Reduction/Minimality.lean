import TruthLint.Proofs.Reduction.Normalize
import TruthLint.Proofs.Reduction.Run

/-! What a reduction cannot empty. Each inclusion and each declaration is tried once, when other
lines still stand that are emptied later on. If emptied lines can only lose a finding and never
bring it back, then a line that was needed at its own attempt is needed at the end as well. -/

namespace TruthLint.Reduction

/-- Lines that are those of the original but for some that have been emptied. -/
structure Emptied (lines original : List Line) : Prop where
  length_eq : lines.length = original.length
  kept : ∀ (i : Nat) (line : Line), lines[i]? = some line → line ≠ [] → original[i]? = some line

/-- A finding in a text is also in each text that comes from it when emptied lines are put back.
The lines here are lines of the text as well, since none of them has an end of line in it. -/
def IsMonotone (reproduces : String → Bool) : Prop :=
  ∀ lines original, Unbroken original → Emptied lines original →
    reproduces (render lines) = true → reproduces (render original) = true

theorem getElem?_blank (first last : Nat) (lines : List Line) (i : Nat) :
    (blank first last lines)[i]? =
      lines[i]?.map fun line => if first ≤ i ∧ i ≤ last then [] else line :=
  List.getElem?_mapIdx

/-- Emptying the lines with some of the indices leaves the others as they are. -/
theorem emptied_mapIdx (p : Nat → Prop) [DecidablePred p] (lines : List Line) :
    Emptied (lines.mapIdx fun i line => if p i then [] else line) lines where
  length_eq := List.length_mapIdx
  kept := by
    intro i line hLine hNonempty
    rw [List.getElem?_mapIdx] at hLine
    obtain ⟨before, hBefore, hEq⟩ := Option.map_eq_some_iff.mp hLine
    split_ifs at hEq with hInside
    · exact absurd hEq.symm hNonempty
    · rw [hBefore, hEq]

/-- The lines from one index to another are some of the lines. -/
theorem emptied_blank (first last : Nat) (lines : List Line) :
    Emptied (blank first last lines) lines :=
  emptied_mapIdx (fun i => first ≤ i ∧ i ≤ last) lines

namespace Emptied

variable {lines original earlier : List Line}

/-- Lines of which none is emptied are among the emptied forms of themselves. -/
theorem refl (lines : List Line) : Emptied lines lines := ⟨rfl, fun _ _ hLine _ => hLine⟩

theorem trans (h : Emptied lines original) (h' : Emptied original earlier) :
    Emptied lines earlier where
  length_eq := h.length_eq.trans h'.length_eq
  kept i line hLine hNonempty := h'.kept i line (h.kept i line hLine hNonempty) hNonempty

/-- To empty the same lines of both keeps one an emptied form of the other. -/
theorem blank (h : Emptied lines original) (first last : Nat) :
    Emptied (blank first last lines) (Reduction.blank first last original) where
  length_eq := by rw [length_blank, length_blank, h.length_eq]
  kept := by
    intro i line hLine hNonempty
    rw [getElem?_blank] at hLine ⊢
    obtain ⟨before, hBefore, hEq⟩ := Option.map_eq_some_iff.mp hLine
    split_ifs at hEq ⊢ with hInside
    · exact absurd hEq.symm hNonempty
    · subst hEq
      rw [h.kept i before hBefore hNonempty, Option.map_some]

/-- A line that was empty is empty still. -/
theorem getElem?_eq_nil (h : Emptied lines original) {i : Nat} (hEmpty : original[i]? = some []) :
    lines[i]? = some [] := by
  have hInside : i < lines.length := by
    rw [h.length_eq]
    exact (List.getElem?_eq_some_iff.mp hEmpty).1
  have hLine : lines[i]? = some lines[i] := List.getElem?_eq_getElem hInside
  by_cases hNil : lines[i] = []
  · rw [hLine, hNil]
  · have hBefore := h.kept i _ hLine hNil
    rw [hLine, ← hBefore, hEmpty]

/-- Emptied lines have no ends of lines in them if the original ones had none. -/
theorem unbroken (h : Emptied lines original) (hUnbroken : Unbroken original) : Unbroken lines := by
  intro line hLine
  obtain ⟨i, hIndex⟩ := List.mem_iff_getElem?.mp hLine
  by_cases hNonempty : line = []
  · simp [hNonempty]
  · exact hUnbroken line (List.mem_of_getElem? (h.kept i line hIndex hNonempty))

/-- What stands in a text with emptied lines stood in the original. -/
theorem render_subset (h : Emptied lines original) :
    (render lines).toList ⊆ (render original).toList := by
  intro c hc
  simp only [render, String.toList_ofList, List.mem_flatMap] at hc ⊢
  obtain ⟨line, hLine, hc⟩ := hc
  obtain ⟨i, hIndex⟩ := List.mem_iff_getElem?.mp hLine
  by_cases hNonempty : line = []
  · have hInside : i < original.length := by
      rw [← h.length_eq]
      exact (List.getElem?_eq_some_iff.mp hIndex).1
    refine ⟨original[i], List.getElem_mem hInside, List.mem_append_right _ ?_⟩
    simpa [hNonempty] using hc
  · exact ⟨line, List.mem_of_getElem? (h.kept i line hIndex hNonempty), hc⟩

end Emptied

def IsInclusion (line : Line) : Prop := "#include".toList <+: line

/-- An ASCII letter begins the line, and a semicolon ends it. -/
def IsDeclaration (line : Line) : Prop :=
  ∃ first, line.head? = some first ∧ first.isAlpha = true ∧ line.getLast? = some ';'

/-- Line `i` is empty, or the finding gets lost when it is emptied. -/
def Settled (reproduces : String → Bool) (lines : List Line) (i : Nat) : Prop :=
  lines[i]? = some [] ∨ reproduces (render (blank i i lines)) = false

/-- A line that is settled stays so when lines are emptied. -/
theorem Settled.of_emptied {reproduces : String → Bool} (hMonotone : IsMonotone reproduces)
    {lines original : List Line} {i : Nat} (hUnbroken : Unbroken original)
    (hEmptied : Emptied lines original) (h : Settled reproduces original i) :
    Settled reproduces lines i := by
  rcases h with hEmpty | hNeeded
  · exact .inl (hEmptied.getElem?_eq_nil hEmpty)
  · right
    have hBlanked : Unbroken (blank i i original) := (emptied_blank i i original).unbroken hUnbroken
    rw [Bool.eq_false_iff] at hNeeded ⊢
    exact fun hFound => hNeeded (hMonotone _ _ hBlanked (hEmptied.blank i i) hFound)

namespace Reducer

variable {oracle : Oracle} {start finish : Reducer} {steps : List Step}

/-- An attempt empties lines or leaves all as they are. -/
theorem emptied_tryBlank (oracle : Oracle) (kind : StepKind) (first last : Nat) (r : Reducer) :
    Emptied (r.tryBlank oracle kind first last).2.lines r.lines := by
  rw [tryBlank_lines]
  split_ifs
  · exact emptied_blank first last r.lines
  · exact .refl r.lines

/-- So at the end of a run there are the lines of its start, some of them emptied. -/
theorem Run.emptied (run : Run oracle start steps finish) : Emptied finish.lines start.lines := by
  induction run with
  | nil => exact .refl _
  | snoc _ kind first last _ _ ih => exact (emptied_tryBlank oracle kind first last _).trans ih

/-- An attempt at a single line settles it. -/
theorem settled_tryBlank (reproduces : String → Bool) (kind : StepKind) {r : Reducer} {i : Nat}
    (hInside : i < r.lines.length) :
    Settled reproduces (r.tryBlank (fun _ => reproduces) kind i i).2.lines i := by
  rw [tryBlank_lines]
  split_ifs with hRemoved
  · left
    rw [getElem?_blank, List.getElem?_eq_getElem hInside]
    simp
  · right
    exact Bool.eq_false_iff.mpr hRemoved

/-- A pass over some lines is at one of them after a run and before another one. -/
theorem exists_before_of_mem {pass : Reducer → Nat → Reducer}
    (hPass : ∀ r i, ∃ steps, Run oracle r steps (pass r i)) {order : List Nat} {i : Nat}
    (hi : i ∈ order) (r : Reducer) :
    ∃ before prior later, Run oracle r prior before ∧
      Run oracle (pass before i) later (order.foldl pass r) := by
  obtain ⟨first, second, rfl⟩ := List.append_of_mem hi
  obtain ⟨prior, hPrior⟩ := foldl_run hPass first r
  obtain ⟨later, hLater⟩ := foldl_run hPass second (pass (first.foldl pass r) i)
  refine ⟨first.foldl pass r, prior, later, hPrior, ?_⟩
  rw [List.foldl_append, List.foldl_cons]
  exact hLater

/-- The first pass settles each inclusion when it is at it. -/
theorem settled_removeInclude (reproduces : String → Bool) {r : Reducer} {i : Nat} {line : Line}
    (hLine : r.lines[i]? = some line) (hInclusion : IsInclusion line) :
    Settled reproduces (r.removeInclude (fun _ => reproduces) i).lines i := by
  have hTried : (r.lines[i]?.any fun line =>
      (Text.afterLead? "#include".toList line).isSome) = true := by
    obtain ⟨rest, hEq⟩ := hInclusion
    rw [hLine, Option.any_some, Text.afterLead?_eq_some_iff.mpr hEq.symm, Option.isSome_some]
  rw [removeInclude, if_pos hTried]
  exact settled_tryBlank reproduces .inclusion (List.getElem?_eq_some_iff.mp hLine).1

section

variable {reproduces : String → Bool} (hMonotone : IsMonotone reproduces)

include hMonotone

/-- The blocks after a declaration are tried once it has been settled. -/
theorem settled_removeAt {r : Reducer} (hUnbroken : Unbroken r.lines) {i : Nat} {line : Line}
    (hLine : r.lines[i]? = some line) (hDeclaration : IsDeclaration line) :
    Settled reproduces (r.removeAt (fun _ => reproduces) i).lines i := by
  obtain ⟨first, hFirst, hLetter, hLast⟩ := hDeclaration
  have hTried := settled_tryBlank reproduces .declaration (List.getElem?_eq_some_iff.mp hLine).1
  have hEmptied := emptied_tryBlank (fun _ => reproduces) .declaration i i r
  simp only [removeAt, hLine, Option.bind_some, hFirst, hLast, hLetter, beq_self_eq_true,
    Bool.and_self, if_true]
  split_ifs
  · obtain ⟨later, hBlocks⟩ := removeBlocks_run (fun _ => reproduces) _ i
      (r.tryBlank (fun _ => reproduces) .declaration i i).2
    exact .of_emptied hMonotone (hEmptied.unbroken hUnbroken) hBlocks.emptied hTried
  · exact hTried

/-- What a pass settles when it is at a line is settled after the pass, for each line that is
still there then. -/
theorem settled_foldl {pass : Reducer → Nat → Reducer}
    (hPass : ∀ r i, ∃ steps, Run (fun _ => reproduces) r steps (pass r i))
    {order : List Nat} {i : Nat} (hi : i ∈ order) {r : Reducer} (hUnbroken : Unbroken r.lines)
    {line : Line} (hLine : (order.foldl pass r).lines[i]? = some line) (hNonempty : line ≠ [])
    (hTries : ∀ before : Reducer, Unbroken before.lines → before.lines[i]? = some line →
      Settled reproduces (pass before i).lines i) :
    Settled reproduces (order.foldl pass r).lines i := by
  obtain ⟨before, prior, later, hPrior, hLater⟩ := exists_before_of_mem hPass hi r
  obtain ⟨steps, hAt⟩ := hPass before i
  have hBefore : Unbroken before.lines := hPrior.emptied.unbroken hUnbroken
  have hThere : before.lines[i]? = some line :=
    (hLater.emptied.trans hAt.emptied).kept i line hLine hNonempty
  exact .of_emptied hMonotone (hAt.emptied.unbroken hBefore) hLater.emptied
    (hTries before hBefore hThere)

/-- After both passes, the inclusions and declarations that are left are settled. The second pass
does not try an inclusion, but it may empty lines around it. -/
theorem settled_passes {r : Reducer} (hUnbroken : Unbroken r.lines) {i : Nat} {line : Line}
    (hLine : (r.passes fun _ => reproduces).lines[i]? = some line) (hNonempty : line ≠ [])
    (hKind : IsInclusion line ∨ IsDeclaration line) :
    Settled reproduces (r.passes fun _ => reproduces).lines i := by
  have hInclude := removeInclude_run fun _ => reproduces
  have hAt := removeAt_run fun _ => reproduces
  obtain ⟨prior, hPrior⟩ := foldl_run hInclude (List.range r.lines.length) r
  obtain ⟨later, hLater⟩ := foldl_run hAt (List.range r.lines.length)
    ((List.range r.lines.length).foldl (removeInclude fun _ => reproduces) r)
  have hMiddle := hPrior.emptied.unbroken hUnbroken
  have hi : i ∈ List.range r.lines.length := by
    rw [List.mem_range, ← hPrior.length_lines, ← hLater.length_lines]
    exact (List.getElem?_eq_some_iff.mp hLine).1
  rcases hKind with hInclusion | hDeclaration
  · refine .of_emptied hMonotone hMiddle hLater.emptied ?_
    exact settled_foldl hMonotone hInclude hi hUnbroken
      (hLater.emptied.kept i line hLine hNonempty) hNonempty
      fun before _ hBefore => settled_removeInclude reproduces hBefore hInclusion
  · exact settled_foldl hMonotone hAt hi hMiddle hLine hNonempty
      fun before hBroken hBefore => settled_removeAt hMonotone hBroken hBefore hDeclaration

end

/-- If emptied lines never bring a finding back, the lines that a reduction leaves are minimal in
their inclusions and declarations: without any single one of them the finding is lost. -/
theorem reduce_minimal (reproduces : String → Bool) (hMonotone : IsMonotone reproduces)
    (source text : String) (r : Reducer)
    (h : (r.reduce (fun _ => reproduces) source).1 = .ok text) :
    let finish := (r.reduce (fun _ => reproduces) source).2
    ∀ (i : Nat) (line : Line), finish.lines[i]? = some line →
      IsInclusion line ∨ IsDeclaration line →
      reproduces (render (blank i i finish.lines)) = false := by
  intro finish i line hLine hKind
  have hNonempty : line ≠ [] := by
    rintro rfl
    rcases hKind with hInclusion | ⟨first, hFirst, -⟩
    · exact absurd (List.prefix_nil.mp hInclusion) (by decide)
    · simp at hFirst
  obtain ⟨-, hPasses, -⟩ := reduce_of_ok h
  have hSettled : Settled reproduces finish.lines i := by
    simp only [finish, hPasses] at hLine ⊢
    exact settled_passes hMonotone (unbroken_normalize source) hLine hNonempty hKind
  rcases hSettled with hEmpty | hNeeded
  · exact absurd (Option.some.inj (hLine.symm.trans hEmpty)) hNonempty
  · exact hNeeded

/-- Whether a text mentions all of some characters. -/
def mentions (needed : List Char) (text : String) : Bool := needed.all text.toList.contains

/-- A text that mentions what is needed still does when emptied lines are put back. -/
theorem isMonotone_mentions (needed : List Char) : IsMonotone (mentions needed) := by
  intro lines original _ hEmptied hFound
  simp only [mentions, List.all_eq_true, List.contains_iff_mem] at hFound ⊢
  exact fun c hc => hEmptied.render_subset (hFound c hc)

/-- The first inclusion and the last declaration are needed, and all that stands between goes. -/
theorem reduce_minimal_both_kinds :
    let reproduces := mentions ['x', 'z']
    let run := initial.reduce (fun _ => reproduces)
      "#include <x>\nint y;\nvoid f()\n\x7b\n    y++;\n\x7d\nint z;\n"
    run.1 = .ok "#include <x>\nint z;\n" ∧
      reproduces (render (blank 0 0 run.2.lines)) = false ∧
      reproduces (render (blank 6 6 run.2.lines)) = false := by
  intro reproduces run
  have hRun : run.1 = .ok "#include <x>\nint z;\n" ∧
      run.2.lines[0]? = some "#include <x>".toList ∧ run.2.lines[6]? = some "int z;".toList := by
    decide +kernel
  obtain ⟨hOk, hFirst, hLast⟩ := hRun
  have hMinimal := reduce_minimal reproduces (isMonotone_mentions _) _ _ initial hOk
  have hInclusion : IsInclusion "#include <x>".toList := ⟨" <x>".toList, by decide⟩
  have hDeclaration : IsDeclaration "int z;".toList := ⟨'i', by decide⟩
  exact ⟨hOk, hMinimal 0 _ hFirst (.inl hInclusion), hMinimal 6 _ hLast (.inr hDeclaration)⟩

end Reducer

end TruthLint.Reduction
