import TruthLint.Proofs.Reduction.Minimality

/-! The record of a reduction. The steps on record tell all that happened: which lines were emptied
when each question was asked, what the answer was, and which lines are left. -/

namespace TruthLint

namespace Text

/-- A line is broken off a text at the first line feed. -/
theorem breakLines_append {line : List Char} (h : '\n' ∉ line) (rest : List Char) :
    breakLines (line ++ '\n' :: rest) = (line :: (breakLines rest).1, (breakLines rest).2) := by
  induction line with
  | nil => simp [breakLines]
  | cons c line ih =>
      obtain ⟨hFirst, hLine⟩ := not_or.mp (mt List.mem_cons.mpr h)
      rw [List.cons_append, breakLines, ih hLine]
      simp [Ne.symm hFirst]

theorem dropCarriageReturn_eq_self {line : List Char} (h : '\r' ∉ line) :
    dropCarriageReturn line = line := by
  unfold dropCarriageReturn
  split
  · rename_i rest hReverse
    have hMem : '\r' ∈ line.reverse := hReverse ▸ List.mem_cons_self
    exact absurd (List.mem_reverse.mp hMem) h
  · rfl

end Text

namespace Reduction

/-- Lines without an end of line in them are the lines of the text that they make up. -/
theorem lines_render {lines : List Line} (h : Unbroken lines) :
    Text.lines (render lines).toList = lines := by
  have hBreak : Text.breakLines (render lines).toList = (lines, []) := by
    rw [render, String.toList_ofList]
    induction lines with
    | nil => rfl
    | cons line lines ih =>
        obtain ⟨hLine, hLines⟩ := List.forall_mem_cons.mp h
        rw [List.flatMap_cons, List.append_assoc, List.singleton_append,
          Text.breakLines_append hLine.1, ih hLines]
  have hMap : lines.map Text.dropCarriageReturn = lines.map id :=
    List.map_congr_left fun line hLine => Text.dropCarriageReturn_eq_self (h line hLine).2
  rw [Text.lines, hBreak]
  simp [hMap]

namespace Step

/-- The step names the line at index `i`, which is the line with number `i + 1`. -/
def Names (step : Step) (i : Nat) : Prop := step.first ≤ i + 1 ∧ i + 1 ≤ step.last

instance (step : Step) (i : Nat) : Decidable (step.Names i) := inferInstanceAs (Decidable (_ ∧ _))

/-- The lines without those that the step names. -/
def empty (step : Step) (lines : List Line) : List Line :=
  lines.mapIdx fun i line => if step.Names i then [] else line

/-- An attempt goes on record under the numbers of the lines that it is about. -/
theorem empty_recorded (kind : StepKind) (first last : Nat) (removed : Bool) (lines : List Line) :
    empty ⟨kind, first + 1, last + 1, removed⟩ lines = blank first last lines := by
  simp only [empty, blank, Names, Nat.add_le_add_iff_right]

/-- The step emptied the line at index `i`. -/
def Clears (step : Step) (i : Nat) : Prop := step.removed = true ∧ step.Names i

instance (step : Step) (i : Nat) : Decidable (step.Clears i) := inferInstanceAs (Decidable (_ ∧ _))

end Step

/-- The lines with those emptied that the steps have removed. -/
def cleared (steps : List Step) (lines : List Line) : List Line :=
  lines.mapIdx fun i line => if ∃ step ∈ steps, step.Clears i then [] else line

theorem getElem?_cleared (steps : List Step) (lines : List Line) (i : Nat) :
    (cleared steps lines)[i]? =
      lines[i]?.map fun line => if ∃ step ∈ steps, step.Clears i then [] else line :=
  List.getElem?_mapIdx

theorem cleared_nil (lines : List Line) : cleared [] lines = lines := by
  refine List.ext_getElem? fun i => ?_
  simp [getElem?_cleared]

/-- One more step empties the lines that it names, if it was removed. -/
theorem cleared_concat (steps : List Step) (step : Step) (lines : List Line) :
    cleared (steps ++ [step]) lines =
      if step.removed then step.empty (cleared steps lines) else cleared steps lines := by
  refine List.ext_getElem? fun i => ?_
  have hSteps : (∃ s ∈ steps ++ [step], s.Clears i) ↔
      (∃ s ∈ steps, s.Clears i) ∨ step.Clears i := by
    simp [or_and_right, exists_or]
  simp only [getElem?_cleared, hSteps]
  by_cases hRemoved : step.removed = true
  · have hClears : step.Clears i ↔ step.Names i := and_iff_right hRemoved
    rw [if_pos hRemoved, Step.empty, List.getElem?_mapIdx, getElem?_cleared, Option.map_map]
    congr 1
    funext line
    by_cases hNow : step.Names i <;> simp [hClears, hNow]
  · have hClears : ¬step.Clears i := fun h => hRemoved h.1
    simp only [hClears, or_false, if_neg hRemoved, getElem?_cleared]

/-- The text that a step asks about when some steps have been taken. -/
def question (lines : List Line) (taken : List Step) (step : Step) : String :=
  render (step.empty (cleared taken lines))

/-- Whatever a step asks about has the lines of the start, some of them emptied. -/
theorem emptied_lines_question {lines : List Line} (h : Unbroken lines) (taken : List Step)
    (step : Step) : Emptied (Text.lines (question lines taken step).toList) lines := by
  have hTaken : Emptied (cleared taken lines) lines :=
    emptied_mapIdx (fun i => ∃ step ∈ taken, step.Clears i) lines
  have hEmptied : Emptied (step.empty (cleared taken lines)) lines :=
    (emptied_mapIdx step.Names _).trans hTaken
  rw [question, lines_render (hEmptied.unbroken h)]
  exact hEmptied

namespace Reducer

variable {oracle : Oracle} {start finish : Reducer} {steps : List Step}

/-- The lines at the end of a run are those at its start without the ones that its steps have
removed. -/
theorem Run.lines_eq (run : Run oracle start steps finish) :
    finish.lines = cleared steps start.lines := by
  induction run with
  | nil => exact (cleared_nil start.lines).symm
  | snoc prior kind first last ordered inside ih =>
      rw [cleared_concat, ← ih, Step.empty_recorded]
      rfl

theorem Run.size_asked (run : Run oracle start steps finish) :
    finish.asked.size = start.asked.size + steps.length := by
  induction run with
  | nil => rfl
  | snoc prior kind first last ordered inside ih =>
      rw [tryBlank_asked, Array.size_push, ih, List.length_append]
      rfl

/-- A run asks once for each of its steps, and what it asks follows from the steps before. -/
theorem Run.getElem?_asked (run : Run oracle start steps finish) :
    (∀ i < start.asked.size, finish.asked[i]? = start.asked[i]?) ∧
      ∀ k step, steps[k]? = some step →
        let text := question start.lines (steps.take k) step
        finish.asked[start.asked.size + k]? = some text ∧
          step.removed = oracle (start.asked.size + k) text := by
  induction run with
  | nil => exact ⟨fun _ _ => rfl, fun k step hStep => by simp at hStep⟩
  | @snoc taken r prior kind first last ordered inside ih =>
      obtain ⟨hOlder, hTaken⟩ := ih
      have hSize := prior.size_asked
      have hBefore {i : Nat} (hi : i < r.asked.size) :
          (r.tryBlank oracle kind first last).2.asked[i]? = r.asked[i]? := by
        rw [tryBlank_asked, Array.getElem?_push, if_neg (Nat.ne_of_lt hi)]
      refine ⟨fun i hi => ?_, fun k step hStep => ?_⟩
      · rw [hBefore (by omega), hOlder i hi]
      · rcases Nat.lt_or_ge k taken.length with hOld | hNew
        · rw [List.getElem?_append_left hOld] at hStep
          rw [List.take_append_of_le_length (Nat.le_of_lt hOld), hBefore (by omega)]
          exact hTaken k step hStep
        · rw [List.getElem?_append_right hNew, List.getElem?_singleton] at hStep
          obtain ⟨hLast, hEq⟩ := Option.ite_none_right_eq_some.mp hStep
          obtain rfl := Option.some.inj hEq
          obtain rfl : k = taken.length := by omega
          dsimp only
          rw [List.take_left, question, ← prior.lines_eq, Step.empty_recorded, ← hSize,
            tryBlank_asked]
          exact ⟨Array.getElem?_push_size, rfl⟩

/-- What a reduction that succeeds has asked, and what it leaves. -/
structure Transcript (oracle : Oracle) (source : String) (start finish : Reducer) : Prop where
  size_asked : finish.asked.size = start.asked.size + 2 + finish.steps.size
  original : finish.asked[start.asked.size]? = some source
  canonical : finish.asked[start.asked.size + 1]? = some (render (normalize source))
  asks : ∀ (k : Nat) (step : Step), finish.steps[k]? = some step →
    let text := question (normalize source) (finish.steps.toList.take k) step
    finish.asked[start.asked.size + 2 + k]? = some text ∧
      step.removed = oracle (start.asked.size + 2 + k) text
  within : ∀ step ∈ finish.steps, step.Within (normalize source).length
  lines : finish.lines = cleared finish.steps.toList (normalize source)
  emptied : ∀ (i : Nat) (text : String), start.asked.size < i → finish.asked[i]? = some text →
    Emptied (Text.lines text.toList) (normalize source)

/-- The questions of a reduction that succeeds are two, and then those of its steps. Any later
question is that of a step, so that all have the same number of lines. -/
theorem transcript_of_ok {oracle : Oracle} {source text : String} {r : Reducer}
    (h : (r.reduce oracle source).1 = .ok text) :
    Transcript oracle source r (r.reduce oracle source).2 := by
  have run := run_of_ok h
  generalize (r.reduce oracle source).2 = finish at run ⊢
  have hStart : (r.cleaned source).asked.size = r.asked.size + 2 := by simp [cleaned]
  have hSize : finish.asked.size = r.asked.size + 2 + finish.steps.size := by
    rw [run.size_asked, hStart, Array.length_toList]
  obtain ⟨hOlder, hSteps⟩ := run.getElem?_asked
  rw [hStart] at hOlder hSteps
  have hOriginal : finish.asked[r.asked.size]? = some source := by
    rw [hOlder _ (by omega), cleaned, Array.getElem?_push, Array.size_push,
      if_neg (Nat.ne_of_lt (Nat.lt_succ_self _)), Array.getElem?_push_size]
  have hCanonical : finish.asked[r.asked.size + 1]? = some (render (normalize source)) := by
    rw [hOlder _ (by omega), cleaned, Array.getElem?_push, Array.size_push, if_pos rfl]
  refine ⟨hSize, hOriginal, hCanonical, fun k step hStep => ?_, fun step hStep => ?_, run.lines_eq,
    fun i text hi hText => ?_⟩
  · exact hSteps k step (by rw [Array.getElem?_toList, hStep])
  · exact run.within step (Array.mem_toList_iff.mpr hStep)
  · rcases Nat.lt_or_ge i (r.asked.size + 2) with hEarly | hLate
    · obtain rfl : i = r.asked.size + 1 := by omega
      obtain rfl := Option.some.inj (hCanonical.symm.trans hText)
      rw [lines_render (unbroken_normalize source)]
      exact .refl _
    · obtain ⟨k, rfl⟩ := Nat.exists_eq_add_of_le hLate
      have hInside : r.asked.size + 2 + k < finish.asked.size :=
        (Array.getElem?_eq_some_iff.mp hText).1
      have hStep : finish.steps.toList[k]? = some finish.steps[k] := by
        rw [Array.getElem?_toList, Array.getElem?_eq_getElem]
      obtain ⟨hAsked, -⟩ := hSteps k _ hStep
      obtain rfl := Option.some.inj (hAsked.symm.trans hText)
      exact emptied_lines_question (unbroken_normalize source) _ _

/-- Without the finding in the source there is one question. -/
theorem asked_of_notReproduced {oracle : Oracle} {source : String} {r : Reducer}
    (h : (r.reduce oracle source).1 = .error .notReproduced) :
    (r.reduce oracle source).2.asked = r.asked.push source ∧
      oracle r.asked.size source = false := by
  rw [reduce_eq] at h ⊢
  split_ifs at h ⊢ with hSource hCleaned
  · cases h
  · exact ⟨rfl, Bool.eq_false_iff.mpr hSource⟩

/-- If only the cleanup loses it, there are two. -/
theorem asked_of_cleanupFailed {oracle : Oracle} {source : String} {r : Reducer}
    (h : (r.reduce oracle source).1 = .error .cleanupFailed) :
    (r.reduce oracle source).2.asked = (r.asked.push source).push (render (normalize source)) ∧
      oracle (r.asked.size + 1) (render (normalize source)) = false := by
  rw [reduce_eq] at h ⊢
  split_ifs at h ⊢ with hSource hCleaned
  · exact ⟨rfl, Bool.eq_false_iff.mpr hCleaned⟩
  · cases h

/-- The record of a successful reduction is its transcript, and the text that is returned is what
the lines that are left make up, without the empty ones. A reduction that fails has asked about
the source alone, or about its canonical lines as well. -/
theorem reduce_transcript (oracle : Oracle) (source : String) (r : Reducer) :
    let finish := (r.reduce oracle source).2
    match (r.reduce oracle source).1 with
    | .ok text =>
      Transcript oracle source r finish ∧
        text = render (finish.lines.filter fun line => !line.isEmpty)
    | .error .notReproduced =>
      finish.asked = r.asked.push source ∧ oracle r.asked.size source = false
    | .error .cleanupFailed =>
      finish.asked = (r.asked.push source).push (render (normalize source)) ∧
        oracle (r.asked.size + 1) (render (normalize source)) = false := by
  intro finish
  split
  next text hOk =>
    obtain ⟨-, -, hText⟩ := reduce_of_ok hOk
    exact ⟨transcript_of_ok hOk, hText⟩
  next hError => exact asked_of_notReproduced hError
  next hError => exact asked_of_cleanupFailed hError

/-- A declaration and the block after it go on record under the numbers of their lines. -/
example :
    (initial.reduce (fun _ _ => true) "int g;\nvoid f()\n\x7b\n    g = 1;\n\x7d\n").2.steps =
      #[⟨.declaration, 1, 1, true⟩, ⟨.block, 2, 5, true⟩] := by
  decide +kernel

end Reducer

end Reduction

end TruthLint
