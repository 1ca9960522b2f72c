import TruthLint.Proofs.Reduction.Run

/-! A reducer that is used more than once. Earlier runs leave lines, steps and questions behind,
and no later run looks at them. Only an oracle that counts its questions can tell that there were
earlier ones. -/

namespace TruthLint.Reduction

/-- The oracle as it is once it has been asked a number of times. -/
def Oracle.after (oracle : Oracle) (calls : Nat) : Oracle := fun call => oracle (calls + call)

namespace Reducer

/-- The reducer with older questions on record before its own. -/
def remembering (past : Array String) (r : Reducer) : Reducer := { r with asked := past ++ r.asked }

variable (oracle : Oracle) (past : Array String)

@[simp] theorem lines_remembering (r : Reducer) : (r.remembering past).lines = r.lines := rfl

@[simp] theorem output_remembering (r : Reducer) : (r.remembering past).output = r.output := rfl

/-- An attempt sees of older questions only what the oracle makes of their number. -/
theorem tryBlank_remembering (kind : StepKind) (first last : Nat) (r : Reducer) :
    (r.remembering past).tryBlank oracle kind first last =
      ((r.tryBlank (oracle.after past.size) kind first last).1,
        (r.tryBlank (oracle.after past.size) kind first last).2.remembering past) := by
  simp only [tryBlank, ask, remembering, Oracle.after, Array.size_append, Array.append_push]
  rfl

/-- An attempt at an inclusion does not look at older questions. -/
theorem removeInclude_remembering (r : Reducer) (i : Nat) :
    (r.remembering past).removeInclude oracle i =
      (r.removeInclude (oracle.after past.size) i).remembering past := by
  simp only [removeInclude, lines_remembering, tryBlank_remembering]
  split <;> rfl

theorem removeBlocks_remembering (bound anchor : Nat) (r : Reducer) :
    (r.remembering past).removeBlocks oracle bound anchor =
      (r.removeBlocks (oracle.after past.size) bound anchor).remembering past := by
  induction bound generalizing anchor r with
  | zero => rfl
  | succ bound ih =>
      simp only [removeBlocks, lines_remembering]
      cases findBlock? r.lines (anchor + 1) with
      | none => rfl
      | some block =>
          simp only [tryBlank_remembering, ih]
          split <;> rfl

/-- At a line, the attempt at a declaration and the loop over blocks come one after the other. -/
theorem removeAt_remembering (r : Reducer) (i : Nat) :
    (r.remembering past).removeAt oracle i =
      (r.removeAt (oracle.after past.size) i).remembering past := by
  simp only [removeAt, lines_remembering]
  cases r.lines[i]?.bind List.head? with
  | none => rfl
  | some first =>
      cases r.lines[i]?.bind List.getLast? with
      | none => rfl
      | some last =>
          have hTried : (if first.isAlpha && last == ';' then
                ((r.remembering past).tryBlank oracle .declaration i i).2
              else r.remembering past) =
              (if first.isAlpha && last == ';' then
                (r.tryBlank (oracle.after past.size) .declaration i i).2 else r).remembering
                past := by
            rw [tryBlank_remembering]
            split <;> rfl
          dsimp only
          rw [hTried, lines_remembering, removeBlocks_remembering]
          split <;> rfl

/-- So both passes do the same whatever was asked before, with an oracle that has been asked as
often. -/
theorem passes_remembering (r : Reducer) :
    (r.remembering past).passes oracle =
      (r.passes (oracle.after past.size)).remembering past := by
  rw [passes, passes, lines_remembering, List.foldl_hom (remembering past),
    List.foldl_hom (remembering past)]
  · exact removeAt_remembering oracle past
  · exact removeInclude_remembering oracle past

/-- The cleanup forgets the lines and steps of earlier runs, and keeps their questions. -/
theorem cleaned_eq_remembering (r : Reducer) (source : String) :
    r.cleaned source = (initial.cleaned source).remembering r.asked := by
  simp only [cleaned, initial, remembering, Array.append_push, Array.append_empty]

/-- A run is the run of a fresh reducer with older questions before its own. Only if the oracle does
not find anything in the source, the lines and steps on record stay. -/
theorem reduce_eq_fresh (source : String) (r : Reducer) :
    r.reduce oracle source =
      let fresh := initial.reduce (oracle.after r.asked.size) source
      (fresh.1,
        if fresh.1 = .error .notReproduced then { r with asked := r.asked ++ fresh.2.asked }
        else fresh.2.remembering r.asked) := by
  have hSource : oracle.after r.asked.size initial.asked.size source =
      oracle r.asked.size source := rfl
  have hCleaned : oracle.after r.asked.size (initial.asked.size + 1) (render (normalize source)) =
      oracle (r.asked.size + 1) (render (normalize source)) := rfl
  rw [reduce_eq, reduce_eq, hSource, hCleaned, cleaned_eq_remembering, passes_remembering]
  cases oracle r.asked.size source with
  | false => simp [initial]
  | true =>
      cases oracle (r.asked.size + 1) (render (normalize source)) with
      | false => simp
      | true => simp

/-- The results of runs of one reducer, one after the other. -/
def results (oracle : Oracle) : List String → Reducer → List (Except Failure String)
  | [], _ => []
  | source :: sources, r =>
    (r.reduce oracle source).1 :: results oracle sources (r.reduce oracle source).2

/-- With an oracle that goes by the text alone, each of a number of runs has the result that it has
on a fresh reducer. -/
theorem results_eq_map (reproduces : String → Bool) (sources : List String) (r : Reducer) :
    results (fun _ => reproduces) sources r =
      sources.map fun source => (initial.reduce (fun _ => reproduces) source).1 := by
  induction sources generalizing r with
  | nil => rfl
  | cons source sources ih =>
      rw [results, ih, reduce_eq_fresh, List.map_cons]
      rfl

/-- Whatever earlier runs have left in a reducer, the next run has the result and asks the questions
of a fresh one, whose oracle has been asked as often as this one. It leaves the lines and steps of
the fresh reducer or, if the finding does not appear in the source, those that were there. An oracle
that goes by the text alone is the same however often it was asked, so that runs of one reducer
have the results of runs on fresh ones. -/
theorem reduce_independent (oracle : Oracle) (source : String) (r : Reducer) :
    let fresh := initial.reduce (oracle.after r.asked.size) source
    let again := r.reduce oracle source
    again.1 = fresh.1 ∧ again.2.asked = r.asked ++ fresh.2.asked ∧
    (match again.1 with
      | .error .notReproduced => again.2.lines = r.lines ∧ again.2.steps = r.steps
      | _ => again.2.lines = fresh.2.lines ∧ again.2.steps = fresh.2.steps) ∧
    ∀ reproduces : String → Bool, oracle = (fun _ => reproduces) →
      oracle.after r.asked.size = oracle ∧
      ∀ sources, results oracle sources r =
        sources.map fun source => (initial.reduce oracle source).1 := by
  intro fresh again
  have hAgain : again = (fresh.1,
      if fresh.1 = .error .notReproduced then { r with asked := r.asked ++ fresh.2.asked }
      else fresh.2.remembering r.asked) := reduce_eq_fresh oracle source r
  refine ⟨?_, ?_, ?_, ?_⟩
  · rw [hAgain]
  · rw [hAgain]
    dsimp only
    split <;> rfl
  · rw [hAgain]
    dsimp only
    split
    · rename_i hFailed
      rw [if_pos hFailed]
      exact ⟨rfl, rfl⟩
    · rename_i hFailed
      rw [if_neg hFailed]
      exact ⟨rfl, rfl⟩
  · rintro reproduces rfl
    exact ⟨rfl, fun sources => results_eq_map reproduces sources r⟩

end Reducer

end TruthLint.Reduction
