import Mathlib.Order.Basic
import Mathlib.Tactic.SplitIfs
import TruthLint.Proofs.Reduction.Block
import TruthLint.Reduction.Reducer

/-! Runs of a reduction. A run is a sequence of attempts, each of which asks the oracle once and
empties lines only after the answer that they are not needed. Both passes over the lines are runs,
whatever the oracle answers, so that what one attempt keeps holds from the cleanup to the end. -/

namespace TruthLint.Reduction

theorem length_blank (first last : Nat) (lines : List Line) :
    (blank first last lines).length = lines.length := List.length_mapIdx

/-- The step names lines that exist among a number of lines, which are numbered from one. -/
def Step.Within (step : Step) (count : Nat) : Prop :=
  0 < step.first ∧ step.first ≤ step.last ∧ step.last ≤ count

namespace Reducer

@[simp] theorem tryBlank_lines (oracle : Oracle) (kind : StepKind) (first last : Nat)
    (r : Reducer) :
    (r.tryBlank oracle kind first last).2.lines =
      if oracle r.asked.size (render (blank first last r.lines)) then blank first last r.lines
      else r.lines := rfl

@[simp] theorem tryBlank_steps (oracle : Oracle) (kind : StepKind) (first last : Nat)
    (r : Reducer) :
    (r.tryBlank oracle kind first last).2.steps =
      r.steps.push ⟨kind, first + 1, last + 1, (r.tryBlank oracle kind first last).1⟩ := rfl

@[simp] theorem tryBlank_asked (oracle : Oracle) (kind : StepKind) (first last : Nat)
    (r : Reducer) :
    (r.tryBlank oracle kind first last).2.asked =
      r.asked.push (render (blank first last r.lines)) := rfl

/-- The attempts that lead from one reducer to another. Each is on lines that exist. -/
inductive Run (oracle : Oracle) (start : Reducer) : List Step → Reducer → Prop where
  | nil : Run oracle start [] start
  | snoc {steps : List Step} {r : Reducer} (prior : Run oracle start steps r)
      (kind : StepKind) (first last : Nat) (ordered : first ≤ last)
      (inside : last < r.lines.length) :
      Run oracle start
        (steps ++ [⟨kind, first + 1, last + 1, (r.tryBlank oracle kind first last).1⟩])
        (r.tryBlank oracle kind first last).2

/-- The reducer after one more attempt, on the lines that a step names by their numbers. -/
def attempt (oracle : Oracle) (r : Reducer) (step : Step) : Reducer :=
  (r.tryBlank oracle step.kind (step.first - 1) (step.last - 1)).2

/-- The reducers of a run, from its start to its end, one after each attempt. -/
def states (oracle : Oracle) (start : Reducer) (steps : List Step) : List Reducer :=
  steps.scanl (attempt oracle) start

/-- The oracle was asked about the current lines and answered that the finding is there. -/
def Accepted (oracle : Oracle) (r : Reducer) : Prop :=
  ∃ call, r.asked[call]? = some (render r.lines) ∧ oracle call (render r.lines) = true

namespace Run

variable {oracle : Oracle} {start middle finish : Reducer} {steps first second : List Step}

theorem trans (prior : Run oracle start first middle) (later : Run oracle middle second finish) :
    Run oracle start (first ++ second) finish := by
  induction later with
  | nil => simpa using prior
  | snoc _ kind first last ordered inside ih =>
      rw [← List.append_assoc]
      exact .snoc ih kind first last ordered inside

/-- Lines are emptied and not deleted, so that a finding keeps its line number. -/
theorem length_lines (run : Run oracle start steps finish) :
    finish.lines.length = start.lines.length := by
  induction run with
  | nil => rfl
  | snoc _ _ _ _ _ _ ih =>
      rw [tryBlank_lines, ← ih]
      split_ifs <;> simp [length_blank]

/-- A run appends its steps to those on record. -/
theorem steps_eq (run : Run oracle start steps finish) :
    finish.steps.toList = start.steps.toList ++ steps := by
  induction run with
  | nil => simp
  | snoc _ _ _ _ _ _ ih => simp [ih]

/-- A run is nothing but its attempts: trying its steps again leads to the same reducer. -/
theorem foldl_attempt (run : Run oracle start steps finish) :
    steps.foldl (attempt oracle) start = finish := by
  induction run with
  | nil => rfl
  | snoc _ _ _ _ _ _ ih => simp [ih, attempt]

/-- The steps of a run name lines that exist, at its start as at its end. -/
theorem within (run : Run oracle start steps finish) :
    ∀ step ∈ steps, step.Within start.lines.length := by
  induction run with
  | nil => simp
  | snoc prior kind first last ordered inside ih =>
      intro step hStep
      rcases List.mem_append.mp hStep with hEarlier | hNow
      · exact ih step hEarlier
      · obtain rfl := List.mem_singleton.mp hNow
        have hInside : last < start.lines.length := prior.length_lines ▸ inside
        exact ⟨Nat.succ_pos first, Nat.succ_le_succ ordered, hInside⟩

/-- The last of the reducers of a run is the one at its end. -/
theorem getLast?_states (run : Run oracle start steps finish) :
    (states oracle start steps).getLast? = some finish := by
  rw [states, List.getLast?_scanl, run.foldl_attempt]

end Run

/-- An attempt changes the lines only to those that the oracle has just accepted. Otherwise they
stay, and the question that led to them is still on record. -/
theorem Accepted.tryBlank {oracle : Oracle} {r : Reducer} (h : r.Accepted oracle)
    (kind : StepKind) (first last : Nat) :
    (r.tryBlank oracle kind first last).2.Accepted oracle := by
  obtain ⟨call, hAsked, hAnswer⟩ := h
  unfold Accepted
  rw [tryBlank_lines, tryBlank_asked]
  split_ifs with hRemoved
  · exact ⟨r.asked.size, by simp, hRemoved⟩
  · have hCall : call < r.asked.size := (Array.getElem?_eq_some_iff.mp hAsked).1
    exact ⟨call, by simpa [Array.getElem?_push, Nat.ne_of_lt hCall] using hAsked, hAnswer⟩

/-- Acceptance at the start is carried to every reducer of a sequence of attempts. -/
theorem Accepted.states {oracle : Oracle} {start : Reducer} (h : start.Accepted oracle)
    (steps : List Step) : ∀ r ∈ states oracle start steps, r.Accepted oracle := by
  induction steps generalizing start with
  | nil =>
      intro r hr
      have hEq : r = start := by simpa [Reducer.states] using hr
      exact hEq ▸ h
  | cons step steps ih =>
      intro r hr
      rw [Reducer.states, List.scanl_cons] at hr
      rcases List.mem_cons.mp hr with hEq | hLater
      · exact hEq ▸ h
      · exact ih (h.tryBlank step.kind (step.first - 1) (step.last - 1)) r hLater

/-- At a line the first pass makes one attempt or none. -/
theorem removeInclude_run (oracle : Oracle) (r : Reducer) (i : Nat) :
    ∃ steps, Run oracle r steps (r.removeInclude oracle i) := by
  unfold removeInclude
  split_ifs with hInclude
  · have hInside : i < r.lines.length := by
      by_contra hOut
      simp [List.getElem?_eq_none (Nat.le_of_not_lt hOut)] at hInclude
    exact ⟨_, .snoc .nil .inclusion i i (Nat.le_refl i) hInside⟩
  · exact ⟨[], .nil⟩

/-- The loop over blocks is a run, however many of them are removed. -/
theorem removeBlocks_run (oracle : Oracle) (bound anchor : Nat) (r : Reducer) :
    ∃ steps, Run oracle r steps (r.removeBlocks oracle bound anchor) := by
  induction bound generalizing anchor r with
  | zero => exact ⟨[], .nil⟩
  | succ bound ih =>
      rw [removeBlocks]
      cases hBlock : findBlock? r.lines (anchor + 1) with
      | none => exact ⟨[], .nil⟩
      | some block =>
          obtain ⟨first, last⟩ := block
          obtain ⟨-, hOrder, hInside⟩ := bounds_of_findBlock? hBlock
          have attempted : Run oracle r _ _ := .snoc .nil .block first last (by omega) hInside
          dsimp only
          split_ifs with hRemoved
          · obtain ⟨later, run⟩ := ih last (r.tryBlank oracle .block first last).2
            exact ⟨_, attempted.trans run⟩
          · exact ⟨_, attempted⟩

/-- The two passes over all lines. -/
def passes (oracle : Oracle) (r : Reducer) : Reducer :=
  let order := List.range r.lines.length
  order.foldl (removeAt oracle) (order.foldl (removeInclude oracle) r)

/-- The reducer once the oracle has seen the source and its canonical form. -/
def cleaned (r : Reducer) (source : String) : Reducer where
  lines := normalize source
  steps := #[]
  asked := (r.asked.push source).push (render (normalize source))

/-- The second pass is a run at each line. The blocks are looked for in the lines that the attempt
on the line itself leaves. -/
theorem removeAt_run (oracle : Oracle) (r : Reducer) (i : Nat) :
    ∃ steps, Run oracle r steps (r.removeAt oracle i) := by
  unfold removeAt
  split
  case h_2 => exact ⟨[], .nil⟩
  case h_1 first last hFirst hLast =>
    have hInside : i < r.lines.length := by
      by_contra hOut
      simp [List.getElem?_eq_none (Nat.le_of_not_lt hOut)] at hFirst
    have declaration : ∃ steps, Run oracle r steps
        (if first.isAlpha && last == ';' then (r.tryBlank oracle .declaration i i).2 else r) := by
      split_ifs with hDeclaration
      · exact ⟨_, .snoc .nil .declaration i i (Nat.le_refl i) hInside⟩
      · exact ⟨[], .nil⟩
    obtain ⟨steps, run⟩ := declaration
    dsimp only
    generalize (if first.isAlpha && last == ';' then (r.tryBlank oracle .declaration i i).2
      else r) = tried at run ⊢
    split_ifs with hTop
    · obtain ⟨later, blocks⟩ := removeBlocks_run oracle tried.lines.length i tried
      exact ⟨_, run.trans blocks⟩
    · exact ⟨steps, run⟩

/-- A pass that is a run at each line is a run. -/
theorem foldl_run {oracle : Oracle} {pass : Reducer → Nat → Reducer}
    (hPass : ∀ r i, ∃ steps, Run oracle r steps (pass r i)) (order : List Nat) (r : Reducer) :
    ∃ steps, Run oracle r steps (order.foldl pass r) := by
  induction order generalizing r with
  | nil => exact ⟨[], .nil⟩
  | cons i order ih =>
      obtain ⟨first, run⟩ := hPass r i
      obtain ⟨later, rest⟩ := ih (pass r i)
      exact ⟨_, run.trans rest⟩

/-- So both passes together are a run. -/
theorem passes_run (oracle : Oracle) (r : Reducer) :
    ∃ steps, Run oracle r steps (r.passes oracle) := by
  obtain ⟨first, inclusions⟩ :=
    foldl_run (removeInclude_run oracle) (List.range r.lines.length) r
  obtain ⟨later, others⟩ := foldl_run (removeAt_run oracle) (List.range r.lines.length)
    ((List.range r.lines.length).foldl (removeInclude oracle) r)
  exact ⟨_, inclusions.trans others⟩

/-- A reduction asks about the source and about its canonical lines before the passes start. -/
theorem reduce_eq (oracle : Oracle) (source : String) (r : Reducer) :
    r.reduce oracle source =
      if oracle r.asked.size source then
        if oracle (r.asked.size + 1) (render (normalize source)) then
          (.ok ((r.cleaned source).passes oracle).output, (r.cleaned source).passes oracle)
        else (.error .cleanupFailed, r.cleaned source)
      else (.error .notReproduced, { r with asked := r.asked.push source }) := by
  simp only [reduce, ask, Array.size_push]
  cases oracle r.asked.size source with
  | false => rfl
  | true =>
      cases oracle (r.asked.size + 1) (render (normalize source)) with
      | false => rfl
      | true => rfl

/-- A reduction that succeeds has seen its canonical lines accepted before the passes, which then
ran to their end. -/
theorem reduce_of_ok {oracle : Oracle} {source text : String} {r : Reducer}
    (h : (r.reduce oracle source).1 = .ok text) :
    (r.cleaned source).Accepted oracle ∧
      (r.reduce oracle source).2 = (r.cleaned source).passes oracle ∧
      text = (r.reduce oracle source).2.output := by
  rw [reduce_eq] at h ⊢
  split_ifs at h ⊢ with hSource hCleaned
  have hText : ((r.cleaned source).passes oracle).output = text := Except.ok.inj h
  exact ⟨⟨r.asked.size + 1, by simp [cleaned, Array.getElem_push], hCleaned⟩, rfl, hText.symm⟩

/-- A successful reduction is a run from the canonical lines of the source, made of the attempts
that it records. -/
theorem run_of_ok {oracle : Oracle} {source text : String} {r : Reducer}
    (h : (r.reduce oracle source).1 = .ok text) :
    Run oracle (r.cleaned source) (r.reduce oracle source).2.steps.toList
      (r.reduce oracle source).2 := by
  obtain ⟨-, hPasses, -⟩ := reduce_of_ok h
  obtain ⟨steps, run⟩ := passes_run oracle (r.cleaned source)
  have hSteps : ((r.cleaned source).passes oracle).steps.toList = steps := by
    simpa [cleaned] using run.steps_eq
  rw [hPasses, hSteps]
  exact run

/-- Whatever the oracle answers, the lines after each attempt of a successful reduction are lines
that it was asked about and accepted. If its answers depend on the text alone, then the finding is
in the lines after each attempt and at the end, and if empty lines do not matter to it, also in
the text that is returned. -/
theorem reduce_reproduces (oracle : Oracle) (source text : String) (r : Reducer)
    (h : (r.reduce oracle source).1 = .ok text) :
    let finish := (r.reduce oracle source).2
    let run := states oracle (r.cleaned source) finish.steps.toList
    run.getLast? = some finish ∧
    (∀ s ∈ run, s.Accepted oracle) ∧
    ∀ reproduces : String → Bool, oracle = (fun _ => reproduces) →
      (∀ s ∈ run, reproduces (render s.lines) = true) ∧
      reproduces (render finish.lines) = true ∧
      ((∀ lines : List Line,
          reproduces (render (lines.filter fun line => !line.isEmpty)) =
            reproduces (render lines)) →
        reproduces text = true) := by
  intro finish run
  obtain ⟨hStart, -, hText⟩ := reduce_of_ok h
  have hLast : run.getLast? = some finish := (run_of_ok h).getLast?_states
  have hAccepted : ∀ s ∈ run, s.Accepted oracle := hStart.states finish.steps.toList
  refine ⟨hLast, hAccepted, ?_⟩
  rintro reproduces rfl
  have hAll : ∀ s ∈ run, reproduces (render s.lines) = true := by
    intro s hs
    obtain ⟨call, -, hAnswer⟩ := hAccepted s hs
    exact hAnswer
  have hFinish : reproduces (render finish.lines) = true :=
    hAll finish (List.mem_of_getLast? hLast)
  refine ⟨hAll, hFinish, fun hEmpty => ?_⟩
  rw [hText]
  exact (hEmpty finish.lines).trans hFinish

/-- Leaving out empty lines keeps all characters of a text but line feeds. -/
theorem mem_render_filter {c : Char} (hc : c ≠ '\n') (lines : List Line) :
    c ∈ (render (lines.filter fun line => !line.isEmpty)).toList ↔ c ∈ (render lines).toList := by
  simp only [render, String.toList_ofList, List.mem_flatMap, List.mem_filter, List.mem_append,
    List.mem_singleton, hc, or_false]
  constructor
  · rintro ⟨line, ⟨hLine, -⟩, hMem⟩
    exact ⟨line, hLine, hMem⟩
  · rintro ⟨line, hLine, hMem⟩
    exact ⟨line, ⟨hLine, by simp [List.ne_nil_of_mem hMem]⟩, hMem⟩

/-- Here the inclusion and the first declaration go, and the second one stays. -/
theorem reduce_reproduces_declaration :
    (initial.reduce (fun _ text => text.toList.contains 'x')
      "#include <a>\nint y;\nint x;\n").1 = .ok "int x;\n" ∧
    "int x;\n".toList.contains 'x' = true := by
  have hOk : (initial.reduce (fun _ text => text.toList.contains 'x')
      "#include <a>\nint y;\nint x;\n").1 = .ok "int x;\n" := by decide +kernel
  obtain ⟨-, -, hPure⟩ := reduce_reproduces _ _ _ _ hOk
  obtain ⟨-, -, hText⟩ := hPure (fun text => text.toList.contains 'x') rfl
  refine ⟨hOk, hText fun lines => ?_⟩
  rw [Bool.eq_iff_iff, List.contains_iff_mem, List.contains_iff_mem]
  exact mem_render_filter (by decide) lines

end Reducer

end TruthLint.Reduction
