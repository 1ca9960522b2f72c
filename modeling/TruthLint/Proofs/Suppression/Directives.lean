import Mathlib.Data.List.Perm.Basic
import Mathlib.Tactic.SplitIfs
import Mathlib.Tactic.Tauto
import TruthLint.Suppression

/-! What a set of directives disables. An empty list stands for all rules, and merging never makes
one of a list that names rules, nor the other way round. A set therefore disables on a line what
the directives that were added for that line disable one by one, whatever their order was. The
comments of a source add one directive each. -/

namespace TruthLint

namespace Directive

/-- A directive without a list of rules is about all of them. -/
theorem disables_iff {d : Directive} {rule : String} :
    d.disables rule = true ↔ d.rules = [] ∨ rule ∈ d.rules := by
  simp [disables, disablesAll]

/-- The merged list is empty only if one of the two lists was, and all rules are disabled then. -/
theorem disables_merge (d e : Directive) (rule : String) :
    (d.merge e).disables rule = true ↔ d.disables rule = true ∨ e.disables rule = true := by
  simp only [disables_iff, merge, disablesAll, List.isEmpty_iff, Bool.or_eq_true]
  split_ifs with hAll
  · tauto
  · rw [List.append_eq_nil_iff, List.mem_append]
    tauto

/-- No comment begins with both marks. -/
theorem nextLineMark_append_ne (rest other : List Char) :
    nextLineMark ++ rest ≠ lineMark ++ other := by
  intro h
  have hLead := congrArg (List.take 19) h
  rw [List.take_append_of_le_length (by decide), List.take_append_of_le_length (by decide)] at hLead
  exact absurd hLead (by decide)

/-- The mark that a comment begins with says whether it is a directive for the next line or for its
own, and the other mark is no part of it. -/
theorem ofLine?_eq_some_iff {number : Nat} {line : List Char} {d : Directive} :
    ofLine? number line = some d ↔ ∃ rest,
      comment? line = some (nextLineMark ++ rest) ∧ d = ⟨number + 1, ruleRefs rest⟩ ∨
      comment? line = some (lineMark ++ rest) ∧ d = ⟨number, ruleRefs rest⟩ := by
  cases hComment : comment? line with
  | none => simp [ofLine?, hComment]
  | some comment =>
      simp only [ofLine?, hComment, Option.bind_eq_bind, Option.bind_some, Option.some.injEq]
      cases hNext : Text.afterLead? nextLineMark comment with
      | some rest =>
          rw [Text.afterLead?_eq_some_iff] at hNext
          simp only [hNext, nextLineMark_append_ne, false_and, or_false,
            List.append_cancel_left_eq]
          constructor
          · rintro ⟨rfl⟩
            exact ⟨rest, rfl, rfl⟩
          · rintro ⟨_, rfl, rfl⟩
            rfl
      | none =>
          have hOther (rest : List Char) : comment ≠ nextLineMark ++ rest := fun h => by
            simp [Text.afterLead?_eq_some_iff.mpr h] at hNext
          simp only [hOther, false_and, false_or, Option.map_eq_some_iff,
            Text.afterLead?_eq_some_iff]
          simp only [eq_comm]

end Directive

namespace Directives

variable {line : Nat} {rule : String}

theorem disabled_cons (d : Directive) (ds : Directives) :
    disabled (d :: ds) line rule = true ↔
      d.line = line ∧ d.disables rule = true ∨ ds.disabled line rule = true := by
  simp [disabled]

/-- A directive that is added disables what it says, and changes nothing else. -/
theorem disabled_add (ds : Directives) (d : Directive) :
    (ds.add d).disabled line rule = true ↔
      ds.disabled line rule = true ∨ d.line = line ∧ d.disables rule = true := by
  induction ds with
  | nil => simp [add, disabled]
  | cons e es ih =>
      rw [add]
      split_ifs with hBefore hSame
      · rw [disabled_cons d, or_comm]
      · rw [disabled_cons, disabled_cons, Directive.disables_merge, hSame]
        have hLine : (e.merge d).line = e.line := rfl
        rw [hLine]
        tauto
      · rw [disabled_cons, disabled_cons, ih]
        tauto

theorem disabled_addAll (ds : Directives) (added : List Directive) :
    (ds.addAll added).disabled line rule = true ↔
      ds.disabled line rule = true ∨ ∃ d ∈ added, d.line = line ∧ d.disables rule = true := by
  induction added generalizing ds with
  | nil => simp [addAll]
  | cons d added ih =>
      have hStep : ds.addAll (d :: added) = (ds.add d).addAll added := rfl
      rw [hStep, ih, disabled_add, List.exists_mem_cons_iff, or_assoc]

/-- The comment that is found on a line, counted from one on, begins with a mark, and `rules` are
those that it lists after it. -/
def Marked (mark : List Char) (text : String) (number : Nat) (rules : List String) : Prop :=
  ∃ index line rest, number = index + 1 ∧ (Text.lines text.toList)[index]? = some line ∧
    Directive.comment? line = some (mark ++ rest) ∧ rules = Directive.ruleRefs rest

/-- A source adds a directive for each marked comment, and no other. -/
theorem mem_ofLines_iff {text : String} {d : Directive} :
    d ∈ (Text.lines text.toList).zipIdx.filterMap
        (fun (line, index) => Directive.ofLine? (index + 1) line) ↔
      Marked Directive.lineMark text d.line d.rules ∨
        ∃ previous, d.line = previous + 1 ∧
          Marked Directive.nextLineMark text previous d.rules := by
  simp only [List.mem_filterMap, Prod.exists, List.mem_zipIdx_iff_getElem?,
    Directive.ofLine?_eq_some_iff]
  constructor
  · rintro ⟨line, index, hLine, rest, ⟨hMark, rfl⟩ | ⟨hMark, rfl⟩⟩
    · exact .inr ⟨index + 1, rfl, index, line, rest, rfl, hLine, hMark, rfl⟩
    · exact .inl ⟨index, line, rest, rfl, hLine, hMark, rfl⟩
  · obtain ⟨number, rules⟩ := d
    rintro (⟨index, line, rest, rfl, hLine, hMark, rfl⟩ |
      ⟨_, rfl, index, line, rest, rfl, hLine, hMark, rfl⟩)
    · exact ⟨line, index, hLine, rest, .inr ⟨hMark, rfl⟩⟩
    · exact ⟨line, index, hLine, rest, .inl ⟨hMark, rfl⟩⟩

/-- Directives that are added one after the other disable what each of them does, in any order. In
a source, the rules that are disabled on a line are those that a comment on the line or one on the
line before lists for it, or all rules if the list is empty. -/
theorem disabled_iff_added :
    (∀ (added : List Directive) (line : Nat) (rule : String),
      (addAll [] added).disabled line rule = true ↔
        ∃ d ∈ added, d.line = line ∧ (d.rules = [] ∨ rule ∈ d.rules)) ∧
    (∀ added reordered : List Directive, reordered.Perm added → ∀ line rule,
      (addAll [] reordered).disabled line rule = (addAll [] added).disabled line rule) ∧
    (∀ (text : String) (line : Nat) (rule : String),
      (ofText text).disabled line rule = true ↔ ∃ rules, (rules = [] ∨ rule ∈ rules) ∧
        (Marked Directive.lineMark text line rules ∨
          ∃ previous, line = previous + 1 ∧
            Marked Directive.nextLineMark text previous rules)) := by
  have hAdded (added : List Directive) (line : Nat) (rule : String) :
      (addAll [] added).disabled line rule = true ↔
        ∃ d ∈ added, d.line = line ∧ (d.rules = [] ∨ rule ∈ d.rules) := by
    rw [disabled_addAll]
    simp [disabled, Directive.disables_iff]
  refine ⟨hAdded, fun added reordered hPerm line rule => ?_, fun text line rule => ?_⟩
  · rw [Bool.eq_iff_iff, hAdded, hAdded]
    simp only [hPerm.mem_iff]
  · rw [ofText, hAdded]
    simp only [mem_ofLines_iff]
    constructor
    · rintro ⟨d, hMarked, rfl, hDisables⟩
      exact ⟨d.rules, hDisables, hMarked⟩
    · rintro ⟨rules, hDisables, hMarked⟩
      exact ⟨⟨line, rules⟩, hMarked, rfl, hDisables⟩

/-- Both comments count for the second line. -/
example :
    let ds := ofText "// boolcheck-disable-next-line B004\nx++; /* boolcheck-disable-line B005 */"
    ds.disabled 2 "B004" = true ∧ ds.disabled 2 "B005" = true ∧ ds.disabled 2 "B001" = false := by
  decide +kernel

end Directives

end TruthLint
