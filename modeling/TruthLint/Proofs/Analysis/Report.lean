import Mathlib.Data.List.Flatten
import TruthLint.Analysis

/-! What an analysis reports of the findings of its rules. Suppression depends on the key of a
finding alone, sorting keeps the order of discovery within a line, and of the findings with one
key the first one stays. The three together leave out nothing else. -/

namespace TruthLint

namespace Diagnostic

/-- Findings in the order in which an analysis reports them, repetitions included. -/
def byLine (ds : List Diagnostic) : List Diagnostic := ds.mergeSort fun d e => d.line ≤ e.line

/-- What an analysis reports of the findings that are not suppressed. -/
def report (ds : List Diagnostic) : List Diagnostic := distinct [] (byLine ds)

theorem distinct_sublist (seen : List (String × Nat × String)) (ds : List Diagnostic) :
    (distinct seen ds).Sublist ds := by
  induction ds generalizing seen with
  | nil => exact .slnil
  | cons d ds ih =>
      rw [distinct]
      split
      · exact (ih seen).cons d
      · exact (ih (d.key :: seen)).cons_cons d

/-- What was seen before is not reported again. -/
theorem key_notMem_of_mem_distinct {seen : List (String × Nat × String)} {ds : List Diagnostic}
    {d : Diagnostic} (h : d ∈ distinct seen ds) : d.key ∉ seen := by
  induction ds generalizing seen with
  | nil => simp [distinct] at h
  | cons e ds ih =>
      rw [distinct] at h
      split at h
      · exact ih h
      · rename_i hNew
        rcases List.mem_cons.mp h with hEq | hLater
        · simpa [hEq] using hNew
        · exact fun hSeen => ih hLater (List.mem_cons_of_mem _ hSeen)

/-- No two findings with one key are left. -/
theorem nodup_key_distinct (seen : List (String × Nat × String)) (ds : List Diagnostic) :
    ((distinct seen ds).map key).Nodup := by
  induction ds generalizing seen with
  | nil => exact List.nodup_nil
  | cons d ds ih =>
      rw [distinct]
      split
      · exact ih seen
      · rw [List.map_cons, List.nodup_cons]
        refine ⟨fun hAgain => ?_, ih (d.key :: seen)⟩
        obtain ⟨e, he, hKey⟩ := List.mem_map.mp hAgain
        exact key_notMem_of_mem_distinct he (hKey ▸ List.mem_cons_self)

/-- Leaving out repetitions keeps the first finding of each new key. -/
theorem find?_distinct {seen : List (String × Nat × String)} {k : String × Nat × String}
    (hNew : k ∉ seen) (ds : List Diagnostic) :
    (distinct seen ds).find? (·.key == k) = ds.find? (·.key == k) := by
  induction ds generalizing seen with
  | nil => rfl
  | cons d ds ih =>
      rw [distinct]
      by_cases hKey : d.key = k
      · rw [if_neg (by simpa [hKey] using hNew)]
        simp [hKey]
      · have hSkip : (d.key == k) = false := by simpa using hKey
        split
        · simp only [List.find?_cons, hSkip, ih hNew]
        · simp only [List.find?_cons, hSkip]
          exact ih (by simp [hNew, Ne.symm hKey])

theorem line_le_trans (d e f : Diagnostic) (hFirst : decide (d.line ≤ e.line) = true)
    (hSecond : decide (e.line ≤ f.line) = true) : decide (d.line ≤ f.line) = true := by
  simp only [decide_eq_true_eq] at hFirst hSecond ⊢
  exact Nat.le_trans hFirst hSecond

theorem line_le_total (d e : Diagnostic) :
    (decide (d.line ≤ e.line) || decide (e.line ≤ d.line)) = true := by
  simpa using Nat.le_total d.line e.line

/-- The findings are in the order of their lines, as the order of line numbers is transitive and
total. -/
theorem pairwise_byLine (ds : List Diagnostic) :
    (byLine ds).Pairwise fun d e => d.line ≤ e.line := by
  simpa only [byLine, decide_eq_true_eq] using
    List.pairwise_mergeSort line_le_trans line_le_total ds

/-- Sorting does not change the order within a line. The findings of the line are among the sorted
ones in their old order, and there are no more of them. -/
theorem filter_byLine (ds : List Diagnostic) (line : Nat) :
    (byLine ds).filter (·.line == line) = ds.filter (·.line == line) := by
  have hPerm : ((byLine ds).filter (·.line == line)).Perm (ds.filter (·.line == line)) :=
    (List.mergeSort_perm ds _).filter _
  have hSorted : (ds.filter (·.line == line)).Pairwise
      fun d e => decide (d.line ≤ e.line) = true := by
    rw [List.pairwise_filter]
    exact List.pairwise_of_forall fun d e hd he => by
      rw [beq_iff_eq] at hd he
      simp [hd, he]
  have hSub : (ds.filter (·.line == line)).Sublist (byLine ds) :=
    List.sublist_mergeSort line_le_trans line_le_total hSorted List.filter_sublist
  have hLine := hSub.filter (·.line == line)
  simp only [List.filter_filter, Bool.and_self] at hLine
  exact (hLine.eq_of_length hPerm.length_eq.symm).symm

/-- A key has a line in it, so that the first finding with a key is the first one of its line. -/
theorem find?_byLine (ds : List Diagnostic) (k : String × Nat × String) :
    (byLine ds).find? (·.key == k) = ds.find? (·.key == k) := by
  have hLine (ds : List Diagnostic) :
      ds.find? (·.key == k) = (ds.filter (·.line == k.2.1)).find? (·.key == k) := by
    rw [List.find?_filter]
    congr 1
    funext d
    by_cases hKey : d.key = k
    · simp [← hKey, key]
    · simp [hKey]
  rw [hLine (byLine ds), filter_byLine, ← hLine]

end Diagnostic

namespace Registry

/-- No directive on the line of a finding disables its rule, by its id or by the name of the rule
that is registered under that id. -/
def Allowed (registry : Registry) (directives : Directives) (d : Diagnostic) : Prop :=
  ∀ directive ∈ directives, directive.line = d.line →
    directive.disables d.ruleId = false ∧
      ∀ rule, registry.rule? d.ruleId = some rule → directive.disables rule.info.name = false

/-- A finding is not suppressed exactly if each directive on its line leaves it alone, both under
the id of its rule and under the name. -/
theorem suppressed_eq_false_iff (registry : Registry) (directives : Directives) (d : Diagnostic) :
    registry.suppressed directives d = false ↔ registry.Allowed directives d := by
  unfold suppressed Allowed Directives.disabled
  cases hRule : registry.rule? d.ruleId with
  | none => simp
  | some rule =>
      simp only [Option.any_some, Bool.or_eq_false_iff, List.any_eq_false, Option.some.injEq,
        forall_eq', Bool.and_eq_true, beq_iff_eq, not_and, Bool.not_eq_true]
      constructor
      · rintro ⟨hId, hName⟩ directive hMem hLine
        exact ⟨hId directive hMem hLine, hName directive hMem hLine⟩
      · intro h
        exact ⟨fun directive hMem hLine => (h directive hMem hLine).1,
          fun directive hMem hLine => (h directive hMem hLine).2⟩

/-- Findings with the same key are suppressed together. -/
theorem suppressed_eq_of_key_eq (registry : Registry) (directives : Directives)
    {d e : Diagnostic} (h : d.key = e.key) :
    registry.suppressed directives d = registry.suppressed directives e := by
  simp only [Diagnostic.key, Prod.mk.injEq] at h
  obtain ⟨hRule, hLine, -⟩ := h
  simp only [suppressed, hRule, hLine]

theorem analyze_eq (registry : Registry) (file : SourceFile) :
    registry.analyze file = Diagnostic.report
      ((registry.runAll file).filter fun d => !registry.suppressed file.directives d) := rfl

/-- The analysis is stable: what it reports of a key is the first finding of the rules with it. -/
theorem find?_analyze (registry : Registry) (file : SourceFile) {d : Diagnostic}
    (h : registry.suppressed file.directives d = false) :
    (registry.analyze file).find? (·.key == d.key) =
      (registry.runAll file).find? (·.key == d.key) := by
  rw [analyze_eq, Diagnostic.report, Diagnostic.find?_distinct (by simp), Diagnostic.find?_byLine,
    List.find?_filter]
  congr 1
  funext e
  by_cases hKey : e.key = d.key
  · simp [hKey, suppressed_eq_of_key_eq registry file.directives hKey, h]
  · simp [hKey]

/-- What is reported was found by a rule and is not suppressed. -/
theorem mem_of_mem_analyze {registry : Registry} {file : SourceFile} {d : Diagnostic}
    (h : d ∈ registry.analyze file) :
    d ∈ registry.runAll file ∧ registry.suppressed file.directives d = false := by
  rw [analyze_eq] at h
  have hSorted := (Diagnostic.distinct_sublist _ _).subset h
  simpa [Diagnostic.byLine] using hSorted

/-- The first finding of the rules with the key of a finding that is not suppressed is reported. -/
theorem exists_mem_analyze {registry : Registry} {file : SourceFile} {d : Diagnostic}
    (hd : d ∈ registry.runAll file) (hSuppressed : registry.suppressed file.directives d = false) :
    ∃ e ∈ registry.analyze file, (registry.runAll file).find? (·.key == d.key) = some e := by
  have hSome : ((registry.runAll file).find? (·.key == d.key)).isSome := by
    rw [List.find?_isSome]
    exact ⟨d, hd, by simp⟩
  obtain ⟨e, he⟩ := Option.isSome_iff_exists.mp hSome
  have hReported : (registry.analyze file).find? (·.key == d.key) = some e :=
    (find?_analyze registry file hSuppressed).trans he
  exact ⟨e, List.mem_of_find?_eq_some hReported, he⟩

/-- Something is reported of a key if a finding of the rules with it is not suppressed. -/
theorem mem_key_analyze_iff {registry : Registry} {file : SourceFile}
    {k : String × Nat × String} :
    k ∈ (registry.analyze file).map Diagnostic.key ↔
      ∃ d ∈ registry.runAll file, registry.suppressed file.directives d = false ∧ d.key = k := by
  rw [List.mem_map]
  constructor
  · rintro ⟨d, hd, hKey⟩
    obtain ⟨hFound, hSuppressed⟩ := mem_of_mem_analyze hd
    exact ⟨d, hFound, hSuppressed, hKey⟩
  · rintro ⟨d, hd, hSuppressed, hKey⟩
    obtain ⟨e, he, hFirst⟩ := exists_mem_analyze hd hSuppressed
    have hSame : e.key = d.key := by simpa using List.find?_some hFirst
    exact ⟨e, he, hSame.trans hKey⟩

/-- Under the same directives, reports with the same keys come of findings with the same keys. -/
theorem mem_key_analyze_congr {registry : Registry} {file file' : SourceFile}
    (hDirectives : file'.directives = file.directives)
    (hKeys : ((registry.runAll file').map Diagnostic.key).Perm
      ((registry.runAll file).map Diagnostic.key)) (k : String × Nat × String) :
    k ∈ (registry.analyze file').map Diagnostic.key ↔
      k ∈ (registry.analyze file).map Diagnostic.key := by
  have hTransfer {first second : SourceFile} (hDirectives : second.directives = first.directives)
      (hKeys : ∀ k, k ∈ (registry.runAll first).map Diagnostic.key →
        k ∈ (registry.runAll second).map Diagnostic.key)
      (h : k ∈ (registry.analyze first).map Diagnostic.key) :
      k ∈ (registry.analyze second).map Diagnostic.key := by
    obtain ⟨d, hd, hSuppressed, rfl⟩ := mem_key_analyze_iff.mp h
    obtain ⟨e, he, hKey⟩ := List.mem_map.mp (hKeys d.key (List.mem_map_of_mem hd))
    refine mem_key_analyze_iff.mpr ⟨e, he, ?_, hKey⟩
    rw [hDirectives, suppressed_eq_of_key_eq registry _ hKey]
    exact hSuppressed
  exact ⟨hTransfer hDirectives.symm fun k => hKeys.mem_iff.mp,
    hTransfer hDirectives fun k => hKeys.mem_iff.mpr⟩

/-- What does not depend on the severity of a finding is not changed by settings that replace it. -/
theorem map_run {α : Type} {f : Diagnostic → α} (hf : ∀ d severity, f { d with severity } = f d)
    (registry : Registry) (file : SourceFile) (rule : Rule) :
    (registry.run file rule).map f = (rule.check file).map f := by
  rw [run]
  split
  · rw [List.map_map]
    exact List.map_congr_left fun d _ => hf d _
  · rfl

theorem map_runAll {α : Type} {f : Diagnostic → α} (hf : ∀ d severity, f { d with severity } = f d)
    (registry : Registry) (file : SourceFile) :
    (registry.runAll file).map f =
      (registry.rules.filter fun rule => registry.checks.admits rule.info).flatMap
        fun rule => (rule.check file).map f := by
  simp only [runAll, List.map_flatMap, map_run hf]

/-- The keys that are found depend on the settings only through the rules that they admit. -/
theorem map_key_runAll (registry : Registry) (file : SourceFile) :
    (registry.runAll file).map Diagnostic.key =
      (registry.rules.filter fun rule => registry.checks.admits rule.info).flatMap
        fun rule => (rule.check file).map Diagnostic.key :=
  map_runAll (fun _ _ => rfl) registry file

/-- The findings that are reported of a line are among those of the rules, in the same order. -/
theorem filter_analyze_sublist (registry : Registry) (file : SourceFile) (line : Nat) :
    ((registry.analyze file).filter (·.line == line)).Sublist
      ((registry.runAll file).filter (·.line == line)) := by
  rw [analyze_eq]
  refine ((Diagnostic.distinct_sublist _ _).filter _).trans ?_
  rw [Diagnostic.filter_byLine]
  exact List.filter_sublist.filter _

/-- The rules find in the order of their registration, and each of them in its own order. -/
theorem runAll_sublist (registry : Registry) (file : SourceFile) :
    (registry.runAll file).Sublist (registry.rules.flatMap (registry.run file)) :=
  List.filter_sublist.flatMap (registry.run file)

/-- A report is ordered by line, has each key once, holds only allowed findings of the rules, has
the first finding with the key of each allowed one, and keeps the order of discovery within a
line, which is the order of registration and then the rule's own. -/
theorem analyze_sorted_distinct (registry : Registry) (file : SourceFile) :
    let found := registry.runAll file
    let reported := registry.analyze file
    reported.Pairwise (fun d e => d.line ≤ e.line) ∧
    (reported.map Diagnostic.key).Nodup ∧
    (∀ d ∈ reported, d ∈ found ∧ registry.Allowed file.directives d) ∧
    (∀ d ∈ found, registry.Allowed file.directives d →
      ∃ e ∈ reported, found.find? (·.key == d.key) = some e) ∧
    (∀ line, (reported.filter (·.line == line)).Sublist (found.filter (·.line == line))) ∧
    found.Sublist (registry.rules.flatMap (registry.run file)) := by
  intro found reported
  refine ⟨?_, Diagnostic.nodup_key_distinct [] _, ?_, ?_, filter_analyze_sublist registry file,
    runAll_sublist registry file⟩
  · exact (Diagnostic.pairwise_byLine _).sublist (Diagnostic.distinct_sublist [] _)
  · intro d hd
    obtain ⟨hFound, hSuppressed⟩ := mem_of_mem_analyze hd
    exact ⟨hFound, (suppressed_eq_false_iff registry file.directives d).mp hSuppressed⟩
  · intro d hd hAllowed
    exact exists_mem_analyze hd ((suppressed_eq_false_iff registry file.directives d).mpr hAllowed)

end Registry

end TruthLint
