import TruthLint.Proofs.Analysis.Restriction
import TruthLint.Proofs.Suppression.Directives

/-! What one more directive does to a report. It is merged with those that the file has, and
findings are suppressed before they are ordered and stripped of repetitions. The report is still
the one without the directive less the findings that the directive names, since whatever
suppression asks of a finding is part of its key. -/

namespace TruthLint

/-- The file with one more directive. -/
def SourceFile.suppressing (file : SourceFile) (directive : Directive) : SourceFile :=
  { file with directives := file.directives.add directive }

namespace Registry

variable (registry : Registry) (file : SourceFile) (directive : Directive)

/-- Whether a directive is on the line of a finding and disables its rule, by the id of the rule or
by the name of the rule that is registered under that id. -/
def disabledBy (d : Diagnostic) : Bool :=
  directive.line == d.line && (directive.disables d.ruleId ||
    (registry.rule? d.ruleId).any fun rule => directive.disables rule.info.name)

/-- A directive goes by the line and the rule of a finding, which are in its key. -/
theorem disabledBy_eq_of_key_eq {d e : Diagnostic} (h : d.key = e.key) :
    registry.disabledBy directive d = registry.disabledBy directive e := by
  simp only [Diagnostic.key, Prod.mk.injEq] at h
  obtain ⟨hRule, hLine, -⟩ := h
  simp only [disabledBy, hRule, hLine]

/-- However the directive is merged, it suppresses the findings that it names and no others. -/
theorem suppressed_add (directives : Directives) (d : Diagnostic) :
    registry.suppressed (directives.add directive) d =
      (registry.suppressed directives d || registry.disabledBy directive d) := by
  rw [Bool.eq_iff_iff]
  cases hRule : registry.rule? d.ruleId with
  | none =>
      simp [suppressed, disabledBy, hRule, Directives.disabled_add]
  | some rule =>
      simp only [suppressed, disabledBy, hRule, Option.any_some, Bool.or_eq_true, Bool.and_eq_true,
        beq_iff_eq, Directives.disabled_add]
      tauto

/-- The built-in rules look at the model of a file and at its name. -/
theorem check_suppressing (config : ChecksConfig) :
    ∀ rule ∈ (builtin config).rules,
      rule.check (file.suppressing directive) = rule.check file := by
  intro rule hRule
  obtain ⟨exprRule, -, rfl⟩ := List.mem_map.mp hRule
  rfl

/-- The rules do not look at directives, so that one more leaves what they find as it is. -/
theorem runAll_suppressing (config : ChecksConfig) :
    (builtin config).runAll (file.suppressing directive) = (builtin config).runAll file := by
  refine List.flatMap_congr fun rule hRule => ?_
  rw [run, run, check_suppressing file directive config rule (List.mem_filter.mp hRule).1]

/-- If the rules find the same, one more directive takes what it disables out of the report, and
takes nothing else out. -/
theorem analyze_suppressing_of_runAll
    (h : registry.runAll (file.suppressing directive) = registry.runAll file) :
    registry.analyze (file.suppressing directive) =
      (registry.analyze file).filter fun d => !registry.disabledBy directive d := by
  have hKey (d e : Diagnostic) (hEq : d.key = e.key) :
      (!registry.disabledBy directive d) = !registry.disabledBy directive e := by
    rw [disabledBy_eq_of_key_eq registry directive hEq]
  rw [analyze_eq, analyze_eq, ← Diagnostic.report_filter hKey, List.filter_filter, h]
  congr 1
  refine List.filter_congr fun d _ => ?_
  rw [SourceFile.suppressing, suppressed_add, Bool.not_or, Bool.and_comm]

/-- A directive that is added to a file deletes from its report the findings that it names, and
nothing else changes. This holds of the built-in rules under all settings, and of any other rules
as long as they do not look at the directives themselves and find the same. -/
theorem analyze_suppressing (file : SourceFile) (directive : Directive) :
    (∀ config, (builtin config).analyze (file.suppressing directive) =
      ((builtin config).analyze file).filter
        fun d => !(builtin config).disabledBy directive d) ∧
    ∀ registry : Registry,
      registry.runAll (file.suppressing directive) = registry.runAll file →
      registry.analyze (file.suppressing directive) =
        (registry.analyze file).filter fun d => !registry.disabledBy directive d :=
  ⟨fun config => analyze_suppressing_of_runAll (builtin config) file directive
      (runAll_suppressing file directive config),
    fun registry => analyze_suppressing_of_runAll registry file directive⟩

end Registry

end TruthLint
