import Mathlib.Data.List.Forall2
import Mathlib.Data.List.Nodup
import TruthLint.Proofs.Analysis.Restriction
import TruthLint.Proofs.Rule.Mirror

/-! How settings bear on a report. A rule that runs finds the same whichever other rules run, and
its findings are told from theirs by the rule in their keys. Settings that admit fewer rules
therefore leave the findings of these rules out of the report, and settings that replace
severities change the severities in it. -/

namespace TruthLint

namespace ChecksConfig

/-- No rule is kept from running, and severities are replaced as before. -/
def opened (config : ChecksConfig) : ChecksConfig := { all with severity := config.severity }

/-- One configuration comes from another by turning kinds of rules on and by taking rules off the
list of those that never run. -/
structure Widens (wider config : ChecksConfig) : Prop where
  style : (Checks.ofConfig config).style = true → (Checks.ofConfig wider).style = true
  warning : (Checks.ofConfig config).warning = true → (Checks.ofConfig wider).warning = true
  inconclusive : (Checks.ofConfig config).inconclusive = true →
    (Checks.ofConfig wider).inconclusive = true
  experimental : (Checks.ofConfig config).experimental = true →
    (Checks.ofConfig wider).experimental = true
  disabled : wider.disabled ⊆ config.disabled
  severity : wider.severity = config.severity

/-- To open every gate is to widen a configuration, whatever it had turned off. -/
theorem opened_widens (config : ChecksConfig) : config.opened.Widens config where
  style _ := rfl
  warning _ := rfl
  inconclusive _ := rfl
  experimental _ := rfl
  disabled := List.nil_subset _
  severity := rfl

/-- A rule that a configuration admits is admitted by each wider one. The gates are conditions that
can only be lifted, and names can only leave the list of disabled rules. -/
theorem Widens.admits {wider config : ChecksConfig} (h : wider.Widens config) {info : RuleInfo}
    (hAdmits : (Checks.ofConfig config).admits info = true) :
    (Checks.ofConfig wider).admits info = true := by
  simp only [Checks.admits, Bool.and_eq_true, Bool.or_eq_true, Bool.not_eq_true',
    List.contains_eq_mem, decide_eq_false_iff_not] at hAdmits ⊢
  obtain ⟨⟨⟨⟨hExperimental, hInconclusive⟩, hSeverity⟩, hId⟩, hName⟩ := hAdmits
  refine ⟨⟨⟨⟨hExperimental.imp_right h.experimental, hInconclusive.imp_right h.inconclusive⟩, ?_⟩,
    fun hListed => hId (h.disabled hListed)⟩, fun hListed => hName (h.disabled hListed)⟩
  cases hKind : info.severity with
  | style => exact h.style (by simpa [hKind] using hSeverity)
  | warning => exact h.warning (by simpa [hKind] using hSeverity)
  | error => rfl

end ChecksConfig

namespace Registry

/-- Each rule reports under its id, which is its own among the rules. -/
structure Attributed (rules : List Rule) : Prop where
  ids : (rules.map (·.info.id)).Nodup
  own : ∀ rule ∈ rules, ∀ file, ∀ d ∈ rule.check file, d.ruleId = rule.info.id

/-- The seven rules have ids of their own, and their findings carry them. -/
theorem attributed_builtin (config : ChecksConfig) : Attributed (builtin config).rules where
  ids := show ((builtin .empty).rules.map (·.info.id)).Nodup by decide
  own := by
    intro rule hRule file d hd
    obtain ⟨exprRule, -, rfl⟩ := List.mem_map.mp hRule
    obtain ⟨finding, -, rfl⟩ := List.mem_map.mp hd
    rfl

namespace Attributed

variable {registry : Registry} {rule : Rule}

/-- An id is looked up among rules that all have different ones, so that the rule that is found is
the one asked for. -/
theorem rule?_eq_some (h : Attributed registry.rules) (hRule : rule ∈ registry.rules) :
    registry.rule? rule.info.id = some rule := by
  cases hFound : registry.rule? rule.info.id with
  | none => simpa using List.find?_eq_none.mp hFound rule hRule
  | some found =>
      have hId : found.info.id = rule.info.id := by simpa using List.find?_some hFound
      have hMem : found ∈ registry.rules := List.mem_of_find?_eq_some hFound
      rw [List.inj_on_of_nodup_map h.ids hMem hRule hId]

/-- By its id a rule is enabled exactly if the settings admit it. -/
theorem isEnabled_id (h : Attributed registry.rules) (hRule : rule ∈ registry.rules) :
    registry.isEnabled rule.info.id = registry.checks.admits rule.info := by
  rw [isEnabled, find?, h.rule?_eq_some hRule, Option.some_or, Option.any_some]

theorem ruleId_of_mem_run (h : Attributed registry.rules) (hRule : rule ∈ registry.rules)
    {file : SourceFile} {d : Diagnostic} (hd : d ∈ registry.run file rule) :
    d.ruleId = rule.info.id := by
  have hMapped : d.ruleId ∈ (registry.run file rule).map Diagnostic.ruleId :=
    List.mem_map_of_mem hd
  rw [map_run (fun _ _ => rfl), List.mem_map] at hMapped
  obtain ⟨e, he, hSame⟩ := hMapped
  exact hSame.symm.trans (h.own rule hRule file e he)

/-- A rule that settings do not admit finds nothing, and the others find what they find anyway. -/
theorem filter_run (h : Attributed registry.rules) (hRule : rule ∈ registry.rules)
    (file : SourceFile) :
    (registry.run file rule).filter (fun d => registry.isEnabled d.ruleId) =
      if registry.checks.admits rule.info then registry.run file rule else [] := by
  have hEnabled (d : Diagnostic) (hd : d ∈ registry.run file rule) :
      registry.isEnabled d.ruleId = registry.checks.admits rule.info := by
    rw [h.ruleId_of_mem_run hRule hd, h.isEnabled_id hRule]
  split
  · rename_i hAdmits
    exact List.filter_eq_self.mpr fun d hd => (hEnabled d hd).trans hAdmits
  · rename_i hAdmits
    exact List.filter_eq_nil_iff.mpr fun d hd => (hEnabled d hd).symm ▸ hAdmits

end Attributed

theorem flatMap_filter_eq {α β : Type} (l : List α) (p : α → Bool) (f : α → List β) :
    (l.filter p).flatMap f = l.flatMap fun a => if p a then f a else [] := by
  induction l with
  | nil => rfl
  | cons a l ih =>
      rw [List.filter_cons, List.flatMap_cons, ← ih]
      split
      · rw [List.flatMap_cons]
      · rfl

/-- Under settings that admit fewer rules and replace the same severities, what is found is the
findings of the rules that are still enabled. -/
theorem runAll_eq_filter {rules : List Rule} (h : Attributed rules) {checks wider : Checks}
    (hAdmits : ∀ info, checks.admits info = true → wider.admits info = true)
    (hSeverity : wider.severity = checks.severity) (file : SourceFile) :
    (mk rules checks).runAll file =
      ((mk rules wider).runAll file).filter fun d => (mk rules checks).isEnabled d.ruleId := by
  have hRun (rule : Rule) : (mk rules wider).run file rule = (mk rules checks).run file rule := by
    simp only [run, Checks.replacement?, hSeverity]
  rw [runAll, runAll, List.filter_flatMap, flatMap_filter_eq, flatMap_filter_eq]
  refine List.flatMap_congr fun rule hRule => ?_
  rw [hRun, @Attributed.filter_run (mk rules checks) rule h hRule]
  cases hAdmitted : checks.admits rule.info with
  | true => simp only [hAdmits _ hAdmitted, if_true]
  | false => simp

/-- Fewer rules leave fewer findings, and those that stay are reported as before. The severities
must be the same in both, since they are a part of what is reported. -/
theorem analyze_eq_filter {rules : List Rule} (h : Attributed rules) {checks wider : Checks}
    (hAdmits : ∀ info, checks.admits info = true → wider.admits info = true)
    (hSeverity : wider.severity = checks.severity) (file : SourceFile) :
    (mk rules checks).analyze file =
      ((mk rules wider).analyze file).filter fun d => (mk rules checks).isEnabled d.ruleId := by
  have hKey (d e : Diagnostic) (hEq : d.key = e.key) :
      (mk rules checks).isEnabled d.ruleId = (mk rules checks).isEnabled e.ruleId := by
    rw [show d.ruleId = e.ruleId from congrArg Prod.fst hEq]
  rw [analyze_eq, analyze_eq, ← Diagnostic.report_filter hKey,
    runAll_eq_filter h hAdmits hSeverity, List.filter_filter, List.filter_filter]
  congr 1
  exact List.filter_congr fun d _ => Bool.and_comm _ _

end Registry

/-- The finding with another severity. -/
def Diagnostic.withSeverity (d : Diagnostic) (severity : Severity) : Diagnostic :=
  { d with severity }

namespace Registry

theorem forall₂_of_map_withSeverity {ds es : List Diagnostic} {severity : Severity}
    (h : ds.map (·.withSeverity severity) = es.map (·.withSeverity severity)) :
    List.Forall₂ (fun d e => d.withSeverity e.severity = e) ds es := by
  rw [← List.forall₂_eq_eq_eq, List.forall₂_map_left_iff, List.forall₂_map_right_iff] at h
  refine h.imp fun d e hSame => ?_
  exact congrArg (·.withSeverity e.severity) hSame

/-- Severities play no part in the report: with one severity for all findings it is the same. -/
theorem map_withSeverity_analyze (registry : Registry) (file : SourceFile) (severity : Severity) :
    (registry.analyze file).map (·.withSeverity severity) =
      Diagnostic.report (((registry.runAll file).map (·.withSeverity severity)).filter
        fun d => !registry.suppressed file.directives d) := by
  have hKey (d : Diagnostic) : (d.withSeverity severity).key = d.key := rfl
  rw [analyze_eq, ← Diagnostic.report_map hKey, List.filter_map]
  rfl

/-- Settings that admit the same rules give the same report, up to severities. -/
theorem analyze_sameButSeverity (rules : List Rule) {checks other : Checks}
    (hAdmits : ∀ info, checks.admits info = other.admits info) (file : SourceFile) :
    List.Forall₂ (fun d e => d.withSeverity e.severity = e)
      ((mk rules checks).analyze file) ((mk rules other).analyze file) := by
  apply @forall₂_of_map_withSeverity _ _ .error
  have hFound : ((mk rules checks).runAll file).map (·.withSeverity .error) =
      ((mk rules other).runAll file).map (·.withSeverity .error) := by
    rw [map_runAll (fun _ _ => rfl), map_runAll (fun _ _ => rfl)]
    simp only [hAdmits]
  rw [map_withSeverity_analyze, map_withSeverity_analyze, hFound]
  rfl

/-- The built-in rules do not depend on each other. What is reported under some settings is what
all rules together report, less the rules that the settings do not enable, in the same order.
Wider settings only insert findings of the rules that become enabled, and other replacements for
severities change neither the rules that run nor anything in the report but severities. -/
theorem builtin_analyze_independent (file : SourceFile) (config : ChecksConfig) :
    let report (config : ChecksConfig) := (builtin config).analyze file
    let enabled (config : ChecksConfig) (ref : String) := (builtin config).isEnabled ref
    report config = (report config.opened).filter (fun d => enabled config d.ruleId) ∧
    (∀ wider : ChecksConfig, wider.Widens config →
      report config = (report wider).filter (fun d => enabled config d.ruleId) ∧
      ∀ d ∈ report wider, d ∈ report config ∨
        enabled wider d.ruleId = true ∧ enabled config d.ruleId = false) ∧
    (∀ severity, (∀ ref, enabled { config with severity } ref = enabled config ref) ∧
      List.Forall₂ (fun d e => d.withSeverity e.severity = e)
        (report { config with severity }) (report config)) := by
  intro report enabled
  have hWiden {narrow wider : ChecksConfig} (h : wider.Widens narrow) :
      report narrow = (report wider).filter (fun d => enabled narrow d.ruleId) :=
    analyze_eq_filter (attributed_builtin narrow) (fun _ => h.admits) h.severity file
  refine ⟨hWiden config.opened_widens, fun wider h => ⟨hWiden h, fun d hd => ?_⟩,
    fun severity => ?_⟩
  · have hOwn : enabled wider d.ruleId = true := by
      rw [hWiden wider.opened_widens] at hd
      exact (List.mem_filter.mp hd).2
    cases hStill : enabled config d.ruleId with
    | true =>
        rw [hWiden h]
        exact .inl (List.mem_filter.mpr ⟨hd, hStill⟩)
    | false => exact .inr ⟨hOwn, rfl⟩
  · have hAdmits (info : RuleInfo) : (Checks.ofConfig { config with severity }).admits info =
        (Checks.ofConfig config).admits info := rfl
    exact ⟨fun _ => rfl, analyze_sameButSeverity _ hAdmits file⟩

/-- In `flag & (flag == 2)`, the finding on `&` comes in with the inconclusive rules. -/
theorem builtin_analyze_independent_inconclusive :
    let flag : Expr := .var ⟨2, 5⟩ "flag"
    let isTwo : Expr := .binary ⟨2, 18⟩ .eq flag (.literal ⟨2, 21⟩ (.number (some 2)))
    let file := SourceFile.withFlag (.binary ⟨2, 10⟩ .bitAnd flag isTwo)
    let wider : ChecksConfig := { ChecksConfig.empty with inconclusive := some true }
    wider.Widens .empty ∧ (builtin .empty).isEnabled "B001" = false ∧
      (∃ d ∈ (builtin wider).analyze file, d.ruleId = "B001") ∧
      (builtin .empty).analyze file = ((builtin wider).analyze file).filter
        fun d => (builtin .empty).isEnabled d.ruleId := by
  intro flag isTwo file wider
  have hWider : wider.Widens .empty := ⟨id, id, fun _ => rfl, id, List.nil_subset _, rfl⟩
  obtain ⟨-, hWiden, -⟩ := builtin_analyze_independent file .empty
  refine ⟨hWider, by decide +kernel, ?_, (hWiden wider hWider).1⟩
  have hKey : ("B001", 2, "Boolean variable 'flag' is used in bitwise operation. " ++
      "Did you mean '&&'?") ∈ ((builtin wider).analyze file).map Diagnostic.key :=
    mem_key_analyze_iff.mpr (by decide +kernel)
  obtain ⟨d, hd, hEq⟩ := List.mem_map.mp hKey
  exact ⟨d, hd, congrArg Prod.fst hEq⟩

end Registry

end TruthLint
