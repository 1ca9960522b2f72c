import Mathlib.Data.List.Basic
import Mathlib.Data.List.Induction
import TruthLint.Rule.Registry

/-! Registries that are set up in steps. Rules are registered and settings are given in any order
and as often as one likes. What runs follows from the rules in the order of their registration and
from the last settings, and nothing is left of settings that were given before. -/

namespace TruthLint

namespace ChecksConfig

/-- What a configuration asks of a rule that is to run. Where it says nothing, a rule that is
inconclusive or experimental does not run, and one that reports styles or warnings does. -/
structure Admits (config : ChecksConfig) (info : RuleInfo) : Prop where
  experimental : info.experimental = true → config.experimental = some true
  inconclusive : info.inconclusive = true → config.inconclusive = some true
  style : info.severity = .style → config.style ≠ some false
  warning : info.severity = .warning → config.warning ≠ some false
  id : info.id ∉ config.disabled
  name : info.name ∉ config.disabled

/-- The settings that are made from a configuration admit a rule exactly if the configuration does,
with its defaults for all that it does not say. -/
theorem admits_ofConfig_iff (config : ChecksConfig) (info : RuleInfo) :
    (Checks.ofConfig config).admits info = true ↔ config.Admits info := by
  have hOptIn (rule : Bool) (setting : Option Bool) :
      (!rule || setting.getD false) = true ↔ (rule = true → setting = some true) := by
    cases rule <;> rcases setting with - | - | - <;> decide
  have hOptOut (setting : Option Bool) : setting.getD true = true ↔ setting ≠ some false := by
    rcases setting with - | - | - <;> decide
  simp only [Checks.admits, Checks.ofConfig, Bool.and_eq_true, hOptIn, Bool.not_eq_true',
    List.contains_eq_mem, decide_eq_false_iff_not]
  constructor
  · rintro ⟨⟨⟨⟨hExperimental, hInconclusive⟩, hSeverity⟩, hId⟩, hName⟩
    refine ⟨hExperimental, hInconclusive, fun hStyle => ?_, fun hWarning => ?_, hId, hName⟩
    · rw [hStyle] at hSeverity
      exact (hOptOut _).mp hSeverity
    · rw [hWarning] at hSeverity
      exact (hOptOut _).mp hSeverity
  · intro h
    refine ⟨⟨⟨⟨h.experimental, h.inconclusive⟩, ?_⟩, h.id⟩, h.name⟩
    cases hSeverity : info.severity with
    | style => exact (hOptOut _).mpr (h.style hSeverity)
    | warning => exact (hOptOut _).mpr (h.warning hSeverity)
    | error => rfl

instance (config : ChecksConfig) (info : RuleInfo) : Decidable (config.Admits info) :=
  decidable_of_iff _ (admits_ofConfig_iff config info)

/-- The severity with which a rule's finding is reported: the one for the rule's id, or else the
one for its name, or else the finding's own. -/
def severityFor (config : ChecksConfig) (info : RuleInfo) (own : Severity) : Severity :=
  match config.severity.lookup info.id, config.severity.lookup info.name with
  | some severity, _ => severity
  | none, some severity => severity
  | none, none => own

end ChecksConfig

/-- The first rule with a property. -/
def Rule.IsFirst (p : RuleInfo → Prop) (rules : List Rule) (rule : Rule) : Prop :=
  ∃ before after, rules = before ++ rule :: after ∧ p rule.info ∧ ∀ other ∈ before, ¬p other.info

/-- A reference is to the first rule with that id or, if no rule has it, to the first one with that
name. -/
def Rule.IsReferredTo (rules : List Rule) (ref : String) (rule : Rule) : Prop :=
  IsFirst (·.id = ref) rules rule ∨
    (∀ other ∈ rules, other.info.id ≠ ref) ∧ IsFirst (·.name = ref) rules rule

namespace Registry

/-- The rule with an id is the first one that was registered under it. -/
theorem rule?_eq_some_iff {registry : Registry} {id : String} {rule : Rule} :
    registry.rule? id = some rule ↔ Rule.IsFirst (·.id = id) registry.rules rule := by
  simp only [rule?, List.find?_eq_some_iff_append, Rule.IsFirst, beq_iff_eq, Bool.not_eq_true',
    beq_eq_false_iff_ne]
  tauto

/-- The rule with a name is the first one that was registered under it. -/
theorem ruleNamed?_eq_some_iff {registry : Registry} {name : String} {rule : Rule} :
    registry.ruleNamed? name = some rule ↔ Rule.IsFirst (·.name = name) registry.rules rule := by
  simp only [ruleNamed?, List.find?_eq_some_iff_append, Rule.IsFirst, beq_iff_eq,
    Bool.not_eq_true', beq_eq_false_iff_ne]
  tauto

/-- A reference is read as an id before it is read as a name. -/
theorem find?_eq_some_iff {registry : Registry} {ref : String} {rule : Rule} :
    registry.find? ref = some rule ↔ Rule.IsReferredTo registry.rules ref rule := by
  have hNone : registry.rule? ref = none ↔ ∀ other ∈ registry.rules, other.info.id ≠ ref := by
    simp [rule?]
  rw [find?, Option.or_eq_some_iff, rule?_eq_some_iff, ruleNamed?_eq_some_iff, hNone,
    Rule.IsReferredTo]

/-- Under the settings of a configuration a rule reports what it finds, with the severities that
the configuration asks for. -/
theorem run_ofConfig (rules : List Rule) (config : ChecksConfig) (file : SourceFile)
    (rule : Rule) :
    (mk rules (.ofConfig config)).run file rule =
      (rule.check file).map fun d =>
        { d with severity := config.severityFor rule.info d.severity } := by
  have hOwn : (rule.check file).map (fun d => { d with severity := d.severity }) =
      rule.check file := List.map_id' _
  simp only [run, Checks.replacement?, Checks.ofConfig, ChecksConfig.severityFor]
  cases config.severity.lookup rule.info.id with
  | some severity => rfl
  | none =>
      cases config.severity.lookup rule.info.name with
      | some severity => rfl
      | none => exact hOwn.symm

/-- The rules that a configuration admits are run in the order of their registration, and its
severities replace theirs. -/
theorem runAll_ofConfig (rules : List Rule) (config : ChecksConfig) (file : SourceFile) :
    (mk rules (.ofConfig config)).runAll file =
      (rules.filter fun rule => config.Admits rule.info).flatMap fun rule =>
        (rule.check file).map fun d =>
          { d with severity := config.severityFor rule.info d.severity } := by
  have hAdmits (rule : Rule) : (Checks.ofConfig config).admits rule.info =
      decide (config.Admits rule.info) := by
    rw [Bool.eq_iff_iff, ChecksConfig.admits_ofConfig_iff, decide_eq_true_iff]
  simp only [runAll, hAdmits]
  exact List.flatMap_congr fun rule _ => run_ofConfig rules config file rule

/-- A reference is enabled if the rule that it refers to is admitted. One that refers to no rule is
not. -/
theorem isEnabled_ofConfig_iff (rules : List Rule) (config : ChecksConfig) (ref : String) :
    (mk rules (.ofConfig config)).isEnabled ref = true ↔
      ∃ rule, Rule.IsReferredTo rules ref rule ∧ config.Admits rule.info := by
  simp only [isEnabled, Option.any_eq_true, find?_eq_some_iff, ChecksConfig.admits_ofConfig_iff]

end Registry

/-- What may be done to a registry. -/
inductive SetupStep where
  | register (rule : Rule)
  | configure (config : ChecksConfig)

namespace SetupStep

def apply (registry : Registry) : SetupStep → Registry
  | register rule => registry.register rule
  | configure config => registry.configure config

def rule? : SetupStep → Option Rule
  | register rule => some rule
  | configure _ => none

def config? : SetupStep → Option ChecksConfig
  | register _ => none
  | configure config => some config

end SetupStep

/-- Steps that set up a registry, the first one first. -/
abbrev Setup := List SetupStep

namespace Setup

/-- The registry that the steps make of an empty one. -/
def run (setup : Setup) : Registry := setup.foldl SetupStep.apply .empty

/-- The rules that are registered, in order. -/
def rules (setup : Setup) : List Rule := setup.filterMap SetupStep.rule?

/-- The last configuration, or one that leaves everything to the defaults. -/
def config (setup : Setup) : ChecksConfig :=
  (setup.filterMap SetupStep.config?).getLast?.getD .empty

@[simp] theorem rules_concat (setup : Setup) (step : SetupStep) :
    rules (setup ++ [step]) = setup.rules ++ step.rule?.toList := by
  cases step <;> simp [rules, SetupStep.rule?]

/-- A later configuration takes the place of all earlier ones. -/
@[simp] theorem config_concat (setup : Setup) (step : SetupStep) :
    config (setup ++ [step]) = step.config?.getD setup.config := by
  cases step <;> simp [config, SetupStep.config?]

theorem run_concat (setup : Setup) (step : SetupStep) :
    run (setup ++ [step]) = step.apply setup.run := by
  rw [run, List.foldl_append, List.foldl_cons, List.foldl_nil, run]

/-- After each step, the registry holds the rules so far under the last settings so far. -/
theorem run_eq (setup : Setup) : setup.run = ⟨setup.rules, .ofConfig setup.config⟩ := by
  induction setup using List.reverseRecOn with
  | nil => rfl
  | append_singleton setup step ih =>
      rw [run_concat, rules_concat, config_concat, ih]
      cases step with
      | register rule => rfl
      | configure given =>
          simp [SetupStep.apply, SetupStep.rule?, SetupStep.config?, Registry.configure]

/-- A registry that was set up in any number of steps reports what the rules find that the last
configuration admits, in the order of their registration and with the severities that it asks for.
It is the registry of the same rules under that configuration alone, and it tells of each reference
whether the rule that is meant runs. -/
theorem run_follows_config (setup : Setup) (file : SourceFile) :
    let config := setup.config
    setup.run.runAll file =
      ((setup.rules.filter fun rule => config.Admits rule.info).flatMap fun rule =>
        (rule.check file).map fun d =>
          { d with severity := config.severityFor rule.info d.severity }) ∧
    setup.run = run (setup.rules.map .register ++ [.configure config]) ∧
    ∀ ref, setup.run.isEnabled ref = true ↔
      ∃ rule, Rule.IsReferredTo setup.rules ref rule ∧ config.Admits rule.info := by
  intro config
  refine ⟨?_, ?_, fun ref => ?_⟩
  · rw [run_eq]
    exact Registry.runAll_ofConfig setup.rules config file
  · have hRules : rules (setup.rules.map .register) = setup.rules := by
      rw [rules, List.filterMap_map]
      exact List.filterMap_some
    rw [run_eq, run_eq, rules_concat, config_concat, hRules]
    simp [SetupStep.rule?, SetupStep.config?, config]
  · rw [run_eq]
    exact Registry.isEnabled_ofConfig_iff setup.rules config ref

end Setup

end TruthLint
