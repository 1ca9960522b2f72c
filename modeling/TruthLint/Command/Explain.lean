import TruthLint.Command.Outcome
import TruthLint.Config.Lookup
import TruthLint.Report.Explanation
import TruthLint.Rule.Registry

/-! The command that explains a rule. -/

namespace TruthLint.Command

/-- Explains the rule with an id or a name, under the configuration for the working directory. -/
def explainRule (rule : String) (session : Session) : Outcome :=
  let config := (Config.loadFor session.files session.files.workingPath).config
  let registry := Registry.builtin config.checks
  let palette := Report.Palette.ofBool session.inColour
  match registry.find? rule with
  | some found =>
    ⟨Report.explanation palette found.info (registry.isEnabled found.info.id), [], 0⟩
  | none =>
    let label := palette.bold .red "error:"
    let known := registry.rules.map fun rule => s!"  {rule.info.id} ({rule.info.name})"
    ⟨[], [s!"{label} Unknown rule '{rule}'", "", "Available rules:"] ++ known, 1⟩

end TruthLint.Command
