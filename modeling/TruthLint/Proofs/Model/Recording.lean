import TruthLint.Model

/-! Recording with a scope that changes. The scope in which entries are met is kept beside the
model. It is switched to go through the inside of another scope, and is the one before again
afterwards. -/

namespace TruthLint

/-- A model that is being recorded, and the scope that the recording has come to. -/
structure Recording where
  model : Model
  current : Nat

namespace Recording

/-- Goes through the inside of a scope and comes back to the scope before. -/
def within (r : Recording) (model : Model) (scope : Nat) (inside : Recording → Recording) :
    Recording :=
  { inside ⟨model, scope⟩ with current := r.current }

/-- Creates a scope in the current one and goes through its inside. -/
def inNewScope (r : Recording) (kind : ScopeKind) (name : Option String) (line : Nat)
    (inside : Recording → Recording) : Recording :=
  r.within (r.model.createScope kind name r.current line) r.model.scopes.size inside

mutual

/-- Records an entry in the current scope. -/
def follow (r : Recording) : Entry → Recording
  | .var name type line => { r with model := r.model.declareVariable name type r.current line }
  | .function name returns line =>
    { r with model := (r.model.declareNamed r.current name returns line).1 }
  | .root seed context => { r with model := r.model.addRoot ⟨seed.expr, r.current, context⟩ }
  | .scope kind name line body => r.inNewScope kind name line fun inside => inside.followAll body
  | .nameSpace path line body =>
    let (model, scope) := r.model.openPath r.current line path
    r.within model scope fun inside => inside.followAll body
  | .definition declared name returns line body =>
    let (model, owner) := match declared with
      | some declared => r.model.declareNamed r.current declared returns line
      | none => (r.model, r.current)
    r.within (model.createScope .function name owner line) model.scopes.size
      fun inside => inside.followAll body

def followAll (r : Recording) : List Entry → Recording
  | [] => r
  | entry :: entries => (r.follow entry).followAll entries

end

mutual

/-- The current scope is the one before again after each entry. -/
theorem follow_eq (r : Recording) :
    ∀ entry : Entry, r.follow entry = ⟨Model.record r.current r.model entry, r.current⟩
  | .var _ _ _ => rfl
  | .function _ _ _ => rfl
  | .root _ _ => rfl
  | .scope kind name line body => by
      rw [follow, inNewScope, within, followAll_eq _ body]
      rfl
  | .nameSpace path line body => by
      simp only [follow, within, followAll_eq _ body]
      rfl
  | .definition none name returns line body => by
      simp only [follow, within, followAll_eq _ body]
      rfl
  | .definition (some declared) name returns line body => by
      simp only [follow, within, followAll_eq _ body]
      rfl

/-- The same of entries one after the other. As each of them comes back to the scope in which it
began, they are all recorded in one. -/
theorem followAll_eq (r : Recording) :
    ∀ entries : List Entry,
      r.followAll entries = ⟨Model.recordAll r.current r.model entries, r.current⟩
  | [] => rfl
  | entry :: entries => by
      rw [followAll, follow_eq r entry, followAll_eq _ entries]
      rfl

end

end Recording

end TruthLint
