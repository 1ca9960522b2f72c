import TruthLint.Model

/-! Walks over the expressions of a model. A visitor is called for operators, assignments and
calls, for an expression before its parts, and may end the walk at any call. -/

namespace TruthLint

/-- Where an expression stands. -/
structure Site where
  scope : Nat
  /-- Whether it is part of a condition, at any depth. -/
  inCondition : Bool
deriving DecidableEq, Repr

/-- What a visitor makes of a call: its next state, and whether the walk goes on. -/
inductive Flow (σ : Type) where
  | next (state : σ)
  | stop (state : σ)

namespace Flow

variable {σ : Type}

def state : Flow σ → σ
  | next state | stop state => state

/-- Goes on with `f` unless the walk has ended. -/
def andThen : Flow σ → (σ → Flow σ) → Flow σ
  | next state, f => f state
  | stop state, _ => stop state

end Flow

/-- A visitor is only called for unary and binary operators, assignments and calls. -/
abbrev Visitor (σ : Type) := Site → Expr → σ → Flow σ

namespace Visitor

variable {σ : Type}

mutual

/-- Walks an expression and its parts. -/
def walk (v : Visitor σ) (site : Site) : Expr → σ → Flow σ
  | .literal _ _, state | .var _ _, state => .next state
  | .call pos callee operands, state =>
    (v site (.call pos callee operands) state).andThen (walkAll v site operands)
  | .unary pos op operand, state =>
    (v site (.unary pos op operand) state).andThen (walk v site operand)
  | .binary pos op left right, state =>
    ((v site (.binary pos op left right) state).andThen (walk v site left)).andThen
      (walk v site right)
  | .assign pos compound target value, state =>
    ((v site (.assign pos compound target value) state).andThen (walk v site target)).andThen
      (walk v site value)
  | .cast _ _ operand, state => walk v site operand state
  | .member _ object _, state => walk v site object state
  | .conditional _ condition consequence alternative, state =>
    ((walk v { site with inCondition := true } condition state).andThen
      (walk v site consequence)).andThen (walk v site alternative)
  | .shortConditional _ condition alternative, state =>
    (walk v { site with inCondition := true } condition state).andThen (walk v site alternative)
  | .other _ parts, state => walkAll v site parts state

def walkAll (v : Visitor σ) (site : Site) : List Expr → σ → Flow σ
  | [], state => .next state
  | e :: es, state => (walk v site e state).andThen (walkAll v site es)

end

/-- Walks the expressions of roots in order. -/
def walkRoots (v : Visitor σ) : List Root → σ → Flow σ
  | [], state => .next state
  | root :: roots, state =>
    (walk v ⟨root.scope, root.context = .condition⟩ root.expr state).andThen (walkRoots v roots)

/-- The state after a walk over all expressions of a model. -/
def walkModel (v : Visitor σ) (model : Model) (state : σ) : σ :=
  (walkRoots v model.roots.toList state).state

end Visitor

end TruthLint
