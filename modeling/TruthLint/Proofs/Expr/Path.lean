import Mathlib.Data.List.Basic
import TruthLint.Proofs.Expr.Induction

/-! Subexpressions by their paths. A path says, from the outside in, which direct part comes next,
so that the same subexpression at two places has two paths. -/

namespace TruthLint.Expr

/-- A part is smaller than its expression. -/
theorem sizeOf_lt_of_mem_children {e child : Expr} (h : child ∈ e.children) :
    sizeOf child < sizeOf e := by
  cases e with
  | call pos callee operands =>
      have hLt : sizeOf child < sizeOf operands := List.sizeOf_lt_of_mem h
      simp only [call.sizeOf_spec]
      omega
  | other pos parts =>
      have hLt : sizeOf child < sizeOf parts := List.sizeOf_lt_of_mem h
      simp only [other.sizeOf_spec]
      omega
  | literal | var => simp [children] at h
  | unary | binary | assign | cast | member | conditional | shortConditional =>
      simp only [children, List.mem_cons, List.not_mem_nil, or_false] at h
      simp
      grind

/-- The subexpressions with their paths, in preorder. -/
def positions (e : Expr) : List (List Nat × Expr) :=
  ([], e) :: e.children.attach.zipIdx.flatMap fun (⟨child, _⟩, i) =>
    (positions child).map fun (path, inner) => (i :: path, inner)
termination_by sizeOf e
decreasing_by exact sizeOf_lt_of_mem_children ‹_›

/-- The parts of an expression with their paths, the expression itself first. -/
theorem positions_eq (e : Expr) :
    e.positions = ([], e) :: e.children.zipIdx.flatMap fun (child, i) =>
      child.positions.map fun (path, inner) => (i :: path, inner) := by
  rw [positions]
  congr 1
  conv_rhs => rw [← List.attach_map_subtype_val e.children, List.zipIdx_map, List.flatMap_map]
  rfl

/-- The subexpression at a path. -/
def at? : Expr → List Nat → Option Expr
  | e, [] => some e
  | e, i :: path => e.children[i]?.bind (at? · path)

/-- Whether the first direct part is a condition. -/
def isConditional : Expr → Bool
  | conditional _ _ _ _ | shortConditional _ _ _ => true
  | _ => false

/-- The path leads into the condition of a conditional, at any depth. -/
def InCondition (e : Expr) (path : List Nat) : Prop :=
  ∃ depth < path.length, path[depth]? = some 0 ∧ (e.at? (path.take depth)).any isConditional

instance (e : Expr) (path : List Nat) : Decidable (e.InCondition path) :=
  inferInstanceAs (Decidable (∃ depth < path.length, _ ∧ _))

theorem not_inCondition_nil (e : Expr) : ¬e.InCondition [] :=
  fun ⟨_, hDepth, _⟩ => absurd hDepth (Nat.not_lt_zero _)

/-- A path leads into a condition if its first step does, from a conditional to its first part, or
if the rest of it does. -/
theorem inCondition_cons {e child : Expr} {i : Nat} (hChild : e.children[i]? = some child)
    (path : List Nat) :
    e.InCondition (i :: path) ↔ (i = 0 ∧ e.isConditional) ∨ child.InCondition path := by
  have hBelow (inner : List Nat) : e.at? (i :: inner) = child.at? inner := by
    rw [at?, hChild, Option.bind_some]
  constructor
  · rintro ⟨depth, hDepth, hFirst, hOuter⟩
    cases depth with
    | zero => exact .inl ⟨Option.some.inj hFirst, hOuter⟩
    | succ depth =>
        rw [List.take_succ_cons, hBelow] at hOuter
        exact .inr ⟨depth, Nat.lt_of_succ_lt_succ hDepth, hFirst, hOuter⟩
  · rintro (⟨rfl, hConditional⟩ | ⟨depth, hDepth, hFirst, hOuter⟩)
    · exact ⟨0, Nat.succ_pos _, rfl, hConditional⟩
    · refine ⟨depth + 1, Nat.succ_lt_succ hDepth, hFirst, ?_⟩
      rw [List.take_succ_cons, hBelow]
      exact hOuter

end TruthLint.Expr
