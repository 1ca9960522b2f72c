import TruthLint.Proofs.Model.Lowered

/-! How high the expressions of a model are, and how many nodes are being read at the same time.
Every level of an expression takes one unit of the room for nesting, also where a conversion, the
object of a member or an unknown operator puts an expression around what was read. -/

namespace TruthLint

open Cst

namespace Expr

mutual

/-- The number of levels of an expression, itself included. -/
def height : Expr → Nat
  | .literal _ _ | .var _ _ => 1
  | .call _ _ operands => maxHeight operands + 1
  | .unary _ _ operand | .cast _ _ operand => height operand + 1
  | .binary _ _ left right => max (height left) (height right) + 1
  | .assign _ _ target value => max (height target) (height value) + 1
  | .member _ object _ => height object + 1
  | .conditional _ condition consequence alternative =>
    max (height condition) (max (height consequence) (height alternative)) + 1
  | .shortConditional _ condition alternative => max (height condition) (height alternative) + 1
  | .other _ parts => maxHeight parts + 1

def maxHeight : List Expr → Nat
  | [] => 0
  | e :: es => max (height e) (maxHeight es)

end

theorem height_eq (e : Expr) : e.height = maxHeight e.children + 1 := by
  cases e <;> simp [height, children, maxHeight]

/-- The highest of some expressions is within a bound if they all are. -/
theorem maxHeight_le_iff {es : List Expr} {n : Nat} :
    maxHeight es ≤ n ↔ ∀ e ∈ es, e.height ≤ n := by
  induction es with
  | nil => simp [maxHeight]
  | cons e es ih => rw [maxHeight, Nat.max_le, ih, List.forall_mem_cons]

/-- One more level is allowed for an expression than for its parts. -/
theorem height_le_succ_iff {e : Expr} {n : Nat} :
    e.height ≤ n + 1 ↔ ∀ child ∈ e.children, child.height ≤ n := by
  rw [height_eq, Nat.add_le_add_iff_right, maxHeight_le_iff]

/-- What holds of the expressions of operands, and of those that stand for a missing operand, holds
of all direct parts of an expression that is read. -/
theorem forall_children_ofNodeWith {sub : Node → Expr} {node : Node} {P : Expr → Prop}
    (hKind : node.kind ≠ .parenthesizedExpression) (hUnread : ∀ node, P (unread node))
    (h : ∀ operand ∈ operandNodes node, P (sub operand)) :
    ∀ child ∈ (ofNodeWith sub node).children, P child := by
  classical
  let lacking (e : Expr) : List Expr := if P e then [] else [e]
  have hParts : (ofNodeWith sub node).children.flatMap lacking = [] := by
    rw [flatMap_children_ofNodeWith lacking (fun node => if_pos (hUnread node)) hKind,
      List.flatMap_eq_nil_iff]
    exact fun operand hOperand => if_pos (h operand hOperand)
  intro child hChild
  by_contra hLacks
  have hNone : lacking child = [] := List.flatMap_eq_nil_iff.mp hParts child hChild
  rw [show lacking child = [child] from if_neg hLacks] at hNone
  cases hNone

/-- A node that is read with some room has one level more at most. -/
theorem height_ofNodeWithin_le (room : Nat) (node : Node) :
    (ofNodeWithin room node).height ≤ room + 1 := by
  have hUnread (n : Nat) (node : Node) : (unread node).height ≤ n + 1 := by
    simp [unread, height, maxHeight]
  induction room generalizing node with
  | zero => exact hUnread 0 node
  | succ room ih =>
      rw [ofNodeWithin]
      by_cases hKind : node.kind = .parenthesizedExpression
      · rw [ofNodeWith, hKind]
        dsimp only
        cases node.contents with
        | nil => exact hUnread _ node
        | cons inner rest => exact Nat.le_succ_of_le (ih inner)
      · rw [height_le_succ_iff]
        exact forall_children_ofNodeWith hKind (hUnread room) fun operand _ => ih operand

/-- Reading as nested calls that count how deep they are, where at most `calls` of them may be
active at the same time. What one more of them would answer is left to `deeper`. -/
def withinCalls (deeper : Node → Expr) : (calls depth : Nat) → Node → Expr
  | 0, _, node => deeper node
  | calls + 1, depth, node =>
    if nestingLimit ≤ depth then unread node
    else ofNodeWith (withinCalls deeper calls (depth + 1)) node

/-- The calls that the depth still allows are enough. -/
theorem withinCalls_eq (deeper : Node → Expr) {calls depth : Nat} (hDepth : depth ≤ nestingLimit)
    (hCalls : nestingLimit < depth + calls) (node : Node) :
    withinCalls deeper calls depth node = ofNodeWithin (nestingLimit - depth) node := by
  induction calls generalizing depth node with
  | zero => exact absurd hDepth (Nat.not_le_of_lt hCalls)
  | succ calls ih =>
      rw [withinCalls]
      split
      · next hDeep => rw [Nat.sub_eq_zero_of_le hDeep, ofNodeWithin]
      · next hShallow =>
          have hRoom : nestingLimit - depth = (nestingLimit - (depth + 1)) + 1 := by omega
          rw [hRoom, ofNodeWithin]
          congr 1
          funext operand
          exact ih (by omega) (by omega) operand

end Expr

namespace Seed

/-- The assignment that an initialization stands for is one level more. -/
theorem height_expr_le (seed : Seed) : seed.expr.height ≤ Expr.nestingLimit + 2 := by
  have hNode (node : Node) : (Expr.ofNode node).height ≤ Expr.nestingLimit + 1 :=
    Expr.height_ofNodeWithin_le Expr.nestingLimit node
  cases seed with
  | expression node => exact Nat.le_succ_of_le (hNode node)
  | initialization name pos operator value =>
      rw [expr, Expr.height, Expr.height]
      have hValue := hNode value
      omega

end Seed

namespace Model

/-- However deep a tree is nested, its expressions have at most two levels more than the limit on
nesting. No more calls than the limit and one are ever active when a node is read: what a deeper
one would answer makes no difference. -/
theorem height_exprs_le :
    (∀ root : Node, ∀ e ∈ (ofTree root).exprs, e.height ≤ 202) ∧
      ∀ (deeper : Node → Expr) (node : Node),
        Expr.withinCalls deeper 201 0 node = .ofNode node := by
  constructor
  · intro root e he
    rw [exprs_ofTree] at he
    obtain ⟨seed, -, rfl⟩ := List.mem_map.mp he
    exact seed.height_expr_le
  · intro deeper node
    exact Expr.withinCalls_eq deeper (Nat.zero_le _) (by decide) node

end Model

end TruthLint
