import Mathlib.Data.List.Flatten
import Mathlib.Data.List.Perm.Subperm
import TruthLint.Cst.Node

/-! Syntax trees as wholes: induction along children, children told apart by their roles, and the
nodes of a tree in two parts, those outside its lambdas and those inside. -/

namespace List.Subperm

variable {α β : Type} {l l' : List α}

/-- What each element contributes is a part of what all contribute, up to order. -/
theorem flatMap (h : l.Subperm l') (f : α → List β) : (l.flatMap f).Subperm (l'.flatMap f) := by
  obtain ⟨between, hPerm, hSublist⟩ := h
  exact ((hPerm.flatMap_right f).symm.subperm).trans (hSublist.flatMap f).subperm

theorem flatMap_of_forall {f g : α → List β} (h : ∀ a ∈ l, (f a).Subperm (g a)) :
    (l.flatMap f).Subperm (l.flatMap g) := by
  induction l with
  | nil => exact .refl _
  | cons a l ih =>
      rw [flatMap_cons, flatMap_cons]
      exact (h a mem_cons_self).append (ih fun b hb => h b (mem_cons_of_mem a hb))

/-- The images under a function that need not be injective. -/
theorem image (h : l.Subperm l') (f : α → β) : (l.map f).Subperm (l'.map f) := by
  obtain ⟨between, hPerm, hSublist⟩ := h
  exact (hPerm.map f).symm.subperm.trans (hSublist.map f).subperm

end List.Subperm

namespace TruthLint.Cst.Node

mutual

/-- What holds of a node whenever it holds of its children holds of every node. -/
theorem children_induction {P : Node → Prop}
    (h : ∀ node, (∀ child ∈ node.children, P child) → P node) : ∀ node, P node
  | .mk label children => h (.mk label children) (children_induction_all h children)

/-- Induction over the trees of a forest: each node may use the statement for its children. -/
theorem children_induction_all {P : Node → Prop}
    (h : ∀ node, (∀ child ∈ node.children, P child) → P node) :
    ∀ nodes : List Node, ∀ node ∈ nodes, P node
  | [], _, hNode => absurd hNode List.not_mem_nil
  | first :: nodes, node, hNode => by
      rcases List.mem_cons.mp hNode with hFirst | hLater
      · exact hFirst ▸ children_induction h first
      · exact children_induction_all h nodes node hLater

end

/-- A node comes before its children and what is below them. -/
theorem preorder_eq (node : Node) : node.preorder = node :: node.children.flatMap preorder := by
  cases node
  rw [preorder, preorderAll_eq_flatMap]
  rfl

/-- Every tree has its root in it. -/
theorem mem_preorder_self (node : Node) : node ∈ node.preorder := by
  rw [preorder_eq]
  exact List.mem_cons_self

/-- What is in a child is in the node. -/
theorem mem_preorder_of_child {node child inner : Node} (hChild : child ∈ node.children)
    (h : inner ∈ child.preorder) : inner ∈ node.preorder := by
  rw [preorder_eq]
  exact List.mem_cons_of_mem _ (List.mem_flatMap.mpr ⟨child, hChild, h⟩)

/-- What is below a node of the tree is in the tree. -/
theorem preorder_subset {node inner : Node} (h : inner ∈ node.preorder) :
    inner.preorder ⊆ node.preorder := by
  induction node using children_induction with
  | h node ih =>
      rw [preorder_eq, List.mem_cons, List.mem_flatMap] at h
      rcases h with rfl | ⟨child, hChild, hInner⟩
      · exact List.Subset.refl _
      · exact fun _ hMem => mem_preorder_of_child hChild (ih child hChild hInner hMem)

theorem mem_of_child? {node child : Node} {field : Field} (h : node.child? field = some child) :
    child ∈ node.children :=
  List.mem_of_find?_eq_some h

theorem hasField_of_child? {node child : Node} {field : Field}
    (h : node.child? field = some child) : child.label.field = some field :=
  beq_iff_eq.mp (List.find?_some (p := hasField field) h)

/-- Contents are children; comments and tokens are left out of them. -/
theorem mem_of_mem_contents {node child : Node} (h : child ∈ node.contents) :
    child ∈ node.children :=
  List.mem_of_mem_filter h

/-- The children in some roles, one role after the other. -/
def inRoles (node : Node) (fields : List Field) : List Node :=
  fields.flatMap fun field => node.children.filter (hasField field)

/-- A child has one role at most, so that different roles share no child. -/
theorem inRoles_subperm (node : Node) {fields : List Field} (h : fields.Nodup) :
    (node.inRoles fields).Subperm node.children := by
  unfold inRoles
  induction fields generalizing node with
  | nil => exact List.nil_subperm
  | cons field fields ih =>
      obtain ⟨hField, hFields⟩ := List.nodup_cons.mp h
      obtain ⟨label, children⟩ := node
      have hOthers : (fields.flatMap fun other => children.filter (hasField other)) =
          fields.flatMap fun other =>
            (children.filter fun child => !child.hasField field).filter (hasField other) := by
        refine List.flatMap_congr fun other hOther => ?_
        rw [List.filter_filter]
        refine List.filter_congr fun child _ => ?_
        have hDistinct : other ≠ field := fun hEq => hField (hEq ▸ hOther)
        by_cases hChild : child.label.field = some other
        · simp [hasField, hChild, hDistinct]
        · simp [hasField, hChild]
      have hRest := ih (.mk label (children.filter fun child => !child.hasField field)) hFields
      rw [List.flatMap_cons]
      refine (List.Subperm.append (.refl _) (hOthers ▸ hRest)).trans ?_
      exact (List.filter_append_perm _ children).subperm

/-- At most one of the children in a role is the one that is read, namely the first. -/
theorem child?_sublist (node : Node) (field : Field) :
    (node.child? field).toList.Sublist (node.children.filter (hasField field)) := by
  rw [child?, ← List.head?_filter]
  cases node.children.filter (hasField field) with
  | nil => exact .refl _
  | cons child children => exact .cons_cons child (List.nil_sublist _)

mutual

/-- The nodes that are in no lambda; a lambda itself still counts. -/
def surface : Node → List Node
  | .mk label children =>
    .mk label children :: if label.kind = .lambdaExpression then [] else surfaceAll children

def surfaceAll : List Node → List Node
  | [] => []
  | node :: nodes => surface node ++ surfaceAll nodes

end

mutual

/-- The nodes that are inside a lambda. -/
def enclosed : Node → List Node
  | .mk label children =>
    if label.kind = .lambdaExpression then preorderAll children else enclosedAll children

def enclosedAll : List Node → List Node
  | [] => []
  | node :: nodes => enclosed node ++ enclosedAll nodes

end

theorem surfaceAll_eq_flatMap (nodes : List Node) : surfaceAll nodes = nodes.flatMap surface := by
  induction nodes with
  | nil => rfl
  | cons node nodes ih =>
      rw [surfaceAll, ih]
      rfl

theorem enclosedAll_eq_flatMap (nodes : List Node) :
    enclosedAll nodes = nodes.flatMap enclosed := by
  induction nodes with
  | nil => rfl
  | cons node nodes ih =>
      rw [enclosedAll, ih]
      rfl

/-- The surface of a tree goes down to the lambdas and not into them. -/
theorem surface_lambda {node : Node} (h : node.kind = .lambdaExpression) :
    node.surface = [node] := by
  obtain ⟨label, children⟩ := node
  rw [surface, if_pos (by exact h)]

/-- Any other node is on the surface with what is on that of its children. -/
theorem surface_eq {node : Node} (h : node.kind ≠ .lambdaExpression) :
    node.surface = node :: node.children.flatMap surface := by
  obtain ⟨label, children⟩ := node
  rw [surface, if_neg (by exact h), surfaceAll_eq_flatMap]
  rfl

/-- All that is below a lambda is enclosed in it. -/
theorem enclosed_lambda {node : Node} (h : node.kind = .lambdaExpression) :
    node.enclosed = node.children.flatMap preorder := by
  obtain ⟨label, children⟩ := node
  rw [enclosed, if_pos (by exact h), preorderAll_eq_flatMap]
  rfl

/-- Of any other node, what is enclosed is what lambdas below it enclose. -/
theorem enclosed_eq {node : Node} (h : node.kind ≠ .lambdaExpression) :
    node.enclosed = node.children.flatMap enclosed := by
  obtain ⟨label, children⟩ := node
  rw [enclosed, if_neg (by exact h), enclosedAll_eq_flatMap]
  rfl

theorem mem_surface_self (node : Node) : node ∈ node.surface := by
  cases node
  rw [surface]
  exact List.mem_cons_self

/-- Every node of a tree is either outside all lambdas or inside one. -/
theorem surface_append_enclosed_perm (node : Node) :
    (node.surface ++ node.enclosed).Perm node.preorder := by
  induction node using children_induction with
  | h node ih =>
      rw [preorder_eq]
      by_cases hKind : node.kind = .lambdaExpression
      · rw [surface_lambda hKind, enclosed_lambda hKind]
        exact .refl _
      · rw [surface_eq hKind, enclosed_eq hKind, List.cons_append]
        refine .cons _ ((List.flatMap_append_perm _ _ _).trans ?_)
        exact .flatMap_left _ ih

end TruthLint.Cst.Node
