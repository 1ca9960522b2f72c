import TruthLint.Proofs.Cst.Tree

/-! The outermost lambdas of a tree. A node is at a path of numbers, which say from the outside in
which named child that is no comment comes next; the order of paths is the order in which the
nodes are read. A lambda is an outermost one if no other lambda is on the path to it. -/

namespace TruthLint.Cst.Node

variable {node child lambda : Node} {path : List Nat} {i : Nat}

/-- The node at a path. -/
def contentAt? : Node → List Nat → Option Node
  | node, [] => some node
  | node, i :: path => node.contents[i]?.bind (contentAt? · path)

/-- A lambda is at the path, and there is none above it in the tree. -/
structure OutermostLambda (node : Node) (path : List Nat) (lambda : Node) : Prop where
  found : node.contentAt? path = some lambda
  isLambda : lambda.kind = .lambdaExpression
  outermost : ∀ above outer, above <+: path → above ≠ path → node.contentAt? above = some outer →
    outer.kind ≠ .lambdaExpression

theorem sizeOf_lt_of_mem_contents (h : child ∈ node.contents) : sizeOf child < sizeOf node := by
  obtain ⟨label, children⟩ := node
  have hChild : sizeOf child < sizeOf children :=
    List.sizeOf_lt_of_mem (mem_of_mem_contents h)
  rw [mk.sizeOf_spec]
  omega

/-- The outermost lambdas with their paths. -/
def outermostLambdas (node : Node) : List (List Nat × Node) :=
  if node.kind = .lambdaExpression then [([], node)]
  else node.contents.attach.zipIdx.flatMap fun (⟨child, _⟩, i) =>
    (outermostLambdas child).map fun (path, lambda) => (i :: path, lambda)
termination_by sizeOf node
decreasing_by exact sizeOf_lt_of_mem_contents ‹_›

/-- A lambda is the only outermost one in it, however many are inside. -/
theorem outermostLambdas_of_lambda (h : node.kind = .lambdaExpression) :
    node.outermostLambdas = [([], node)] := by
  rw [outermostLambdas, if_pos h]

/-- Of any other node the outermost lambdas are those of its children, each path with the number of
the child in front. -/
theorem outermostLambdas_of_ne (h : node.kind ≠ .lambdaExpression) :
    node.outermostLambdas = node.contents.zipIdx.flatMap fun (child, i) =>
      child.outermostLambdas.map fun (path, lambda) => (i :: path, lambda) := by
  rw [outermostLambdas, if_neg h]
  conv_rhs => rw [← List.attach_map_subtype_val node.contents, List.zipIdx_map, List.flatMap_map]
  rfl

theorem outermostLambda_nil_iff :
    node.OutermostLambda [] lambda ↔ node = lambda ∧ node.kind = .lambdaExpression := by
  constructor
  · intro h
    obtain rfl := Option.some.inj h.found
    exact ⟨rfl, h.isLambda⟩
  · rintro ⟨rfl, hKind⟩
    exact ⟨rfl, hKind, fun above _ hPrefix hNe => absurd (List.prefix_nil.mp hPrefix) hNe⟩

/-- Below a node that is no lambda the outermost lambdas are those of its children. -/
theorem outermostLambda_cons_iff (h : node.kind ≠ .lambdaExpression) :
    node.OutermostLambda (i :: path) lambda ↔
      ∃ child, node.contents[i]? = some child ∧ child.OutermostLambda path lambda := by
  constructor
  · rintro ⟨hFound, hLambda, hOutermost⟩
    obtain ⟨child, hChild, hInner⟩ := Option.bind_eq_some_iff.mp hFound
    refine ⟨child, hChild, hInner, hLambda, fun above outer hPrefix hNe hOuter => ?_⟩
    refine hOutermost (i :: above) outer (List.cons_prefix_cons.mpr ⟨rfl, hPrefix⟩)
      (fun hEq => hNe (List.cons.inj hEq).2) ?_
    rw [contentAt?, hChild, Option.bind_some, hOuter]
  · rintro ⟨child, hChild, hInner⟩
    refine ⟨?_, hInner.isLambda, fun above outer hPrefix hNe hOuter => ?_⟩
    · rw [contentAt?, hChild, Option.bind_some, hInner.found]
    · cases above with
      | nil =>
          obtain rfl := Option.some.inj hOuter
          exact h
      | cons j above =>
          obtain ⟨rfl, hRest⟩ := List.cons_prefix_cons.mp hPrefix
          rw [contentAt?, hChild, Option.bind_some] at hOuter
          exact hInner.outermost above outer hRest (fun hEq => hNe (hEq ▸ rfl)) hOuter

/-- Inside a lambda no other one is outermost. -/
theorem not_outermostLambda_cons (h : node.kind = .lambdaExpression) :
    ¬node.OutermostLambda (i :: path) lambda :=
  fun hOuter => hOuter.outermost [] node List.nil_prefix (by simp) rfl h

/-- The list has the outermost lambdas, each with its path. -/
theorem mem_outermostLambdas :
    (path, lambda) ∈ node.outermostLambdas ↔ node.OutermostLambda path lambda := by
  induction node using children_induction generalizing path with
  | h node ih =>
      by_cases hKind : node.kind = .lambdaExpression
      · rw [outermostLambdas_of_lambda hKind, List.mem_singleton, Prod.mk.injEq]
        cases path with
        | nil => simp [outermostLambda_nil_iff, hKind, eq_comm]
        | cons i path => simp [not_outermostLambda_cons hKind]
      · rw [outermostLambdas_of_ne hKind, List.mem_flatMap]
        cases path with
        | nil => simp [outermostLambda_nil_iff, hKind]
        | cons i path =>
            rw [outermostLambda_cons_iff hKind]
            constructor
            · rintro ⟨⟨child, j⟩, hChild, hMem⟩
              rw [List.mem_zipIdx_iff_getElem?] at hChild
              obtain ⟨⟨inner, found⟩, hFound, hEq⟩ := List.mem_map.mp hMem
              cases hEq
              have hContent := mem_of_mem_contents (List.mem_of_getElem? hChild)
              exact ⟨child, hChild, (ih child hContent).mp hFound⟩
            · rintro ⟨child, hChild, hInner⟩
              have hContent := mem_of_mem_contents (List.mem_of_getElem? hChild)
              refine ⟨(child, i), List.mem_zipIdx_iff_getElem?.mpr hChild, ?_⟩
              exact List.mem_map.mpr ⟨(path, lambda), (ih child hContent).mpr hInner, rfl⟩

/-- The list is in the order of the paths, so that no path is there twice. -/
theorem pairwise_outermostLambdas (node : Node) :
    node.outermostLambdas.Pairwise fun first second => List.Lex (· < ·) first.1 second.1 := by
  induction node using children_induction with
  | h node ih =>
      by_cases hKind : node.kind = .lambdaExpression
      · rw [outermostLambdas_of_lambda hKind]
        exact List.pairwise_singleton _ _
      · rw [outermostLambdas_of_ne hKind, List.pairwise_flatMap]
        constructor
        · rintro ⟨child, i⟩ hChild
          have hContent := List.mem_of_getElem? (List.mem_zipIdx_iff_getElem?.mp hChild)
          exact List.pairwise_map.mpr ((ih child (mem_of_mem_contents hContent)).imp .cons)
        · have hNumbers : node.contents.zipIdx.Pairwise fun first second => first.2 < second.2 := by
            rw [← List.pairwise_map (f := Prod.snd) (R := (· < ·)), List.zipIdx_map_snd]
            exact List.pairwise_lt_range'
          refine hNumbers.imp fun hLt first hFirst second hSecond => ?_
          obtain ⟨-, -, rfl⟩ := List.mem_map.mp hFirst
          obtain ⟨-, -, rfl⟩ := List.mem_map.mp hSecond
          exact .rel hLt

/-- The outermost lambdas without their paths. -/
def lambdaNodes (node : Node) : List Node := node.outermostLambdas.map Prod.snd

theorem lambdaNodes_of_lambda (h : node.kind = .lambdaExpression) :
    node.lambdaNodes = [node] := by
  rw [lambdaNodes, outermostLambdas_of_lambda h]
  rfl

/-- The lambdas come in the order of the children, without their paths. -/
theorem lambdaNodes_of_ne (h : node.kind ≠ .lambdaExpression) :
    node.lambdaNodes = node.contents.flatMap lambdaNodes := by
  rw [lambdaNodes, outermostLambdas_of_ne h, List.map_flatMap]
  simp only [List.map_map, Function.comp_def]
  conv_rhs => rw [← List.zipIdx_map_fst 0 node.contents, List.flatMap_map]
  rfl

end TruthLint.Cst.Node
