import TruthLint.Cst.Fault
import TruthLint.Cst.Row
import TruthLint.Proofs.Cst.Tree

/-! The faults of a tree. They are looked for with a stack of nodes that wait, and subtrees without
the mark are passed over. What comes out, where the marks are right, are the faults that have no
other fault above them, in preorder. -/

namespace TruthLint.Cst.Node

variable {root node : Node} {above : List Node}

mutual

/-- The nodes of a tree in preorder, each with the nodes above it, the nearest one first. -/
def withAncestors (above : List Node) : Node → List (List Node × Node)
  | .mk label children =>
    (above, .mk label children) :: withAncestorsAll (.mk label children :: above) children

def withAncestorsAll (above : List Node) : List Node → List (List Node × Node)
  | [] => []
  | node :: nodes => withAncestors above node ++ withAncestorsAll above nodes

end

/-- The nodes of a tree in preorder, each with the nodes above it, the nearest first. -/
theorem withAncestors_eq (above : List Node) (node : Node) :
    withAncestors above node =
      (above, node) :: node.children.flatMap (withAncestors (node :: above)) := by
  have hAll (above nodes : List Node) :
      withAncestorsAll above nodes = nodes.flatMap (withAncestors above) := by
    induction nodes with
    | nil => rfl
    | cons node nodes ih => rw [withAncestorsAll, ih, List.flatMap_cons]
  obtain ⟨label, children⟩ := node
  rw [withAncestors, hAll]
  rfl

/-- All nodes are there, in preorder. -/
theorem map_snd_withAncestors (above : List Node) (node : Node) :
    (withAncestors above node).map Prod.snd = node.preorder := by
  induction node using children_induction generalizing above with
  | h node ih =>
      rw [withAncestors_eq, preorder_eq, List.map_cons, List.map_flatMap]
      exact congrArg (node :: ·) (List.flatMap_congr fun child hChild => ih child hChild _)

/-- The nodes above a node are the way from it to the root. -/
theorem isChain_withAncestors {way : List Node} {inner : Node}
    (h : (way, inner) ∈ withAncestors above node)
    (hAbove : (node :: above).IsChain fun child parent => child ∈ parent.children) :
    (inner :: way).IsChain (fun child parent => child ∈ parent.children) ∧
      node :: above <:+ inner :: way := by
  induction node using children_induction generalizing above with
  | h node ih =>
      rw [withAncestors_eq, List.mem_cons, List.mem_flatMap] at h
      rcases h with hSelf | ⟨child, hChild, hInner⟩
      · cases hSelf
        exact ⟨hAbove, List.suffix_refl _⟩
      · obtain ⟨hChain, hSuffix⟩ := ih child hChild hInner (hAbove.cons_cons hChild)
        exact ⟨hChain, (List.suffix_cons child _).trans hSuffix⟩

/-- A region that could not be parsed, or a node that had to be supplied. -/
def isFault (node : Node) : Bool := node.label.isError || node.label.isMissing

/-- What is put on record of a fault. -/
def fault (node : Node) : Fault :=
  ⟨if node.label.isError then .unparsed else .missing node.kind, node.position⟩

/-- The faults in a tree that have no fault above them, in preorder. `above` are the nodes above the
tree as a whole. -/
def topmostBelow (above : List Node) (node : Node) : List Node :=
  ((withAncestors above node).filter fun (above, node) => node.isFault && !above.any isFault).map
    Prod.snd

def topmostFaults (root : Node) : List Node := topmostBelow [] root

/-- A node is a topmost fault if it is a fault and none is above it. -/
theorem topmostBelow_eq (above : List Node) (node : Node) :
    topmostBelow above node =
      (if node.isFault && !above.any isFault then [node] else []) ++
        node.children.flatMap (topmostBelow (node :: above)) := by
  unfold topmostBelow
  rw [withAncestors_eq, List.filter_cons, List.filter_flatMap]
  split_ifs
  · rw [List.map_cons, List.map_flatMap, List.singleton_append]
  · rw [List.map_flatMap, List.nil_append]

/-- Below a fault there are no topmost ones. -/
theorem topmostBelow_of_fault (h : above.any isFault = true) (node : Node) :
    topmostBelow above node = [] := by
  induction node using children_induction generalizing above with
  | h node ih =>
      have hBelow : (node :: above).any isFault = true := by rw [List.any_cons, h, Bool.or_true]
      rw [topmostBelow_eq, h, Bool.not_true, Bool.and_false, if_neg Bool.false_ne_true,
        List.nil_append, List.flatMap_eq_nil_iff]
      exact fun child hChild => ih child hChild hBelow

/-- Nodes above that are no faults make no difference. -/
theorem topmostBelow_of_no_fault (h : above.any isFault = false) (node : Node) :
    topmostBelow above node = topmostFaults node := by
  rw [topmostFaults]
  induction node using children_induction generalizing above with
  | h node ih =>
      rw [topmostBelow_eq, topmostBelow_eq [] node, h, List.any_nil]
      congr 1
      refine List.flatMap_congr fun child hChild => ?_
      cases hFault : node.isFault with
      | true =>
          rw [topmostBelow_of_fault (by rw [List.any_cons, hFault, Bool.true_or]),
            topmostBelow_of_fault (by rw [List.any_cons, hFault, Bool.true_or])]
      | false =>
          have hAbove : (node :: above).any isFault = false := by
            rw [List.any_cons, hFault, h, Bool.or_false]
          have hNode : [node].any isFault = false := by
            rw [List.any_cons, hFault, List.any_nil, Bool.or_false]
          exact (ih child hChild hAbove).trans (ih child hChild hNode).symm

theorem topmostFaults_of_isFault (h : node.isFault = true) : node.topmostFaults = [node] := by
  have hBelow (child : Node) : topmostBelow [node] child = [] :=
    topmostBelow_of_fault (by rw [List.any_cons, h, Bool.true_or]) child
  rw [topmostFaults, topmostBelow_eq, h]
  simp [hBelow]

/-- Without a fault at the root, the topmost ones are those of the children, in their order. -/
theorem topmostFaults_of_not_isFault (h : node.isFault = false) :
    node.topmostFaults = node.children.flatMap topmostFaults := by
  have hBelow : topmostBelow [node] = topmostFaults :=
    funext (topmostBelow_of_no_fault (by rw [List.any_cons, h, List.any_nil, Bool.or_false]))
  rw [topmostFaults, topmostBelow_eq, h, hBelow]
  rfl

/-- There is a topmost fault wherever there is a fault at all. -/
theorem topmostFaults_eq_nil_iff (node : Node) :
    node.topmostFaults = [] ↔ node.preorder.any isFault = false := by
  induction node using children_induction with
  | h node ih =>
      rw [preorder_eq, List.any_cons, Bool.or_eq_false_iff]
      cases hFault : node.isFault with
      | true => simp [topmostFaults_of_isFault hFault]
      | false =>
          rw [topmostFaults_of_not_isFault hFault, List.flatMap_eq_nil_iff, List.any_flatMap,
            and_iff_right rfl, forall₂_congr ih]
          simp only [List.any_eq_false, Bool.not_eq_true]

/-- The marks of a tree are right: exactly the nodes that are or contain a fault are marked. -/
def WellMarked (root : Node) : Prop :=
  ∀ node ∈ root.preorder, node.label.hasError = node.preorder.any isFault

instance (root : Node) : Decidable root.WellMarked :=
  inferInstanceAs (Decidable (∀ node ∈ root.preorder, _))

theorem WellMarked.of_child {child : Node} (h : node.WellMarked) (hChild : child ∈ node.children) :
    child.WellMarked :=
  fun inner hInner => h inner (mem_preorder_of_child hChild hInner)

/-- A tree whose root is not marked has no fault in it, which is why the search may leave it out. -/
theorem WellMarked.topmostFaults_eq_nil (h : node.WellMarked)
    (hMark : node.label.hasError = false) :
    node.topmostFaults = [] := by
  rw [topmostFaults_eq_nil_iff, ← h node (mem_preorder_self node), hMark]

theorem flatMap_topmostFaults_push (waiting : Array Node) (node : Node) :
    (waiting.push node).toList.reverse.flatMap topmostFaults =
      node.topmostFaults ++ waiting.toList.reverse.flatMap topmostFaults := by
  rw [Array.toList_push, List.reverse_append, List.reverse_singleton, List.singleton_append,
    List.flatMap_cons]

/-- A fault that waits may as well be on record. -/
theorem record_waiting (h : node.isFault = true) (waiting : Array Node) (found : Array Fault) :
    (found.push node.fault).toList ++ (waiting.toList.reverse.flatMap topmostFaults).map fault =
      found.toList ++ ((waiting.push node).toList.reverse.flatMap topmostFaults).map fault := by
  rw [flatMap_topmostFaults_push, topmostFaults_of_isFault h, List.singleton_append, List.map_cons,
    Array.toList_push, List.append_assoc, List.singleton_append]

/-- What is on record in the end: what was there before, and the topmost faults of the trees that
wait, those of the last one first. -/
theorem collectFaults_eq (pending : Array Node) (found : Array Fault)
    (h : ∀ node ∈ pending.toList, node.WellMarked) :
    (collectFaults pending found).toList =
      found.toList ++ (pending.toList.reverse.flatMap topmostFaults).map fault := by
  fun_induction collectFaults pending found with
  | case1 pending found hNone =>
      rw [Array.back?_eq_none_iff.mp hNone]
      simp
  | case2 pending found label children hLast hError ih =>
      obtain ⟨waiting, rfl⟩ := Array.back?_eq_some_iff.mp hLast
      have hRecord : (⟨.unparsed, label.position⟩ : Fault) = (mk label children).fault := by
        simp [fault, hError, Node.label, Node.position]
      rw [Array.pop_push, hRecord] at ih ⊢
      rw [ih fun node hNode => h node (by simp [hNode])]
      exact record_waiting (by simp [isFault, Node.label, hError]) waiting found
  | case3 pending found label children hLast hError hMissing ih =>
      obtain ⟨waiting, rfl⟩ := Array.back?_eq_some_iff.mp hLast
      have hRecord : (⟨.missing label.kind, label.position⟩ : Fault) =
          (mk label children).fault := by
        simp [fault, hError, Node.label, Node.position, Node.kind]
      rw [Array.pop_push, hRecord] at ih ⊢
      rw [ih fun node hNode => h node (by simp [hNode])]
      exact record_waiting (by simp [isFault, Node.label, hMissing]) waiting found
  | case4 pending found label children hLast hError hMissing hMark ih =>
      obtain ⟨waiting, rfl⟩ := Array.back?_eq_some_iff.mp hLast
      have hFault : (mk label children).isFault = false := by
        simp [isFault, Node.label, hError, hMissing]
      have hNode := h (mk label children) (by simp)
      rw [Array.pop_push] at ih ⊢
      rw [flatMap_topmostFaults_push, topmostFaults_of_not_isFault hFault,
        ih fun node hWaiting => ?_]
      · simp [Node.children]
      · rw [Array.toList_appendList, List.mem_append, List.mem_reverse] at hWaiting
        rcases hWaiting with hOld | hChild
        · exact h node (by simp [hOld])
        · exact hNode.of_child hChild
  | case5 pending found label children hLast hError hMissing hMark ih =>
      obtain ⟨waiting, rfl⟩ := Array.back?_eq_some_iff.mp hLast
      have hNode := h (mk label children) (by simp)
      rw [Array.pop_push] at ih ⊢
      rw [flatMap_topmostFaults_push, hNode.topmostFaults_eq_nil (Bool.eq_false_iff.mpr hMark),
        List.nil_append, ih fun node hNode => h node (by simp [hNode])]

/-- Where the marks of a tree are right, the faults on record are all that have no fault above
them, once each and in preorder, with their positions and what is wrong there. There is one exactly
if the tree is marked as faulty, so that what is passed over hides none. -/
theorem faults_eq_topmost (h : root.WellMarked) :
    (root.faults.map fun fault => (fault.position, fault.message)) =
        (root.topmostFaults.map fun node =>
          (node.position,
            if node.label.isError then "syntax error" else "missing `" ++ node.kind.name ++ "`")) ∧
      (root.faults ≠ [] ↔ root.label.hasError = true) := by
  have hFaults : root.faults = root.topmostFaults.map fault := by
    rw [faults, collectFaults_eq #[root] #[] (by simpa using h)]
    simp
  refine ⟨?_, ?_⟩
  · rw [hFaults, List.map_map]
    refine List.map_congr_left fun node _ => ?_
    cases hError : node.label.isError <;> simp [fault, Fault.message, hError]
  · rw [hFaults, h root (mem_preorder_self root), ne_eq, List.map_eq_nil_iff,
      topmostFaults_eq_nil_iff, Bool.not_eq_false]

/-- The tree of a statement and a call that is not finished. In the error in its arguments an
identifier is missing as well. -/
def unfinishedCall : Node :=
  .ofRows "a; f(@ b"
    [⟨none, "translation_unit", true, false, false, true, none, 0, 8⟩,
      ⟨some 0, "expression_statement", true, false, false, false, none, 0, 2⟩,
      ⟨some 1, "identifier", true, false, false, false, none, 0, 1⟩,
      ⟨some 0, "expression_statement", true, false, false, true, none, 3, 8⟩,
      ⟨some 3, "call_expression", true, false, false, true, none, 3, 8⟩,
      ⟨some 4, "identifier", true, false, false, false, some "function", 3, 4⟩,
      ⟨some 4, "argument_list", true, false, false, true, some "arguments", 4, 8⟩,
      ⟨some 6, "ERROR", true, true, false, true, none, 5, 6⟩,
      ⟨some 7, "identifier", true, false, true, true, none, 6, 6⟩,
      ⟨some 6, "identifier", true, false, false, false, none, 7, 8⟩,
      ⟨some 6, ")", false, false, true, true, none, 8, 8⟩,
      ⟨some 3, ";", false, false, true, true, none, 8, 8⟩]

/-- The identifier that is missing below the error is not reported, and the two tokens that are
missing after it are. -/
theorem faults_eq_topmost_unfinishedCall :
    unfinishedCall.WellMarked ∧
      (unfinishedCall.faults.map fun fault => (fault.position, fault.message)) =
        [(⟨1, 6⟩, "syntax error"), (⟨1, 9⟩, "missing `)`"), (⟨1, 9⟩, "missing `;`")] ∧
      unfinishedCall.faults ≠ [] := by
  have hMarked : unfinishedCall.WellMarked := by decide +kernel
  obtain ⟨hFaults, hFound⟩ := faults_eq_topmost hMarked
  exact ⟨hMarked, hFaults.trans (by decide +kernel), hFound.mpr (by decide +kernel)⟩

end TruthLint.Cst.Node
