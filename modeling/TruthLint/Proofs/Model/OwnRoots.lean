import TruthLint.Proofs.Model.Reached

/-! The roots that belong to a scope. What is recorded inside a lambda, a class or any other scope
that an entry opens belongs to that scope or to newer ones, so that an entry adds to the scope in
which it is met no more than what it evaluates there itself. -/

namespace TruthLint

open Cst

mutual

/-- What an entry that is met in a scope evaluates in that scope. Without a path a namespace is no
scope of its own. -/
def Entry.ownRoots (scope : Nat) : Entry → List Root
  | .root seed context => [⟨seed.expr, scope, context⟩]
  | .nameSpace [] _ body => Entry.ownRootsAll scope body
  | .nameSpace (_ :: _) _ _ | .var _ _ _ | .function _ _ _ | .scope _ _ _ _
  | .definition _ _ _ _ _ => []

def Entry.ownRootsAll (scope : Nat) : List Entry → List Root
  | [] => []
  | entry :: entries => entry.ownRoots scope ++ Entry.ownRootsAll scope entries

end

namespace Outline

/-- What some entries that are met in a scope evaluate in that scope, in order. -/
def ownRoots (scope : Nat) (entries : List Entry) : List Root := entries.flatMap (·.ownRoots scope)

theorem ownRootsAll_eq (scope : Nat) (entries : List Entry) :
    Entry.ownRootsAll scope entries = ownRoots scope entries := by
  induction entries with
  | nil => rfl
  | cons entry entries ih => rw [Entry.ownRootsAll, ih, ownRoots, ownRoots, List.flatMap_cons]

/-- What some entries evaluate in a scope is evaluated in their order. -/
theorem ownRoots_append (scope : Nat) (first second : List Entry) :
    ownRoots scope (first ++ second) = ownRoots scope first ++ ownRoots scope second :=
  List.flatMap_append

theorem ownRoots_flatMap {α : Type} (scope : Nat) (as : List α) (f : α → List Entry) :
    ownRoots scope (as.flatMap f) = as.flatMap fun a => ownRoots scope (f a) :=
  List.flatMap_assoc

/-- A lambda is a scope of its own. -/
theorem ownRoots_lambdas (scope : Nat) (node : Node) :
    ownRoots scope (ofNode node .lambdas) = [] := by
  induction node using Node.children_induction with
  | h node ih =>
      rw [ofNode_eq, step, lambdas]
      split
      · rfl
      · rw [each_partsOf, ownRoots_flatMap, List.flatMap_eq_nil_iff]
        exact fun child hChild => ih child (List.mem_of_mem_filter hChild)

/-- The body of a class is a scope of its own. -/
theorem ownRoots_typeSpecifier (scope : Nat) (node : Node) :
    ownRoots scope (ofNode node .typeSpecifier) = [] := by
  rw [ofNode_eq, step]
  split
  · rw [classBody]
    split
    · rfl
    · rfl
  · rfl

/-- Types evaluate nothing in the scope in which they are written. A class body in them is a scope
of its own. -/
theorem ownRoots_types (scope : Nat) (types : List Node) :
    ownRoots scope (types.flatMap fun type => ofNode type .typeSpecifier) = [] := by
  rw [ownRoots_flatMap, List.flatMap_eq_nil_iff]
  exact fun type _ => ownRoots_typeSpecifier scope type

/-- Names are declared without anything being evaluated. -/
theorem ownRoots_entries (scope : Nat) (base : VariableType) (declared : Declared) :
    ownRoots scope (declared.entries base) = [] := by
  cases declared with
  | var | unnamed => rfl
  | function name indirect line =>
      rw [Declared.entries]
      split
      · rfl
      · rfl

/-- An expression is evaluated in its scope once, and the lambdas in it are scopes of their own. -/
theorem ownRoots_root (scope : Nat) (seed : Seed) (context : RootContext) (node : Node) :
    ownRoots scope (.root seed context :: lambdas node (partsOf node)) =
      [⟨seed.expr, scope, context⟩] := by
  have hLambdas := ownRoots_lambdas scope node
  rw [ofNode_eq, step] at hLambdas
  rw [← List.singleton_append, ownRoots_append, hLambdas]
  rfl

/-- A variable that starts with an expression is assigned to it. -/
theorem ownRoots_initializer (scope : Nat) {value : Node} (h : value.kind.isExpression = true)
    (name : String) (pos : Position) (operator : Option Position) (context : RootContext) :
    ownRoots scope (ofNode value (.initializer (some (name, pos)) operator context)) =
      [⟨.assign (operator.getD value.position) false (.var pos name) (.ofNode value), scope,
        context⟩] := by
  rw [ofNode_eq, step, initializer, if_pos h]
  exact ownRoots_root scope _ context value

/-- Of a list of values each expression stands for itself. -/
theorem ownRoots_initializer_list (scope : Nat) {value : Node}
    (h : value.kind.isExpression = false) (target : Option (String × Position))
    (operator : Option Position) (context : RootContext) :
    ownRoots scope (ofNode value (.initializer target operator context)) =
      (value.contents.filter (·.kind.isExpression)).map fun element =>
        ⟨.ofNode element, scope, context⟩ := by
  have hElement (element : Node) : ownRoots scope (ofNode element (.evaluated context)) =
      if element.kind.isExpression then [⟨.ofNode element, scope, context⟩] else [] := by
    rw [ofNode_eq, step]
    split
    · exact ownRoots_root scope (.expression element) context element
    · rfl
  rw [ofNode_eq, step, initializer.eq_def, if_neg (by simp [h]), each_partsOf, ownRoots_flatMap]
  simp only [hElement, Node.contents]
  induction value.children.filter Node.isContent with
  | nil => rfl
  | cons element elements ih =>
      rw [List.flatMap_cons, ih, List.filter_cons]
      split
      · rfl
      · rfl

end Outline

namespace Model

variable {model : Model} {current outer : Nat}

/-- The roots of a model in a scope, in order. -/
def rootsIn (model : Model) (scope : Nat) : List Root :=
  model.roots.toList.filter (·.scope == scope)

theorem mem_roots_of_mem_rootsIn {scope : Nat} {root : Root} (h : root ∈ model.rootsIn scope) :
    root ∈ model.roots :=
  Array.mem_toList_iff.mp (List.mem_of_mem_filter h)

theorem rootsIn_of_roots_eq {before : Model} (h : model.roots = before.roots) (scope : Nat) :
    model.rootsIn scope = before.rootsIn scope := by
  rw [rootsIn, h, rootsIn]

@[simp] theorem rootsIn_createScope (model : Model) (kind : ScopeKind) (name : Option String)
    (parent line scope : Nat) :
    (model.createScope kind name parent line).rootsIn scope = model.rootsIn scope := rfl

/-- A child is created after its parent. -/
theorem Consistent.lt_of_findChild? (h : model.Consistent) {parent child : Nat} {name : String}
    (hFound : model.scopes.findChild? parent name = some child) : parent < child := by
  obtain ⟨scope, hGet, hParent⟩ := h.rooted.get?_of_mem_children (List.mem_of_find?_eq_some hFound)
  have hLink : model.scopes.parent? child = some parent := by
    rw [ScopeTree.parent?, hGet, Option.bind_some, hParent]
  exact h.rooted.wellFormed.parent_lt hLink

/-- So a child that is opened, old or new, comes after the scope in which it is looked for. -/
theorem Consistent.lt_openChild (h : model.Consistent) (hCurrent : current < model.scopes.size)
    (name : String) (line : Nat) : current < (model.openChild current name line).2 := by
  unfold Model.openChild
  split
  next child hFound => exact h.lt_of_findChild? hFound
  next => exact hCurrent

/-- A path leads to a newer scope, unless it is empty. -/
theorem Consistent.le_openPath (h : model.Consistent) (hCurrent : current < model.scopes.size)
    (line : Nat) (path : List String) : current ≤ (model.openPath current line path).2 := by
  induction path generalizing model current with
  | nil => exact Nat.le_refl _
  | cons name path ih =>
      obtain ⟨hOpened, hLt⟩ := h.openChild hCurrent name line
      exact Nat.le_trans (Nat.le_of_lt (h.lt_openChild hCurrent name line)) (ih hOpened hLt)

/-- The end of a path that is not empty comes after its beginning. -/
theorem Consistent.lt_openPath (h : model.Consistent) (hCurrent : current < model.scopes.size)
    (line : Nat) (name : String) (path : List String) :
    current < (model.openPath current line (name :: path)).2 := by
  obtain ⟨hOpened, hLt⟩ := h.openChild hCurrent name line
  exact Nat.lt_of_lt_of_le (h.lt_openChild hCurrent name line) (hOpened.le_openPath hLt line path)

mutual

/-- An entry adds its own roots to the scope in which it is met, and none to older scopes. -/
theorem rootsIn_record {model : Model} {current outer : Nat} (h : model.Consistent)
    (hCurrent : current < model.scopes.size) (hOuter : outer ≤ current) :
    ∀ {entry : Entry}, entry.Regular → (record current model entry).rootsIn outer =
      model.rootsIn outer ++ if outer = current then entry.ownRoots current else []
  | .var _ _ _, _ => by simp [record, Entry.ownRoots, rootsIn, declareVariable]
  | .function name returns line, _ => by
      have hDeclared := roots_declareNamed model current name returns line
      simp [record, Entry.ownRoots, rootsIn_of_roots_eq hDeclared]
  | .root seed context, _ => by
      by_cases hEq : outer = current
      · simp [record, Entry.ownRoots, rootsIn, addRoot, hEq]
      · simp [record, rootsIn, addRoot, hEq, Ne.symm hEq]
  | .scope kind name line body, .scope notGlobal notNameSpace entries => by
      obtain ⟨hScope, hLt⟩ := h.createScope kind name line hCurrent notGlobal
        fun hKind => absurd hKind notNameSpace
      have hBody := rootsIn_recordAll hScope hLt (by omega : outer ≤ model.scopes.size) entries
      rw [record, hBody, if_neg (by omega)]
      simp [Entry.ownRoots]
  | .nameSpace path line body, .nameSpace entries => by
      obtain ⟨hScope, hLt⟩ := h.openPath hCurrent line path
      have hLe := h.le_openPath hCurrent line path
      have hBody := rootsIn_recordAll hScope hLt (Nat.le_trans hOuter hLe) entries
      have hOpened := roots_openPath model current line path
      cases path with
      | nil =>
          rw [Entry.ownRoots, Outline.ownRootsAll_eq]
          exact hBody
      | cons name path =>
          have hNewer := h.lt_openPath hCurrent line name path
          rw [record, hBody, if_neg (by omega), rootsIn_of_roots_eq hOpened]
          simp [Entry.ownRoots]
  | .definition none name returns line body, .definition entries => by
      obtain ⟨hScope, hLt⟩ := h.createScope .function name line hCurrent (by decide) (by simp)
      have hBody := rootsIn_recordAll hScope hLt (by omega : outer ≤ model.scopes.size) entries
      rw [record, hBody, if_neg (by omega)]
      simp [Entry.ownRoots]
  | .definition (some declared) name returns line body, .definition entries => by
      obtain ⟨hOwner, hOwnerLt⟩ := h.declareNamed hCurrent declared returns line
      obtain ⟨hScope, hLt⟩ :=
        hOwner.createScope .function name line hOwnerLt (by decide) (by simp)
      have hSize := (Extends.declareNamed model current declared returns line).lt_size hCurrent
      have hBody := rootsIn_recordAll hScope hLt (by omega : outer ≤ _) entries
      have hDeclared := roots_declareNamed model current declared returns line
      rw [record, hBody, if_neg (by omega)]
      simp [Entry.ownRoots, rootsIn_of_roots_eq hDeclared]

/-- Entries add to the roots of a scope only if they are met in it. What is recorded inside them
goes to scopes that come later. -/
theorem rootsIn_recordAll {model : Model} {current outer : Nat} (h : model.Consistent)
    (hCurrent : current < model.scopes.size) (hOuter : outer ≤ current) :
    ∀ {entries : List Entry}, Outline.Regular entries →
      (recordAll current model entries).rootsIn outer =
        model.rootsIn outer ++ if outer = current then Outline.ownRoots current entries else []
  | [], _ => by simp [recordAll, Outline.ownRoots]
  | entry :: entries, hRegular => by
      obtain ⟨hEntry, hEntries⟩ := List.forall_mem_cons.mp hRegular
      have hNext := consistent_record h hCurrent hEntry
      have hLt := (extends_record current model entry).lt_size hCurrent
      rw [recordAll, rootsIn_recordAll hNext hLt hOuter hEntries,
        rootsIn_record h hCurrent hOuter hEntry, List.append_assoc]
      congr 1
      split
      · rfl
      · rfl

end

/-- What reading a node adds to the roots of the scope in which it is read. -/
theorem Visits.rootsIn_eq {root node : Node} {role : Role} {scope : Nat} {before : Model}
    (h : Visits root node role scope before) :
    (recordAll scope before (Outline.ofNode node role)).rootsIn scope =
      before.rootsIn scope ++ Outline.ownRoots scope (Outline.ofNode node role) := by
  obtain ⟨hConsistent, hScope⟩ := h.consistent
  rw [rootsIn_recordAll hConsistent hScope (Nat.le_refl scope) (Outline.regular_ofNode node role),
    if_pos rfl]

end Model

end TruthLint
