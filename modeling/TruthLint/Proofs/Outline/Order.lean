import Mathlib.Data.List.Sort
import TruthLint.Proofs.Outline.Lowered

/-! The order in which a tree is read for expressions. Where the children that a node asks for by
role stand in the order in which it asks for them, expressions are read in preorder, and an
expression is followed by the ones in its lambdas before anything behind it is read. -/

namespace TruthLint

open Cst

open TruthLint.Expr (childrenIn)

namespace Outline

/-- The children that are read for expressions, in the order in which they are read. Nodes that ask
for a single child, or for all contents, have no choice. -/
def consulted (node : Node) : List Node :=
  match node.kind with
  | .declaration | .conditionDeclaration =>
    childrenIn node [.type] ++ node.children.filter (Node.hasField .declarator)
  | .fieldDeclaration => childrenIn node [.type, .defaultValue]
  | .ifStatement => childrenIn node [.condition, .consequence, .alternative]
  | .whileStatement | .switchStatement => childrenIn node [.condition, .body]
  | .doStatement => childrenIn node [.body, .condition]
  | .forStatement => childrenIn node [.initializer, .condition, .update, .body]
  | .forRangeLoop => childrenIn node [.right, .body]
  | _ => []

/-- What is read for expressions is found among the children. -/
theorem consulted_subset (node : Node) : consulted node ⊆ node.children := by
  have hRoles (fields : List Field) : childrenIn node fields ⊆ node.children := by
    intro child hChild
    obtain ⟨field, -, hFound⟩ := List.mem_flatMap.mp hChild
    exact Node.mem_of_child? (Option.mem_toList.mp hFound)
  unfold consulted
  split
  case h_1 | h_2 => exact List.append_subset.mpr ⟨hRoles _, List.filter_subset_self _⟩
  case h_10 => exact List.nil_subset _
  all_goals exact hRoles _

end Outline

namespace Cst.Node

/-- The children that are read for expressions stand in the order in which they are read, as the
grammar lays them out. -/
def FieldsInOrder (node : Node) : Prop :=
  ∀ inner ∈ node.preorder, (Outline.consulted inner).Sublist inner.children

/-- If the parts stand in order throughout a tree, they do in all that is below a node of it. -/
theorem FieldsInOrder.of_mem {node inner : Node} (h : node.FieldsInOrder)
    (hInner : inner ∈ node.preorder) : inner.FieldsInOrder :=
  fun part hPart => h part (preorder_subset hInner hPart)

/-- Row numbers tell the order of children. -/
theorem FieldsInOrder.of_rows {node : Node}
    (h : ∀ inner ∈ node.preorder, (inner.children.map (·.label.row)).Pairwise (· < ·) ∧
      ((Outline.consulted inner).map (·.label.row)).Pairwise (· < ·)) : node.FieldsInOrder := by
  intro inner hInner
  obtain ⟨hChildren, hConsulted⟩ := h inner hInner
  let precedes (first second : Node) : Prop := first.label.row < second.label.row
  have : Std.Antisymm precedes := ⟨fun _ _ hRows hRows' => absurd hRows (Nat.lt_asymm hRows')⟩
  have : Std.Irrefl precedes := ⟨fun _ => Nat.lt_irrefl _⟩
  have hConsulted : (Outline.consulted inner).Pairwise precedes := List.pairwise_map.mp hConsulted
  have hSubperm := List.subperm_of_subset hConsulted.nodup (Outline.consulted_subset inner)
  exact List.sublist_of_subperm_of_pairwise hSubperm hConsulted (List.pairwise_map.mp hChildren)

end Cst.Node

/-- The expressions in the lambdas of an expression. -/
def Seed.lambdaSeeds (seed : Seed) : List Seed :=
  Entry.seedsAll (Outline.ofNode seed.node .lambdas)

/-- Expressions are read from some nodes in order. The whole tree of an expression comes between
what is read before it and what is read after its lambdas. -/
structure InOrder (seeds : List Seed) (nodes : List Node) : Prop where
  sublist : (seeds.map Seed.node).Sublist nodes
  apart : ∀ before seed after, seeds = before ++ seed :: after →
    ∃ outside, after = seed.lambdaSeeds ++ outside ∧
      (before.map Seed.node ++ seed.node.preorder ++ outside.map Seed.node).Sublist nodes

namespace InOrder

variable {seeds others : List Seed} {nodes behind : List Node}

theorem nil (nodes : List Node) : InOrder [] nodes where
  sublist := List.nil_sublist _
  apart before seed after hSeeds := by simp at hSeeds

/-- More nodes that nothing is read from may stand in between. -/
theorem mono (h : InOrder seeds nodes) (hNodes : nodes.Sublist behind) : InOrder seeds behind where
  sublist := h.sublist.trans hNodes
  apart before seed after hSeeds := by
    obtain ⟨outside, hAfter, hSublist⟩ := h.apart before seed after hSeeds
    exact ⟨outside, hAfter, hSublist.trans hNodes⟩

/-- What is read from some nodes and then from others is read from all of them in order. -/
theorem append (h : InOrder seeds nodes) (hOthers : InOrder others behind) :
    InOrder (seeds ++ others) (nodes ++ behind) where
  sublist := by
    rw [List.map_append]
    exact h.sublist.append hOthers.sublist
  apart before seed after hSeeds := by
    have hSecond (between : List Seed) (hBefore : before = seeds ++ between)
        (hRest : others = between ++ seed :: after) : ∃ outside,
          after = seed.lambdaSeeds ++ outside ∧ (before.map Seed.node ++ seed.node.preorder ++
            outside.map Seed.node).Sublist (nodes ++ behind) := by
      obtain ⟨outside, hAfter, hSublist⟩ := hOthers.apart between seed after hRest
      refine ⟨outside, hAfter, ?_⟩
      rw [hBefore, List.map_append, List.append_assoc, List.append_assoc]
      exact h.sublist.append (by rwa [← List.append_assoc])
    obtain hSplit | hSplit := List.append_eq_append_iff.mp hSeeds
    · obtain ⟨between, hBefore, hRest⟩ := hSplit
      exact hSecond between hBefore hRest
    · obtain ⟨rest, hFirst, hRest⟩ := hSplit
      cases rest with
      | nil => exact hSecond [] (by simpa using hFirst.symm) (by simpa using hRest.symm)
      | cons first rest =>
          obtain ⟨rfl, rfl⟩ := List.cons_eq_cons.mp hRest
          obtain ⟨outside, rfl, hSublist⟩ := h.apart before seed rest hFirst
          refine ⟨outside ++ others, List.append_assoc _ _ _, ?_⟩
          rw [List.map_append, ← List.append_assoc]
          exact hSublist.append hOthers.sublist

/-- An expression is followed by the ones in its lambdas. -/
theorem whole {seed : Seed} (h : InOrder seed.lambdaSeeds nodes)
    (hTree : seed.node.preorder = seed.node :: nodes) :
    InOrder (seed :: seed.lambdaSeeds) seed.node.preorder where
  sublist := by
    rw [hTree, List.map_cons]
    exact h.sublist.cons_cons _
  apart before other after hSeeds := by
    cases before with
    | nil =>
        obtain ⟨rfl, rfl⟩ := List.cons_eq_cons.mp hSeeds
        refine ⟨[], (List.append_nil _).symm, ?_⟩
        rw [List.map_nil, List.nil_append, List.append_nil]
    | cons first before =>
        obtain ⟨rfl, hRest⟩ := List.cons_eq_cons.mp hSeeds
        obtain ⟨outside, hAfter, hSublist⟩ := h.apart before other after hRest
        refine ⟨outside, hAfter, ?_⟩
        rw [hTree]
        exact hSublist.cons_cons _

end InOrder

namespace Outline

/-- The entries are read from some nodes, one after the other, each in a role. -/
def ReadFrom (nodes : List Node) (entries : List Entry) : Prop :=
  ∃ visits : List (Node × Role), (visits.map Prod.fst).Sublist nodes ∧
    Entry.seedsAll entries = Entry.seedsAll (visits.flatMap fun visit => ofNode visit.1 visit.2)

namespace ReadFrom

variable {nodes behind : List Node} {entries others : List Entry}

/-- Names that are declared in between do not matter to what is read. -/
theorem of_seeds_eq (h : ReadFrom nodes entries)
    (hSeeds : Entry.seedsAll others = Entry.seedsAll entries) : ReadFrom nodes others := by
  obtain ⟨visits, hNodes, hEntries⟩ := h
  exact ⟨visits, hNodes, hSeeds.trans hEntries⟩

theorem nil (h : Entry.seedsAll entries = []) : ReadFrom [] entries :=
  ⟨[], .refl _, h⟩

/-- What is read from some nodes is read from more of them that stand in the same order. -/
theorem mono (h : ReadFrom nodes entries) (hNodes : nodes.Sublist behind) :
    ReadFrom behind entries := by
  obtain ⟨visits, hVisits, hEntries⟩ := h
  exact ⟨visits, hVisits.trans hNodes, hEntries⟩

/-- What comes first is read from nodes that come first. -/
theorem append (h : ReadFrom nodes entries) (hOthers : ReadFrom behind others) :
    ReadFrom (nodes ++ behind) (entries ++ others) := by
  obtain ⟨visits, hVisits, hEntries⟩ := h
  obtain ⟨later, hLater, hBehind⟩ := hOthers
  refine ⟨visits ++ later, ?_, ?_⟩
  · rw [List.map_append]
    exact hVisits.append hLater
  · rw [List.flatMap_append, Entry.seedsAll_append, Entry.seedsAll_append, hEntries, hBehind]

/-- Nodes that are read in one role are read in their order. -/
theorem sameRole (nodes : List Node) (role : Role) :
    ReadFrom nodes (nodes.flatMap fun node => ofNode node role) := by
  refine ⟨nodes.map fun node => (node, role), ?_, ?_⟩
  · rw [List.map_map, Function.comp_def, List.map_id']
  · rw [List.flatMap_map]

/-- The child in a role is read alone. -/
theorem first (node : Node) (field : Field) (role : Role) :
    ReadFrom (childrenIn node [field]) ((partsOf node).first field role) := by
  rw [first_partsOf, childrenIn, List.flatMap_singleton]
  exact sameRole _ role

/-- Children that are chosen by what they are keep their order. -/
theorem each (node : Node) (p : Node → Bool) (role : Role) :
    ReadFrom (node.children.filter p) ((partsOf node).each p role) := by
  rw [each_partsOf]
  exact sameRole _ role

/-- Expressions are read from nodes in order, if they are so from the tree of each of them. -/
theorem inOrder (h : ReadFrom nodes entries)
    (hNodes : ∀ node ∈ nodes, ∀ role, InOrder (Entry.seedsAll (ofNode node role)) node.preorder) :
    InOrder (Entry.seedsAll entries) (nodes.flatMap Node.preorder) := by
  obtain ⟨visits, hVisits, hEntries⟩ := h
  have hEach : ∀ visit ∈ visits,
      InOrder (Entry.seedsAll (ofNode visit.1 visit.2)) visit.1.preorder := fun visit hVisit =>
    hNodes visit.1 (hVisits.subset (List.mem_map_of_mem hVisit)) visit.2
  rw [hEntries]
  apply InOrder.mono _ (hVisits.flatMap Node.preorder)
  clear hVisits hEntries
  induction visits with
  | nil => exact .nil _
  | cons visit visits ih =>
      rw [List.flatMap_cons, Entry.seedsAll_append, List.map_cons, List.flatMap_cons]
      exact (hEach visit List.mem_cons_self).append
        (ih fun later hLater => hEach later (List.mem_cons_of_mem _ hLater))

end ReadFrom

/-- What a node adds in a role: what is read from its children in their order, or itself as a whole
expression with the lambdas in it. -/
inductive Adds (node : Node) (entries : List Entry) : Prop where
  | parts (read : ReadFrom node.children entries)
  | whole (seed : Seed) (context : RootContext) (ofSelf : seed.node = node)
      (lambdas : entries = .root seed context :: lambdas node (partsOf node))

section

variable {node : Node}

/-- What is read from the children in some roles, and then from those in others. -/
theorem ReadFrom.roles {entries later : List Entry} {fields others : List Field}
    (h : ReadFrom (childrenIn node fields) entries)
    (hLater : ReadFrom (childrenIn node others) later) :
    ReadFrom (childrenIn node (fields ++ others)) (entries ++ later) := by
  rw [childrenIn, List.flatMap_append]
  exact h.append hLater

/-- A single child, or none. -/
theorem childrenIn_singleton_sublist (node : Node) (field : Field) :
    (childrenIn node [field]).Sublist node.children := by
  rw [childrenIn, List.flatMap_singleton]
  exact (node.child?_sublist field).trans List.filter_sublist

/-- Nodes that ask for one child only read it where it stands. -/
theorem ReadFrom.child (node : Node) (field : Field) (role : Role) :
    ReadFrom node.children ((partsOf node).first field role) :=
  (first node field role).mono (childrenIn_singleton_sublist node field)

theorem ReadFrom.contents (node : Node) (p : Node → Bool) (role : Role) :
    ReadFrom node.children ((partsOf node).each p role) :=
  (each node p role).mono List.filter_sublist

theorem ReadFrom.none {entries : List Entry} (h : Entry.seedsAll entries = []) :
    ReadFrom node.children entries :=
  (nil h).mono (List.nil_sublist _)

/-- A scope around entries does not change what they are read from. -/
theorem ReadFrom.scope {body : List Entry} (h : ReadFrom node.children body) (kind : ScopeKind)
    (name : Option String) (line : Nat) : ReadFrom node.children [.scope kind name line body] :=
  h.of_seeds_eq (by rw [Entry.seedsAll_singleton, Entry.seeds])

/-- Parameters in front of a body are not read for expressions. -/
theorem ReadFrom.withParameters {body : List Entry} (h : ReadFrom node.children body)
    (parameters : Option Node) :
    ReadFrom node.children ((parameters.map parameterEntries).getD [] ++ body) :=
  h.of_seeds_eq (by rw [Entry.seedsAll_append, seedsAll_parameterEntries, List.nil_append])

/-- Lambdas are looked for in all contents, and inside a lambda only its body is read. -/
theorem readFrom_lambdas (node : Node) : ReadFrom node.children (lambdas node (partsOf node)) := by
  unfold lambdas
  split_ifs
  · exact ((ReadFrom.child node .body .members).withParameters _).scope _ _ _
  · exact .contents node _ _

theorem readFrom_classBody (node : Node) :
    ReadFrom node.children (classBody node (partsOf node)) := by
  unfold classBody
  split
  · exact (ReadFrom.child node .body .members).scope _ _ _
  · exact .none rfl

theorem readFrom_nameSpace (node : Node) :
    ReadFrom node.children (nameSpace node (partsOf node)) := by
  have hBody := ReadFrom.child node .body .members
  unfold nameSpace
  split
  · exact .none rfl
  · exact hBody
  · exact hBody.of_seeds_eq (by rw [Entry.seedsAll_singleton, Entry.seeds])

/-- The name and the parameters of a function are not read, and its body is. -/
theorem readFrom_functionDefinition (node : Node) :
    ReadFrom node.children (functionDefinition node (partsOf node)) := by
  unfold functionDefinition
  split
  · have hBody := ReadFrom.child node .body .members
    apply (hBody.withParameters _).of_seeds_eq
    rw [Entry.seedsAll_singleton, Entry.seeds]
  · exact .none rfl

/-- The branches of a conditional inclusion are read as they stand. -/
theorem readFrom_inclusion (node : Node) :
    ReadFrom node.children (inclusion node (partsOf node)) := by
  unfold inclusion
  exact .contents node _ _

theorem readFrom_initDeclarator (node : Node) (base : VariableType) (context : RootContext) :
    ReadFrom node.children (initDeclarator node (partsOf node) base context) :=
  ((ReadFrom.nil (seedsAll_entries base _)).append (.first node _ _)).mono
    (childrenIn_singleton_sublist node .value)

/-- The type of a declaration is read before its declarators. -/
theorem readFrom_declaration (node : Node) (context : RootContext) :
    ReadFrom (childrenIn node [.type] ++ node.children.filter (Node.hasField .declarator))
      (declaration node (partsOf node) context) :=
  (ReadFrom.first node _ _).append (.each node _ _)

/-- The type of a member is read before its value. -/
theorem readFrom_fieldDeclaration (node : Node) :
    ReadFrom (childrenIn node [.type, .defaultValue]) (fieldDeclaration node (partsOf node)) := by
  have hDeclared (base : VariableType) (declared : List Declared) :
      Entry.seedsAll (declared.flatMap (·.entries base)) = [] := by
    rw [Entry.seedsAll_eq_flatMap, List.flatMap_assoc, List.flatMap_eq_nil_iff]
    intro declared _
    rw [← Entry.seedsAll_eq_flatMap, seedsAll_entries]
  have hNames (base : VariableType) (declared : List Declared) :
      ReadFrom (childrenIn node []) (declared.flatMap (·.entries base)) := .nil (hDeclared _ _)
  exact ((ReadFrom.first node .type _).roles (hNames _ _)).roles (.first node .defaultValue _)

/-- What a loop goes through is read before what it does, which is the order in which the grammar
puts them. -/
theorem readFrom_rangeLoop (h : (childrenIn node [.right, .body]).Sublist node.children) :
    ReadFrom node.children (rangeLoop node (partsOf node)) := by
  have hName (base : VariableType) (declared : Declared) :
      ReadFrom (childrenIn node []) (declared.entries base) := .nil (seedsAll_entries _ _)
  apply ReadFrom.scope
  apply ReadFrom.mono _ h
  exact ((hName _ _).roles (.first node .right _)).roles (.first node .body _)

/-- An expression is read as a whole, with its lambdas after it. -/
theorem adds_evaluated (node : Node) (context : RootContext) :
    Adds node (evaluated node (partsOf node) context) :=
  .whole (.expression node) context rfl rfl

/-- A value that is an expression is read as a whole, and a list element by element. -/
theorem adds_initializer (node : Node) (target : Option (String × Position))
    (operator : Option Position) (context : RootContext) :
    Adds node (initializer node (partsOf node) target operator context) := by
  unfold initializer
  split_ifs
  · cases target with
    | none => exact adds_evaluated node context
    | some target => exact .whole (.initialization _ _ _ node) context rfl rfl
  · exact .parts (.contents node _ _)

/-- If its parts stand in the order in which they are read, a node adds what it reads in the order
of the text. -/
theorem adds_item (h : (consulted node).Sublist node.children) :
    Adds node (item node (partsOf node)) := by
  have hFirst := ReadFrom.first node
  have hOther : Adds node (if node.kind.isSkipped then []
      else if node.kind.isExpression then evaluated node (partsOf node) .statement
      else (partsOf node).each Node.isContent .item) := by
    split_ifs
    · exact .parts (.none rfl)
    · exact adds_evaluated node _
    · exact .parts (.contents node _ _)
  unfold consulted at h
  unfold item
  cases hKind : node.kind
  all_goals rw [hKind] at h
  case functionDefinition => exact .parts (readFrom_functionDefinition node)
  case declaration => exact .parts ((readFrom_declaration node _).mono h)
  case fieldDeclaration => exact .parts ((readFrom_fieldDeclaration node).mono h)
  case classSpecifier | structSpecifier | unionSpecifier => exact .parts (readFrom_classBody node)
  case namespaceDefinition => exact .parts (readFrom_nameSpace node)
  case preprocIf | preprocIfdef | preprocElif | preprocElifdef | preprocElse =>
    exact .parts (readFrom_inclusion node)
  case compoundStatement => exact .parts ((ReadFrom.contents node _ _).scope _ _ _)
  case ifStatement =>
    have hParts := ((hFirst .condition .condition).roles (hFirst .consequence .item)).roles
      (hFirst .alternative .item)
    exact .parts ((hParts.mono h).scope _ _ _)
  case whileStatement | switchStatement =>
    have hParts := (hFirst .condition .condition).roles (hFirst .body .item)
    exact .parts ((hParts.mono h).scope _ _ _)
  case doStatement =>
    exact .parts (((hFirst .body .item).roles (hFirst .condition .condition)).mono h)
  case forStatement =>
    have hParts := (((hFirst .initializer .item).roles (hFirst .condition .condition)).roles
      (hFirst .update .item)).roles (hFirst .body .item)
    exact .parts ((hParts.mono h).scope _ _ _)
  case forRangeLoop => exact .parts (readFrom_rangeLoop h)
  case returnStatement => exact .parts (.contents node _ _)
  all_goals
    rw [hKind] at hOther
    exact hOther

theorem adds_tested (h : (consulted node).Sublist node.children) :
    Adds node (tested node (partsOf node)) := by
  have hDeclaration (hKind : node.kind = .declaration ∨ node.kind = .conditionDeclaration) :
      Adds node (declaration node (partsOf node) .condition) := by
    apply Adds.parts
    apply (readFrom_declaration node _).mono
    unfold consulted at h
    rcases hKind with hKind | hKind
    all_goals
      rw [hKind] at h
      exact h
  unfold tested
  split
  case h_1 hKind => exact hDeclaration (.inl hKind)
  case h_2 hKind => exact hDeclaration (.inr hKind)
  case h_3 =>
    split_ifs
    · exact adds_evaluated node _
    · exact adds_item h

/-- What is returned has no order of its own to keep. -/
theorem adds_returned (node : Node) : Adds node (returned node (partsOf node)) := by
  unfold returned
  split_ifs
  · exact adds_evaluated node _
  · exact .parts (.contents node _ _)
  · exact .parts (.none rfl)

/-- What a node can add, whatever role it is read in. -/
theorem adds_ofNode (h : (consulted node).Sublist node.children) (role : Role) :
    Adds node (ofNode node role) := by
  rw [ofNode_eq]
  cases role with
  | item => exact adds_item h
  | members => exact .parts (.contents node _ _)
  | lambdas => exact .parts (readFrom_lambdas node)
  | condition =>
      rw [step]
      split_ifs
      · exact .parts (.contents node _ _)
      · exact adds_tested h
  | tested => exact adds_tested h
  | typeSpecifier =>
      rw [step]
      split_ifs
      · exact .parts (readFrom_classBody node)
      · exact .parts (.none rfl)
  | declarator base context =>
      rw [step]
      split_ifs
      · exact .parts (readFrom_initDeclarator node base context)
      · exact .parts (.none (seedsAll_entries base _))
  | initializer target operator context => exact adds_initializer node target operator context
  | evaluated context =>
      rw [step]
      split_ifs
      · exact adds_evaluated node context
      · exact .parts (.none rfl)
  | returned => exact adds_returned node

end

/-- Expressions are read in preorder, in whatever role a tree is read. -/
theorem inOrder_ofNode {node : Node} (h : node.FieldsInOrder) (role : Role) :
    InOrder (Entry.seedsAll (ofNode node role)) node.preorder := by
  induction node using Node.children_induction generalizing role with
  | h node ih =>
      have hBelow {entries : List Entry} (hRead : ReadFrom node.children entries) :
          InOrder (Entry.seedsAll entries) (node.children.flatMap Node.preorder) :=
        hRead.inOrder fun child hChild =>
          ih child hChild (h.of_mem (Node.mem_preorder_of_child hChild child.mem_preorder_self))
      cases adds_ofNode (h node node.mem_preorder_self) role with
      | parts hRead =>
          rw [Node.preorder_eq]
          exact (hBelow hRead).mono (List.sublist_cons_self _ _)
      | whole seed context ofSelf lambdas =>
          subst ofSelf
          have hLambdas : InOrder seed.lambdaSeeds (seed.node.children.flatMap Node.preorder) := by
            rw [Seed.lambdaSeeds, ofNode_eq]
            exact hBelow (readFrom_lambdas seed.node)
          have hSeeds : Entry.seedsAll (ofNode seed.node role) = seed :: seed.lambdaSeeds := by
            rw [lambdas, Entry.seedsAll, Entry.seeds, Seed.lambdaSeeds, ofNode_eq]
            rfl
          rw [hSeeds]
          exact hLambdas.whole (Node.preorder_eq _)

end Outline

end TruthLint
