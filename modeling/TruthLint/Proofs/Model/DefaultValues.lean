import Mathlib.Data.List.Forall2
import TruthLint.Proofs.Model.Members
import TruthLint.Proofs.Model.OwnRoots

/-! Default values of members. A member of a class that starts with an expression is assigned to
it, in the scope of the class. -/

namespace TruthLint

open Cst

/-- A member variable that is declared with a base type, and the value that it starts with. -/
structure Member (base : VariableType) where
  declarator : Node
  value : Option Node
  name : String
  type : VariableType
  pos : Position
  isDeclarator : declarator.label.field = some .declarator
  declares : Declared.ofNode base declarator = .var name type pos
  isValue : ∀ node ∈ value, node.label.field = some .defaultValue

namespace Member

variable {base : VariableType} {members : List (Member base)}

/-- The parts of a declaration that belong to the member. -/
def nodes (m : Member base) : List Node := m.declarator :: m.value.toList

theorem filter_declarator (m : Member base) :
    m.nodes.filter (Node.hasField .declarator) = [m.declarator] := by
  have hValue : m.value.toList.filter (Node.hasField .declarator) = [] := by
    rw [List.filter_eq_nil_iff]
    intro node hNode
    simp [Node.hasField, m.isValue node (Option.mem_toList.mp hNode)]
  rw [nodes, List.filter_cons_of_pos (by simp [Node.hasField, m.isDeclarator]), hValue]

theorem filter_defaultValue (m : Member base) :
    m.nodes.filter (Node.hasField .defaultValue) = m.value.toList := by
  rw [nodes, List.filter_cons_of_neg (by simp [Node.hasField, m.isDeclarator]),
    List.filter_eq_self]
  intro node hNode
  simp [Node.hasField, m.isValue node (Option.mem_toList.mp hNode)]

/-- What the value of a member evaluates in the scope of the class: an assignment to the member if
it is an expression, and the elements of a list. -/
inductive Evaluates (scope : Nat) (m : Member base) : List Root → Prop where
  | absent (noValue : m.value = none) : Evaluates scope m []
  | expression {value : Node} (hasValue : m.value = some value)
      (isExpression : value.kind.isExpression = true) (operator : Position) :
      Evaluates scope m
        [⟨.assign operator false (.var m.pos m.name) (.ofNode value), scope, .initializer⟩]
  | elements {value : Node} (hasValue : m.value = some value)
      (notExpression : value.kind.isExpression = false) :
      Evaluates scope m ((value.contents.filter (·.kind.isExpression)).map fun element =>
        ⟨.ofNode element, scope, .initializer⟩)

/-- A value that is an expression gives one root, and only a list may give more or none. -/
theorem Evaluates.length_eq_one {scope : Nat} {m : Member base} {roots : List Root}
    (h : m.Evaluates scope roots) {value : Node} (hValue : m.value = some value)
    (hExpression : value.kind.isExpression = true) : roots.length = 1 := by
  cases h with
  | absent noValue => simp [noValue] at hValue
  | expression => rfl
  | elements hasValue notExpression =>
      obtain rfl := Option.some.inj (hasValue.symm.trans hValue)
      simp [notExpression] at hExpression

/-- Whatever the value is, what it contributes is what the member evaluates with it. -/
theorem exists_evaluates (scope : Nat) (m : Member base) (operator : Option Position) :
    m.Evaluates scope (Outline.ownRoots scope (m.value.toList.flatMap fun value =>
      Outline.ofNode value (.initializer (some (m.name, m.pos)) operator .initializer))) := by
  cases hValue : m.value with
  | none => exact .absent hValue
  | some value =>
      rw [Option.toList_some, List.flatMap_singleton]
      cases hKind : value.kind.isExpression with
      | true =>
          rw [Outline.ownRoots_initializer scope hKind]
          exact .expression hValue hKind _
      | false =>
          rw [Outline.ownRoots_initializer_list scope hKind]
          exact .elements hValue hKind

end Member

/-- A declaration of member variables, each followed by its value if it has one. -/
structure FieldDeclaration (node : Node) where
  isField : node.kind = .fieldDeclaration
  members : List (Member (baseType node))
  inOrder : node.children.filter
      (fun child => child.hasField .declarator || child.hasField .defaultValue) =
    members.flatMap Member.nodes

namespace FieldDeclaration

variable {node : Node} (d : FieldDeclaration node)

/-- The children in a role are those of the members, one member after the other. -/
theorem filter_children {field : Field} (h : field = .declarator ∨ field = .defaultValue) :
    node.children.filter (Node.hasField field) =
      d.members.flatMap fun m => m.nodes.filter (Node.hasField field) := by
  rw [← List.filter_flatMap, ← d.inOrder, List.filter_filter]
  refine List.filter_congr fun child _ => ?_
  rcases h with rfl | rfl
  · exact (Bool.and_eq_left_iff_imp.mpr fun hField => by simp [hField]).symm
  · exact (Bool.and_eq_left_iff_imp.mpr fun hField => by simp [hField]).symm

/-- Each member has one declarator. -/
theorem declarators :
    node.children.filter (Node.hasField .declarator) = d.members.map Member.declarator := by
  rw [d.filter_children (.inl rfl), List.map_eq_flatMap]
  exact List.flatMap_congr fun m _ => m.filter_declarator

theorem values :
    node.children.filter (Node.hasField .defaultValue) =
      d.members.flatMap fun m => m.value.toList := by
  rw [d.filter_children (.inr rfl)]
  exact List.flatMap_congr fun m _ => m.filter_defaultValue

/-- The names come before anything that is evaluated, and the first value is given to the last of
them. -/
theorem ofNode_eq : Outline.ofNode node .item =
    (node.child? .type).toList.flatMap (fun type => Outline.ofNode type .typeSpecifier) ++
      (d.members.flatMap fun m => (Declared.var m.name m.type m.pos).entries (baseType node)) ++
      (node.child? .defaultValue).toList.flatMap fun value => Outline.ofNode value
        (.initializer (d.members.getLast?.map fun m => (m.name, m.pos))
          (Outline.equalsPosition? node) .initializer) := by
  have hDeclared : (node.children.filter (Node.hasField .declarator)).map
      (Declared.ofNode (baseType node)) = d.members.map fun m => .var m.name m.type m.pos := by
    rw [d.declarators, List.map_map]
    exact List.map_congr_left fun m _ => m.declares
  have hLast : (d.members.map fun m => Declared.var m.name m.type m.pos).getLast?.bind
      (·.target?) = d.members.getLast?.map fun m => (m.name, m.pos) := by
    rw [List.getLast?_map]
    cases d.members.getLast? with
    | none => rfl
    | some m => rfl
  rw [Outline.ofNode_fieldDeclaration d.isField, Outline.fieldDeclaration, hDeclared, hLast,
    Outline.first_partsOf, Outline.first_partsOf, List.flatMap_map]

/-- The names are declared without anything being evaluated. -/
theorem ownRoots_eq (scope : Nat) : Outline.ownRoots scope (Outline.ofNode node .item) =
    Outline.ownRoots scope ((node.child? .defaultValue).toList.flatMap fun value =>
      Outline.ofNode value (.initializer (d.members.getLast?.map fun m => (m.name, m.pos))
        (Outline.equalsPosition? node) .initializer)) := by
  have hNames : Outline.ownRoots scope (d.members.flatMap fun m =>
      (Declared.var m.name m.type m.pos).entries (baseType node)) = [] := by
    rw [Outline.ownRoots_flatMap, List.flatMap_eq_nil_iff]
    exact fun m _ => Outline.ownRoots_entries scope _ _
  rw [d.ofNode_eq, Outline.ownRoots_append, Outline.ownRoots_append, Outline.ownRoots_types,
    hNames]
  rfl

end FieldDeclaration

namespace Model

/-- The values of members, in order, are what is evaluated in their scope between two states. -/
def InitializesMembers {base : VariableType} (scope : Nat) (members : List (Member base))
    (before after : Model) : Prop :=
  ∃ evaluated : List (List Root), List.Forall₂ (Member.Evaluates scope) members evaluated ∧
    after.rootsIn scope = before.rootsIn scope ++ evaluated.flatten

/-- Members start with their default values, as long as only the last member of a declaration has
one: what a declaration evaluates in the scope of its class is the assignment of the value to that
member. -/
theorem ofTree_initializesMembers {root node : Node} {scope : Nat} {before : Model}
    (hVisited : Visits root node .item scope before) (d : FieldDeclaration node)
    (hLast : ∀ m ∈ d.members.dropLast, m.value = none) :
    InitializesMembers scope d.members before
        (recordAll scope before (Outline.ofNode node .item)) ∧
      (recordAll scope before (Outline.ofNode node .item)).Extends (ofTree root) := by
  have hRoots := hVisited.rootsIn_eq
  rw [d.ownRoots_eq, Node.child?, ← List.head?_filter, d.values] at hRoots
  refine ⟨?_, hVisited.kept⟩
  rcases List.eq_nil_or_concat' d.members with hNone | ⟨earlier, last, hMembers⟩
  · rw [hNone] at hRoots ⊢
    exact ⟨[], .nil, hRoots⟩
  · rw [hMembers, List.dropLast_concat] at hLast
    have hEarlier : (earlier.flatMap fun m => m.value.toList) = [] := by
      rw [List.flatMap_eq_nil_iff]
      intro m hMem
      rw [hLast m hMem, Option.toList_none]
    have hHead : last.value.toList.head? = last.value := by
      cases last.value with
      | none => rfl
      | some value => rfl
    rw [hMembers, List.flatMap_append, hEarlier, List.nil_append, List.flatMap_singleton, hHead,
      List.getLast?_concat, Option.map_some] at hRoots
    have hAbsent : List.Forall₂ (Member.Evaluates scope) earlier (earlier.map fun _ => []) := by
      rw [List.forall₂_map_right_iff, List.forall₂_same]
      exact fun m hMem => .absent (hLast m hMem)
    rw [hMembers]
    refine ⟨_, List.rel_append hAbsent (.cons
      (last.exists_evaluates scope (Outline.equalsPosition? node)) .nil), ?_⟩
    rw [hRoots, List.flatten_append]
    simp

/-- A member with this name, and a number as its value if there is one. -/
def numberMember (base : VariableType) (name : String) (number : Option String) : Member base where
  declarator := nodeOf .fieldIdentifier (some .declarator) name []
  value := number.map fun text => nodeOf .numberLiteral (some .defaultValue) text []
  name := name
  type := base
  pos := .start
  isDeclarator := rfl
  declares := rfl
  isValue node hNode := by
    obtain ⟨text, -, rfl⟩ := Option.map_eq_some_iff.mp hNode
    rfl

/-- The declaration of two members of type `int`, the second of which is `b = 2`. -/
def twoMembers (first : Option String) : Node :=
  let assigned (name : String) (number : Option String) : List Node :=
    let m := numberMember .integer name number
    m.declarator :: m.value.toList.flatMap fun value => [nodeOf .equals none "=" [], value]
  nodeOf .fieldDeclaration none ""
    (nodeOf .primitiveType (some .type) "int" [] :: (assigned "a" first ++ assigned "b" (some "2")))

def twoMembersFile (first : Option String) : Node :=
  nodeOf (.other "translation_unit") none ""
    [nodeOf .structSpecifier none ""
      [nodeOf .typeIdentifier (some .name) "S" [],
        nodeOf (.other "field_declaration_list") (some .body) "" [twoMembers first]]]

def declaresTwo (first : Option String) : FieldDeclaration (twoMembers first) where
  isField := rfl
  members := [numberMember _ "a" first, numberMember _ "b" (some "2")]
  inOrder := by
    cases first with
    | none => rfl
    | some text => rfl

/-- The class before its members are read. -/
def emptyClass : Model := initial.createScope .classBody (some "S") globalScope 1

/-- The members of `struct S { int a, b = 2; };`. -/
theorem ofTree_initializesMembers_last :
    Visits (twoMembersFile none) (twoMembers none) .item 1 emptyClass ∧
      (∀ m ∈ (declaresTwo none).members.dropLast, m.value = none) ∧
      InitializesMembers 1 (declaresTwo none).members emptyClass
        (recordAll 1 emptyClass (Outline.ofNode (twoMembers none) .item)) ∧
      (ofTree (twoMembersFile none)).roots.size = 1 := by
  have hVisited : Visits (twoMembersFile none) (twoMembers none) .item 1 emptyClass :=
    .inside (.here [])
  have hLast : ∀ m ∈ (declaresTwo none).members.dropLast, m.value = none :=
    List.forall_mem_singleton.mpr rfl
  exact ⟨hVisited, hLast, (ofTree_initializesMembers hVisited _ hLast).1, by decide +kernel⟩

/-- The condition cannot be left out: of `struct S { int a = 1, b = 2; };` the first value is read
as that of the last member, and the other is passed over. -/
theorem not_ofTree_initializesMembers :
    (ofTree (twoMembersFile (some "1"))).roots.toList.map Root.expr =
        [.assign .start false (.var .start "b")
          (.ofNode (nodeOf .numberLiteral (some .defaultValue) "1" []))] ∧
      ¬∀ {root node : Node} {scope : Nat} {before : Model} (d : FieldDeclaration node),
        Visits root node .item scope before →
        InitializesMembers scope d.members before
          (recordAll scope before (Outline.ofNode node .item)) := by
  refine ⟨rfl, fun hAll => ?_⟩
  have hVisited : Visits (twoMembersFile (some "1")) (twoMembers (some "1")) .item 1 emptyClass :=
    .inside (.here [])
  obtain ⟨evaluated, hEach, hRoots⟩ := hAll (declaresTwo (some "1")) hVisited
  obtain _ | ⟨hFirst, _ | ⟨hSecond, ⟨⟩⟩⟩ := hEach
  have hLength := congrArg List.length hRoots
  have hOne : ((recordAll 1 emptyClass
      (Outline.ofNode (twoMembers (some "1")) .item)).rootsIn 1).length = 1 := by decide +kernel
  rw [hOne] at hLength
  simp [hFirst.length_eq_one rfl rfl, hSecond.length_eq_one rfl rfl] at hLength

end Model

end TruthLint
