import Mathlib.Data.List.Forall2
import Mathlib.Tactic.SplitIfs
import TruthLint.Proofs.Outline.Parts

/-! Outlines of nodes that read alike. A relation between outlines that is kept by the ways in
which outlines are put together passes from the children of two such nodes to the nodes. -/

namespace TruthLint

open Cst

/-- Roles in which an ERROR node contributes nothing. The others go on to its contents. -/
def Role.passesErrors : Role → Bool
  | .members | .lambdas | .initializer _ _ _ => false
  | _ => true

namespace Outline

/-- What a relation between outlines has to keep so that outlines built alike are related. A scope
that is opened by an entry of its own is neither global nor a namespace. -/
structure Congruence (R : List Entry → List Entry → Prop) : Prop where
  nil : R [] []
  append : ∀ {a a' b b' : List Entry}, R a a' → R b b' → R (a ++ b) (a' ++ b')
  var : ∀ (name : String) (type : VariableType) (line : Nat),
    R [.var name type line] [.var name type line]
  function : ∀ (name : QualifiedName) (returns : ReturnKind) (line : Nat),
    R [.function name returns line] [.function name returns line]
  root : ∀ {seed seed' : Seed} (context : RootContext), seed.expr = seed'.expr →
    R [.root seed context] [.root seed' context]
  scope : ∀ {kind : ScopeKind} (name : Option String) (line : Nat) {body body' : List Entry},
    kind ≠ .global → kind ≠ .nameSpace → R body body' →
      R [.scope kind name line body] [.scope kind name line body']
  nameSpace : ∀ (path : List String) (line : Nat) {body body' : List Entry}, R body body' →
    R [.nameSpace path line body] [.nameSpace path line body']
  definition : ∀ (declared : Option QualifiedName) (name : Option String) (returns : ReturnKind)
    (line : Nat) {body body' : List Entry}, R body body' →
      R [.definition declared name returns line body]
        [.definition declared name returns line body']

/-- What a declarator declares with a base type, and the variable that a value of it is for. -/
def declaredBy (base : VariableType) (declarator : Node) :
    List Entry × Option (String × Position) :=
  ((Declared.ofNode base declarator).entries base, (Declared.ofNode base declarator).target?)

/-- The name, the parameters and the indirection of a function declarator. -/
def heading : Node × Bool → Option Label × List Entry × Bool
  | (declarator, indirect) => ((declarator.child? .declarator).map Node.label,
      ((declarator.child? .parameters).map parameterEntries).getD [], indirect)

/-- The nodes agree in what is read off them apart from what their children contribute. -/
structure Agree (node node' : Node) : Prop where
  label : node.label = node'.label
  expr : Expr.ofNode node = Expr.ofNode node'
  labels : ∀ field : Field, (node.child? field).map Node.label = (node'.child? field).map Node.label
  equals : equalsPosition? node = equalsPosition? node'
  declared : ∀ base : VariableType, declaredBy base node = declaredBy base node'
  declarators : ∀ base : VariableType,
    (node.children.filter (Node.hasField .declarator)).map (declaredBy base) =
      (node'.children.filter (Node.hasField .declarator)).map (declaredBy base)
  parameters :
    ((node.child? .declarator).bind (·.child? .parameters)).map parameterEntries =
      ((node'.child? .declarator).bind (·.child? .parameters)).map parameterEntries
  heading : ((node.child? .declarator).bind (functionDeclarator? false)).map heading =
    ((node'.child? .declarator).bind (functionDeclarator? false)).map heading

theorem Agree.refl (node : Node) : Agree node node :=
  ⟨rfl, rfl, fun _ => rfl, rfl, fun _ => rfl, fun _ => rfl, rfl, rfl⟩

/-- The children of two nodes contribute related outlines, the search for lambdas aside. Where all
children of a sort are read, roles that pass over errors are enough. -/
structure RelatedParts (R : List Entry → List Entry → Prop) (parts parts' : Parts) : Prop where
  first : ∀ (field : Field) (role : Role), role ≠ .lambdas →
    R (parts.first field role) (parts'.first field role)
  each : ∀ (p : Label → Bool) (role : Role), role.passesErrors = true →
    R (parts.each (p ∘ Node.label) role) (parts'.each (p ∘ Node.label) role)

namespace Agree

variable {node node' : Node}

theorem kind (h : Agree node node') : node.kind = node'.kind := congrArg Label.kind h.label

/-- The line of an entry is that of its node, which is a part of the label. -/
theorem line (h : Agree node node') : line node = line node' :=
  congrArg (fun label : Label => label.position.line) h.label

/-- What is read off the label of a child agrees. -/
theorem map_label (h : Agree node node') {α : Type} (f : Label → α) (field : Field) :
    (node.child? field).map (fun child => f child.label) =
      (node'.child? field).map fun child => f child.label := by
  have hLabels := congrArg (Option.map f) (h.labels field)
  rwa [Option.map_map, Option.map_map] at hLabels

/-- The base type that a node gives is read from its type alone. -/
theorem baseType (h : Agree node node') : baseType node = baseType node' := by
  have hTypes := h.labels .type
  unfold TruthLint.baseType
  cases hType : node.child? .type <;> cases hType' : node'.child? .type
  all_goals simp only [hType, hType', Option.map_none, Option.map_some, reduceCtorEq] at hTypes
  · rfl
  · rename_i type type'
    have hKind : type.kind = type'.kind := congrArg Label.kind (Option.some.inj hTypes)
    have hText : type.text = type'.text := congrArg Label.text (Option.some.inj hTypes)
    simp only [Option.map_some, Option.getD_some, VariableType.ofTypeNode, hKind, hText]

/-- What the first declarator declares. -/
theorem firstDeclared (h : Agree node node') (base : VariableType) :
    let declared := ((node.child? .declarator).map (Declared.ofNode base)).getD .unnamed
    let declared' := ((node'.child? .declarator).map (Declared.ofNode base)).getD .unnamed
    declared.entries base = declared'.entries base ∧ declared.target? = declared'.target? := by
  have hFirst (node : Node) :
      ((node.children.filter (Node.hasField .declarator)).map (declaredBy base)).head? =
        (node.child? .declarator).map (declaredBy base) := by
    rw [List.head?_map, List.head?_filter, Node.child?]
  have hEq := congrArg List.head? (h.declarators base)
  rw [hFirst, hFirst] at hEq
  cases hChild : node.child? .declarator <;> cases hChild' : node'.child? .declarator
  all_goals simp only [hChild, hChild', Option.map_none, Option.map_some, reduceCtorEq] at hEq
  · exact ⟨rfl, rfl⟩
  · exact Prod.mk.inj (Option.some.inj hEq)

end Agree

section

variable {R : List Entry → List Entry → Prop} {node node' : Node} {parts parts' : Parts}

/-- What a declarator introduces is related to itself, as none of it comes from expressions. -/
theorem related_entries (hR : Congruence R) (base : VariableType) (declared : Declared) :
    R (declared.entries base) (declared.entries base) := by
  cases declared with
  | var name type pos => exact hR.var name type pos.line
  | function name indirect line =>
      simp only [Declared.entries]
      split
      · exact hR.function _ _ _
      · exact hR.nil
  | unnamed => exact hR.nil

/-- Contributions that are related one by one are related as a whole. -/
theorem related_flatMap (hR : Congruence R) {α β : Type} {f : α → List Entry}
    {f' : β → List Entry} {l : List α} {l' : List β}
    (h : List.Forall₂ (fun a b => R (f a) (f' b)) l l') : R (l.flatMap f) (l'.flatMap f') := by
  induction h with
  | nil => exact hR.nil
  | cons first _ ih => exact hR.append first ih

/-- Parameters are read off the declarators and not off what children contribute. -/
theorem related_parameterEntries (hR : Congruence R) (parameters : Node) :
    R (parameterEntries parameters) (parameterEntries parameters) := by
  refine related_flatMap hR (List.forall₂_same.mpr fun parameter _ => ?_)
  have hDeclared (declared : Declared) :
      R declared.parameterEntries declared.parameterEntries := by
    cases declared with
    | var name type pos => exact hR.var _ _ _
    | function name indirect line => exact hR.var _ _ _
    | unnamed => exact hR.nil
  split
  · exact hDeclared _
  · exact hDeclared _
  · exact hR.nil

theorem related_optionalParameters (hR : Congruence R) (parameters : Option Node) :
    R ((parameters.map parameterEntries).getD []) ((parameters.map parameterEntries).getD []) := by
  cases parameters with
  | none => exact hR.nil
  | some parameters => exact related_parameterEntries hR parameters

/-- Where all contents are read, errors among them have to be passed over. -/
theorem related_contents (h : RelatedParts R parts parts') {role : Role}
    (hRole : role.passesErrors = true) :
    R (parts.each Node.isContent role) (parts'.each Node.isContent role) :=
  h.each (fun label => label.named && label.kind != .comment) role hRole

/-- A lambda has a scope of its own; any other node passes the search for lambdas on. -/
theorem related_lambdas (hR : Congruence R) (hNode : Agree node node')
    (hParts : RelatedParts R parts parts')
    (hContents : node.kind ≠ .lambdaExpression →
      R (parts.each Node.isContent .lambdas) (parts'.each Node.isContent .lambdas)) :
    R (lambdas node parts) (lambdas node' parts') := by
  simp only [lambdas, ← hNode.kind, ← hNode.line, ← hNode.parameters]
  split_ifs with hKind
  · refine hR.scope _ _ (by decide) (by decide) (hR.append ?_ (hParts.first _ _ nofun))
    exact related_optionalParameters hR _
  · exact hContents hKind

/-- An expression is related to its other version if the lambdas in it are. -/
theorem related_evaluated (hR : Congruence R) (hNode : Agree node node')
    (hLambdas : R (lambdas node parts) (lambdas node' parts')) (context : RootContext) :
    R (evaluated node parts context) (evaluated node' parts' context) := by
  have hRoot : R [.root (.expression node) context] [.root (.expression node') context] :=
    hR.root context (by exact hNode.expr)
  exact hR.append hRoot hLambdas

/-- A class has a body in both versions or in neither, and its name in both. -/
theorem related_classBody (hR : Congruence R) (hNode : Agree node node')
    (hParts : RelatedParts R parts parts') : R (classBody node parts) (classBody node' parts') := by
  have hBody := hNode.labels .body
  have hName := hNode.map_label
    (fun label => String.ofList (Text.dropTemplateArguments (Text.lastSegment label.text.toList)))
    .name
  unfold classBody
  cases hChild : node.child? .body <;> cases hChild' : node'.child? .body
  all_goals simp only [hChild, hChild', Option.map_none, Option.map_some, reduceCtorEq] at hBody
  · exact hR.nil
  · simp only [Node.text, hName, ← hNode.line]
    exact hR.scope _ _ (by decide) (by decide) (hParts.first _ _ nofun)

theorem related_nameSpace (hR : Congruence R) (hNode : Agree node node')
    (hParts : RelatedParts R parts parts') : R (nameSpace node parts) (nameSpace node' parts') := by
  have hBody := hNode.labels .body
  have hName := hNode.map_label Label.text .name
  unfold nameSpace
  cases hChild : node.child? .body <;> cases hChild' : node'.child? .body
  all_goals simp only [hChild, hChild', Option.map_none, Option.map_some, reduceCtorEq] at hBody
  · exact hR.nil
  cases hText : node.child? .name <;> cases hText' : node'.child? .name
  all_goals simp only [hText, hText', Option.map_none, Option.map_some, reduceCtorEq] at hName
  · exact hParts.first _ _ nofun
  · simp only [Node.text, Option.some.inj hName, ← hNode.line]
    exact hR.nameSpace _ _ (hParts.first _ _ nofun)

/-- A declaration depends on its parts through its type and its declarators. -/
theorem related_declaration (hR : Congruence R) (hNode : Agree node node')
    (hParts : RelatedParts R parts parts') (context : RootContext) :
    R (declaration node parts context) (declaration node' parts' context) := by
  unfold declaration
  rw [hNode.baseType]
  refine hR.append (hParts.first _ _ nofun) ?_
  exact hParts.each (fun label => label.field == some .declarator) _ rfl

theorem related_initDeclarator (hR : Congruence R) (hNode : Agree node node')
    (hParts : RelatedParts R parts parts') (base : VariableType) (context : RootContext) :
    R (initDeclarator node parts base context) (initDeclarator node' parts' base context) := by
  obtain ⟨hEntries, hTarget⟩ := hNode.firstDeclared base
  simp only [initDeclarator]
  rw [hEntries, hTarget, hNode.equals]
  exact hR.append (related_entries hR base _) (hParts.first _ _ nofun)

/-- A value is evaluated as a whole in both versions or element by element in both. -/
theorem related_initializer (hR : Congruence R) (hNode : Agree node node')
    (hParts : RelatedParts R parts parts')
    (hLambdas : node.kind.isExpression = true → R (lambdas node parts) (lambdas node' parts'))
    (target : Option (String × Position)) (operator : Option Position) (context : RootContext) :
    R (initializer node parts target operator context)
      (initializer node' parts' target operator context) := by
  unfold initializer
  rw [← hNode.kind]
  split_ifs with hKind
  · cases target with
    | none => exact related_evaluated hR hNode (hLambdas hKind) context
    | some target =>
        have hPosition : node.position = node'.position := congrArg Label.position hNode.label
        refine hR.append (hR.root context ?_) (hLambdas hKind)
        simp only [Seed.expr, hPosition, hNode.expr]
  · exact related_contents hParts rfl

/-- Which member a value belongs to is read off the declarators. -/
theorem related_fieldDeclaration (hR : Congruence R) (hNode : Agree node node')
    (hParts : RelatedParts R parts parts') :
    R (fieldDeclaration node parts) (fieldDeclaration node' parts') := by
  have hEntries (nodes : List Node) (base : VariableType) :
      (nodes.map (Declared.ofNode base)).flatMap (·.entries base) =
        (nodes.map (declaredBy base)).flatMap Prod.fst := by
    rw [List.flatMap_map, List.flatMap_map]
    rfl
  have hTarget (nodes : List Node) (base : VariableType) :
      (nodes.map (Declared.ofNode base)).getLast?.bind Declared.target? =
        (nodes.map (declaredBy base)).getLast?.bind Prod.snd := by
    rw [List.getLast?_map, List.getLast?_map, Option.bind_map, Option.bind_map]
    rfl
  simp only [fieldDeclaration, hEntries, hTarget, ← hNode.baseType, ← hNode.equals,
    ← hNode.declarators]
  refine hR.append (hR.append (hParts.first _ _ nofun) ?_) (hParts.first _ _ nofun)
  rw [List.flatMap_map]
  exact related_flatMap hR (List.forall₂_same.mpr fun _ _ => related_entries hR _ _)

/-- A definition is one of a function in both versions or in neither, under the same heading. What
is read off the node of a name depends on its label only. -/
theorem related_functionDefinition (hR : Congruence R) (hNode : Agree node node')
    (hParts : RelatedParts R parts parts') :
    R (functionDefinition node parts) (functionDefinition node' parts') := by
  have hHeading := hNode.heading
  unfold functionDefinition
  cases hFound : (node.child? .declarator).bind (functionDeclarator? false) <;>
    cases hFound' : (node'.child? .declarator).bind (functionDeclarator? false)
  all_goals simp only [hFound, hFound', Option.map_none, Option.map_some, reduceCtorEq] at hHeading
  · exact hR.nil
  rename_i found found'
  obtain ⟨hLabel, hRest⟩ := Prod.mk.inj (Option.some.inj hHeading)
  obtain ⟨hParameters, hIndirect⟩ := Prod.mk.inj hRest
  have hBind (name : Option Node) : name.bind QualifiedName.ofNode? =
      (name.map Node.label).bind fun label => QualifiedName.ofNode? (.mk label []) := by
    rcases name with _ | ⟨label, children⟩ <;> rfl
  have hDeclared : (found.1.child? .declarator).bind QualifiedName.ofNode? =
      (found'.1.child? .declarator).bind QualifiedName.ofNode? := by
    rw [hBind, hBind, hLabel]
  have hScopeName := congrArg
    (Option.map fun label => String.ofList (Text.lastSegment label.text.toList)) hLabel
  rw [Option.map_map, Option.map_map] at hScopeName
  simp only [Function.comp_def] at hScopeName
  simp only [hDeclared, hParameters, hIndirect, Node.text, hScopeName, ← hNode.baseType,
    ← hNode.line]
  refine hR.definition _ _ _ _ (hR.append ?_ (hParts.first _ _ nofun))
  exact related_optionalParameters hR _

/-- A condition that is passed over is found by its row, which is the same in both versions. -/
theorem related_inclusion (hNode : Agree node node') (hParts : RelatedParts R parts parts') :
    R (inclusion node parts) (inclusion node' parts') := by
  have hRead (node : Node) (parts : Parts) : inclusion node parts =
      let condition := ((node.child? .condition).map Node.label).or
        ((node.child? .name).map Node.label)
      parts.each ((fun label => label.named && label.kind != .comment &&
        condition.all fun c => c.row != label.row) ∘ Node.label) .item := by
    unfold inclusion
    simp only [← Option.map_or, Option.all_map]
    rfl
  rw [hRead, hRead, ← hNode.labels, ← hNode.labels]
  exact hParts.each _ _ rfl

/-- A block is opened at the line of its node. -/
theorem related_block (hR : Congruence R) (hNode : Agree node node') {body body' : List Entry}
    (h : R body body') : R (block node body) (block node' body') := by
  unfold block
  rw [hNode.line]
  exact hR.scope _ _ (by decide) (by decide) h

theorem related_rangeLoop (hR : Congruence R) (hNode : Agree node node')
    (hParts : RelatedParts R parts parts') : R (rangeLoop node parts) (rangeLoop node' parts') := by
  obtain ⟨hEntries, -⟩ := hNode.firstDeclared (baseType node)
  simp only [rangeLoop, ← hNode.baseType, hEntries]
  exact related_block hR hNode (hR.append
    (hR.append (related_entries hR _ _) (hParts.first _ _ nofun)) (hParts.first _ _ nofun))

/-- A node that stands for itself is related to its other version, kind by kind. -/
theorem related_item (hR : Congruence R) (hNode : Agree node node')
    (hParts : RelatedParts R parts parts')
    (hLambdas : node.kind.isExpression = true → R (lambdas node parts) (lambdas node' parts')) :
    R (item node parts) (item node' parts') := by
  have hFirst {field : Field} {role : Role} (hRole : role ≠ .lambdas) :=
    hParts.first field role hRole
  have hOther : R
      (if node.kind.isSkipped then []
        else if node.kind.isExpression then evaluated node parts .statement
        else parts.each Node.isContent .item)
      (if node.kind.isSkipped then []
        else if node.kind.isExpression then evaluated node' parts' .statement
        else parts'.each Node.isContent .item) := by
    split_ifs with hSkipped hExpression
    · exact hR.nil
    · exact related_evaluated hR hNode (hLambdas hExpression) _
    · exact related_contents hParts rfl
  unfold item
  rw [← hNode.kind]
  cases hKind : node.kind
  case functionDefinition => exact related_functionDefinition hR hNode hParts
  case declaration => exact related_declaration hR hNode hParts _
  case fieldDeclaration => exact related_fieldDeclaration hR hNode hParts
  case classSpecifier | structSpecifier | unionSpecifier => exact related_classBody hR hNode hParts
  case namespaceDefinition => exact related_nameSpace hR hNode hParts
  case preprocIf | preprocIfdef | preprocElif | preprocElifdef | preprocElse =>
    exact related_inclusion hNode hParts
  case compoundStatement => exact related_block hR hNode (related_contents hParts rfl)
  case ifStatement =>
    exact related_block hR hNode
      (hR.append (hR.append (hFirst nofun) (hFirst nofun)) (hFirst nofun))
  case whileStatement | switchStatement =>
    exact related_block hR hNode (hR.append (hFirst nofun) (hFirst nofun))
  case doStatement => exact hR.append (hFirst nofun) (hFirst nofun)
  case forStatement =>
    exact related_block hR hNode
      (hR.append (hR.append (hR.append (hFirst nofun) (hFirst nofun)) (hFirst nofun))
        (hFirst nofun))
  case forRangeLoop => exact related_rangeLoop hR hNode hParts
  case returnStatement => exact related_contents hParts rfl
  all_goals
    rw [hKind] at hOther
    exact hOther

theorem related_tested (hR : Congruence R) (hNode : Agree node node')
    (hParts : RelatedParts R parts parts')
    (hLambdas : node.kind.isExpression = true → R (lambdas node parts) (lambdas node' parts')) :
    R (tested node parts) (tested node' parts') := by
  unfold tested
  rw [← hNode.kind]
  split
  · exact related_declaration hR hNode hParts _
  · exact related_declaration hR hNode hParts _
  · split_ifs with hKind
    · exact related_evaluated hR hNode (hLambdas hKind) _
    · exact related_item hR hNode hParts hLambdas

theorem related_returned (hR : Congruence R) (hNode : Agree node node')
    (hParts : RelatedParts R parts parts')
    (hLambdas : node.kind.isExpression = true → R (lambdas node parts) (lambdas node' parts')) :
    R (returned node parts) (returned node' parts') := by
  unfold returned
  rw [← hNode.kind]
  split_ifs with hKind hList
  · exact related_evaluated hR hNode (hLambdas hKind) _
  · exact related_contents hParts rfl
  · exact hR.nil

/-- Nodes that read alike, with children whose outlines are related, have related outlines. The
search for lambdas runs through ERROR nodes as well, so it is left to the caller. -/
theorem related_step (hR : Congruence R) (hNode : Agree node node')
    (hParts : RelatedParts R parts parts') (role : Role)
    (hLambdas : role = .lambdas ∨ node.kind.isExpression = true →
      R (lambdas node parts) (lambdas node' parts')) :
    R (step node parts role) (step node' parts' role) := by
  have hInside (hKind : node.kind.isExpression = true) := hLambdas (.inr hKind)
  cases role with
  | item => exact related_item hR hNode hParts hInside
  | members => exact related_contents hParts rfl
  | lambdas => exact hLambdas (.inl rfl)
  | condition =>
      simp only [step, ← hNode.kind]
      split_ifs
      · exact related_contents hParts rfl
      · exact related_tested hR hNode hParts hInside
  | tested => exact related_tested hR hNode hParts hInside
  | typeSpecifier =>
      simp only [step, ← hNode.kind]
      split_ifs
      · exact related_classBody hR hNode hParts
      · exact hR.nil
  | declarator base context =>
      simp only [step, ← hNode.kind]
      split_ifs
      · exact related_initDeclarator hR hNode hParts base context
      · have hEntries := (Prod.mk.inj (hNode.declared base)).1
        rw [← hEntries]
        exact related_entries hR base _
  | initializer target operator context =>
      exact related_initializer hR hNode hParts hInside target operator context
  | evaluated context =>
      simp only [step, ← hNode.kind]
      split_ifs with hKind
      · exact related_evaluated hR hNode (hInside hKind) context
      · exact hR.nil
  | returned => exact related_returned hR hNode hParts hInside

end

end Outline

end TruthLint
