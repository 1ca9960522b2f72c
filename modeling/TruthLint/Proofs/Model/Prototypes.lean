import TruthLint.Proofs.Model.Bodies
import TruthLint.Proofs.Model.ScopeLines
import TruthLint.Proofs.Outline.DeclaredFunction

/-! Prototypes and definitions of functions. A function is recorded in the scope that its name asks
for and with the result of its type, whether it is declared or defined there. -/

namespace TruthLint

open Cst

namespace Outline

/-- The declarator is one of those of a declaration, where it may have a value. -/
inductive DeclaresWith (declarator : Node) : Node → Prop where
  | plain {declaration : Node}
      (isDeclaration : declaration.kind = .declaration ∨ declaration.kind = .fieldDeclaration)
      (child : declarator ∈ declaration.children.filter (Node.hasField .declarator))
      (noValue : declarator.kind ≠ .initDeclarator) : DeclaresWith declarator declaration
  | initialized {declaration init : Node} (isDeclaration : declaration.kind = .declaration)
      (child : init ∈ declaration.children.filter (Node.hasField .declarator))
      (isInit : init.kind = .initDeclarator) (inside : init.child? .declarator = some declarator) :
      DeclaresWith declarator declaration

theorem infix_declaration {declaration child : Node} (h : declaration.kind = .declaration)
    (hChild : child ∈ declaration.children.filter (Node.hasField .declarator)) :
    ofNode child (.declarator (baseType declaration) .initializer) <:+:
      ofNode declaration .item := by
  rw [ofNode_declaration h, Outline.declaration, each_partsOf]
  refine .trans ?_ (List.suffix_append _ _).isInfix
  apply List.infix_of_mem_flatten
  exact List.mem_map_of_mem hChild

/-- What a declarator introduces is a part of what its declaration contributes. -/
theorem DeclaresWith.entries {declaration declarator : Node}
    (h : DeclaresWith declarator declaration) :
    (Declared.ofNode (baseType declaration) declarator).entries (baseType declaration) <:+:
      ofNode declaration .item := by
  cases h with
  | plain isDeclaration child noValue =>
      rcases isDeclaration with hKind | hKind
      · have hOutline : ofNode declarator (.declarator (baseType declaration) .initializer) =
            (Declared.ofNode (baseType declaration) declarator).entries (baseType declaration) := by
          rw [ofNode_eq, step, if_neg noValue]
        rw [← hOutline]
        exact infix_declaration hKind child
      · rw [ofNode_fieldDeclaration hKind, fieldDeclaration]
        refine .trans ?_ (List.infix_append _ _ _)
        apply List.infix_of_mem_flatten
        exact List.mem_map_of_mem (List.mem_map_of_mem child)
  | @initialized init isDeclaration child isInit inside =>
      refine .trans ?_ (infix_declaration isDeclaration child)
      rw [ofNode_eq, step, if_pos isInit, initDeclarator, inside]
      exact (List.prefix_append _ _).isInfix

/-- A declaration of this declarator alone, without a value and with no class body in its type. -/
structure DeclaresOnly (declarator declaration : Node) : Prop where
  isDeclaration : declaration.kind = .declaration ∨ declaration.kind = .fieldDeclaration
  only : declaration.children.filter (Node.hasField .declarator) = [declarator]
  noValue : declarator.kind ≠ .initDeclarator
  noDefault : declaration.kind = .fieldDeclaration → declaration.child? .defaultValue = none
  noClassBody : ∀ type, declaration.child? .type = some type → type.kind.isClass = true →
    type.child? .body = none

/-- A type contributes nothing unless a class body stands in it. -/
theorem type_eq_nil {node : Node} (h : ∀ type, node.child? .type = some type →
    type.kind.isClass = true → type.child? .body = none) :
    (partsOf node).first .type .typeSpecifier = [] := by
  rw [first_partsOf]
  cases hType : node.child? .type with
  | none => rfl
  | some type =>
      rw [Option.toList_some, List.flatMap_singleton, ofNode_eq, step]
      split_ifs with hClass
      · rw [classBody, h type hType hClass]
      · rfl

/-- What such a declaration contributes is what its declarator introduces. -/
theorem DeclaresOnly.outline {declaration declarator : Node}
    (h : DeclaresOnly declarator declaration) :
    ofNode declaration .item =
      (Declared.ofNode (baseType declaration) declarator).entries (baseType declaration) := by
  rcases h.isDeclaration with hKind | hKind
  · rw [ofNode_declaration hKind, Outline.declaration, type_eq_nil h.noClassBody, each_partsOf,
      h.only, List.nil_append, List.flatMap_singleton, ofNode_eq, step, if_neg h.noValue]
  · rw [ofNode_fieldDeclaration hKind, fieldDeclaration, type_eq_nil h.noClassBody, first_partsOf,
      h.noDefault hKind, h.only]
    simp

end Outline

namespace Model

variable {model after after' : Model} {current : Nat} {base : VariableType}
  {declarator definition : Node} {heading : Option (QualifiedName × ReturnKind)}

/-- What a function is recorded as, wherever its declaration is written. -/
structure Signature where
  name : String
  owner : Nat
  returns : ReturnKind
deriving DecidableEq, Repr

/-- The signatures of the declared functions, the latest first. -/
def signatures (model : Model) : List Signature :=
  model.symbols.functions.map fun f => ⟨f.name, f.scope, f.returns⟩

/-- Between two models one function is declared, or none. -/
def Declares (before after : Model) (declared : Option Signature) : Prop :=
  after.signatures = declared.toList ++ before.signatures

/-- The name and the result under which a function is declared, if its name can be read. -/
def heading? (base : VariableType) (function : Option (Node × Bool)) :
    Option (QualifiedName × ReturnKind) :=
  function.bind fun found =>
    (QualifiedName.ofNode? found.1).map fun name => (name, .ofBase base found.2)

/-- A function of this name and result is declared, or no function if there is no name. -/
inductive Announces (current : Nat) (model : Model) :
    Option (QualifiedName × ReturnKind) → Model → Prop where
  | nothing {after : Model} (functions : after.symbols.functions = model.symbols.functions)
      (scopes : after.scopes = model.scopes) : Announces current model none after
  | function (name : QualifiedName) (returns : ReturnKind) (line : Nat) :
      Announces current model (some (name, returns))
        (model.declareNamed current name returns line).1

/-- From one model to two others the same function is declared, or none, and the scopes that are
opened for it differ at most in their lines. -/
def DeclaresAlike (before after after' : Model) : Prop :=
  ∃ declared, Declares before after declared ∧ Declares before after' declared ∧
    after.scopes.withoutLines = after'.scopes.withoutLines

/-- The line at which a function is declared does not matter to its signature. -/
theorem Announces.agree (h : Announces current model heading after)
    (h' : Announces current model heading after') : DeclaresAlike model after after' := by
  cases h with
  | nothing functions scopes =>
      cases h' with
      | nothing functions' scopes' =>
          refine ⟨none, ?_, ?_, by rw [scopes, scopes']⟩
          · rw [Declares, signatures, functions]
            rfl
          · rw [Declares, signatures, functions']
            rfl
  | function name returns line =>
      cases h' with
      | function _ _ line' =>
          obtain ⟨hOpened, hOwner⟩ := (SameButLines.refl model).openOwner current line line' name
          have hDeclares (line : Nat) :
              Declares model (model.declareNamed current name returns line).1
                (some ⟨name.name, (model.openOwner current line name).2, returns⟩) := by
            obtain ⟨scopes, hScopes⟩ := openOwner_eq_with model current line name
            simp [Declares, signatures, declareNamed, declareFunction,
              SymbolTable.declareFunction, hScopes]
          exact ⟨_, hDeclares line, hOwner ▸ hDeclares line', hOpened.scopes⟩

/-- What a declarator introduces is recorded as a function if it is one. -/
theorem announces_entries (declared : Declared) (base : VariableType) (current : Nat)
    (model : Model) :
    Announces current model (heading? base declared.function?)
      (recordAll current model (declared.entries base)) := by
  cases declared with
  | var | unnamed => exact .nothing rfl rfl
  | function node indirect line =>
      cases hName : QualifiedName.ofNode? node with
      | none =>
          simp only [heading?, Declared.function?, Declared.entries, hName, Option.bind_some]
          exact .nothing rfl rfl
      | some name =>
          simp only [heading?, Declared.function?, Declared.entries, hName, Option.bind_some]
          exact .function name _ line

/-- Recording a definition begins with `heading`, and its parameters and its body follow in a
function scope. What is no function is passed over. -/
inductive Heads (current : Nat) (model : Model) (definition : Node) : Model → Prop where
  | passedOver
      (noFunction : (definition.child? .declarator).bind (functionDeclarator? false) = none)
      (recorded : recordAll current model (Outline.ofNode definition .item) = model) :
      Heads current model definition model
  | entered {heading : Model} {function : Node} {indirect : Bool} (name : Option String)
      (owner : Nat)
      (isFunction : (definition.child? .declarator).bind (functionDeclarator? false) =
        some (function, indirect))
      (recorded : recordAll current model (Outline.ofNode definition .item) =
        recordAll heading.scopes.size
          (heading.createScope .function name owner (Outline.line definition))
          (Outline.functionContents definition function)) :
      Heads current model definition heading

theorem heading?_definedFunction? {function : Node} {indirect : Bool}
    (h : functionDeclarator? false declarator = some (function, indirect)) :
    heading? base (definedFunction? declarator) =
      ((function.child? .declarator).bind QualifiedName.ofNode?).map
        fun name => (name, .ofBase base indirect) := by
  rw [← called?_bind_ofNode?, heading?, definedFunction?, h]
  cases hCalled : called? function <;> simp [hCalled]

/-- A definition begins with the function of its declarator. -/
theorem exists_heads (hKind : definition.kind = .functionDefinition)
    (hDeclarator : definition.child? .declarator = some declarator) (current : Nat)
    (model : Model) :
    ∃ heading, Heads current model definition heading ∧
      Announces current model (heading? (baseType definition) (definedFunction? declarator))
        heading := by
  have hFound : (definition.child? .declarator).bind (functionDeclarator? false) =
      functionDeclarator? false declarator := by rw [hDeclarator, Option.bind_some]
  cases hFunction : functionDeclarator? false declarator with
  | none =>
      have hNone := hFound.trans hFunction
      refine ⟨model, .passedOver hNone ?_, ?_⟩
      · rw [Outline.ofNode_definition_none hKind hNone]
        rfl
      · rw [definedFunction?, hFunction]
        exact .nothing rfl rfl
  | some found =>
      obtain ⟨function, indirect⟩ := found
      have hSome := hFound.trans hFunction
      obtain ⟨scopeName, hOutline⟩ := Outline.ofNode_functionDefinition hKind hSome
      rw [heading?_definedFunction? hFunction]
      cases hName : (function.child? .declarator).bind QualifiedName.ofNode? with
      | none =>
          refine ⟨model, .entered scopeName current hSome ?_, .nothing rfl rfl⟩
          rw [hOutline, hName]
          rfl
      | some name =>
          let line := Outline.line definition
          refine ⟨_, .entered scopeName (model.openOwner current line name).2 hSome ?_,
            .function name _ line⟩
          rw [hOutline, hName]
          rfl

/-- Prototypes and definitions of functions are recorded alike. A declarator introduces a function
exactly if it contains a function declarator with a name, and from the same scope a declaration and
a definition with this declarator record one signature, or both record none. This is said of a
declaration that has no more to it than the declarator; of any other, what the declarator
introduces is a part. -/
theorem prototype_agrees (hArray : NoArray declarator) (base : VariableType) :
    (∀ name indirect, (∃ line, Declared.ofNode base declarator = .function name indirect line) ↔
        ∃ function, functionDeclarator? false declarator = some (function, indirect) ∧
          function.child? .declarator = some name ∧ name.kind ≠ .parenthesizedDeclarator) ∧
      (∀ {declaration}, Outline.DeclaresWith declarator declaration →
        baseType declaration = base →
        (Declared.ofNode base declarator).entries base <:+: Outline.ofNode declaration .item) ∧
      ∀ {definition}, definition.kind = .functionDefinition →
        definition.child? .declarator = some declarator → baseType definition = base →
        ∀ current model, ∃ heading, Heads current model definition heading ∧
          DeclaresAlike model heading
            (recordAll current model ((Declared.ofNode base declarator).entries base)) ∧
          ∀ {declaration}, Outline.DeclaresOnly declarator declaration →
            baseType declaration = base →
            DeclaresAlike model heading
              (recordAll current model (Outline.ofNode declaration .item)) := by
  have hFunction := Declared.function?_ofNode hArray base
  refine ⟨fun name indirect => ?_, ?_, ?_⟩
  · rw [← Declared.function?_eq_some_iff, hFunction, definedFunction?_eq_some_iff]
  · rintro declaration hDeclares rfl
    exact hDeclares.entries
  · rintro definition hKind hDeclarator rfl current model
    obtain ⟨heading, hHeads, hAnnounces⟩ := exists_heads hKind hDeclarator current model
    rw [← hFunction] at hAnnounces
    have hAlike := hAnnounces.agree (announces_entries _ _ current model)
    refine ⟨heading, hHeads, hAlike, fun hOnly hBase => ?_⟩
    rw [hOnly.outline, hBase]
    exact hAlike

/-- `bool &N::f();` -/
def referencePrototype : Node :=
  nodeOf .declaration none "bool &N::f();"
    [nodeOf .primitiveType (some .type) "bool" [], referenceDeclarator]

theorem noArray_referenceDeclarator : NoArray referenceDeclarator := by
  intro kinds inner hWraps hKinds
  cases hWraps with
  | refl => decide
  | step _ inside rest =>
      obtain rfl := Option.some.inj inside
      cases rest with
      | refl => decide
      | step isKind _ _ =>
          obtain rfl := isKind
          exact absurd (List.mem_cons_of_mem _ List.mem_cons_self) hKinds

/-- A function that returns a reference to a boolean is no predicate, in its prototype and in its
definition, and both create the namespace `N` for it. -/
theorem prototype_agrees_reference :
    NoArray referenceDeclarator ∧
      (Declared.ofNode .boolean referenceDeclarator).entries .boolean <:+:
        Outline.ofNode referencePrototype .item ∧
      ∃ heading, Heads globalScope initial referenceDefinition heading ∧
        DeclaresAlike initial heading
          (recordAll globalScope initial (Outline.ofNode referencePrototype .item)) ∧
        heading.signatures = [⟨"f", 1, .other⟩] := by
  obtain ⟨-, hDeclared, hDefined⟩ := prototype_agrees noArray_referenceDeclarator .boolean
  have hPrototype : Outline.DeclaresWith referenceDeclarator referencePrototype :=
    .plain (.inl rfl) (List.mem_singleton_self _) (by decide)
  have hOnly : Outline.DeclaresOnly referenceDeclarator referencePrototype := {
    isDeclaration := .inl rfl
    only := rfl
    noValue := by decide
    noDefault := nofun
    noClassBody := fun type hType hClass => by
      obtain rfl := Option.some.inj hType
      cases hClass }
  have hKind : referenceDefinition.kind = .functionDefinition := rfl
  obtain ⟨heading, hHeads, -, hVisited⟩ :=
    hDefined hKind rfl (by decide +kernel) globalScope initial
  have hInfix := hDeclared hPrototype (by decide +kernel)
  have hAlike := hVisited hOnly (by decide +kernel)
  refine ⟨noArray_referenceDeclarator, hInfix, heading, hHeads, hAlike, ?_⟩
  obtain ⟨declared, hHeading, hRecorded, -⟩ := hAlike
  have hSignatures : (recordAll globalScope initial
      (Outline.ofNode referencePrototype .item)).signatures = [⟨"f", 1, .other⟩] := by
    decide +kernel
  rw [hHeading, ← hRecorded, hSignatures]

end Model

end TruthLint
