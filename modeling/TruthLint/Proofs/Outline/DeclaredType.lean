import Mathlib.Data.List.Chain
import TruthLint.Proofs.Outline.Wrappers

/-! Types of declared variables. A declarator is read as in C: from the name outwards, where the
first pointer or array says what the variable is. -/

namespace TruthLint

open Cst

namespace Declared

/-- What a variable is if this wrapper is the closest to its name that says anything. -/
def typeWithin : Kind → Option VariableType
  | .pointerDeclarator => some .pointer
  | .arrayDeclarator => some .other
  | _ => none

/-- What a variable is inside wrappers of these kinds, the outermost first. Pointers to functions
and members are nothing in particular. -/
def typeInside (base : VariableType) (kinds : List Kind) : VariableType :=
  if .functionDeclarator ∈ kinds then .other
  else (kinds.reverse.findSome? typeWithin).getD base

/-- Wrappers that say nothing about the type. -/
def IsTransparent (kind : Kind) : Prop :=
  kind = .referenceDeclarator ∨ kind = .parenthesizedDeclarator ∨ kind = .attributedDeclarator

/-- What is called stands in parentheses, so that it is no function but a pointer to one. -/
def CallsPointers (kinds : List Kind) : Prop :=
  kinds.IsChain fun outer inner => outer = .functionDeclarator → inner = .parenthesizedDeclarator

/-- The node is a name. -/
def IsName (node : Node) : Prop := node.kind = .identifier ∨ node.kind = .fieldIdentifier

/-- Pointers to functions are nothing in particular, whatever is inside. -/
theorem typeInside_function (base : VariableType) (kinds : List Kind) :
    typeInside base (.functionDeclarator :: kinds) = .other :=
  if_pos List.mem_cons_self

/-- Passing a type inwards, a wrapper replaces it or leaves it alone. -/
theorem typeInside_cons (base : VariableType) {kind : Kind} (h : kind ≠ .functionDeclarator)
    (kinds : List Kind) :
    typeInside base (kind :: kinds) = typeInside ((typeWithin kind).getD base) kinds := by
  have hMem : Kind.functionDeclarator ∈ kind :: kinds ↔ Kind.functionDeclarator ∈ kinds := by
    simp [Ne.symm h]
  simp only [typeInside, hMem, List.reverse_cons, List.findSome?_append]
  cases kinds.reverse.findSome? typeWithin with
  | some type => rfl
  | none => cases hType : typeWithin kind <;> simp [hType]

theorem behindPointer_eq_var_iff {declared : Declared} {text : String} {type : VariableType}
    {pos : Position} :
    declared.behindPointer = .var text type pos ↔ declared = .var text type pos := by
  cases declared <;> simp [behindPointer]

/-- A name that is called in parentheses is a variable, and its own type no longer counts. -/
theorem asPointer_eq_var_iff {declared : Declared} {text : String} {type : VariableType}
    {pos : Position} :
    declared.asPointer = .var text type pos ↔
      type = .other ∧ ∃ inner, declared = .var text inner pos := by
  cases declared with
  | var name inner place =>
      simp only [asPointer, var.injEq]
      constructor
      · rintro ⟨rfl, rfl, rfl⟩
        exact ⟨rfl, inner, rfl, rfl, rfl⟩
      · rintro ⟨rfl, _, rfl, rfl, rfl⟩
        exact ⟨rfl, rfl, rfl⟩
  | function | unnamed => simp [asPointer]

variable {base type : VariableType} {node inner name : Node} {kinds : List Kind} {text : String}
  {pos : Position}

/-- A wrapper other than a function declarator introduces the variable that is inside. -/
theorem ofNode_wrapper_eq_var_iff (h : node.wrapped? = some inner)
    (hKind : node.kind ≠ .functionDeclarator) :
    ofNode base node = .var text type pos ↔
      ofNode ((typeWithin node.kind).getD base) inner = .var text type pos := by
  have hInside (base : VariableType) : inside base node = ofNode base inner := by
    rw [inside, h]
    rfl
  rw [ofNode_eq]
  split
  next hName => simp [Node.wrapped?, hName] at h
  next hName => simp [Node.wrapped?, hName] at h
  next hPointer => rw [behindPointer_eq_var_iff, hInside, hPointer]; rfl
  next hReference => rw [behindPointer_eq_var_iff, hInside, hReference]; rfl
  next hArray => rw [hInside, hArray]; rfl
  next hParentheses => rw [hInside, hParentheses]; rfl
  next hAttributes => rw [hInside, hAttributes]; rfl
  next hFunction => exact absurd hFunction hKind
  next => simp [Node.wrapped?, *] at h

/-- A function declarator introduces a variable if what is called is a pointer in parentheses. -/
theorem ofNode_function_eq_var_iff (h : node.wrapped? = some inner)
    (hKind : node.kind = .functionDeclarator) :
    ofNode base node = .var text type pos ↔ inner.kind = .parenthesizedDeclarator ∧
      type = .other ∧ ∃ within, ofNode .other inner = .var text within pos := by
  rw [ofNode_eq, hKind]
  simp only [h]
  split
  next hInner => simp [asPointer_eq_var_iff, hInner]
  next hInner => simp [hInner]

theorem head?_wraps (h : Wraps kinds node name) :
    (kinds ++ [name.kind]).head? = some node.kind := by
  cases h with
  | refl => rfl
  | step isKind => rw [isKind]; rfl

theorem callsPointers_cons {kind : Kind} :
    CallsPointers (kind :: kinds) ↔
      (kind = .functionDeclarator → ∀ inner ∈ kinds.head?, inner = .parenthesizedDeclarator) ∧
        CallsPointers kinds := by
  rw [CallsPointers, List.isChain_cons]
  constructor
  · rintro ⟨hHead, hRest⟩
    exact ⟨fun hKind inner hInner => hHead inner hInner hKind, hRest⟩
  · rintro ⟨hHead, hRest⟩
    exact ⟨fun inner hInner hKind => hHead hKind inner hInner, hRest⟩

/-- The variable that a name introduces inside some wrappers. -/
theorem ofNode_eq_var_iff (h : Wraps kinds node name) (hName : IsName name) :
    ofNode base node = .var text type pos ↔ CallsPointers (kinds ++ [name.kind]) ∧
      text = name.text ∧ type = typeInside base kinds ∧ pos = name.position := by
  induction h generalizing base type with
  | refl name =>
      have hVar : ofNode base name = .var name.text base name.position := by
        rw [ofNode_eq]
        rcases hName with hKind | hKind
        · rw [hKind]
        · rw [hKind]
      have hType : typeInside base [] = base := rfl
      rw [hVar, hType, var.injEq]
      simp [CallsPointers, eq_comm]
  | @step node inner name _ kinds isKind inside rest ih =>
      obtain rfl := isKind
      have hHead := head?_wraps rest
      rw [List.cons_append, callsPointers_cons, hHead]
      by_cases hKind : node.kind = .functionDeclarator
      · rw [ofNode_function_eq_var_iff inside hKind, hKind, typeInside_function]
        simp only [ih hName]
        simp [and_assoc, and_comm, and_left_comm]
      · rw [ofNode_wrapper_eq_var_iff inside hKind, ih hName, typeInside_cons base hKind]
        simp [hKind]

/-- A wrapper is a function declarator, one that decides the type, or one that says nothing about
it. -/
theorem kind_of_wrapped? (h : node.wrapped? = some inner) :
    node.kind = .functionDeclarator ∨ (typeWithin node.kind).isSome ∨ IsTransparent node.kind := by
  rw [Node.wrapped?] at h
  split at h
  all_goals first | cases h | simp [typeWithin, IsTransparent, *]

/-- Only a transparent wrapper lets a boolean through. -/
theorem typeInside_eq_boolean_iff (h : Wraps kinds node name) :
    typeInside base kinds = .boolean ↔ base = .boolean ∧ ∀ kind ∈ kinds, IsTransparent kind := by
  induction h generalizing base with
  | refl name => simp [typeInside]
  | @step node inner name _ kinds isKind inside rest ih =>
      obtain rfl := isKind
      rw [List.forall_mem_cons]
      rcases kind_of_wrapped? inside with hFunction | hType | hTransparent
      · simp [hFunction, typeInside_function, IsTransparent]
      · have hKind : node.kind ≠ .functionDeclarator := by
          rintro hKind
          simp [hKind, typeWithin] at hType
        rw [typeInside_cons base hKind, ih]
        unfold typeWithin at hType ⊢
        split at hType
        all_goals simp_all [IsTransparent]
      · have hKind : node.kind ≠ .functionDeclarator := by
          rintro hKind
          simp [hKind, IsTransparent] at hTransparent
        have hNone : typeWithin node.kind = none := by
          rcases hTransparent with hKind | hKind | hKind
          all_goals rw [hKind]; rfl
        rw [typeInside_cons base hKind, hNone, Option.getD_none, ih]
        simp [hTransparent]

/-- Where nothing is called there is no condition on what is called. -/
theorem callsPointers_of_isTransparent (h : ∀ kind ∈ kinds, IsTransparent kind) :
    CallsPointers (kinds ++ [name.kind]) := by
  induction kinds with
  | nil => simp [CallsPointers]
  | cons kind kinds ih =>
      obtain ⟨hKind, hKinds⟩ := List.forall_mem_cons.mp h
      have hFunction : kind ≠ .functionDeclarator := by
        rintro rfl
        simp [IsTransparent] at hKind
      exact callsPointers_cons.mpr ⟨fun hEq => absurd hEq hFunction, ih hKinds⟩

/-- A variable is introduced by the name that is reached through the wrappers. -/
theorem exists_wraps_of_ofNode_eq_var (h : ofNode base node = .var text type pos) :
    ∃ kinds name, Wraps kinds node name ∧ IsName name := by
  induction node using Node.children_induction generalizing base type with
  | h node ih =>
      cases hInside : node.wrapped? with
      | some inner =>
          obtain ⟨base', type', hInner⟩ : ∃ base' type',
              ofNode base' inner = .var text type' pos := by
            by_cases hKind : node.kind = .functionDeclarator
            · obtain ⟨-, -, within, hInner⟩ := (ofNode_function_eq_var_iff hInside hKind).mp h
              exact ⟨_, within, hInner⟩
            · exact ⟨_, type, (ofNode_wrapper_eq_var_iff hInside hKind).mp h⟩
          obtain ⟨kinds, name, hWraps, hName⟩ := ih inner (Node.mem_of_wrapped? hInside) hInner
          exact ⟨_, name, .step rfl hInside hWraps, hName⟩
      | none =>
          refine ⟨[], node, .refl node, ?_⟩
          rw [ofNode_eq] at h
          simp only [inside, hInside, Option.map_none, Option.getD_none, behindPointer] at h
          split at h
          next hKind => exact .inl hKind
          next hKind => exact .inr hKind
          all_goals cases h

/-- A variable is introduced by the name inside its declarator, and its type is read from the name
outwards: pointers to functions are nothing in particular, and otherwise the closest pointer or
array decides. It is boolean only if nothing but transparent wrappers stands around the name. -/
theorem declared_type (base : VariableType) (node : Node) :
    (∀ {text type pos}, ofNode base node = .var text type pos →
        ∃ kinds name, Wraps kinds node name ∧ IsName name) ∧
      ∀ {kinds name}, Wraps kinds node name → IsName name →
        (∀ text type pos, ofNode base node = .var text type pos ↔
          CallsPointers (kinds ++ [name.kind]) ∧ text = name.text ∧
            type = typeInside base kinds ∧ pos = name.position) ∧
        ∀ text pos, ofNode base node = .var text .boolean pos ↔
          base = .boolean ∧ (∀ kind ∈ kinds, IsTransparent kind) ∧ text = name.text ∧
            pos = name.position := by
  refine ⟨exists_wraps_of_ofNode_eq_var, fun {kinds name} h hName => ?_⟩
  refine ⟨fun text type pos => ofNode_eq_var_iff h hName, fun text pos => ?_⟩
  rw [ofNode_eq_var_iff h hName, eq_comm (a := VariableType.boolean), typeInside_eq_boolean_iff h]
  constructor
  · rintro ⟨-, hText, ⟨hBase, hKinds⟩, hPos⟩
    exact ⟨hBase, hKinds, hText, hPos⟩
  · rintro ⟨hBase, hKinds, hText, hPos⟩
    exact ⟨callsPointers_of_isTransparent hKinds, hText, ⟨hBase, hKinds⟩, hPos⟩

/-- A node in the place of a declarator. -/
def declaratorNode (kind : Kind) (text : String) (inside : List Node) : Node :=
  .mk { kind, text, field := some .declarator, named := true, isError := false,
        isMissing := false, hasError := false, row := 0, start := 0, position := .start } inside

/-- The declarator of `bool (*row)[2]`, a pointer to an array. -/
def rowPointer : Node :=
  declaratorNode .arrayDeclarator "(*row)[2]"
    [declaratorNode .parenthesizedDeclarator "(*row)"
      [declaratorNode .pointerDeclarator "*row" [declaratorNode .identifier "row" []]]]

/-- The declarator of `bool (&flag)`. -/
def flagReference : Node :=
  declaratorNode .parenthesizedDeclarator "(&flag)"
    [declaratorNode .referenceDeclarator "&flag" [declaratorNode .identifier "flag" []]]

/-- The pointer is closer to the name than the array, and a reference is transparent. -/
theorem declared_type_row :
    ofNode .boolean rowPointer = .var "row" .pointer .start ∧
      ofNode .boolean flagReference = .var "flag" .boolean .start := by
  have hRow : Wraps [.arrayDeclarator, .parenthesizedDeclarator, .pointerDeclarator] rowPointer
      (declaratorNode .identifier "row" []) :=
    .step rfl rfl (.step rfl rfl (.step rfl rfl (.refl _)))
  have hFlag : Wraps [.parenthesizedDeclarator, .referenceDeclarator] flagReference
      (declaratorNode .identifier "flag" []) :=
    .step rfl rfl (.step rfl rfl (.refl _))
  constructor
  · apply (((declared_type .boolean rowPointer).2 hRow (.inl rfl)).1 _ _ _).mpr
    refine ⟨?_, rfl, by decide, rfl⟩
    simp [CallsPointers]
  · apply (((declared_type .boolean flagReference).2 hFlag (.inl rfl)).2 _ _).mpr
    refine ⟨rfl, ?_, rfl, rfl⟩
    simp [IsTransparent]

end Declared

end TruthLint
