import TruthLint.Proofs.Outline.Wrappers

/-! Functions that declarators declare. Pointers and references in front of a function declarator
are noted on the way out for a prototype, and on the way in for a definition. Both find the same
function. -/

namespace TruthLint

open Cst

/-- No wrapper is an array, up to the function declarator if there is one. -/
def NoArray (declarator : Node) : Prop :=
  ∀ {kinds : List Kind} {inner : Node}, Wraps kinds declarator inner →
    .functionDeclarator ∉ kinds → inner.kind ≠ .arrayDeclarator

namespace NoArray

variable {node inner : Node}

theorem kind_ne (h : NoArray node) : node.kind ≠ .arrayDeclarator :=
  h (.refl node) List.not_mem_nil

/-- What holds of the wrappers of a declarator holds of those further in. -/
theorem inside (h : NoArray node) (hInside : node.wrapped? = some inner)
    (hKind : node.kind ≠ .functionDeclarator) : NoArray inner := by
  intro kinds within hWraps hKinds
  apply h (.step rfl hInside hWraps)
  simp [hKinds, Ne.symm hKind]

end NoArray

/-- What a function declarator calls; in parentheses it is a pointer and no name. -/
def called? (function : Node) : Option Node :=
  (function.child? .declarator).filter fun name => name.kind != .parenthesizedDeclarator

theorem called?_eq_some_iff {function name : Node} :
    called? function = some name ↔
      function.child? .declarator = some name ∧ name.kind ≠ .parenthesizedDeclarator := by
  simp [called?, Option.filter_eq_some_iff]

/-- A node in parentheses names nothing. -/
theorem called?_bind_ofNode? (function : Node) :
    (called? function).bind QualifiedName.ofNode? =
      (function.child? .declarator).bind QualifiedName.ofNode? := by
  rw [called?]
  cases function.child? .declarator with
  | none => rfl
  | some name =>
      by_cases hKind : name.kind = .parenthesizedDeclarator
      · simp [Option.filter, hKind, QualifiedName.ofNode?]
      · simp [Option.filter, hKind]

/-- The function that a definition with this declarator defines, by the node that names it, and
whether it returns through a pointer or reference. -/
def definedFunction? (declarator : Node) : Option (Node × Bool) :=
  (functionDeclarator? false declarator).bind fun found =>
    (called? found.1).map fun name => (name, found.2)

/-- A definition is one of a function if a function declarator is found in it and what it calls is a
name. -/
theorem definedFunction?_eq_some_iff {declarator name : Node} {indirect : Bool} :
    definedFunction? declarator = some (name, indirect) ↔
      ∃ function, functionDeclarator? false declarator = some (function, indirect) ∧
        function.child? .declarator = some name ∧ name.kind ≠ .parenthesizedDeclarator := by
  simp only [definedFunction?, Option.bind_eq_some_iff, Option.map_eq_some_iff,
    called?_eq_some_iff]
  constructor
  · rintro ⟨⟨function, _⟩, hFound, _, hNamed, rfl, rfl⟩
    exact ⟨function, hFound, hNamed⟩
  · rintro ⟨function, hFound, hNamed⟩
    exact ⟨(function, indirect), hFound, name, hNamed, rfl⟩

/-- The flag of the search for a function declarator is kept on the way in, unless a wrapper sets
it. -/
theorem functionDeclarator?_indirect (indirect : Bool) (node : Node) :
    functionDeclarator? indirect node =
      (functionDeclarator? false node).map fun found => (found.1, indirect || found.2) := by
  induction node using Node.children_induction generalizing indirect with
  | h node ih =>
      have hKept : node.wrapped?.bind (functionDeclarator? indirect) =
          (node.wrapped?.bind (functionDeclarator? false)).map
            fun found => (found.1, indirect || found.2) := by
        cases hInside : node.wrapped? with
        | none => rfl
        | some inner => exact ih inner (Node.mem_of_wrapped? hInside) indirect
      have hSet : node.wrapped?.bind (functionDeclarator? true) =
          (node.wrapped?.bind (functionDeclarator? true)).map
            fun found => (found.1, indirect || found.2) := by
        cases hInside : node.wrapped? with
        | none => rfl
        | some inner =>
            rw [Option.bind_some, ih inner (Node.mem_of_wrapped? hInside) true]
            simp [Function.comp_def]
      rw [functionDeclarator?_eq, functionDeclarator?_eq false]
      split
      next => simp
      next hKind => simpa only [hKind] using hSet
      next hKind => simpa only [hKind] using hSet
      next hKind => simpa only [hKind] using hKept
      next hKind => simpa only [hKind] using hKept
      next => simp [*]

namespace Declared

/-- The function that is introduced, by the node that names it, and whether it returns through a
pointer or reference. -/
def function? : Declared → Option (Node × Bool)
  | function name indirect _ => some (name, indirect)
  | _ => none

/-- The line of a function is left out of what a declarator introduces. -/
theorem function?_eq_some_iff {declared : Declared} {name : Node} {indirect : Bool} :
    declared.function? = some (name, indirect) ↔
      ∃ line, declared = .function name indirect line := by
  cases declared <;> simp [function?]

/-- A pointer in front of a function is noted, and one in front of a variable is nothing to it. -/
theorem function?_behindPointer (declared : Declared) :
    declared.behindPointer.function? = declared.function?.map fun found => (found.1, true) := by
  cases declared <;> rfl

/-- What is called in parentheses is no function. -/
theorem function?_asPointer (declared : Declared) : declared.asPointer.function? = none := by
  cases declared <;> rfl

/-- Wrappers pass on the function that is found inside. -/
theorem function?_inside (base : VariableType) (node : Node) :
    (inside base node).function? =
      node.wrapped?.bind fun inner => (ofNode base inner).function? := by
  rw [inside]
  cases node.wrapped? <;> rfl

/-- A function declarator introduces what it calls, and no pointer has been crossed yet. -/
theorem function?_ofFunction {node : Node} (h : node.kind = .functionDeclarator)
    (base : VariableType) :
    (ofNode base node).function? = (called? node).map fun name => (name, false) := by
  have hInside : node.wrapped? = node.child? .declarator := by rw [Node.wrapped?, h]
  rw [ofNode_eq, h]
  simp only [hInside, called?]
  cases node.child? .declarator with
  | none => rfl
  | some inner =>
      by_cases hInner : inner.kind = .parenthesizedDeclarator
      · simp [hInner, function?_asPointer, Option.filter]
      · simp [hInner, function?, Option.filter]

/-- A declarator without arrays introduces the function of its function declarator. What the search
notes on its way in, a pointer notes on the way out. -/
theorem function?_ofNode {node : Node} (h : NoArray node) (base : VariableType) :
    (ofNode base node).function? = definedFunction? node := by
  unfold definedFunction?
  induction node using Node.children_induction generalizing base with
  | h node ih =>
      by_cases hFunction : node.kind = .functionDeclarator
      · rw [function?_ofFunction hFunction, functionDeclarator?_eq, hFunction]
        rfl
      have hKept (base : VariableType) :
          (inside base node).function? = (node.wrapped?.bind (functionDeclarator? false)).bind
            fun found => (called? found.1).map fun name => (name, found.2) := by
        rw [function?_inside, Option.bind_assoc]
        cases hInside : node.wrapped? with
        | none => rfl
        | some inner =>
            exact ih inner (Node.mem_of_wrapped? hInside) (h.inside hInside hFunction) base
      have hSet (base : VariableType) :
          (inside base node).behindPointer.function? =
            (node.wrapped?.bind (functionDeclarator? true)).bind
              fun found => (called? found.1).map fun name => (name, found.2) := by
        rw [function?_behindPointer, hKept]
        cases hInside : node.wrapped? with
        | none => rfl
        | some inner =>
            rw [Option.bind_some, Option.bind_some, functionDeclarator?_indirect true]
            cases functionDeclarator? false inner with
            | none => rfl
            | some found => cases hCalled : called? found.1 <;> simp [hCalled]
      rw [functionDeclarator?_eq, ofNode_eq]
      split
      next hKind => simp [hKind, function?]
      next hKind => simp [hKind, function?]
      next hKind => simpa only [hKind] using hSet .pointer
      next hKind => simpa only [hKind] using hSet base
      next hKind => exact absurd hKind h.kind_ne
      next hKind => simpa only [hKind] using hKept base
      next hKind => simpa only [hKind] using hKept base
      next hKind => exact absurd hKind hFunction
      next => simp [*, function?]

end Declared

end TruthLint
