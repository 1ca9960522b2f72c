import TruthLint.Proofs.Outline.Related

/-! The kinds of scopes in an outline. Namespaces are entries of their own, and the global scope
is not an entry at all. -/

namespace TruthLint

open Cst

/-- The entry, and every entry in it, opens no scope that is global or a namespace by itself. -/
inductive Entry.Regular : Entry → Prop
  | var (name : String) (type : VariableType) (line : Nat) : Regular (.var name type line)
  | function (name : QualifiedName) (returns : ReturnKind) (line : Nat) :
      Regular (.function name returns line)
  | root (seed : Seed) (context : RootContext) : Regular (.root seed context)
  | scope {kind : ScopeKind} {name : Option String} {line : Nat} {body : List Entry}
      (notGlobal : kind ≠ .global) (notNameSpace : kind ≠ .nameSpace)
      (entries : ∀ entry ∈ body, entry.Regular) : Regular (.scope kind name line body)
  | nameSpace {path : List String} {line : Nat} {body : List Entry}
      (entries : ∀ entry ∈ body, entry.Regular) : Regular (.nameSpace path line body)
  | definition {declared : Option QualifiedName} {name : Option String} {returns : ReturnKind}
      {line : Nat} {body : List Entry} (entries : ∀ entry ∈ body, entry.Regular) :
      Regular (.definition declared name returns line body)

namespace Outline

/-- All entries of an outline are regular. -/
def Regular (entries : List Entry) : Prop := ∀ entry ∈ entries, entry.Regular

theorem regular_singleton {entry : Entry} (h : entry.Regular) : Regular [entry] := by
  simpa [Regular] using h

/-- Outlines that are put together of regular ones are regular. The scopes that nodes open by
entries of their own are neither global nor namespaces. -/
theorem regular_congruence : Congruence fun entries _ => Regular entries where
  nil := List.forall_mem_nil _
  append hFirst hSecond := List.forall_mem_append.mpr ⟨hFirst, hSecond⟩
  var _ _ _ := regular_singleton (.var _ _ _)
  function _ _ _ := regular_singleton (.function _ _ _)
  root _ _ := regular_singleton (.root _ _)
  scope _ _ _ _ notGlobal notNameSpace hBody :=
    regular_singleton (.scope notGlobal notNameSpace hBody)
  nameSpace _ _ _ _ hBody := regular_singleton (.nameSpace hBody)
  definition _ _ _ _ _ _ hBody := regular_singleton (.definition hBody)

/-- The outline of a node is regular, in whatever role the node is read. -/
theorem regular_ofNode (node : Node) : ∀ role : Role, Regular (ofNode node role) := by
  induction node using Node.children_induction with
  | h node ih =>
      intro role
      have hFlatMap {nodes : List Node} (hNodes : ∀ child ∈ nodes, child ∈ node.children)
          (role : Role) : Regular (nodes.flatMap fun child => ofNode child role) := by
        intro entry hEntry
        obtain ⟨child, hChild, hEntry⟩ := List.mem_flatMap.mp hEntry
        exact ih child (hNodes child hChild) role entry hEntry
      have hEach (p : Node → Bool) (role : Role) : Regular ((partsOf node).each p role) := by
        rw [each_partsOf]
        exact hFlatMap (fun _ => List.mem_of_mem_filter) role
      have hFirst (field : Field) (role : Role) : Regular ((partsOf node).first field role) := by
        rw [first_partsOf]
        refine hFlatMap (fun child hChild => ?_) role
        exact List.mem_of_find?_eq_some (Option.mem_toList.mp hChild)
      have hParts : RelatedParts (fun entries _ => Regular entries) (partsOf node)
          (partsOf node) := ⟨fun field role _ => hFirst field role, fun _ role _ => hEach _ role⟩
      rw [ofNode_eq]
      refine related_step regular_congruence (.refl node) hParts role fun _ => ?_
      exact related_lambdas regular_congruence (.refl node) hParts fun _ => hEach _ _

end Outline

end TruthLint
