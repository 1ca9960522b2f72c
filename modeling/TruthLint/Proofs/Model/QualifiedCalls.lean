import TruthLint.Proofs.Expr.SpacedName
import TruthLint.Proofs.Model.Members
import TruthLint.Proofs.Model.Reached
import TruthLint.Proofs.Scope.History

/-! Calls by qualified names. A name under which a function is declared in the global scope leads a
call to the scope of that declaration, whatever is declared before or after it. -/

namespace TruthLint

open Cst

namespace SymbolTable

/-- The functions of the same name in the same scope. -/
def Beside (table : SymbolTable) (f g : Function) : Prop :=
  g ∈ table.functions ∧ g.scope = f.scope ∧ g.name = f.name

variable {fs : List Function}

theorem beside_iff {table : SymbolTable} {f g : Function} :
    table.Beside f g ↔ g ∈ table.functionsIn f.name f.scope :=
  mem_functionsIn.symm

/-- Some declarations have no common meaning just in case two of them disagree. -/
theorem agreed?_eq_none_iff (h : fs ≠ []) :
    agreed? fs = none ↔ ∃ f ∈ fs, ∃ g ∈ fs, f.returns ≠ g.returns := by
  obtain ⟨first, others, rfl⟩ := List.exists_cons_of_ne_nil h
  constructor
  · intro hNone
    by_contra hAgree
    push Not at hAgree
    have hSome : agreed? (first :: others) = some first := History.agreed?_eq_some_iff.mpr
      ⟨rfl, fun g hMem => hAgree g hMem first List.mem_cons_self⟩
    rw [hNone] at hSome
    cases hSome
  · rintro ⟨f, hf, g, hg, hDiffer⟩
    rw [Option.eq_none_iff_forall_ne_some]
    intro answer hSome
    obtain ⟨-, hAll⟩ := History.agreed?_eq_some_iff.mp hSome
    exact hDiffer ((hAll f hf).trans (hAll g hg).symm)

end SymbolTable

namespace Model

variable {model : Model} {scope : Nat}

theorem ancestors_globalScope (tree : ScopeTree) : tree.ancestors globalScope = [globalScope] := by
  rw [ScopeTree.ancestors, globalScope, ScopeTree.chain]
  cases tree.parent? 0 <;> rfl

/-- In the global scope every path starts there. -/
theorem Start.eq_globalScope {global : Bool} {start : Nat}
    (h : model.Start globalScope global start) : start = globalScope := by
  rw [Start] at h
  split at h
  · exact h
  · rw [ancestors_globalScope] at h
    exact List.mem_singleton.mp h

/-- A call by a path that leads somewhere from the global scope means a function there, if it is
made in the global scope or its name says that the path starts there. -/
theorem resolve?_qualified (hModel : model.Consistent) {name : QualifiedName} {owner : Nat}
    (hPath : model.scopes.descend? globalScope name.path = some owner)
    (hScope : name.global = true ∨ scope = globalScope) :
    model.resolve? (.qualified name) scope =
      SymbolTable.agreed? (model.symbols.functionsIn name.name owner) := by
  have hRoot : model.scopes.root? = some globalScope :=
    if_neg (Nat.ne_of_gt hModel.rooted.size_pos)
  rw [resolve?, SymbolTable.resolve?]
  cases hGlobal : name.global with
  | true => simp [hRoot, hPath]
  | false =>
      have hHere : scope = globalScope := hScope.resolve_left (by simp [hGlobal])
      simp [hHere, ancestors_globalScope, hPath]

/-- A function that is declared or defined under a qualified name when the global scope is the
current one, wherever in the tree this is. -/
structure GlobalDeclaration (root : Node) (name : SpacedName) where
  named : Node
  outline : List Entry
  before : Model
  isQualified : named.kind = .qualifiedIdentifier
  text : named.text.toList = name.text
  declares : Outline.Declares named outline
  isReached : Reaches outline globalScope before globalScope initial (Outline.ofTree root)

/-- The path of the name leads to the scope of the function in the end. -/
theorem GlobalDeclaration.exists_function {root : Node} {name : SpacedName}
    (d : GlobalDeclaration root name) :
    ∃ f ∈ (ofTree root).symbols.functions, f.id = d.before.symbols.functions.length ∧
      f.name = name.last.identifier ∧
        (ofTree root).scopes.descend? globalScope name.qualified.path = some f.scope := by
  obtain ⟨hBefore, hLt⟩ :=
    d.isReached.consistent .initial (by decide) (Outline.regular_ofNode root .members)
  have hName := SpacedName.ofNode?_eq_some d.isQualified d.text
  obtain ⟨line, hOwner, f, hMem, hId, hNamed, hScope⟩ :=
    recordAll_declares d.declares hName globalScope d.before
  obtain ⟨start, hStart, hPath⟩ := openOwner_descend? hBefore hLt line name.qualified
  have hRooted : (d.before.openOwner globalScope line name.qualified).1.scopes.Rooted :=
    (hBefore.declareNamed hLt name.qualified .other line).1.rooted
  rw [hStart.eq_globalScope, ← hScope] at hPath
  have hKept := d.isReached.kept
  exact ⟨f, hKept.functions.mem hMem, hId, hNamed, (hOwner.trans hKept).descend? hRooted hPath⟩

/-- Declaring and calling agree: a call by the text under which a function was declared in the
global scope, made there or anywhere if the text starts with a double colon, means a function of
that name and scope that returns the same kind of value, or nothing if those disagree. -/
theorem resolve?_declared {root : Node} {name : SpacedName} (d : GlobalDeclaration root name) :
    ∃ f ∈ (ofTree root).symbols.functions, f.id = d.before.symbols.functions.length ∧
      f.name = name.last.identifier ∧
        ∀ scope, (name.global = true ∨ scope = globalScope) →
          let answer := (ofTree root).resolve? (.ofQualified d.named.text) scope
          let beside := (ofTree root).symbols.Beside f
          (answer = none ↔ ∃ g, beside g ∧ ∃ g', beside g' ∧ g.returns ≠ g'.returns) ∧
            ∀ g, answer = some g → beside g ∧ g.returns = f.returns := by
  obtain ⟨f, hMem, hId, hNamed, hPath⟩ := d.exists_function
  refine ⟨f, hMem, hId, hNamed, fun scope hScope => ?_⟩
  have hFinal : (ofTree root).Consistent :=
    consistent_recordAll .initial (by decide) (Outline.regular_ofNode root .members)
  have hAnswer : (ofTree root).resolve? (.ofQualified d.named.text) scope =
      SymbolTable.agreed? ((ofTree root).symbols.functionsIn f.name f.scope) := by
    rw [SpacedName.ofQualified_eq d.text, resolve?_qualified hFinal hPath hScope, hNamed]
    rfl
  have hBeside : f ∈ (ofTree root).symbols.functionsIn f.name f.scope :=
    SymbolTable.beside_iff.mp ⟨hMem, rfl, rfl⟩
  simp only [hAnswer, SymbolTable.beside_iff]
  refine ⟨SymbolTable.agreed?_eq_none_iff (List.ne_nil_of_mem hBeside), fun g hSome => ?_⟩
  obtain ⟨hFirst, hAll⟩ := History.agreed?_eq_some_iff.mp hSome
  exact ⟨List.mem_of_head? hFirst, (hAll f hBeside).symm⟩

/-- `:: N ::g` -/
def spacedMember : SpacedName where
  margin := []
  global := true
  leading := [⟨[' '], "N", [' '], by decide, by decide, List.forall_mem_singleton.mpr (by decide),
    List.forall_mem_singleton.mpr (by decide)⟩]
  last := ⟨[], "g", [], segmentG.identifier_ne_nil, segmentG.identifier_chars,
    List.forall_mem_nil _, List.forall_mem_nil _⟩
  margin_blank := List.forall_mem_nil _

/-- `bool :: N ::g();` -/
def spacedPrototype : Node :=
  nodeOf .declaration none "bool :: N ::g();"
    [nodeOf .primitiveType (some .type) "bool" [],
      nodeOf .functionDeclarator (some .declarator) ":: N ::g()"
        [nodeOf .qualifiedIdentifier (some .declarator) ":: N ::g" []]]

/-- The prototype of a function in a namespace that it creates, and a class of the same name with a
member of the same name. -/
def prototypeBeforeClass : Node :=
  nodeOf (.other "translation_unit") none "" [spacedPrototype, memberClass "N"]

def spacedDeclaration : GlobalDeclaration prototypeBeforeClass spacedMember where
  named := nodeOf .qualifiedIdentifier (some .declarator) ":: N ::g" []
  outline := Outline.ofNode spacedPrototype .item
  before := initial
  isQualified := rfl
  text := by decide
  declares := .declaration .boolean false 1
  isReached := .here (Outline.ofNode (memberClass "N") .item)

/-- From inside the class the call still means the function of the namespace. -/
theorem resolve?_declared_before_class :
    spacedMember.text = ":: N ::g".toList ∧ functionScopes prototypeBeforeClass = [1, 2] ∧
      ∃ f ∈ (ofTree prototypeBeforeClass).symbols.functions, f.id = 0 ∧
        ∃ g, (ofTree prototypeBeforeClass).resolve? (.ofQualified ":: N ::g") 2 = some g ∧
          g.scope = f.scope ∧ g.returns = f.returns := by
  obtain ⟨f, hMem, hId, -, hCalls⟩ := resolve?_declared spacedDeclaration
  obtain ⟨-, hSome⟩ := hCalls 2 (.inl rfl)
  have hAnswer : ((ofTree prototypeBeforeClass).resolve? (.ofQualified ":: N ::g") 2).isSome :=
    by decide +kernel
  obtain ⟨g, hg⟩ := Option.isSome_iff_exists.mp hAnswer
  obtain ⟨⟨-, hScope, -⟩, hReturns⟩ := hSome g hg
  exact ⟨by decide, by decide +kernel, f, hMem, hId, g, hg, hScope, hReturns⟩

end Model

end TruthLint
