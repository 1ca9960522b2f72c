import Mathlib.Tactic.SplitIfs
import TruthLint.Proofs.Expr.Reads
import TruthLint.Proofs.Outline.Parts

/-! The nodes that are read for the expressions of an outline. Different parts of a statement are
read from different children, and a lambda is read apart from the expression around it, so that no
node is read for two expressions. -/

namespace TruthLint

open Cst

mutual

/-- What the expressions in an entry are read from, in order. -/
def Entry.seeds : Entry → List Seed
  | .var _ _ _ | .function _ _ _ => []
  | .root seed _ => [seed]
  | .scope _ _ _ body | .nameSpace _ _ body | .definition _ _ _ _ body => Entry.seedsAll body

def Entry.seedsAll : List Entry → List Seed
  | [] => []
  | entry :: entries => entry.seeds ++ Entry.seedsAll entries

end

theorem Entry.seedsAll_eq_flatMap (entries : List Entry) :
    Entry.seedsAll entries = entries.flatMap Entry.seeds := by
  induction entries with
  | nil => rfl
  | cons entry entries ih => rw [seedsAll, ih, List.flatMap_cons]

theorem Entry.seedsAll_append (first second : List Entry) :
    seedsAll (first ++ second) = seedsAll first ++ seedsAll second := by
  simp only [seedsAll_eq_flatMap, List.flatMap_append]

theorem Entry.seedsAll_singleton (entry : Entry) : seedsAll [entry] = entry.seeds := by
  rw [seedsAll, seedsAll, List.append_nil]

/-- Declarators declare names and are not read for expressions. -/
theorem seedsAll_entries (base : VariableType) (declared : Declared) :
    Entry.seedsAll (declared.entries base) = [] := by
  cases declared with
  | var | unnamed => rfl
  | function name indirect line =>
      rw [Declared.entries]
      split <;> rfl

/-- Parameters declare variables and evaluate nothing. -/
theorem seedsAll_parameterEntries (parameters : Option Node) :
    Entry.seedsAll ((parameters.map parameterEntries).getD []) = [] := by
  cases parameters with
  | none => rfl
  | some parameters =>
      rw [Option.map_some, Option.getD_some, parameterEntries, Entry.seedsAll_eq_flatMap,
        List.flatMap_assoc, List.flatMap_eq_nil_iff]
      intro parameter _
      have hDeclared (declared : Declared) :
          declared.parameterEntries.flatMap Entry.seeds = [] := by
        cases declared <;> rfl
      split
      · exact hDeclared _
      · exact hDeclared _
      · rfl

/-- The nodes that are read for an expression, one for each time. -/
def Seed.reads (seed : Seed) : List Node := Expr.reads Expr.nestingLimit seed.node

namespace Outline

/-- The nodes that are read for the expressions of an outline, one for each time. -/
def lowered (entries : List Entry) : List Node := (Entry.seedsAll entries).flatMap Seed.reads

/-- The nodes that are read for entries in a row are read in that order. -/
theorem lowered_append (first second : List Entry) :
    lowered (first ++ second) = lowered first ++ lowered second := by
  simp only [lowered, Entry.seedsAll_append, List.flatMap_append]

theorem lowered_singleton (entry : Entry) :
    lowered [entry] = entry.seeds.flatMap Seed.reads := by
  rw [lowered, Entry.seedsAll_singleton]

theorem lowered_root (seed : Seed) (context : RootContext) :
    lowered [.root seed context] = seed.reads := by
  rw [lowered_singleton, Entry.seeds, List.flatMap_singleton]

theorem lowered_scope (kind : ScopeKind) (name : Option String) (line : Nat) (body : List Entry) :
    lowered [.scope kind name line body] = lowered body := by
  rw [lowered_singleton, Entry.seeds, lowered]

theorem lowered_nameSpace (path : List String) (line : Nat) (body : List Entry) :
    lowered [.nameSpace path line body] = lowered body := by
  rw [lowered_singleton, Entry.seeds, lowered]

theorem lowered_definition (declared : Option QualifiedName) (name : Option String)
    (returns : ReturnKind) (line : Nat) (body : List Entry) :
    lowered [.definition declared name returns line body] = lowered body := by
  rw [lowered_singleton, Entry.seeds, lowered]

/-- What is read for each of some contributions is read for all of them, one after the other. -/
theorem lowered_flatMap {α : Type} (l : List α) (f : α → List Entry) :
    lowered (l.flatMap f) = l.flatMap fun a => lowered (f a) := by
  simp only [lowered, Entry.seedsAll_eq_flatMap, List.flatMap_assoc]

theorem lowered_entries (base : VariableType) (declared : Declared) :
    lowered (declared.entries base) = [] := by
  rw [lowered, seedsAll_entries, List.flatMap_nil]

theorem lowered_parameterEntries (parameters : Option Node) :
    lowered ((parameters.map parameterEntries).getD []) = [] := by
  rw [lowered, seedsAll_parameterEntries, List.flatMap_nil]

/-- The entries are read from the children of a node in some roles. -/
def Confined (node : Node) (entries : List Entry) (fields : List Field) : Prop :=
  (lowered entries).Subperm ((node.inRoles fields).flatMap Node.preorder)

/-- The entries are read from the nodes of a tree, each at most once. -/
def Within (node : Node) (entries : List Entry) : Prop := (lowered entries).Subperm node.preorder

/-- What the children of a node contribute is read from the trees below them. -/
def Inherited (node : Node) : Prop :=
  ∀ child ∈ node.children, ∀ role : Role, Within child (ofNode child role)

section

variable {node : Node}

/-- Entries that are read from different roles are read from both together. -/
theorem Confined.append {first second : List Entry} {fields others : List Field}
    (hFirst : Confined node first fields) (hSecond : Confined node second others) :
    Confined node (first ++ second) (fields ++ others) := by
  rw [Confined, lowered_append, Node.inRoles, List.flatMap_append, List.flatMap_append]
  exact List.Subperm.append hFirst hSecond

/-- What reads nothing needs no role. -/
theorem confined_of_lowered_eq_nil {entries : List Entry} (h : lowered entries = []) :
    Confined node entries [] := by
  rw [Confined, h]
  exact List.nil_subperm

/-- Children in different roles are different. -/
theorem Confined.below {entries : List Entry} {fields : List Field}
    (h : Confined node entries fields) (hFields : fields.Nodup) :
    (lowered entries).Subperm (node.children.flatMap Node.preorder) :=
  List.Subperm.trans h ((node.inRoles_subperm hFields).flatMap _)

/-- What is read from below a node is read from the tree. -/
theorem within_of_below {entries : List Entry}
    (h : (lowered entries).Subperm (node.children.flatMap Node.preorder)) :
    Within node entries := by
  rw [Within, Node.preorder_eq]
  exact h.trans (.cons_right _ (.refl _))

/-- As long as no role is used twice, no node is read twice. -/
theorem Confined.within {entries : List Entry} {fields : List Field}
    (h : Confined node entries fields) (hFields : fields.Nodup) : Within node entries :=
  within_of_below (h.below hFields)

theorem within_nil : Within node [] := List.nil_subperm

/-- What the child in a role contributes is read from children in this role. -/
theorem confined_first (h : Inherited node) (field : Field) (role : Role) :
    Confined node ((partsOf node).first field role) [field] := by
  rw [Confined, first_partsOf, lowered_flatMap, Node.inRoles, List.flatMap_singleton]
  refine List.Subperm.trans (.flatMap_of_forall fun child hChild => ?_)
    ((node.child?_sublist field).flatMap _).subperm
  exact h child (Node.mem_of_child? (Option.mem_toList.mp hChild)) role

/-- What several children contribute is read from the trees below them, which have no node in
common. -/
theorem subperm_each (h : Inherited node) (p : Node → Bool) (role : Role) :
    (lowered ((partsOf node).each p role)).Subperm
      ((node.children.filter p).flatMap Node.preorder) := by
  rw [each_partsOf, lowered_flatMap]
  exact .flatMap_of_forall fun child hChild => h child (List.mem_of_mem_filter hChild) role

theorem confined_each (h : Inherited node) (field : Field) (role : Role) :
    Confined node ((partsOf node).each (Node.hasField field) role) [field] := by
  rw [Confined, Node.inRoles, List.flatMap_singleton]
  exact subperm_each h _ role

/-- Each child is read for itself, so that no node is read twice. -/
theorem within_each (h : Inherited node) (p : Node → Bool) (role : Role) :
    Within node ((partsOf node).each p role) :=
  within_of_below ((subperm_each h p role).trans (List.filter_sublist.flatMap _).subperm)

/-- Lambdas are read from the nodes inside them. -/
theorem lowered_lambdas (h : Inherited node)
    (hEnclosed : ∀ child ∈ node.children,
      (lowered (ofNode child .lambdas)).Subperm child.enclosed) :
    (lowered (lambdas node (partsOf node))).Subperm node.enclosed := by
  unfold lambdas
  split_ifs with hKind
  · rw [lowered_scope, lowered_append, lowered_parameterEntries, List.nil_append,
      Node.enclosed_lambda hKind]
    exact (confined_first h .body .members).below (by decide)
  · rw [Node.enclosed_eq hKind, each_partsOf, lowered_flatMap]
    refine List.Subperm.trans (.flatMap_of_forall fun child hChild => ?_)
      (List.filter_sublist.flatMap _).subperm
    exact hEnclosed child (List.mem_of_mem_filter hChild)

/-- An expression is read outside its lambdas, and they are read inside. -/
theorem within_whole (hListed : node.ArgumentsListed)
    (hLambdas : (lowered (lambdas node (partsOf node))).Subperm node.enclosed) {seed : Seed}
    (hSeed : seed.node = node) (context : RootContext) :
    Within node (.root seed context :: lambdas node (partsOf node)) := by
  have hReads : seed.reads.Subperm node.surface := by
    rw [Seed.reads, hSeed]
    exact Expr.reads_subperm_surface _ hListed
  rw [Within, ← List.singleton_append, lowered_append, lowered_root]
  exact (hReads.append hLambdas).trans node.surface_append_enclosed_perm.subperm

/-- A class is read from its body. -/
theorem within_classBody (h : Inherited node) : Within node (classBody node (partsOf node)) := by
  unfold classBody
  split
  · rw [Within, lowered_scope]
    exact (confined_first h .body .members).within (by decide)
  · exact within_nil

theorem within_nameSpace (h : Inherited node) : Within node (nameSpace node (partsOf node)) := by
  have hBody := (confined_first h .body .members).within (by decide)
  unfold nameSpace
  split
  · exact within_nil
  · exact hBody
  · rw [Within, lowered_nameSpace]
    exact hBody

/-- The type and the declarators of a declaration are different children. -/
theorem within_declaration (h : Inherited node) (context : RootContext) :
    Within node (declaration node (partsOf node) context) :=
  ((confined_first h _ _).append (confined_each h _ _)).within (by decide)

/-- Only the value of a declarator is read. -/
theorem within_initDeclarator (h : Inherited node) (base : VariableType) (context : RootContext) :
    Within node (initDeclarator node (partsOf node) base context) :=
  ((confined_of_lowered_eq_nil (lowered_entries base _)).append (confined_first h _ _)).within
    (by decide)

/-- A value is read as a whole or element by element. The lambdas in it lie deeper than what is read
for the value itself. -/
theorem within_initializer (hListed : node.ArgumentsListed) (h : Inherited node)
    (hLambdas : (lowered (lambdas node (partsOf node))).Subperm node.enclosed)
    (target : Option (String × Position)) (operator : Option Position) (context : RootContext) :
    Within node (initializer node (partsOf node) target operator context) := by
  unfold initializer
  split_ifs
  · cases target with
    | none => exact within_whole hListed hLambdas rfl context
    | some target => exact within_whole hListed hLambdas rfl context
  · exact within_each h _ _

/-- The type and the value of a member are different children. -/
theorem within_fieldDeclaration (h : Inherited node) :
    Within node (fieldDeclaration node (partsOf node)) := by
  have hDeclared (base : VariableType) (declared : List Declared) :
      lowered (declared.flatMap (·.entries base)) = [] := by
    rw [lowered_flatMap, List.flatMap_eq_nil_iff]
    exact fun _ _ => lowered_entries base _
  exact (((confined_first h _ _).append (confined_of_lowered_eq_nil (hDeclared _ _))).append
    (confined_first h _ _)).within (by decide)

/-- Only the body of a function is read. -/
theorem within_functionDefinition (h : Inherited node) :
    Within node (functionDefinition node (partsOf node)) := by
  unfold functionDefinition
  split
  · rw [Within, lowered_definition, lowered_append, lowered_parameterEntries, List.nil_append]
    exact (confined_first h .body .members).within (by decide)
  · exact within_nil

/-- The branches of a conditional inclusion are children of their own. -/
theorem within_inclusion (h : Inherited node) : Within node (inclusion node (partsOf node)) := by
  unfold inclusion
  exact within_each h _ _

theorem within_block {body : List Entry} (h : Within node body) :
    Within node (block node body) := by
  rw [Within, block, lowered_scope]
  exact h

/-- What a loop goes through and what it does are different children. -/
theorem within_rangeLoop (h : Inherited node) : Within node (rangeLoop node (partsOf node)) :=
  within_block ((((confined_of_lowered_eq_nil (lowered_entries _ _)).append
    (confined_first h _ _)).append (confined_first h _ _)).within (by decide))

/-- A node that is read for itself reads each node below it at most once. In every kind of statement
the parts stand in different roles. -/
theorem within_item (hListed : node.ArgumentsListed) (h : Inherited node)
    (hLambdas : (lowered (lambdas node (partsOf node))).Subperm node.enclosed) :
    Within node (item node (partsOf node)) := by
  have hFirst := confined_first h
  have hOther : Within node (if node.kind.isSkipped then []
      else if node.kind.isExpression then evaluated node (partsOf node) .statement
      else (partsOf node).each Node.isContent .item) := by
    split_ifs
    · exact within_nil
    · exact within_whole hListed hLambdas rfl _
    · exact within_each h _ _
  unfold item
  cases hKind : node.kind
  case functionDefinition => exact within_functionDefinition h
  case declaration => exact within_declaration h _
  case fieldDeclaration => exact within_fieldDeclaration h
  case classSpecifier | structSpecifier | unionSpecifier => exact within_classBody h
  case namespaceDefinition => exact within_nameSpace h
  case preprocIf | preprocIfdef | preprocElif | preprocElifdef | preprocElse =>
    exact within_inclusion h
  case compoundStatement => exact within_block (within_each h _ _)
  case ifStatement =>
    exact within_block
      ((((hFirst _ _).append (hFirst _ _)).append (hFirst _ _)).within (by decide))
  case whileStatement | switchStatement =>
    exact within_block (((hFirst _ _).append (hFirst _ _)).within (by decide))
  case doStatement => exact ((hFirst _ _).append (hFirst _ _)).within (by decide)
  case forStatement =>
    exact within_block (((((hFirst _ _).append (hFirst _ _)).append (hFirst _ _)).append
      (hFirst _ _)).within (by decide))
  case forRangeLoop => exact within_rangeLoop h
  case returnStatement => exact within_each h _ _
  all_goals
    rw [hKind] at hOther
    exact hOther

theorem within_tested (hListed : node.ArgumentsListed) (h : Inherited node)
    (hLambdas : (lowered (lambdas node (partsOf node))).Subperm node.enclosed) :
    Within node (tested node (partsOf node)) := by
  unfold tested
  split
  · exact within_declaration h _
  · exact within_declaration h _
  · split_ifs
    · exact within_whole hListed hLambdas rfl _
    · exact within_item hListed h hLambdas

theorem within_returned (hListed : node.ArgumentsListed) (h : Inherited node)
    (hLambdas : (lowered (lambdas node (partsOf node))).Subperm node.enclosed) :
    Within node (returned node (partsOf node)) := by
  unfold returned
  split_ifs
  · exact within_whole hListed hLambdas rfl _
  · exact within_each h _ _
  · exact within_nil

/-- What a node contributes in a role is read from its tree, each node at most once. -/
theorem within_step (hListed : node.ArgumentsListed) (h : Inherited node)
    (hLambdas : (lowered (lambdas node (partsOf node))).Subperm node.enclosed) (role : Role) :
    Within node (step node (partsOf node) role) := by
  cases role with
  | item => exact within_item hListed h hLambdas
  | members => exact within_each h _ _
  | lambdas =>
      have hEnclosed := (List.sublist_append_right node.surface node.enclosed).subperm
      exact hLambdas.trans (hEnclosed.trans node.surface_append_enclosed_perm.subperm)
  | condition =>
      rw [step]
      split_ifs
      · exact within_each h _ _
      · exact within_tested hListed h hLambdas
  | tested => exact within_tested hListed h hLambdas
  | typeSpecifier =>
      rw [step]
      split_ifs
      · exact within_classBody h
      · exact within_nil
  | declarator base context =>
      rw [step]
      split_ifs
      · exact within_initDeclarator h base context
      · exact (confined_of_lowered_eq_nil (lowered_entries base _)).within (by decide)
  | initializer target operator context =>
      exact within_initializer hListed h hLambdas target operator context
  | evaluated context =>
      rw [step]
      split_ifs
      · exact within_whole hListed hLambdas rfl context
      · exact within_nil
  | returned => exact within_returned hListed h hLambdas

end

/-- No node of a tree is read for two of its expressions, or twice for one, in whatever role the
tree is read; the search for lambdas reads only nodes inside them. -/
theorem within_ofNode (node : Node) (hListed : node.ArgumentsListed) :
    (∀ role : Role, Within node (ofNode node role)) ∧
      (lowered (ofNode node .lambdas)).Subperm node.enclosed := by
  induction node using Node.children_induction with
  | h node ih =>
      have hChild {child : Node} (hMem : child ∈ node.children) := ih child hMem
        (hListed.of_mem (Node.mem_preorder_of_child hMem child.mem_preorder_self))
      have hInherited : Inherited node := fun child hMem => (hChild hMem).1
      have hLambdas := lowered_lambdas hInherited fun child hMem => (hChild hMem).2
      refine ⟨fun role => ?_, ?_⟩
      · rw [ofNode_eq]
        exact within_step hListed hInherited hLambdas role
      · rw [ofNode_eq]
        exact hLambdas

end Outline

end TruthLint
