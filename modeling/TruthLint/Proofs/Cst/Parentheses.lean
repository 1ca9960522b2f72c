import Mathlib.Data.List.Forall2
import TruthLint.Proofs.Cst.Tree

/-! Trees with more parentheses. Putting a part of a tree in parentheses puts a node around it that
takes its role; everything else stays where it is. The nodes outside the new parentheses keep their
labels, and what is asked of their children is answered by the parts or their parentheses. -/

namespace List

variable {α β : Type} {R : α → β → Prop} {l : List α} {l' : List β}

/-- Two lists that are related in pairs are related through their members. -/
theorem Forall₂.with_mem (h : Forall₂ R l l') :
    Forall₂ (fun a b => R a b ∧ a ∈ l ∧ b ∈ l') l l' := by
  induction h with
  | nil => exact .nil
  | cons first rest ih =>
      refine .cons ⟨first, mem_cons_self, mem_cons_self⟩ (ih.imp ?_)
      rintro a b ⟨hRelated, hMem, hMem'⟩
      exact ⟨hRelated, mem_cons_of_mem _ hMem, mem_cons_of_mem _ hMem'⟩

/-- What is found first in two such lists is related, if it is looked for in the same way. -/
theorem Forall₂.find? {p : α → Bool} {p' : β → Bool} (hp : ∀ a b, R a b → p a = p' b)
    (h : Forall₂ R l l') :
    Option.Rel (fun a b => R a b ∧ p a = true) (l.find? p) (l'.find? p') := by
  induction h with
  | nil => exact .none
  | @cons a b _ _ first rest ih =>
      have hSame := hp a b first
      cases hFound : p a with
      | true =>
          have hHead : Option.Rel (fun a b => R a b ∧ p a = true) (some a) (some b) :=
            .some ⟨first, hFound⟩
          simpa [hFound, ← hSame] using hHead
      | false => simpa [hFound, ← hSame] using ih

end List

namespace Option.Rel

variable {α β γ : Type} {R S : α → β → Prop} {a : Option α} {b : Option β}

theorem imp (h : ∀ a b, R a b → S a b) (hRel : Option.Rel R a b) : Option.Rel S a b := by
  cases hRel with
  | none => exact .none
  | some hSome => exact .some (h _ _ hSome)

theorem map_eq {f : α → γ} {g : β → γ} (h : ∀ a b, R a b → f a = g b) (hRel : Option.Rel R a b) :
    a.map f = b.map g := by
  cases hRel with
  | none => rfl
  | some hSome => exact congrArg Option.some (h _ _ hSome)

end Option.Rel

namespace TruthLint.Cst

namespace Kind

/-- Whether a child in a role may stand in parentheses. Names, operators, types and lists of
arguments are no expressions, and the function of a call tells by its kind what is called. -/
def allowsParentheses (parent : Kind) : Option Field → Bool
  | some .name | some .operator | some .type | some .member | some .arguments => false
  | some .function => parent != .callExpression
  | _ => true

/-- Whether the text of a node of this kind is read, wherever the node stands. -/
def isSpelled : Kind → Bool
  | identifier | qualifiedIdentifier | primitiveType | sizedTypeSpecifier | numberLiteral => true
  | _ => false

/-- Whether the text of a child in a role is read, whatever its kind is. -/
def spells (parent : Kind) : Option Field → Bool
  | some .name | some .operator | some .type | some .member => true
  | some .arguments => parent == .templateFunction
  | _ => false

/-- No parentheses may be put around a part whose text a node reads. -/
theorem allowsParentheses_of_spells {parent : Kind} {field : Option Field}
    (h : parent.spells field = true) : parent.allowsParentheses field = false := by
  unfold spells at h
  split at h
  case h_6 => cases h
  all_goals rfl

end Kind

namespace Node

mutual

/-- The number of levels of a tree: the nodes of a tree of height `n` are nested less than `n`
deep. -/
def height : Node → Nat
  | .mk _ children => maxHeight children + 1

def maxHeight : List Node → Nat
  | [] => 0
  | node :: nodes => max (height node) (maxHeight nodes)

end

/-- A node among others is at most as high as the highest of them. -/
theorem height_le_maxHeight {node : Node} {nodes : List Node} (h : node ∈ nodes) :
    node.height ≤ maxHeight nodes := by
  induction nodes with
  | nil => cases h
  | cons first nodes ih =>
      rw [maxHeight]
      rcases List.mem_cons.mp h with rfl | hLater
      · exact Nat.le_max_left _ _
      · exact Nat.le_trans (ih hLater) (Nat.le_max_right _ _)

theorem height_pos (node : Node) : 0 < node.height := by
  cases node
  rw [height]
  exact Nat.succ_pos _

/-- A child is lower than its node. -/
theorem height_lt_of_mem_children {node child : Node} (h : child ∈ node.children) :
    child.height < node.height := by
  obtain ⟨label, children⟩ := node
  rw [height]
  exact Nat.lt_succ_of_le (height_le_maxHeight h)

/-- What stands for a child after parentheses were put around some of the children: the child with
its label, where the number and a text that is not read may differ, or parentheses in a role that
allows them, which open behind all that precedes the child. -/
inductive KeepsPlace (parent : Kind) (siblings : List Node) (child child' : Node) : Prop where
  | same (label : child'.label =
        { child.label with row := child'.label.row, text := child'.label.text })
      (spelling : parent.spells child.label.field = true → child'.text = child.text)
  | parentheses (field : child'.label.field = child.label.field)
      (allowed : parent.allowsParentheses child.label.field = true)
      (behind : ∀ sibling ∈ siblings, sibling.label.start < child.label.start →
        sibling.label.start < child'.label.start)

/-- The second tree is the first one with any number of parentheses around any of its parts. Beside
what they are put around, parentheses may hold comments and tokens, and they open in front of it.
The role of a node belongs to its place, so that the role of the root is left open. So are the row
numbers, which count the parentheses, and the texts that nobody reads, as they hold them. -/
inductive Parenthesized : Node → Node → Prop where
  | keep {label : Label} (field : Option Field) (row : Nat) (text : String)
      (spelling : label.kind.isSpelled = true → text = label.text) {children children' : List Node}
      (parts : List.Forall₂ Parenthesized children children')
      (places : List.Forall₂ (KeepsPlace label.kind children) children children') :
      Parenthesized (.mk label children)
        (.mk { label with field := field, row := row, text := text } children')
  | wrap {node inner : Node} (part : Parenthesized node inner) (content : node.isContent = true)
      {label : Label} (kind : label.kind = .parenthesizedExpression) (named : label.named = true)
      (opens : label.start < inner.label.start) {before after : List Node}
      (comments : ∀ node ∈ before ++ after, node.isContent = false) :
      Parenthesized node (.mk label (before ++ inner :: after))

/-- A child and what stands for it in a second tree. -/
structure InPlace (node node' child child' : Node) : Prop where
  parenthesized : Parenthesized child child'
  place : KeepsPlace node.kind node.children child child'
  mem : child ∈ node.children
  mem' : child' ∈ node'.children

/-- The second node is the first one, with parentheses only further inside. -/
structure Kept (node node' : Node) : Prop where
  label : { node'.label with
    field := node.label.field, row := node.label.row, text := node.label.text } = node.label
  text : node.kind.isSpelled = true → node'.text = node.text
  children : List.Forall₂ (InPlace node node') node.children node'.children

/-- A node that keeps its label, up to its field and row, and whose children are parenthesized in
their places, is kept. -/
theorem Kept.of_keep {label : Label} (field : Option Field) (row : Nat) {text : String}
    (spelling : label.kind.isSpelled = true → text = label.text) {children children' : List Node}
    (parts : List.Forall₂ Parenthesized children children')
    (places : List.Forall₂ (KeepsPlace label.kind children) children children') :
    Kept (.mk label children)
      (.mk { label with field := field, row := row, text := text } children') where
  label := rfl
  text := spelling
  children := List.Forall₂.mp (fun _ _ part ⟨place, mem, mem'⟩ => ⟨part, place, mem, mem'⟩) parts
    places.with_mem

namespace Parenthesized

variable {node node' : Node}

/-- A tree without new parentheses is one of its own parenthesized forms. -/
theorem refl (node : Node) : Parenthesized node node := by
  induction node using children_induction with
  | h node ih =>
      obtain ⟨label, children⟩ := node
      exact .keep label.field label.row label.text (fun _ => rfl)
        (List.forall₂_same.mpr ih)
        (List.forall₂_same.mpr fun child _ => .same rfl fun _ => rfl)

/-- Parentheses in front of an expression can only move its start to the left. -/
theorem start_le (h : Parenthesized node node') : node'.label.start ≤ node.label.start := by
  induction node' using children_induction with
  | h node' ih =>
      cases h with
      | keep field row text spelling parts places => exact Nat.le_refl _
      | @wrap _ inner part content label kind named opens before after comments =>
          have hInner : inner ∈ before ++ inner :: after :=
            List.mem_append_right _ List.mem_cons_self
          exact Nat.le_trans (Nat.le_of_lt opens) (ih inner hInner part)

/-- A node in parentheses is read as content if it was read as content before. -/
theorem isContent_eq (h : Parenthesized node node') : node'.isContent = node.isContent := by
  cases h with
  | keep field row text spelling parts places => rfl
  | wrap part content kind named opens comments =>
      rw [content, isContent, Node.kind]
      simp [label, kind, named]

/-- Parentheses open earlier, so that what starts where the node does is the node itself. -/
theorem kept_of_start_eq (h : Parenthesized node node')
    (hOpens : node'.label.start = node.label.start) : Kept node node' := by
  cases h with
  | keep field row text spelling parts places => exact .of_keep field row spelling parts places
  | wrap part content kind named opens comments =>
      have hStart := part.start_le
      rw [← hOpens] at hStart
      exact absurd opens (Nat.not_lt_of_le hStart)

/-- What is in parentheses is their first content. -/
theorem contents_wrap {inner : Node} (part : Parenthesized node inner)
    (content : node.isContent = true) (label : Label) {before after : List Node}
    (comments : ∀ node ∈ before ++ after, node.isContent = false) :
    (Node.mk label (before ++ inner :: after)).contents = [inner] := by
  obtain ⟨hBefore, hAfter⟩ := List.forall_mem_append.mp comments
  have hNone {nodes : List Node} (h : ∀ node ∈ nodes, node.isContent = false) :
      nodes.filter isContent = [] :=
    List.filter_eq_nil_iff.mpr fun node hNode => by simp [h node hNode]
  have hInner : inner.isContent = true := part.isContent_eq.trans content
  rw [contents, children, List.filter_append, List.filter_cons, if_pos hInner, hNone hBefore,
    hNone hAfter]
  rfl

end Parenthesized

namespace KeepsPlace

variable {parent : Kind} {siblings : List Node} {child child' : Node}

/-- The role of a child is that of whatever parentheses are around it. -/
theorem field_eq (h : KeepsPlace parent siblings child child') :
    child'.label.field = child.label.field := by
  cases h with
  | same label spelling => rw [label]
  | parentheses field allowed behind => exact field

/-- A child in a role that allows no parentheses starts where it did. -/
theorem start_eq (h : KeepsPlace parent siblings child child')
    (hRole : parent.allowsParentheses child.label.field = false) :
    child'.label.start = child.label.start := by
  cases h with
  | same label spelling => rw [label]
  | parentheses field allowed behind => rw [hRole] at allowed; cases allowed

/-- A child whose text is read has the same text. -/
theorem text_eq (h : KeepsPlace parent siblings child child')
    (hRole : parent.spells child.label.field = true) : child'.text = child.text := by
  cases h with
  | same label spelling => exact spelling hRole
  | parentheses field allowed behind =>
      rw [Kind.allowsParentheses_of_spells hRole] at allowed
      cases allowed

end KeepsPlace

namespace Kept

variable {node node' : Node}

/-- What is read off a label without its role, its number and its text is the same. -/
theorem of_label (h : Kept node node') {α : Type} (f : Label → α)
    (hf : ∀ label field row text,
      f { label with field := field, row := row, text := text } = f label) :
    f node'.label = f node.label := by
  rw [← hf node'.label node.label.field node.label.row node.label.text, h.label]

theorem kind (h : Kept node node') : node'.kind = node.kind :=
  h.of_label Label.kind fun _ _ _ _ => rfl

theorem position (h : Kept node node') : node'.position = node.position :=
  h.of_label Label.position fun _ _ _ _ => rfl

theorem start (h : Kept node node') : node'.label.start = node.label.start :=
  h.of_label Label.start fun _ _ _ _ => rfl

/-- The child in a role is found in both trees or in neither, and it is the same one up to
parentheses. -/
theorem child?_rel (h : Kept node node') (field : Field) :
    Option.Rel (fun child child' => InPlace node node' child child' ∧ child.hasField field = true)
      (node.child? field) (node'.child? field) :=
  h.children.find? fun child child' hChild => by
    rw [hasField, hasField, hChild.place.field_eq]

/-- The contents of two trees correspond one by one, in order. -/
theorem contents_rel (h : Kept node node') :
    List.Forall₂ (InPlace node node') node.contents node'.contents :=
  List.rel_filter (fun child child' hChild => by simp [hChild.parenthesized.isContent_eq])
    h.children

/-- A child in a role that allows no parentheses is kept itself. -/
theorem child?_kept (h : Kept node node') {field : Field}
    (hRole : node.kind.allowsParentheses (some field) = false) :
    Option.Rel (fun child child' => InPlace node node' child child' ∧ Kept child child')
      (node.child? field) (node'.child? field) := by
  refine (h.child?_rel field).imp fun child child' ⟨hChild, hField⟩ => ?_
  have hStart := hChild.place.start_eq (by rwa [beq_iff_eq.mp hField])
  exact ⟨hChild, hChild.parenthesized.kept_of_start_eq hStart⟩

/-- What is read off a child in a role with a text that is read is the same. -/
theorem map_child? (h : Kept node node') {field : Field}
    (hRole : node.kind.spells (some field) = true) {α : Type} {f : Node → α}
    (hf : ∀ {child child' : Node}, Kept child child' → child'.text = child.text →
      f child' = f child) :
    (node'.child? field).map f = (node.child? field).map f := by
  refine ((h.child?_rel field).map_eq fun child child' ⟨hChild, hField⟩ => ?_).symm
  have hSpelled : node.kind.spells child.label.field = true := by rwa [beq_iff_eq.mp hField]
  have hStart := hChild.place.start_eq (Kind.allowsParentheses_of_spells hSpelled)
  exact (hf (hChild.parenthesized.kept_of_start_eq hStart) (hChild.place.text_eq hSpelled)).symm

/-- What is asked about the text of a child in a role that is read by its text has the same answer.
-/
theorem any_child? (h : Kept node node') {field : Field}
    (hRole : node.kind.spells (some field) = true) {p : Node → Bool}
    (hp : ∀ {child child' : Node}, child'.text = child.text → p child' = p child) :
    (node'.child? field).any p = (node.child? field).any p := by
  have hMap (child? : Option Node) : child?.any p = (child?.map p).any id := by
    rw [Option.any_map]
    rfl
  rw [hMap, hMap, h.map_child? hRole fun _ hText => hp hText]

end Kept

end Node

end TruthLint.Cst
