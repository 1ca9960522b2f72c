import Mathlib.Data.List.TakeWhile
import TruthLint.Expr.Lowering
import TruthLint.Proofs.Expr.WrittenName

/-! Qualified names with blanks between their parts. A declaration cuts such a name at the double
colons and trims the pieces, a call first removes all blanks and then cuts; both arrive at the same
name. -/

namespace TruthLint

open Cst

namespace Text

variable {cs : List Char}

/-- Blanks are no parts of separators or template arguments. -/
theorem ne_of_isBlank {c : Char} (h : isBlank c = true) : c ≠ ':' ∧ c ≠ '<' := by
  constructor
  · rintro rfl
    exact absurd h (by decide)
  · rintro rfl
    exact absurd h (by decide)

theorem filter_isBlank (h : ∀ c ∈ cs, isBlank c = true) :
    cs.filter (fun c => !isBlank c) = [] := by
  rw [List.filter_eq_nil_iff]
  intro c hMem
  simp [h c hMem]

/-- Without an opening bracket there are no template arguments to leave out. -/
theorem dropTemplateArguments_eq_self (h : ∀ c ∈ cs, c ≠ '<') : dropTemplateArguments cs = cs :=
  List.takeWhile_eq_self_iff.mpr fun c hMem => bne_iff_ne.mpr (h c hMem)

end Text

/-- An identifier with the blanks around it. -/
structure SpacedIdentifier where
  before : List Char
  identifier : String
  after : List Char
  identifier_ne_nil : identifier.toList ≠ []
  identifier_chars : identifier.toList.all isNameChar = true
  before_blank : ∀ c ∈ before, Text.isBlank c = true
  after_blank : ∀ c ∈ after, Text.isBlank c = true

/-- Without template arguments nothing has to be closed. -/
theorem paired_none : ∀ inner ∈ (none : Option String), Paired inner.toList :=
  fun inner hMem => absurd hMem (Option.not_mem_none inner)

namespace SpacedIdentifier

def text (s : SpacedIdentifier) : List Char := s.before ++ (s.identifier.toList ++ s.after)

/-- The identifier alone. -/
def segment (s : SpacedIdentifier) : Segment where
  identifier := s.identifier
  arguments := none
  identifier_ne_nil := s.identifier_ne_nil
  identifier_chars := s.identifier_chars
  paired := paired_none

theorem plain_segment (s : SpacedIdentifier) : s.segment.Plain := by simp [segment, Segment.Plain]

/-- Without its blanks a segment is written as the identifier. -/
theorem text_segment (s : SpacedIdentifier) : s.segment.text = s.identifier.toList := by
  simp [segment, Segment.text, Segment.argumentList]

/-- What may stand in an identifier is no separator, no bracket and no blank. -/
theorem ne_of_mem_identifier {s : SpacedIdentifier} {c : Char} (h : c ∈ s.identifier.toList) :
    c ≠ ':' ∧ c ≠ '<' ∧ Text.isBlank c = false :=
  Segment.ne_of_mem_identifier (s := s.segment) h

/-- So blanks around an identifier do not bring a separator into it. -/
theorem ne_of_mem_text {s : SpacedIdentifier} {c : Char} (h : c ∈ s.text) :
    c ≠ ':' ∧ c ≠ '<' := by
  rw [text, List.mem_append, List.mem_append] at h
  rcases h with hBefore | hIdentifier | hAfter
  · exact Text.ne_of_isBlank (s.before_blank c hBefore)
  · exact ⟨(ne_of_mem_identifier hIdentifier).1, (ne_of_mem_identifier hIdentifier).2.1⟩
  · exact Text.ne_of_isBlank (s.after_blank c hAfter)

/-- In front of anything else, blanks are dropped up to the identifier. -/
theorem dropWhile_text_append (s : SpacedIdentifier) (rest : List Char) :
    (s.text ++ rest).dropWhile Text.isBlank = s.identifier.toList ++ (s.after ++ rest) := by
  rw [text, List.append_assoc, List.append_assoc, List.dropWhile_append_of_pos s.before_blank]
  refine Text.dropWhile_isBlank fun c hHead => ?_
  rw [List.head?_append_of_ne_nil _ s.identifier_ne_nil] at hHead
  exact (ne_of_mem_identifier (List.mem_of_head? hHead)).2.2

/-- Trimming leaves the identifier. -/
theorem trimChars_text (s : SpacedIdentifier) : Text.trimChars s.text = s.identifier.toList := by
  have hFront := s.dropWhile_text_append []
  rw [List.append_nil, List.append_nil] at hFront
  have hAfter : ∀ c ∈ s.after.reverse, Text.isBlank c = true := fun c hMem =>
    s.after_blank c (List.mem_reverse.mp hMem)
  rw [Text.trimChars, hFront, Text.dropEndWhile, List.reverse_append,
    List.dropWhile_append_of_pos hAfter, Text.dropWhile_isBlank, List.reverse_reverse]
  intro c hLast
  rw [List.head?_reverse] at hLast
  exact (ne_of_mem_identifier (List.mem_of_getLast? hLast)).2.2

theorem filter_text (s : SpacedIdentifier) :
    s.text.filter (fun c => !Text.isBlank c) = s.identifier.toList := by
  have hIdentifier : s.identifier.toList.filter (fun c => !Text.isBlank c) =
      s.identifier.toList := by
    rw [List.filter_eq_self]
    intro c hMem
    simp [(ne_of_mem_identifier hMem).2.2]
  rw [text, List.filter_append, List.filter_append, Text.filter_isBlank s.before_blank,
    Text.filter_isBlank s.after_blank, hIdentifier, List.nil_append, List.append_nil]

/-- Pieces that are identifiers are none of them empty. -/
theorem map_identifiers (piece : SpacedIdentifier → List Char)
    (h : ∀ s, piece s = s.identifier.toList) (spaced : List SpacedIdentifier) :
    ((spaced.map piece).filter fun piece => !piece.isEmpty).map String.ofList =
      spaced.map SpacedIdentifier.identifier := by
  rw [List.filter_eq_self.mpr, List.map_map]
  · refine List.map_congr_left fun s _ => ?_
    rw [Function.comp_apply, h, String.ofList_toList]
  · intro cs hMem
    obtain ⟨s, -, rfl⟩ := List.mem_map.mp hMem
    simp [h, s.identifier_ne_nil]

end SpacedIdentifier

/-- A qualified name of plain identifiers, such as `N :: f` or `:: N::f`. -/
structure SpacedName where
  /-- The blanks in front of a double colon that starts the name. -/
  margin : List Char
  /-- Whether the name starts with a double colon. -/
  global : Bool
  leading : List SpacedIdentifier
  last : SpacedIdentifier
  margin_blank : ∀ c ∈ margin, Text.isBlank c = true

namespace SpacedName

/-- What stands in front of each double colon. -/
def pieces (name : SpacedName) : List (List Char) :=
  (if name.global then [name.margin] else []) ++ name.leading.map SpacedIdentifier.text

def text (name : SpacedName) : List Char :=
  name.pieces.flatMap (· ++ [':', ':']) ++ name.last.text

/-- The name without blanks. -/
def compact (name : SpacedName) : WrittenName :=
  ⟨name.global, name.leading.map SpacedIdentifier.segment, name.last.segment⟩

/-- The identifiers of the name. -/
def qualified (name : SpacedName) : QualifiedName := name.compact.qualified

variable {name : SpacedName}

/-- The compact form of a name has no template arguments, and so no separator in them. -/
theorem plain_compact (name : SpacedName) : name.compact.Plain := by
  intro s hMem
  simp only [compact, List.mem_append, List.mem_map, List.mem_singleton] at hMem
  rcases hMem with ⟨spaced, -, rfl⟩ | rfl
  · exact spaced.plain_segment
  · exact name.last.plain_segment

theorem ne_of_mem_pieces {piece : List Char} (h : piece ∈ name.pieces) {c : Char}
    (hc : c ∈ piece) : c ≠ ':' ∧ c ≠ '<' := by
  rcases List.mem_append.mp h with hMargin | hLeading
  · split at hMargin
    · rw [List.mem_singleton] at hMargin
      exact Text.ne_of_isBlank (name.margin_blank c (hMargin ▸ hc))
    · cases hMargin
  · obtain ⟨s, -, rfl⟩ := List.mem_map.mp hLeading
    exact SpacedIdentifier.ne_of_mem_text hc

/-- A name is split at its separators and nowhere else, whatever blanks are around them. -/
theorem splitColons_text (name : SpacedName) :
    Text.splitColons name.text = name.pieces ++ [name.last.text] := by
  refine Text.splitColons_pieces (fun piece hPiece => ?_) ?_
  · refine List.isChain_append.mpr ⟨Text.noPair_of_ne fun c hc => (ne_of_mem_pieces hPiece hc).1,
      .singleton _, fun c hLast _ _ hc => ?_⟩
    exact absurd hc (ne_of_mem_pieces hPiece (List.mem_of_getLast? hLast)).1
  · exact Text.noPair_of_ne fun c hMem => (SpacedIdentifier.ne_of_mem_text hMem).1

/-- The pieces of a declared name, trimmed, are its identifiers; an empty one is passed over. -/
theorem trimmed_pieces (name : SpacedName) :
    (((name.pieces ++ [name.last.text]).map fun piece =>
      Text.trimChars (Text.dropTemplateArguments piece)).filter fun piece => !piece.isEmpty).map
        String.ofList = (name.leading ++ [name.last]).map SpacedIdentifier.identifier := by
  have hTrimmed (s : SpacedIdentifier) :
      Text.trimChars (Text.dropTemplateArguments s.text) = s.identifier.toList := by
    rw [Text.dropTemplateArguments_eq_self fun c hMem => (SpacedIdentifier.ne_of_mem_text hMem).2,
      s.trimChars_text]
  have hMargin : Text.trimChars (Text.dropTemplateArguments name.margin) = [] := by
    rw [Text.dropTemplateArguments_eq_self
      fun c hMem => (Text.ne_of_isBlank (name.margin_blank c hMem)).2, Text.trimChars,
      List.dropWhile_eq_nil_iff.mpr name.margin_blank]
    rfl
  have hPieces : name.pieces ++ [name.last.text] =
      (if name.global then [name.margin] else []) ++
        (name.leading ++ [name.last]).map SpacedIdentifier.text := by
    rw [pieces, List.append_assoc, List.map_append, List.map_singleton]
  have hNone : (((if name.global then [name.margin] else []).map fun piece =>
      Text.trimChars (Text.dropTemplateArguments piece)).filter fun piece => !piece.isEmpty) =
        [] := by
    split
    · simp [hMargin]
    · rfl
  rw [hPieces, List.map_append, List.filter_append, hNone, List.nil_append, List.map_map]
  exact SpacedIdentifier.map_identifiers _ hTrimmed _

/-- A name starts at the global scope exactly if a separator comes first, after blanks perhaps. -/
theorem isGlobal_text (name : SpacedName) :
    (Text.afterLead? [':', ':'] (name.text.dropWhile Text.isBlank)).isSome = name.global := by
  cases hGlobal : name.global with
  | true =>
      have hStart : name.text = name.margin ++ (':' :: ':' ::
          ((name.leading.map SpacedIdentifier.text).flatMap (· ++ [':', ':']) ++
            name.last.text)) := by
        simp [text, pieces, hGlobal]
      rw [hStart, List.dropWhile_append_of_pos name.margin_blank,
        Text.dropWhile_isBlank (by rintro c ⟨⟩; decide)]
      rfl
  | false =>
      obtain ⟨s, rest, hStart⟩ : ∃ (s : SpacedIdentifier) (rest : List Char),
          name.text = s.text ++ rest := by
        rw [text, pieces, hGlobal]
        cases name.leading with
        | nil => exact ⟨name.last, [], by simp⟩
        | cons s leading =>
            let rest := (leading.map SpacedIdentifier.text).flatMap (· ++ [':', ':']) ++
              name.last.text
            exact ⟨s, ':' :: ':' :: rest, by simp [rest]⟩
      obtain ⟨c, others, hCons⟩ := List.exists_cons_of_ne_nil s.identifier_ne_nil
      have hColon : ':' ≠ c := by
        have hMem : c ∈ s.identifier.toList := hCons ▸ List.mem_cons_self
        exact (SpacedIdentifier.ne_of_mem_identifier hMem).1.symm
      rw [hStart, s.dropWhile_text_append, hCons, List.cons_append, Text.afterLead?,
        if_neg hColon]
      rfl

/-- What a declaration makes of the name. -/
theorem ofNode?_eq_some {node : Node} (hKind : node.kind = .qualifiedIdentifier)
    (hText : node.text.toList = name.text) :
    QualifiedName.ofNode? node = some name.qualified := by
  rw [QualifiedName.ofNode?, hKind]
  simp only [hText, isGlobal_text, splitColons_text, trimmed_pieces, QualifiedName.ofSegments?]
  simp [qualified, compact, WrittenName.qualified, SpacedIdentifier.segment]

/-- The compact form of a name is the name without its blanks. -/
theorem filter_text (name : SpacedName) :
    name.text.filter (fun c => !Text.isBlank c) = name.compact.text := by
  have hColons : [':', ':'].filter (fun c => !Text.isBlank c) = [':', ':'] := by decide
  simp only [text, pieces, compact, WrittenName.text, List.filter_append, List.filter_flatMap,
    List.flatMap_append, List.flatMap_map, hColons, SpacedIdentifier.filter_text,
    SpacedIdentifier.text_segment, List.append_assoc]
  by_cases hGlobal : name.global = true
  · simp [hGlobal, Text.filter_isBlank name.margin_blank]
  · simp [hGlobal]

/-- Without blanks, the pieces are the identifiers. -/
theorem splitColons_compact (name : SpacedName) :
    ((Text.splitColons name.compact.text).filter fun piece => !piece.isEmpty).map String.ofList =
      (name.leading ++ [name.last]).map SpacedIdentifier.identifier := by
  obtain ⟨hLeading, hLast⟩ := List.forall_mem_append.mp name.plain_compact
  have hPieces := WrittenName.splitColons_segments hLeading (hLast _ List.mem_cons_self)
  rw [← SpacedIdentifier.map_identifiers (Segment.text ∘ SpacedIdentifier.segment)
    SpacedIdentifier.text_segment, List.map_append, ← List.map_map]
  change _ = ((name.compact.leading.map Segment.text ++ [name.compact.last.text]).filter _).map _
  rw [← hPieces, WrittenName.text]
  cases name.compact.global <;> rfl

theorem contains_compact (name : SpacedName) : name.compact.text.contains '<' = false := by
  rw [← filter_text, List.contains_eq_mem, decide_eq_false_iff_not, List.mem_filter, text,
    List.mem_append, List.mem_flatMap]
  rintro ⟨⟨piece, hPiece, hMem⟩ | hMem, -⟩
  · rcases List.mem_append.mp hMem with hInside | hColon
    · exact (ne_of_mem_pieces hPiece hInside).2 rfl
    · exact absurd hColon (by decide)
  · exact (SpacedIdentifier.ne_of_mem_text hMem).2 rfl

/-- What a call makes of the name. -/
theorem ofQualified_eq {source : String} (hText : source.toList = name.text) :
    Callee.ofQualified source = .qualified name.qualified := by
  rw [Callee.ofQualified]
  simp only [hText, filter_text, contains_compact, splitColons_compact, WrittenName.isGlobal_text,
    QualifiedName.ofSegments?]
  simp [qualified, compact, WrittenName.qualified, SpacedIdentifier.segment]

end SpacedName

end TruthLint
