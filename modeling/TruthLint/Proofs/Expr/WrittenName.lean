import Mathlib.Data.List.Infix
import TruthLint.Outline.Declarator
import TruthLint.Proofs.Text.Pair

/-! Names as they are written, with template arguments, and what the two ways of taking them apart
make of them. One goes over all segments from the left, the other looks only for the last one. -/

namespace TruthLint

open Cst

namespace Text

variable {cs : List Char}

theorem dropWhile_isBlank (h : ∀ c ∈ cs.head?, isBlank c = false) : cs.dropWhile isBlank = cs := by
  cases cs with
  | nil => rfl
  | cons c cs => rw [List.dropWhile_cons, h c rfl, if_neg Bool.false_ne_true]

/-- Text that neither starts nor ends with a blank is trimmed to itself. -/
theorem trimChars_eq_self (hHead : ∀ c ∈ cs.head?, isBlank c = false)
    (hLast : ∀ c ∈ cs.getLast?, isBlank c = false) : trimChars cs = cs := by
  rw [trimChars, dropWhile_isBlank hHead, dropEndWhile, dropWhile_isBlank, List.reverse_reverse]
  rw [List.head?_reverse]
  exact hLast

/-- A text in which no two colons meet is the first piece of what it is put in front of. -/
theorem splitColons_append (h : NoPair ':' ':' (cs ++ [':'])) (rest : List Char) :
    splitColons (cs ++ ':' :: ':' :: rest) = cs :: splitColons rest := by
  induction cs with
  | nil => rfl
  | cons c cs ih =>
      rw [List.cons_append, splitColons.eq_3 _ _ h.not_start_append, ih (List.isChain_cons.mp h).2]

/-- Text without a separator is one piece. -/
theorem splitColons_eq_singleton (h : NoPair ':' ':' cs) : splitColons cs = [cs] := by
  induction cs with
  | nil => rfl
  | cons c cs ih => rw [splitColons.eq_3 _ _ h.not_start, ih (List.isChain_cons.mp h).2]

/-- Pieces in which no two colons meet, nor at their ends, are found again. -/
theorem splitColons_pieces {pieces : List (List Char)} {last : List Char}
    (hPieces : ∀ piece ∈ pieces, NoPair ':' ':' (piece ++ [':'])) (hLast : NoPair ':' ':' last) :
    splitColons (pieces.flatMap (· ++ [':', ':']) ++ last) = pieces ++ [last] := by
  induction pieces with
  | nil => exact splitColons_eq_singleton hLast
  | cons piece pieces ih =>
      obtain ⟨hFirst, hOthers⟩ := List.forall_mem_cons.mp hPieces
      rw [List.flatMap_cons, List.append_assoc, List.append_assoc]
      exact (splitColons_append hFirst _).trans (congrArg _ (ih hOthers))

end Text

/-- Characters that a name is not taken apart at: no colons, angle brackets or blanks. -/
def isNameChar (c : Char) : Bool := c != ':' && c != '<' && c != '>' && !Text.isBlank c

/-- Every `>` closes a `<`, and none is left open. -/
def Paired (cs : List Char) : Prop :=
  cs.count '<' = cs.count '>' ∧ ∀ before ∈ cs.inits, before.count '>' ≤ before.count '<'

instance (cs : List Char) : Decidable (Paired cs) := inferInstanceAs (Decidable (_ ∧ _))

/-- A part of a name: an identifier with its template arguments, if it has some. -/
structure Segment where
  identifier : String
  /-- What stands between the outer angle brackets. -/
  arguments : Option String
  identifier_ne_nil : identifier.toList ≠ []
  identifier_chars : identifier.toList.all isNameChar = true
  paired : ∀ inner ∈ arguments, Paired inner.toList

namespace Segment

def argumentList (s : Segment) : List Char :=
  match s.arguments with
  | some inner => '<' :: inner.toList ++ ['>']
  | none => []

def text (s : Segment) : List Char := s.identifier.toList ++ s.argumentList

/-- The template arguments are no qualified names and mention none. -/
def Plain (s : Segment) : Prop := ∀ inner ∈ s.arguments, Text.occurs [':', ':'] inner.toList = false

instance (s : Segment) : Decidable s.Plain := inferInstanceAs (Decidable (∀ inner ∈ _, _))

variable {s : Segment}

/-- What may stand in an identifier is no separator, no bracket and no blank. -/
theorem ne_of_mem_identifier {c : Char} (h : c ∈ s.identifier.toList) :
    c ≠ ':' ∧ c ≠ '<' ∧ Text.isBlank c = false := by
  have hChar := List.all_eq_true.mp s.identifier_chars c h
  simp only [isNameChar, Bool.and_eq_true, bne_iff_ne, Bool.not_eq_true'] at hChar
  exact ⟨hChar.1.1.1, hChar.1.1.2, hChar.2⟩

/-- A segment starts with its identifier, which is not empty. -/
theorem head?_text : ∃ c ∈ s.identifier.toList, s.text.head? = some c := by
  obtain ⟨c, cs, hCons⟩ := List.exists_cons_of_ne_nil s.identifier_ne_nil
  exact ⟨c, hCons ▸ List.mem_cons_self, by rw [text, hCons]; rfl⟩

/-- It ends with its identifier or with the bracket of its template arguments. -/
theorem getLast?_text {c : Char} (h : c ∈ s.text.getLast?) : c ∈ s.identifier.toList ∨ c = '>' := by
  rw [text, argumentList] at h
  split at h
  · rw [← List.append_assoc, List.getLast?_concat] at h
    exact .inr (Option.some.inj h).symm
  · rw [List.append_nil] at h
    exact .inl (List.mem_of_getLast? h)

/-- So there is nothing to trim. -/
theorem trimChars_text (s : Segment) : Text.trimChars s.text = s.text := by
  refine Text.trimChars_eq_self (fun c hHead => ?_) fun c hLast => ?_
  · obtain ⟨first, hMem, hFirst⟩ := s.head?_text
    rw [hFirst] at hHead
    cases hHead
    exact (ne_of_mem_identifier hMem).2.2
  · rcases getLast?_text hLast with hMem | rfl
    · exact (ne_of_mem_identifier hMem).2.2
    · decide

/-- The template arguments of a segment are all that follows its identifier. -/
theorem dropTemplateArguments_text (s : Segment) :
    Text.dropTemplateArguments s.text = s.identifier.toList := by
  have hBefore : ∀ c ∈ s.identifier.toList, (c != '<') = true := fun c hMem =>
    bne_iff_ne.mpr (ne_of_mem_identifier hMem).2.1
  rw [Text.dropTemplateArguments, text, List.takeWhile_append_of_pos hBefore, argumentList]
  split <;> simp

theorem trimChars_identifier (s : Segment) :
    Text.trimChars s.identifier.toList = s.identifier.toList :=
  Text.trimChars_eq_self
    (fun _ hHead => (ne_of_mem_identifier (List.mem_of_head? hHead)).2.2)
    fun _ hLast => (ne_of_mem_identifier (List.mem_of_getLast? hLast)).2.2

/-- Template arguments that are plain have no separator in them. -/
theorem noPair_argumentList (h : s.Plain) : Text.NoPair ':' ':' s.argumentList := by
  rw [argumentList]
  split
  next inner hInner =>
    have hInside := Text.noPair_of_occurs (h inner hInner)
    refine List.isChain_append.mpr ⟨List.isChain_cons.mpr ⟨?_, hInside⟩, .singleton _, ?_⟩
    · exact fun _ _ hFirst => absurd hFirst (by decide)
    · intro _ _ c hLast _
      cases hLast
      decide
  next => exact .nil

/-- No two colons meet in a segment, nor where it borders on others. -/
theorem noPair_text (h : s.Plain) : Text.NoPair ':' ':' (':' :: (s.text ++ [':'])) := by
  have hIdentifier : Text.NoPair ':' ':' s.identifier.toList :=
    Text.noPair_of_ne fun c hMem => (ne_of_mem_identifier hMem).1
  have hText : Text.NoPair ':' ':' s.text :=
    List.isChain_append.mpr ⟨hIdentifier, noPair_argumentList h, fun c hLast _ _ hc =>
      absurd hc (ne_of_mem_identifier (List.mem_of_getLast? hLast)).1⟩
  have hEnd : Text.NoPair ':' ':' (s.text ++ [':']) := by
    refine List.isChain_append.mpr ⟨hText, .singleton _, fun c hLast _ _ hc => ?_⟩
    rcases getLast?_text hLast with hMem | rfl
    · exact absurd hc (ne_of_mem_identifier hMem).1
    · exact absurd hc (by decide)
  obtain ⟨first, hMem, hFirst⟩ := s.head?_text
  refine List.isChain_cons.mpr ⟨fun c hHead _ => ?_, hEnd⟩
  rw [List.head?_append, hFirst] at hHead
  cases hHead
  exact (ne_of_mem_identifier hMem).1

end Segment

/-- A name as it is written: `f`, `N::C<int>::f` or `::N::f`. -/
structure WrittenName where
  /-- Whether the name starts with a double colon. -/
  global : Bool
  leading : List Segment
  last : Segment

namespace WrittenName

def text (name : WrittenName) : List Char :=
  (if name.global then [':', ':'] else []) ++
    (name.leading.flatMap (fun s => s.text ++ [':', ':']) ++ name.last.text)

/-- The identifiers of the segments. -/
def qualified (name : WrittenName) : QualifiedName :=
  ⟨name.global, name.leading.map Segment.identifier, name.last.identifier⟩

def Plain (name : WrittenName) : Prop := ∀ s ∈ name.leading ++ [name.last], s.Plain

instance (name : WrittenName) : Decidable name.Plain :=
  inferInstanceAs (Decidable (∀ s ∈ _, _))

variable {name : WrittenName}

/-- A path is split into its segments as long as their template arguments are plain. -/
theorem splitColons_segments {leading : List Segment} {last : Segment}
    (hLeading : ∀ s ∈ leading, s.Plain) (hLast : last.Plain) :
    Text.splitColons (leading.flatMap (fun s => s.text ++ [':', ':']) ++ last.text) =
      leading.map Segment.text ++ [last.text] := by
  rw [← Text.splitColons_pieces, List.flatMap_map]
  · intro piece hPiece
    obtain ⟨s, hMem, rfl⟩ := List.mem_map.mp hPiece
    exact (Segment.noPair_text (hLeading s hMem)).tail
  · exact (Segment.noPair_text hLast).tail.left_of_append

/-- What a segment between double colons is taken for. -/
theorem trimmed_map (segments : List Segment) :
    (((segments.map Segment.text).map fun piece =>
      Text.trimChars (Text.dropTemplateArguments piece)).filter fun piece => !piece.isEmpty).map
        String.ofList = segments.map Segment.identifier := by
  rw [List.map_map, List.filter_eq_self.mpr, List.map_map]
  · refine List.map_congr_left fun s _ => ?_
    simp only [Function.comp_apply, Segment.dropTemplateArguments_text,
      Segment.trimChars_identifier, String.ofList_toList]
  · intro piece hPiece
    obtain ⟨s, -, rfl⟩ := List.mem_map.mp hPiece
    simp [Segment.dropTemplateArguments_text, Segment.trimChars_identifier, s.identifier_ne_nil]

/-- Whether a name starts with a double colon shows in its first character. -/
theorem head?_text (name : WrittenName) :
    ∃ c, name.text.head? = some c ∧ Text.isBlank c = false ∧ (name.global = false → c ≠ ':') := by
  cases hGlobal : name.global with
  | true => exact ⟨':', by simp [text, hGlobal], by decide, by simp⟩
  | false =>
      obtain ⟨s, more, hStart⟩ : ∃ (s : Segment) (more : List Char),
          name.text = s.text ++ more := by
        rw [text, hGlobal]
        cases name.leading with
        | nil => exact ⟨name.last, [], (List.append_nil _).symm⟩
        | cons s leading =>
            let rest := leading.flatMap (fun s => s.text ++ [':', ':']) ++ name.last.text
            exact ⟨s, ':' :: ':' :: rest, by simp [rest]⟩
      obtain ⟨c, hMem, hFirst⟩ := s.head?_text
      have hChar := Segment.ne_of_mem_identifier hMem
      exact ⟨c, by rw [hStart, List.head?_append, hFirst]; rfl, hChar.2.2, fun _ => hChar.1⟩

theorem dropWhile_isBlank_text (name : WrittenName) :
    name.text.dropWhile Text.isBlank = name.text := by
  obtain ⟨c, hHead, hBlank, -⟩ := name.head?_text
  refine Text.dropWhile_isBlank ?_
  rw [hHead]
  rintro first ⟨⟩
  exact hBlank

/-- A name starts at the global scope exactly if a separator comes first, since no segment starts
with a colon. -/
theorem isGlobal_text (name : WrittenName) :
    (Text.afterLead? [':', ':'] name.text).isSome = name.global := by
  obtain ⟨c, hHead, -, hColon⟩ := name.head?_text
  cases hGlobal : name.global with
  | true => simp [text, hGlobal, Text.afterLead?]
  | false =>
      obtain ⟨rest, hRest⟩ := List.head?_eq_some_iff.mp hHead
      rw [hRest, Text.afterLead?, if_neg (hColon hGlobal).symm]
      rfl

/-- A name that is taken apart from the left falls into the identifiers of its segments. The empty
piece in front of a leading double colon is passed over. -/
theorem ofNode?_eq_some (h : name.Plain) {node : Node} (hKind : node.kind = .qualifiedIdentifier)
    (hText : node.text.toList = name.text) :
    QualifiedName.ofNode? node = some name.qualified := by
  obtain ⟨hLeading, hLast⟩ := List.forall_mem_append.mp h
  have hPieces := splitColons_segments hLeading (hLast _ List.mem_cons_self)
  have hNames := trimmed_map (name.leading ++ [name.last])
  have hSplit : (((Text.splitColons name.text).map fun piece =>
      Text.trimChars (Text.dropTemplateArguments piece)).filter fun piece => !piece.isEmpty).map
        String.ofList = (name.leading ++ [name.last]).map Segment.identifier := by
    rw [← hNames, List.map_append, List.map_singleton, ← hPieces, text]
    cases name.global <;> rfl
  rw [QualifiedName.ofNode?, hKind]
  simp only [hText, dropWhile_isBlank_text, isGlobal_text, hSplit, QualifiedName.ofSegments?]
  simp [qualified]

/-- In front of the last segment stands nothing or a double colon. -/
theorem text_cases (name : WrittenName) :
    name.text = name.last.text ∨ ∃ before, name.text = before ++ ':' :: ':' :: name.last.text := by
  rcases List.eq_nil_or_concat' name.leading with hNone | ⟨leading, s, hSome⟩
  · cases hGlobal : name.global with
    | false => exact .inl (by rw [text, hGlobal, hNone]; rfl)
    | true => exact .inr ⟨[], by rw [text, hGlobal, hNone]; rfl⟩
  · refine .inr ⟨(if name.global then [':', ':'] else []) ++
      (leading.flatMap (fun s => s.text ++ [':', ':']) ++ s.text), ?_⟩
    rw [text, hSome]
    simp

/-- The last segment is found behind the last separator. -/
theorem lastSegment_text (h : name.last.Plain) : Text.lastSegment name.text = name.last.text := by
  have hApart : Text.NoPair ':' ':' (name.last.text.reverse ++ [':']) := by
    have hStart : Text.NoPair ':' ':' (':' :: name.last.text) :=
      List.IsChain.left_of_append (Segment.noPair_text h)
    have hReversed := hStart.reverse
    rwa [List.reverse_cons] at hReversed
  rw [Text.lastSegment]
  rcases name.text_cases with hAlone | ⟨before, hBefore⟩
  · rw [hAlone, Text.cut?_eq_none hApart.left_of_append]
    exact Segment.trimChars_text _
  · have hReversed :
        name.text.reverse = name.last.text.reverse ++ ':' :: ':' :: before.reverse := by
      rw [hBefore]
      simp
    rw [hReversed, Text.cut?_append_pair hApart]
    dsimp only
    rw [List.reverse_reverse, Segment.trimChars_text]

/-- The same identifier is found from the right, whatever the other segments look like. -/
theorem dropTemplateArguments_lastSegment (h : name.last.Plain) :
    Text.dropTemplateArguments (Text.lastSegment name.text) = name.last.identifier.toList := by
  rw [lastSegment_text h, Segment.dropTemplateArguments_text]

end WrittenName

end TruthLint
