import TruthLint.Outline.Basic
import TruthLint.Proofs.Expr.SpacedName

/-! Names of namespaces as they are written, such as `a :: b` or `a::inline b`, and the segments
that are read from them. -/

namespace TruthLint

open Cst

/-- A segment of the name of a namespace. -/
structure NamespaceSegment where
  /-- The blanks in front of the marker `inline`, if there is one. -/
  marker : Option (List Char)
  spaced : SpacedIdentifier
  marker_blank : ∀ blanks ∈ marker, ∀ c ∈ blanks, Text.isBlank c = true
  /-- The marker is not the beginning of the identifier. -/
  marker_apart : marker.isSome → spaced.before ≠ []
  not_keyword : spaced.identifier ≠ "inline"

namespace NamespaceSegment

def text (s : NamespaceSegment) : List Char :=
  match s.marker with
  | some blanks => blanks ++ "inline".toList ++ s.spaced.text
  | none => s.spaced.text

theorem ne_of_mem_text {s : NamespaceSegment} {c : Char} (h : c ∈ s.text) : c ≠ ':' := by
  rw [text] at h
  split at h
  next blanks hMarker =>
    rcases List.mem_append.mp h with hMarked | hSpaced
    · rcases List.mem_append.mp hMarked with hBlank | hInline
      · exact (Text.ne_of_isBlank (s.marker_blank blanks hMarker c hBlank)).1
      · rintro rfl
        exact absurd hInline (by decide)
    · exact (SpacedIdentifier.ne_of_mem_text hSpaced).1
  next => exact (SpacedIdentifier.ne_of_mem_text h).1

/-- The identifier is neither empty nor passed over as a marker. -/
theorem isKept (s : NamespaceSegment) :
    (s.spaced.identifier != "" && s.spaced.identifier != "inline") = true := by
  have hNotEmpty : s.spaced.identifier ≠ "" := by
    intro hEmpty
    apply s.spaced.identifier_ne_nil
    rw [hEmpty]
    rfl
  simp [hNotEmpty, s.not_keyword]

end NamespaceSegment

/-- The name of a namespace, with a double colon between its segments. The first segment has its
marker in front of the keyword `namespace`, and the others have theirs in the name. -/
structure NamespaceName where
  leading : List NamespaceSegment
  last : NamespaceSegment
  first_unmarked : ∀ s ∈ (leading ++ [last]).head?, s.marker = none

namespace NamespaceName

def segments (name : NamespaceName) : List NamespaceSegment := name.leading ++ [name.last]

def text (name : NamespaceName) : List Char :=
  (name.leading.map NamespaceSegment.text).flatMap (· ++ [':', ':']) ++ name.last.text

/-- The names of the namespaces, the outermost first. -/
def identifiers (name : NamespaceName) : List String :=
  name.segments.map fun s => s.spaced.identifier

/-- None of the namespaces after the first is marked as inline. -/
def Unmarked (name : NamespaceName) : Prop := ∀ s ∈ name.segments, s.marker = none

/-- A name of a namespace is split at its separators and nowhere else. -/
theorem splitColons_text (name : NamespaceName) :
    Text.splitColons name.text = name.segments.map NamespaceSegment.text := by
  rw [segments, List.map_append, List.map_singleton]
  apply Text.splitColons_pieces
  · intro piece hPiece
    obtain ⟨s, -, rfl⟩ := List.mem_map.mp hPiece
    refine List.isChain_append.mpr ⟨Text.noPair_of_ne fun c => s.ne_of_mem_text, .singleton _, ?_⟩
    intro c hLast _ _ hc
    exact absurd hc (s.ne_of_mem_text (List.mem_of_getLast? hLast))
  · exact Text.noPair_of_ne fun c => name.last.ne_of_mem_text

/-- The segments that are read from the name are its identifiers. -/
theorem nameSpacePath_eq {name : NamespaceName} (h : name.Unmarked) {text : String}
    (hText : text.toList = name.text) : Outline.nameSpacePath text = name.identifiers := by
  have hRead : (name.segments.map NamespaceSegment.text).map
      (fun piece => String.ofList (Text.trimChars piece)) = name.identifiers := by
    rw [List.map_map, identifiers]
    apply List.map_congr_left
    intro s hs
    rw [Function.comp_apply, NamespaceSegment.text, h s hs, SpacedIdentifier.trimChars_text,
      String.ofList_toList]
  rw [Outline.nameSpacePath, hText, splitColons_text, hRead, List.filter_eq_self]
  intro identifier hMem
  obtain ⟨s, -, rfl⟩ := List.mem_map.mp hMem
  exact s.isKept

/-- An identifier of the name is a name with one segment. -/
theorem nameSpacePath_identifier {name : NamespaceName} {identifier : String}
    (h : identifier ∈ name.identifiers) : Outline.nameSpacePath identifier = [identifier] := by
  obtain ⟨s, -, rfl⟩ := List.mem_map.mp h
  have hSplit : Text.splitColons s.spaced.identifier.toList = [s.spaced.identifier.toList] :=
    Text.splitColons_eq_singleton
      (Text.noPair_of_ne fun c hc => (SpacedIdentifier.ne_of_mem_identifier hc).1)
  have hTrimmed : Text.trimChars s.spaced.identifier.toList = s.spaced.identifier.toList :=
    Segment.trimChars_identifier s.spaced.segment
  simp only [Outline.nameSpacePath, hSplit, List.map_singleton, hTrimmed, String.ofList_toList]
  simp only [List.filter_cons, s.isKept, if_true, List.filter_nil]

end NamespaceName

end TruthLint
