import Mathlib.Data.List.DropRight
import TruthLint.Proofs.Reduction.Transcript
import TruthLint.Proofs.Text.Pair

/-! The canonical form of lines. What it promises of each line is what leaves a line as it is, so
that lines in canonical form stay the same when they are brought into it once more. -/

namespace TruthLint

namespace Text

/-- Dropping an end is the library's function of that kind. -/
theorem dropEndWhile_eq_rdropWhile (p : Char → Bool) (cs : List Char) :
    dropEndWhile p cs = cs.rdropWhile p := rfl

/-- What is left of a text whose end is dropped is a beginning of it. -/
theorem dropEndWhile_isPrefix (p : Char → Bool) (cs : List Char) : dropEndWhile p cs <+: cs :=
  List.rdropWhile_prefix p cs

/-- It does not end in what was to be dropped. -/
theorem getLast?_dropEndWhile {p : Char → Bool} {cs : List Char} {c : Char}
    (h : (dropEndWhile p cs).getLast? = some c) : p c = false := by
  rw [dropEndWhile_eq_rdropWhile] at h
  have hNonempty : cs.rdropWhile p ≠ [] := by
    rintro hNil
    rw [hNil] at h
    cases h
  rw [List.getLast?_eq_some_getLast hNonempty] at h
  obtain rfl := Option.some.inj h
  exact Bool.eq_false_iff.mpr (List.rdropWhile_last_not p cs hNonempty)

theorem dropEndWhile_eq_self {p : Char → Bool} {cs : List Char}
    (h : ∀ c, cs.getLast? = some c → p c = false) : dropEndWhile p cs = cs := by
  rw [dropEndWhile_eq_rdropWhile, List.rdropWhile_eq_self_iff]
  intro hNonempty
  exact Bool.eq_false_iff.mp (h _ (List.getLast?_eq_some_getLast hNonempty))

end Text

namespace Reduction

open Text

/-- What the canonical form promises of a line: its characters are ASCII and its ASCII blanks are
spaces, no comment opens in it, nothing blank ends it, and no spaces stand before a `#`. -/
structure Canonical (line : Line) : Prop where
  ascii : ∀ c ∈ line, isAscii c = true
  spaces : ∀ c ∈ line, isAsciiBlank c = true → c = ' '
  noLineComment : ¬['/', '/'] <:+: line
  noBlockComment : ¬['/', '*'] <:+: line
  trimmed : ∀ c, line.getLast? = some c → isBlank c = false
  aligned : ∀ (count : Nat) (rest : Line), line = List.replicate count ' ' ++ '#' :: rest →
    count = 0

/-- The characters that stay as they are are the ASCII ones, of whose blanks only the space. -/
theorem plain_eq_self_iff (c : Char) :
    plain c = c ↔ isAscii c = true ∧ (isAsciiBlank c = true → c = ' ') := by
  unfold plain
  split_ifs with hKept
  · rw [Bool.and_eq_true, Bool.not_eq_true'] at hKept
    simp [hKept]
  · constructor
    · rintro rfl
      exact ⟨by decide, fun _ => rfl⟩
    · rintro ⟨hAscii, hBlank⟩
      have hIsBlank : isAsciiBlank c = true := by simpa [hAscii] using hKept
      exact (hBlank hIsBlank).symm

/-- What is left after block comments are dropped opens none. -/
theorem noPair_dropBlockComments (line : Line) : NoPair '/' '*' (dropBlockComments line).1 := by
  fun_induction dropBlockComments line with
  | case1 line hNone => exact noPair_of_occurs (by rw [occurs, hNone]; rfl)
  | case2 line before rest hOpen => exact noPair_before_of_cut? hOpen
  | case3 line before rest hOpen inner after hClose ih => exact ih

/-- Neither kind of comment opens in what is left of a line. -/
theorem noPair_dropComments (inComment : Bool) (line : Line) :
    NoPair '/' '*' (dropComments inComment line).1 ∧
      NoPair '/' '/' (dropComments inComment line).1 := by
  have hOutside (line : Line) :
      NoPair '/' '*' (dropComments false line).1 ∧ NoPair '/' '/' (dropComments false line).1 := by
    have hBlock := noPair_dropBlockComments line
    rw [dropComments, if_neg Bool.false_ne_true]
    dsimp only
    cases hCut : cut? ['/', '/'] (dropBlockComments line).1 with
    | none => exact ⟨hBlock, noPair_of_occurs (by rw [occurs, hCut]; rfl)⟩
    | some found =>
        obtain ⟨before, rest⟩ := found
        have hPrefix : before <+: (dropBlockComments line).1 := by
          rw [eq_append_of_cut? hCut, List.append_assoc]
          exact List.prefix_append _ _
        exact ⟨hBlock.of_isInfix hPrefix.isInfix, noPair_before_of_cut? hCut⟩
  cases inComment with
  | false => exact hOutside line
  | true =>
      rw [dropComments, if_pos rfl]
      cases hClose : cut? ['*', '/'] line with
      | none => exact ⟨.nil, .nil⟩
      | some found => exact hOutside found.2

/-- Alignment drops characters at both ends and nowhere else. -/
theorem align_isInfix (line : Line) : align line <:+: line := by
  have hTrimmed : line.dropWhile (· == ' ') <:+ line := List.dropWhile_suffix _
  unfold align
  dsimp only
  split
  · rename_i rest hHash
    exact (dropEndWhile_isPrefix _ _).isInfix.trans hTrimmed.isInfix
  · exact List.nil_infix
  · exact (dropEndWhile_isPrefix _ _).isInfix

/-- A line that is aligned ends in no blank. -/
theorem getLast?_align {line : Line} {c : Char} (h : (align line).getLast? = some c) :
    isBlank c = false := by
  unfold align at h
  dsimp only at h
  split at h
  · exact getLast?_dropEndWhile h
  · cases h
  · exact getLast?_dropEndWhile h

/-- No spaces are left in front of a number sign. Together with the sign they would start the line
itself, and the line would have been aligned. -/
theorem eq_zero_of_align_eq {line rest : Line} {count : Nat}
    (h : align line = List.replicate count ' ' ++ '#' :: rest) : count = 0 := by
  unfold align at h
  dsimp only at h
  split at h
  · rename_i tail hHash
    have hPrefix := h ▸ dropEndWhile_isPrefix isBlank _
    rw [hHash] at hPrefix
    cases count with
    | zero => rfl
    | succ count =>
        rw [List.replicate_succ, List.cons_append, List.cons_prefix_cons] at hPrefix
        exact absurd hPrefix.1 (by decide)
  · simp at h
  · rename_i hOther _
    obtain ⟨after, hLine⟩ := h ▸ dropEndWhile_isPrefix isBlank line
    refine (hOther (rest ++ after) ?_).elim
    rw [← hLine, List.append_assoc, List.dropWhile_append_of_pos (by simp)]
    rfl

/-- The line of a source that becomes a canonical one. -/
theorem exists_of_mem_normalizeLines {inComment : Bool} {raws : List Line} {line : Line}
    (h : line ∈ normalizeLines inComment raws) :
    ∃ (opened : Bool) (raw : Line), line = align (dropComments opened (raw.map plain)).1 := by
  induction raws generalizing inComment with
  | nil => simp [normalizeLines] at h
  | cons raw raws ih =>
      rw [normalizeLines] at h
      rcases List.mem_cons.mp h with hEq | hLater
      · exact ⟨inComment, raw, hEq⟩
      · exact ih hLater

/-- Every line that the cleanup gives is canonical, whether a comment was open before it or not. -/
theorem canonical_of_mem_normalizeLines {inComment : Bool} {raws : List Line} {line : Line}
    (h : line ∈ normalizeLines inComment raws) : Canonical line := by
  have hPlain (c : Char) (hc : c ∈ line) :=
    (plain_eq_self_iff c).mp (plain_of_mem_normalizeLines h c hc)
  obtain ⟨opened, raw, rfl⟩ := exists_of_mem_normalizeLines h
  obtain ⟨hBlock, hLine⟩ := noPair_dropComments opened (raw.map plain)
  exact {
    ascii := fun c hc => (hPlain c hc).1
    spaces := fun c hc => (hPlain c hc).2
    noLineComment := noPair_iff_not_isInfix.mp (hLine.of_isInfix (align_isInfix _))
    noBlockComment := noPair_iff_not_isInfix.mp (hBlock.of_isInfix (align_isInfix _))
    trimmed := fun c => getLast?_align
    aligned := fun count rest => eq_zero_of_align_eq }

namespace Canonical

variable {line : Line}

theorem map_plain (h : Canonical line) : line.map plain = line := by
  have hPlain (c : Char) (hc : c ∈ line) : plain c = id c :=
    (plain_eq_self_iff c).mpr ⟨h.ascii c hc, h.spaces c hc⟩
  rw [List.map_congr_left hPlain, List.map_id]

/-- In a canonical line there is no comment to drop. -/
theorem dropComments_eq (h : Canonical line) : dropComments false line = (line, false) := by
  have hLine := cut?_eq_none (noPair_iff_not_isInfix.mpr h.noLineComment)
  have hBlock := cut?_eq_none (noPair_iff_not_isInfix.mpr h.noBlockComment)
  have hKept : dropBlockComments line = (line, false) := by
    rw [dropBlockComments]
    split
    · rfl
    · rename_i hOpen
      cases hBlock.symm.trans hOpen
  rw [dropComments, if_neg Bool.false_ne_true, hKept]
  dsimp only
  rw [hLine]

/-- And nothing to align, so that the cleanup leaves the line as it is. -/
theorem align_eq (h : Canonical line) : align line = line := by
  have hKept : dropEndWhile isBlank line = line := dropEndWhile_eq_self h.trimmed
  unfold align
  dsimp only
  split
  · rename_i rest hHash
    have hLead : line.takeWhile (· == ' ') = List.replicate _ ' ' :=
      List.eq_replicate_of_mem fun c hc => by simpa using List.mem_takeWhile_imp hc
    have hSplit := List.takeWhile_append_dropWhile (p := (· == ' ')) (l := line)
    rw [hLead, hHash] at hSplit
    have hSame : '#' :: rest = line := by
      rw [h.aligned _ rest hSplit.symm] at hSplit
      exact hSplit
    rw [hHash, hSame, hKept]
  · rename_i hSpaces
    by_contra hNonempty
    have hLast := List.getLast_mem (Ne.symm hNonempty)
    have hSpace := List.dropWhile_eq_nil_iff.mp hSpaces _ hLast
    have hBlank := h.trimmed _ (List.getLast?_eq_some_getLast (Ne.symm hNonempty))
    rw [beq_iff_eq.mp hSpace] at hBlank
    exact absurd hBlank (by decide)
  · exact hKept

end Canonical

/-- Canonical lines are left as they are. -/
theorem normalizeLines_eq_self {lines : List Line} (h : ∀ line ∈ lines, Canonical line) :
    normalizeLines false lines = lines := by
  induction lines with
  | nil => rfl
  | cons line lines ih =>
      obtain ⟨hLine, hLines⟩ := List.forall_mem_cons.mp h
      rw [normalizeLines, hLine.map_plain, hLine.dropComments_eq]
      dsimp only
      rw [hLine.align_eq, ih hLines]

/-- The canonical form has a canonical line for each line of a source, and bringing the text that
these lines make up into canonical form changes nothing. -/
theorem normalize_canonical (source : String) :
    (normalize source).length = (lines source.toList).length ∧
      (∀ line ∈ normalize source, Canonical line) ∧
      normalize (render (normalize source)) = normalize source := by
  have hCanonical : ∀ line ∈ normalize source, Canonical line := fun line hLine =>
    canonical_of_mem_normalizeLines hLine
  have hLines : lines (render (normalize source)).toList = normalize source :=
    lines_render (unbroken_normalize source)
  refine ⟨length_normalize source, hCanonical, ?_⟩
  rw [normalize, hLines]
  exact normalizeLines_eq_self hCanonical

end Reduction

end TruthLint
