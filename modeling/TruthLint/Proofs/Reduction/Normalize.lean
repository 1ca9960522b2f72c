import TruthLint.Reduction.Normalize

/-! The characters of canonical lines. Nothing is put into a line but spaces in the place of other
characters, so that a canonical line has ASCII characters only, and no blanks but spaces. -/

namespace TruthLint

namespace Text

theorem before_sublist_of_cut? {piece cs before rest : List Char}
    (h : cut? piece cs = some (before, rest)) : before.Sublist cs := by
  rw [eq_append_of_cut? h, List.append_assoc]
  exact List.sublist_append_left _ _

/-- What stands before and behind a piece stands in the text in that order. -/
theorem around_sublist_of_cut? {piece cs before rest : List Char}
    (h : cut? piece cs = some (before, rest)) : (before ++ rest).Sublist cs := by
  rw [eq_append_of_cut? h]
  exact (List.sublist_append_left before piece).append_right rest

theorem dropEndWhile_sublist (p : Char → Bool) (cs : List Char) :
    (dropEndWhile p cs).Sublist cs := by
  have hReverse := (List.dropWhile_sublist p (l := cs.reverse)).reverse
  rwa [List.reverse_reverse] at hReverse

end Text

namespace Reduction

open Text

/-- To drop comments only leaves characters out. -/
theorem dropBlockComments_sublist (line : Line) : (dropBlockComments line).1.Sublist line := by
  fun_induction dropBlockComments line with
  | case1 line => exact List.Sublist.refl line
  | case2 line before rest hOpen => exact before_sublist_of_cut? hOpen
  | case3 line before rest hOpen inner after hClose ih =>
      have hAfter : after.Sublist rest :=
        (List.sublist_append_right inner after).trans (around_sublist_of_cut? hClose)
      exact ih.trans ((hAfter.append_left before).trans (around_sublist_of_cut? hOpen))

theorem dropLineComment_sublist (line : Line) (inComment : Bool) :
    (match cut? ['/', '/'] line with
      | some (before, _) => (before, inComment)
      | none => (line, inComment)).1.Sublist line := by
  split
  · rename_i before rest hCut
    exact before_sublist_of_cut? hCut
  · exact List.Sublist.refl line

theorem dropComments_sublist (inComment : Bool) (line : Line) :
    (dropComments inComment line).1.Sublist line := by
  cases inComment with
  | false =>
      exact (dropLineComment_sublist _ _).trans (dropBlockComments_sublist line)
  | true =>
      rw [dropComments]
      cases hClose : cut? ['*', '/'] line with
      | none => exact List.nil_sublist line
      | some found =>
          obtain ⟨inner, after⟩ := found
          have hAfter : after.Sublist line :=
            (List.sublist_append_right inner after).trans (around_sublist_of_cut? hClose)
          exact (dropLineComment_sublist _ _).trans ((dropBlockComments_sublist after).trans hAfter)

/-- Alignment only leaves characters out. -/
theorem align_sublist (line : Line) : (align line).Sublist line := by
  have hTrimmed : (line.dropWhile (· == ' ')).Sublist line := List.dropWhile_sublist _
  unfold align
  dsimp only
  split
  · rename_i rest hHash
    exact (dropEndWhile_sublist _ _).trans hTrimmed
  · exact List.nil_sublist line
  · exact dropEndWhile_sublist _ line

/-- Each line gives one line, however little is left of it. -/
theorem length_normalizeLines (inComment : Bool) (raws : List Line) :
    (normalizeLines inComment raws).length = raws.length := by
  induction raws generalizing inComment with
  | nil => rfl
  | cons raw raws ih => rw [normalizeLines, List.length_cons, List.length_cons, ih]

/-- So the lines of the canonical form have the numbers of those of the source. -/
theorem length_normalize (source : String) :
    (normalize source).length = (lines source.toList).length := length_normalizeLines false _

/-- A character is replaced once. -/
theorem plain_plain (c : Char) : plain (plain c) = plain c := by
  by_cases hKept : (isAscii c && !isAsciiBlank c) = true
  · have hPlain : plain c = c := if_pos hKept
    rw [hPlain, hPlain]
  · have hPlain : plain c = ' ' := if_neg hKept
    rw [hPlain]
    decide

/-- No line has a character in it that would end it. -/
def Unbroken (lines : List Line) : Prop := ∀ line ∈ lines, '\n' ∉ line ∧ '\r' ∉ line

/-- A line in canonical form is left as it is when blanks and foreign characters are replaced. -/
theorem plain_of_mem_normalizeLines {inComment : Bool} {raws : List Line} {line : Line}
    (hLine : line ∈ normalizeLines inComment raws) : ∀ c ∈ line, plain c = c := by
  induction raws generalizing inComment with
  | nil => simp [normalizeLines] at hLine
  | cons raw raws ih =>
      rw [normalizeLines] at hLine
      rcases List.mem_cons.mp hLine with hEq | hLater
      · intro c hc
        have hSub : line.Sublist (raw.map plain) := by
          rw [hEq]
          exact (align_sublist _).trans (dropComments_sublist inComment _)
        obtain ⟨c', -, hPlain⟩ := List.mem_map.mp (hSub.subset hc)
        rw [← hPlain, plain_plain]
      · exact ih hLater

/-- Canonical lines are lines of the text that they make up: none of them has an end of line in
it. -/
theorem unbroken_normalize (source : String) : Unbroken (normalize source) := by
  intro line hLine
  have hPlain := plain_of_mem_normalizeLines hLine
  refine ⟨fun hFeed => ?_, fun hReturn => ?_⟩
  · exact absurd (hPlain _ hFeed) (by decide)
  · exact absurd (hPlain _ hReturn) (by decide)

end Reduction

end TruthLint
