import Mathlib.Tactic.SplitIfs
import TruthLint.Proofs.Reduction.Normalize
import TruthLint.Proofs.Text.Pair

/-! Comments, as a scan from left to right delimits them, and what the canonical form removes. The
canonical form is made without such a scan: block comments go first, wherever they seem to open. -/

namespace TruthLint

namespace Reduction

open Text

section

variable {p q c : Char} {line : Line}

/-- The character that replaces others is a space. -/
theorem eq_of_plain_eq (hp : p ≠ ' ') (h : plain c = p) : c = p := by
  unfold plain at h
  split_ifs at h
  · exact h
  · exact absurd h.symm hp

theorem not_pair_plain (hp : p ≠ ' ') (hq : q ≠ ' ')
    (h : ∀ rest, c = p → line = q :: rest → False) :
    ∀ rest, plain c = p → line.map plain = q :: rest → False := by
  intro rest hFirst hSecond
  obtain ⟨d, others, rfl, hd, -⟩ := List.map_eq_cons_iff.mp hSecond
  exact h others (eq_of_plain_eq hp hFirst) (by rw [eq_of_plain_eq hq hd])

/-- Replacing characters neither makes a pair nor breaks one, unless a space is in the pair. -/
theorem occurs_plain (hp : p ≠ ' ') (hq : q ≠ ' ') (hPlain : plain p = p ∧ plain q = q)
    (line : Line) :
    occurs [p, q] (line.map plain) = occurs [p, q] line := by
  unfold occurs
  induction line with
  | nil => rfl
  | cons c line ih =>
      rcases pair_cases p q c line with ⟨rest, rfl, rfl⟩ | hNot
      · rw [List.map_cons, List.map_cons, hPlain.1, hPlain.2, cut?_pair, cut?_pair]
        rfl
      · rw [List.map_cons, cut?_pair_cons hNot, cut?_pair_cons (not_pair_plain hp hq hNot),
          Option.isSome_map, Option.isSome_map, ih]

end

/-- What a scan tells of a line. -/
structure Scan where
  /-- What stands outside comments. -/
  code : Line
  /-- The line comment with its slashes, or nothing. -/
  lineComment : Line
  /-- Whether a block comment is open at the end. -/
  inComment : Bool
deriving DecidableEq, Repr

namespace Scan

/-- The scan of a line that starts with more code. -/
def addCode (code : Line) (s : Scan) : Scan := { s with code := code ++ s.code }

/-- Reads a line from left to right. Outside comments, the first of `//` and `/*` opens one; a block
comment ends at the first `*/`, and a line comment with the line. Quotes and backslashes mean
nothing here. -/
def ofLine : (inComment : Bool) → Line → Scan
  | true, '*' :: '/' :: rest => ofLine false rest
  | true, _ :: rest => ofLine true rest
  | false, '/' :: '/' :: rest => ⟨[], '/' :: '/' :: rest, false⟩
  | false, '/' :: '*' :: rest => ofLine true rest
  | false, c :: rest => (ofLine false rest).addCode [c]
  | inComment, [] => ⟨[], [], inComment⟩

/-- Reads lines one after the other; a block comment may go on from one to the next. -/
def ofLines (inComment : Bool) : List Line → List Scan
  | [] => []
  | line :: rest => ofLine inComment line :: ofLines (ofLine inComment line).inComment rest

/-- No `/*` stands in the line comment, nor shares its second slash. -/
def Separate (s : Scan) : Prop := occurs ['/', '*'] s.lineComment = false

instance (s : Scan) : Decidable s.Separate := inferInstanceAs (Decidable (_ = _))

/-- Inside a block comment everything up to its end is passed over. -/
theorem ofLine_true (line : Line) :
    ofLine true line =
      match cut? ['*', '/'] line with
      | some (_, after) => ofLine false after
      | none => ⟨[], [], true⟩ := by
  induction line with
  | nil => rfl
  | cons c line ih =>
      rcases pair_cases '*' '/' c line with ⟨rest, rfl, rfl⟩ | hNot
      · rw [cut?_pair, ofLine]
      · rw [ofLine.eq_2 c line hNot, ih, cut?_pair_cons hNot]
        cases cut? ['*', '/'] line <;> rfl

/-- Outside comments, a line starts with a line comment, with a block comment or with code. -/
theorem opening_cases (c : Char) (line : Line) :
    (∃ rest, c = '/' ∧ line = '/' :: rest) ∨ (∃ rest, c = '/' ∧ line = '*' :: rest) ∨
      (∀ rest, c = '/' → line = '/' :: rest → False) ∧
        ∀ rest, c = '/' → line = '*' :: rest → False := by
  rcases pair_cases '/' '/' c line with hLine | hLine
  · exact .inl hLine
  · exact .inr ((pair_cases '/' '*' c line).imp_right fun hBlock => ⟨hLine, hBlock⟩)

/-- Without any `/*` a line is code and a line comment. -/
theorem ofLine_of_cut?_eq_none {line : Line} (h : cut? ['/', '*'] line = none) :
    (ofLine false line).code ++ (ofLine false line).lineComment = line ∧
      (ofLine false line).inComment = false := by
  induction line with
  | nil => exact ⟨rfl, rfl⟩
  | cons c line ih =>
      rcases opening_cases c line with ⟨rest, rfl, rfl⟩ | ⟨rest, rfl, rfl⟩ | ⟨hLine, hBlock⟩
      · exact ⟨rfl, rfl⟩
      · rw [cut?_pair] at h
        cases h
      · rw [cut?_pair_cons hBlock, Option.map_eq_none_iff] at h
        obtain ⟨hParts, hOpen⟩ := ih h
        rw [ofLine.eq_5 c line hLine hBlock]
        exact ⟨congrArg (c :: ·) hParts, hOpen⟩

/-- A line up to its first `/*` is code, unless a line comment reaches as far. Then it would be code
in front of any other text as well. -/
theorem ofLine_of_cut? {line before rest : Line} (h : cut? ['/', '*'] line = some (before, rest))
    (hSeparate : (ofLine false line).Separate) :
    (∀ tail, ofLine false (before ++ tail) = (ofLine false tail).addCode before) ∧
      ofLine false line = (ofLine true rest).addCode before := by
  induction line generalizing before with
  | nil => simp [cut?] at h
  | cons c line ih =>
      rcases opening_cases c line with ⟨inner, rfl, rfl⟩ | ⟨inner, rfl, rfl⟩ | ⟨hLine, hBlock⟩
      · rw [Separate, ofLine, occurs, h] at hSeparate
        cases hSeparate
      · rw [cut?_pair] at h
        cases h
        exact ⟨fun tail => rfl, rfl⟩
      · rw [cut?_pair_cons hBlock] at h
        obtain ⟨⟨before', rest'⟩, hLater, hEq⟩ := Option.map_eq_some_iff.mp h
        cases hEq
        rw [ofLine.eq_5 c line hLine hBlock] at hSeparate ⊢
        obtain ⟨hTail, hRest⟩ := ih hLater hSeparate
        refine ⟨fun tail => ?_, by rw [hRest]; rfl⟩
        have hSame {d : Char} {others : Line} (hNext : before' ++ tail = d :: others)
            (hDiffers : ∀ rest, c = '/' → line = d :: rest → False) (hc : c = '/') : False := by
          have hSplit := eq_append_of_cut? hLater
          cases before' with
          | nil => exact hLine _ hc hSplit
          | cons first before' =>
              obtain ⟨rfl, -⟩ := List.cons.inj hNext
              exact hDiffers _ hc hSplit
        rw [List.cons_append, ofLine.eq_5 c _ (fun _ hc hNext => hSame hNext hLine hc)
          (fun _ hc hNext => hSame hNext hBlock hc), hTail]
        rfl

/-- Removing block comments first leaves what a scan finds outside them. -/
theorem dropBlockComments_eq {line : Line} (h : (ofLine false line).Separate) :
    dropBlockComments line =
      ((ofLine false line).code ++ (ofLine false line).lineComment,
        (ofLine false line).inComment) := by
  fun_induction dropBlockComments line with
  | case1 line hNone =>
      obtain ⟨hParts, hClosed⟩ := ofLine_of_cut?_eq_none hNone
      rw [hParts, hClosed]
  | case2 line before rest hOpen hClose =>
      obtain ⟨-, hLine⟩ := ofLine_of_cut? hOpen h
      rw [hLine, ofLine_true, hClose]
      simp [addCode]
  | case3 line before rest hOpen inner after hClose ih =>
      obtain ⟨hTail, hLine⟩ := ofLine_of_cut? hOpen h
      rw [ofLine_true, hClose] at hLine
      have hSame : ofLine false line = ofLine false (before ++ after) := by rw [hTail, hLine]
      rw [hSame] at h ⊢
      exact ih h

/-- What a scan finds outside block comments has a `//` only where the line comment starts. -/
theorem cut?_code_append (inComment : Bool) (line : Line) :
    cut? ['/', '/'] ((ofLine inComment line).code ++ (ofLine inComment line).lineComment) =
      if (ofLine inComment line).lineComment = [] then none
      else some ((ofLine inComment line).code, (ofLine inComment line).lineComment.drop 2) := by
  fun_induction ofLine inComment line with
  | case1 rest ih => exact ih
  | case2 c rest hNot ih => exact ih
  | case3 rest => exact cut?_pair _ _ rest
  | case4 rest ih => exact ih
  | case5 c rest hLine hBlock ih =>
      have hNext (more : Line) (hc : c = '/')
          (hMore : (ofLine false rest).code ++ (ofLine false rest).lineComment = '/' :: more) :
          False := by
        cases rest with
        | nil => cases hMore
        | cons d rest =>
            have hd : d ≠ '/' := fun hd => hLine rest hc (by rw [hd])
            rw [ofLine.eq_5 d rest (fun _ h => absurd h hd) fun _ h => absurd h hd] at hMore
            exact hd (List.cons.inj hMore).1
      change cut? ['/', '/']
        (c :: ((ofLine false rest).code ++ (ofLine false rest).lineComment)) = _
      rw [cut?_pair_cons hNext, ih]
      by_cases hNone : (ofLine false rest).lineComment = [] <;> simp [addCode, hNone]
  | case6 inComment => rfl

theorem dropLineComment_eq (inComment : Bool) (line : Line) :
    let s := ofLine inComment line
    (match cut? ['/', '/'] (s.code ++ s.lineComment) with
      | some (before, _) => (before, s.inComment)
      | none => (s.code ++ s.lineComment, s.inComment)) = (s.code, s.inComment) := by
  intro s
  rw [cut?_code_append]
  by_cases hNone : (ofLine inComment line).lineComment = []
  · simp [s, hNone]
  · simp [s, hNone]

/-- Both orders of removal agree on a line whose line comment is separate. -/
theorem dropComments_eq {inComment : Bool} {line : Line} (h : (ofLine inComment line).Separate) :
    dropComments inComment line =
      ((ofLine inComment line).code, (ofLine inComment line).inComment) := by
  cases inComment with
  | false =>
      rw [dropComments, if_neg Bool.false_ne_true, dropBlockComments_eq h]
      exact dropLineComment_eq false line
  | true =>
      rw [ofLine_true] at h ⊢
      rw [dropComments, if_pos rfl]
      cases hClose : cut? ['*', '/'] line with
      | none => rfl
      | some found =>
          obtain ⟨inner, after⟩ := found
          rw [hClose] at h
          dsimp only at h ⊢
          rw [dropBlockComments_eq h]
          exact dropLineComment_eq false after

/-- The scan of a line in which blanks and foreign characters are replaced. -/
def plain (s : Scan) : Scan :=
  ⟨s.code.map Reduction.plain, s.lineComment.map Reduction.plain, s.inComment⟩

/-- Comments are the same before and after characters are replaced. -/
theorem ofLine_plain (inComment : Bool) (line : Line) :
    ofLine inComment (line.map Reduction.plain) = (ofLine inComment line).plain := by
  have hSlash : Reduction.plain '/' = '/' := by decide
  have hStar : Reduction.plain '*' = '*' := by decide
  fun_induction ofLine inComment line with
  | case1 rest ih | case4 rest ih =>
      rw [List.map_cons, List.map_cons, hSlash, hStar, ofLine, ih]
  | case2 c rest hNot ih =>
      rw [List.map_cons, ofLine.eq_2 _ _ (not_pair_plain (by decide) (by decide) hNot), ih]
  | case3 rest =>
      rw [List.map_cons, List.map_cons, hSlash, ofLine]
      simp [plain, hSlash]
  | case5 c rest hLine hBlock ih =>
      rw [List.map_cons, ofLine.eq_5 _ _ (not_pair_plain (by decide) (by decide) hLine)
        (not_pair_plain (by decide) (by decide) hBlock), ih]
      rfl
  | case6 inComment => simp [ofLine, plain]

theorem separate_plain {s : Scan} : s.plain.Separate ↔ s.Separate := by
  rw [Separate, Separate, plain, occurs_plain (by decide) (by decide) (by decide)]

end Scan

/-- If no line comment has the beginning of a block comment in it, the cleanup keeps the code
between comments. The lines are read from left to right in one definition, and comment by comment in
the other. -/
theorem normalizeLines_eq (inComment : Bool) (lines : List Line)
    (h : ∀ s ∈ Scan.ofLines inComment lines, s.Separate) :
    normalizeLines inComment lines =
      (Scan.ofLines inComment lines).map fun s => align (s.code.map plain) := by
  induction lines generalizing inComment with
  | nil => rfl
  | cons line lines ih =>
      obtain ⟨hLine, hLines⟩ := List.forall_mem_cons.mp h
      have hPlain : (Scan.ofLine inComment (line.map plain)).Separate := by
        rw [Scan.ofLine_plain]
        exact Scan.separate_plain.mpr hLine
      rw [normalizeLines, Scan.dropComments_eq hPlain, Scan.ofLine_plain, Scan.ofLines,
        List.map_cons]
      exact congrArg _ (ih _ hLines)

/-- Whether a character may make what looks like a comment a part of something else. -/
def hidesComments (c : Char) : Bool := c == '\x22' || c == '\x27' || c == '\x5c'

/-- The canonical form removes exactly the comments and then brings what is left of each line into
shape, as long as no block comment seems to open in a line comment. -/
theorem normalize_removes_comments (source : String)
    (h : ∀ s ∈ Scan.ofLines false (lines source.toList), s.Separate) :
    normalize source =
      (Scan.ofLines false (lines source.toList)).map fun s => align (s.code.map plain) :=
  normalizeLines_eq false _ h

/-- A line comment, a block comment in a line, and one over two lines with slashes in it. -/
theorem normalize_removes_comments_mixed :
    let source := "int a; // x\nint /* y */ b;\n/* c\n d // e */ int f; /* g\n"
    (∀ s ∈ Scan.ofLines false (lines source.toList), s.Separate) ∧
      normalize source =
        ["int a;".toList, "int  b;".toList, [], " int f;".toList] := by
  intro source
  have h : ∀ s ∈ Scan.ofLines false (lines source.toList), s.Separate := by decide +kernel
  exact ⟨h, (normalize_removes_comments source h).trans (by decide +kernel)⟩

/-- Where a line comment mentions the opening of a block comment, code in the lines after it is
lost. -/
theorem not_normalize_removes_comments :
    let source := "// see /*\nint a;\n"
    normalize source = [[], []] ∧
      ((Scan.ofLines false (lines source.toList)).map fun s => align (s.code.map plain)) =
        [[], "int a;".toList] ∧
      ¬∀ source : String, source.toList.any hidesComments = false →
        normalize source =
          (Scan.ofLines false (lines source.toList)).map fun s => align (s.code.map plain) := by
  intro source
  have hLost : normalize source = [[], []] := by decide +kernel
  have hCode : ((Scan.ofLines false (lines source.toList)).map fun s => align (s.code.map plain)) =
      [[], "int a;".toList] := by decide +kernel
  refine ⟨hLost, hCode, fun hAll => ?_⟩
  have hSame := hAll source (by decide +kernel)
  rw [hLost, hCode] at hSame
  exact absurd hSame (by decide)

end Reduction

end TruthLint
