import TruthLint.SourceFile

/-! The lines of a source file. They are counted by one function and cut out of the text by byte
ranges that another one finds. Both see the same lines, and the lines make up the text. -/

namespace TruthLint

namespace Text

variable {cs line : List Char}

/-- The number of bytes of the UTF-8 encoding. -/
def byteLength : List Char → Nat
  | [] => 0
  | c :: cs => c.utf8Size + byteLength cs

@[simp] theorem byteLength_nil : byteLength [] = 0 := rfl

@[simp] theorem byteLength_cons (c : Char) (cs : List Char) :
    byteLength (c :: cs) = c.utf8Size + byteLength cs := rfl

@[simp] theorem byteLength_append (first second : List Char) :
    byteLength (first ++ second) = byteLength first + byteLength second := by
  induction first with
  | nil => simp
  | cons c first ih => simp [ih, Nat.add_assoc]

/-- Every character takes a byte at least. -/
theorem byteLength_pos (h : cs ≠ []) : 0 < byteLength cs := by
  obtain ⟨c, cs, rfl⟩ := List.exists_cons_of_ne_nil h
  rw [byteLength_cons]
  exact Nat.add_pos_left c.utf8Size_pos _

/-- Behind the first character, the bytes of the others are left. -/
theorem exists_byteLength_cons (c : Char) (cs : List Char) :
    ∃ n, byteLength (c :: cs) = n + 1 ∧ c.utf8Size ≤ n + 1 ∧
      n + 1 - c.utf8Size = byteLength cs := by
  have hPos := c.utf8Size_pos
  refine ⟨c.utf8Size + byteLength cs - 1, ?_, ?_, ?_⟩
  · rw [byteLength_cons]
    omega
  · omega
  · omega

/-- As many bytes as a text begins with are dropped in full. -/
theorem dropBytes?_append (before rest : List Char) :
    dropBytes? (byteLength before) (before ++ rest) = some rest := by
  induction before with
  | nil => cases rest <;> rfl
  | cons c before ih =>
      obtain ⟨n, hBytes, hFits, hLeft⟩ := exists_byteLength_cons c before
      rw [hBytes, List.cons_append, dropBytes?, if_pos hFits, hLeft, ih]

/-- A piece is read back by its length in bytes. -/
theorem takeBytes?_append (piece rest : List Char) :
    takeBytes? (byteLength piece) (piece ++ rest) = some piece := by
  induction piece with
  | nil => cases rest <;> rfl
  | cons c piece ih =>
      obtain ⟨n, hBytes, hFits, hLeft⟩ := exists_byteLength_cons c piece
      rw [hBytes, List.cons_append, takeBytes?, if_pos hFits, hLeft, ih, Option.map_some]

/-- The bytes of a part of a text are that part. -/
theorem slice_append (before piece rest : List Char) :
    slice (before ++ (piece ++ rest)) (byteLength before) (byteLength before + byteLength piece) =
      String.ofList piece := by
  rw [slice, dropBytes?_append, Nat.add_sub_cancel_left]
  simp only [Option.bind_eq_bind, Option.bind_some, takeBytes?_append, Option.getD_some]

/-- No line feed is left in a line. -/
theorem not_mem_breakLines (cs : List Char) :
    (∀ line ∈ (breakLines cs).1, '\n' ∉ line) ∧ '\n' ∉ (breakLines cs).2 := by
  induction cs with
  | nil => simp [breakLines]
  | cons c cs ih =>
      rw [breakLines]
      rcases hBreak : breakLines cs with ⟨ended, tail⟩
      rw [hBreak] at ih
      obtain ⟨hEnded, hTail⟩ := ih
      by_cases hc : c = '\n'
      · simpa [hc] using ⟨hEnded, hTail⟩
      · cases ended with
        | nil => simpa [hc, Ne.symm hc] using hTail
        | cons line ended => simpa [hc, Ne.symm hc, hTail] using hEnded

/-- The lines of a text, carriage returns kept. -/
def rawLines (cs : List Char) : List (List Char) :=
  (breakLines cs).1 ++ if (breakLines cs).2.isEmpty then [] else [(breakLines cs).2]

/-- Each line has a counterpart with its carriage return. -/
theorem length_rawLines (cs : List Char) : (rawLines cs).length = (lines cs).length := by
  simp [rawLines, lines]

theorem eq_or_eq_append_dropCarriageReturn (line : List Char) :
    line = dropCarriageReturn line ∨ line = dropCarriageReturn line ++ ['\r'] := by
  unfold dropCarriageReturn
  split
  next rest hReverse => exact .inr (by rw [← List.reverse_cons, ← hReverse, List.reverse_reverse])
  next => exact .inl rfl

/-- The two ways to take the lines of a text differ by carriage returns at the ends of lines. -/
theorem lines_of_rawLines {index : Nat} (h : (rawLines cs)[index]? = some line) :
    ∃ item, (lines cs)[index]? = some item ∧ (line = item ∨ line = item ++ ['\r']) := by
  rw [rawLines] at h
  rcases Nat.lt_or_ge index (breakLines cs).1.length with hEnded | hTail
  · rw [List.getElem?_append_left hEnded] at h
    refine ⟨dropCarriageReturn line, ?_, eq_or_eq_append_dropCarriageReturn line⟩
    rw [lines, List.getElem?_append_left (by simpa using hEnded), List.getElem?_map, h,
      Option.map_some]
  · rw [List.getElem?_append_right hTail] at h
    refine ⟨line, ?_, .inl rfl⟩
    rw [lines, List.getElem?_append_right (by simpa using hTail), List.length_map, h]

/-! ### Byte ranges -/

/-- The ranges of lines that follow each other with a line feed after each, from an offset on. -/
def rangesFrom (start : Nat) : List (List Char) → List (Nat × Nat)
  | [] => []
  | line :: lines =>
    (start, start + byteLength line) :: rangesFrom (start + byteLength line + 1) lines

/-- Lines with the line feeds that end them. -/
def terminated (lines : List (List Char)) : List Char := lines.flatMap (· ++ ['\n'])

/-- The ranges of later lines start after the bytes of the earlier ones. -/
theorem rangesFrom_append (start : Nat) (first second : List (List Char)) :
    rangesFrom start (first ++ second) =
      rangesFrom start first ++ rangesFrom (start + byteLength (terminated first)) second := by
  induction first generalizing start with
  | nil => simp [rangesFrom, terminated]
  | cons line first ih =>
      have hFeed : '\n'.utf8Size = 1 := rfl
      simp [rangesFrom, terminated, ih, hFeed, Nat.add_assoc]

namespace LineScan

/-- Inside a line only the offset moves. -/
theorem foldl_line (h : '\n' ∉ line) (scan : LineScan) :
    line.foldl step scan = ⟨scan.ranges, scan.start, scan.offset + byteLength line⟩ := by
  induction line generalizing scan with
  | nil => rfl
  | cons c line ih =>
      obtain ⟨hFirst, hLine⟩ := not_or.mp (mt List.mem_cons.mpr h)
      rw [List.foldl_cons, ih hLine, step, if_neg (Ne.symm hFirst), byteLength_cons]
      simp [Nat.add_assoc]

/-- At the start of a line, the pass notes the ranges of the lines that follow. -/
theorem foldl_terminated {lines : List (List Char)} (h : ∀ line ∈ lines, '\n' ∉ line)
    (ranges : Array (Nat × Nat)) (start : Nat) :
    (terminated lines).foldl step ⟨ranges, start, start⟩ =
      ⟨ranges ++ (rangesFrom start lines).toArray, start + byteLength (terminated lines),
        start + byteLength (terminated lines)⟩ := by
  induction lines generalizing ranges start with
  | nil => simp [terminated, rangesFrom]
  | cons line lines ih =>
      obtain ⟨hLine, hLines⟩ := List.forall_mem_cons.mp h
      have hFeed : '\n'.utf8Size = 1 := rfl
      rw [terminated, List.flatMap_cons, List.foldl_append, List.foldl_append, foldl_line hLine]
      change (terminated lines).foldl step
        ⟨ranges.push (start, start + byteLength line), start + byteLength line + 1, _⟩ = _
      rw [hFeed, ih hLines]
      simp [rangesFrom, terminated, hFeed, Nat.add_assoc]

end LineScan

/-- A pass over the whole text notes the ranges of its lines, the last one of which need not end. -/
theorem lineRanges_eq (cs : List Char) : lineRanges cs = (rangesFrom 0 (rawLines cs)).toArray := by
  obtain ⟨hEnded, hTail⟩ := not_mem_breakLines cs
  have hText := breakLines_join cs
  rw [lineRanges, rawLines, rangesFrom_append]
  generalize (breakLines cs).1 = ended at *
  generalize (breakLines cs).2 = tail at *
  have hScan : cs.foldl LineScan.step ⟨#[], 0, 0⟩ =
      ⟨(rangesFrom 0 ended).toArray, byteLength (terminated ended),
        byteLength (terminated ended) + byteLength tail⟩ := by
    rw [← hText, List.foldl_append]
    change tail.foldl _ ((terminated ended).foldl _ _) = _
    rw [LineScan.foldl_terminated hEnded, LineScan.foldl_line hTail]
    simp
  rw [hScan]
  dsimp only
  cases tail with
  | nil =>
      have hNone : ¬(byteLength (terminated ended) < byteLength (terminated ended) + byteLength [] ∨
          byteLength (terminated ended) = 0 ∧ cs ≠ []) := by
        rintro (hLess | ⟨hZero, hNonempty⟩)
        · simp at hLess
        · rw [← hText, List.append_nil] at hNonempty
          exact Nat.ne_of_gt (byteLength_pos hNonempty) hZero
      rw [if_neg hNone]
      simp [rangesFrom]
  | cons c tail =>
      have hLast := byteLength_pos (List.cons_ne_nil c tail)
      rw [if_pos (.inl (by omega))]
      simp [rangesFrom]

/-- The ranges of lines in a text are cut out as these lines. -/
theorem slice_rangesFrom (before rest : List Char) (lines : List (List Char)) :
    ((rangesFrom (byteLength before) lines).map fun (first, last) =>
        slice (before ++ (terminated lines ++ rest)) first last) = lines.map String.ofList := by
  induction lines generalizing before with
  | nil => rfl
  | cons line lines ih =>
      have hFeed : '\n'.utf8Size = 1 := rfl
      have hText : before ++ (terminated (line :: lines) ++ rest) =
          before ++ (line ++ '\n' :: (terminated lines ++ rest)) := by simp [terminated]
      have hNext : before ++ (line ++ '\n' :: (terminated lines ++ rest)) =
          (before ++ line ++ ['\n']) ++ (terminated lines ++ rest) := by simp
      have hStart : byteLength before + byteLength line + 1 =
          byteLength (before ++ line ++ ['\n']) := by simp [hFeed, Nat.add_assoc]
      rw [rangesFrom, List.map_cons, List.map_cons, hText]
      dsimp only
      rw [slice_append, hNext, hStart, ih]

/-- The slices of a text by the ranges of its lines are the lines. -/
theorem slice_lineRanges (cs : List Char) :
    ((lineRanges cs).toList.map fun (first, last) => slice cs first last) =
      (rawLines cs).map String.ofList := by
  have hText : terminated (breakLines cs).1 ++ (breakLines cs).2 = cs := breakLines_join cs
  rw [lineRanges_eq, rawLines, rangesFrom_append, Nat.zero_add]
  generalize (breakLines cs).1 = ended at *
  generalize (breakLines cs).2 = tail at *
  have hEnded := slice_rangesFrom [] tail ended
  have hTail := slice_append (terminated ended) tail []
  rw [List.nil_append, hText, byteLength_nil] at hEnded
  rw [List.append_nil, hText] at hTail
  rw [List.map_append, List.map_append, hEnded]
  cases tail with
  | nil => rfl
  | cons c tail =>
      rw [List.isEmpty_cons, if_neg Bool.false_ne_true, rangesFrom, List.map_singleton,
        List.map_cons, ← hTail]
      rfl

/-! ### Lines put together -/

/-- Line feeds between lines, and one more at the end, are line feeds after each of them. -/
theorem intercalate_append_feed {lines : List (List Char)} (h : lines ≠ []) :
    ['\n'].intercalate lines ++ ['\n'] = terminated lines := by
  induction lines with
  | nil => exact absurd rfl h
  | cons line lines ih =>
      cases lines with
      | nil => simp [terminated]
      | cons next lines =>
          rw [List.intercalate_cons_cons, List.append_assoc, ih (List.cons_ne_nil next lines)]
          simp [terminated]

/-- The last line is not terminated. -/
theorem intercalate_concat (lines : List (List Char)) (tail : List Char) :
    ['\n'].intercalate (lines ++ [tail]) = terminated lines ++ tail := by
  induction lines with
  | nil => simp [terminated]
  | cons line lines ih =>
      obtain ⟨next, more, hMore⟩ := List.exists_cons_of_ne_nil
        (List.append_ne_nil_of_right_ne_nil lines (List.cons_ne_nil tail []))
      rw [List.cons_append, hMore, List.intercalate_cons_cons, ← hMore, ih]
      simp [terminated]

/-- Nothing is lost: the lines make up the text, with a line feed at its end if there is one. -/
theorem intercalate_rawLines (cs : List Char) :
    ['\n'].intercalate (rawLines cs) ++ (if cs.getLast? = some '\n' then ['\n'] else []) = cs := by
  obtain ⟨-, hTail⟩ := not_mem_breakLines cs
  have hText : terminated (breakLines cs).1 ++ (breakLines cs).2 = cs := breakLines_join cs
  rw [rawLines]
  generalize (breakLines cs).1 = ended at *
  generalize (breakLines cs).2 = tail at *
  cases tail with
  | nil =>
      rw [List.append_nil] at hText
      rw [List.isEmpty_nil, if_pos rfl, List.append_nil]
      by_cases hEnded : ended = []
      · rw [← hText, hEnded]
        rfl
      · have hLast : cs.getLast? = some '\n' := by
          rw [← hText, ← intercalate_append_feed hEnded, List.getLast?_concat]
        rw [if_pos hLast, intercalate_append_feed hEnded, hText]
  | cons c tail =>
      have hLast : cs.getLast? ≠ some '\n' := by
        rw [← hText, List.getLast?_append, List.getLast?_eq_some_getLast (List.cons_ne_nil c tail)]
        exact fun hFeed => hTail (Option.some.inj hFeed ▸ List.getLast_mem _)
      rw [if_neg hLast, List.append_nil, List.isEmpty_cons, if_neg Bool.false_ne_true,
        intercalate_concat, hText]

end Text

namespace SourceFile

/-- Lines are counted from one. -/
theorem line?_succ (file : SourceFile) (index : Nat) :
    file.line? (index + 1) = (Text.rawLines file.text.toList)[index]?.map String.ofList := by
  have hLines := congrArg (·[index]?) (Text.slice_lineRanges file.text.toList)
  simp only [List.getElem?_map, Array.getElem?_toList] at hLines
  exact hLines

/-- The lines of a file are numbered from one to their count. Put together with line feeds they are
the text, but for a line feed at its end, and each is the line of that number as lines are counted,
but for a carriage return at its end. -/
theorem line?_agrees (file : SourceFile) :
    (∀ number, (file.line? number).isSome ↔ 1 ≤ number ∧ number ≤ file.lineCount) ∧
      (∃ lines : List String, lines.length = file.lineCount ∧
        (∀ index, file.line? (index + 1) = lines[index]?) ∧
        "\n".intercalate lines ++ (if file.text.toList.getLast? = some '\n' then "\n" else "") =
          file.text) ∧
      ∀ number line, file.line? number = some line →
        ∃ item, (Text.lines file.text.toList)[number - 1]? = some item ∧
          (line.toList = item ∨ line.toList = item ++ ['\r']) := by
  have hCount : (Text.rawLines file.text.toList).length = file.lineCount :=
    Text.length_rawLines file.text.toList
  refine ⟨fun number => ?_, ⟨(Text.rawLines file.text.toList).map String.ofList, ?_, ?_, ?_⟩, ?_⟩
  · cases number with
    | zero => simp [line?]
    | succ index =>
        rw [line?_succ, Option.isSome_map, ← hCount, isSome_getElem?]
        omega
  · rw [List.length_map, hCount]
  · intro index
    rw [line?_succ, List.getElem?_map]
  · rw [← String.toList_inj, String.toList_append, String.toList_intercalate, List.map_map,
      apply_ite String.toList]
    have hLines : (Text.rawLines file.text.toList).map (String.toList ∘ String.ofList) =
        Text.rawLines file.text.toList := by simp [Function.comp_def]
    rw [hLines]
    exact Text.intercalate_rawLines file.text.toList
  · intro number line hLine
    cases number with
    | zero => cases hLine
    | succ index =>
        rw [line?_succ] at hLine
        obtain ⟨raw, hRaw, rfl⟩ := Option.map_eq_some_iff.mp hLine
        rw [String.toList_ofList, Nat.add_sub_cancel]
        exact Text.lines_of_rawLines hRaw

end SourceFile

end TruthLint
