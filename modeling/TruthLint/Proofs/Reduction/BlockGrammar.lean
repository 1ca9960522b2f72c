import Mathlib.Tactic.Tauto
import TruthLint.Proofs.Reduction.BlockScan

/-! The grammar of blocks. What a block is can be said by the numbers of its lines and without a
search: which line its header ends at, which lines are its body and which line closes it. A block
is found exactly where there is one. -/

namespace TruthLint.Reduction

variable {lines : List Line} {inner final : Line → Prop} {start first last i : Nat}

/-- From line `start` on the lines are as `inner` says, up to line `last`, which exists and is as
`final` says. -/
structure RunsTo (lines : List Line) (inner final : Line → Prop) (start last : Nat) : Prop where
  order : start ≤ last
  inner : ∀ i line, start ≤ i → i < last → lines[i]? = some line → inner line
  final : ∃ line, lines[last]? = some line ∧ final line

namespace RunsTo

theorem here (h : ∃ line, lines[start]? = some line ∧ final line) :
    RunsTo lines inner final start start where
  order := Nat.le_refl start
  inner i line hFrom hTo := by omega
  final := h

theorem cons {line : Line} (hLine : lines[start]? = some line) (hInner : inner line)
    (h : RunsTo lines inner final (start + 1) last) : RunsTo lines inner final start last where
  order := Nat.le_of_succ_le h.order
  inner i other hFrom hTo hOther := by
    rcases Nat.eq_or_lt_of_le hFrom with rfl | hLater
    · obtain rfl := Option.some.inj (hLine.symm.trans hOther)
      exact hInner
    · exact h.inner i other hLater hTo hOther
  final := h.final

/-- The first line is the last one or an inner one. -/
theorem cases_first {line : Line} (h : RunsTo lines inner final start last)
    (hLine : lines[start]? = some line) :
    (start = last ∧ final line) ∨ (inner line ∧ RunsTo lines inner final (start + 1) last) := by
  rcases Nat.eq_or_lt_of_le h.order with rfl | hLater
  · obtain ⟨other, hOther, hFinal⟩ := h.final
    obtain rfl := Option.some.inj (hLine.symm.trans hOther)
    exact .inl ⟨rfl, hFinal⟩
  · refine .inr ⟨h.inner start line (Nat.le_refl start) hLater hLine, hLater, ?_, h.final⟩
    exact fun i other hFrom hTo hOther => h.inner i other (Nat.le_of_succ_le hFrom) hTo hOther

theorem lt_length (h : RunsTo lines inner final start last) : last < lines.length := by
  obtain ⟨line, hLine, -⟩ := h.final
  exact (List.getElem?_eq_some_iff.mp hLine).1

end RunsTo

/-- A line that starts with a letter. -/
def StartsWithLetter (line : Line) : Prop := ∃ c, line.head? = some c ∧ c.isAlpha = true

/-- A line without text in its first column: it is empty or starts with a blank. -/
def Indented (line : Line) : Prop := ∀ c, line.head? = some c → Text.isBlank c = true

/-- A line between the first and the last line of a header. -/
def Plain (line : Line) : Prop :=
  line ≠ [] ∧ '(' ∉ line ∧ ')' ∉ line ∧ '\x7b' ∉ line ∧ '\x7d' ∉ line

/-- The last line of a header of several lines. -/
def EndsHeader (line : Line) : Prop :=
  ')' ∈ line ∧ '(' ∉ line ∧ '\x7b' ∉ line ∧ '\x7d' ∉ line

/-- Where a header ends that starts with a line: at that line, unless it opens a list and does not
close it. Then the header goes on to the first line that closes the list. -/
inductive HeaderTo (lines : List Line) (first : Nat) : Nat → Prop where
  | single {header : Line} (line : lines[first]? = some header)
      (complete : '(' ∉ header ∨ ')' ∈ header) : HeaderTo lines first first
  | listed {header : Line} {last : Nat} (line : lines[first]? = some header)
      (opened : '(' ∈ header) (unclosed : ')' ∉ header)
      (rest : RunsTo lines Plain EndsHeader (first + 1) last) : HeaderTo lines first last

/-- The block that starts with line `first`, whose header ends at line `headerEnd`, and whose last
line is `last`. -/
structure BlockAt (lines : List Line) (first headerEnd last : Nat) : Prop where
  letter : ∃ header, lines[first]? = some header ∧ StartsWithLetter header
  header : HeaderTo lines first headerEnd
  brace : lines[headerEnd + 1]? = some ['\x7b']
  body : RunsTo lines Indented (fun line => line = ['\x7d'] ∨ line = ['\x7d', ';'])
    (headerEnd + 2) last

/-- The block whose first line is the first one that is not empty at or after line `start`. -/
def NextBlock (lines : List Line) (start first last : Nat) : Prop :=
  RunsTo lines (· = []) StartsWithLetter start first ∧
    ∃ headerEnd, BlockAt lines first headerEnd last

theorem opensMore_iff (line : Line) :
    opensMore line = true ↔ '(' ∈ line ∨ '\x7b' ∈ line ∨ '\x7d' ∈ line := by
  simp only [opensMore, List.any_eq_true, Bool.or_eq_true, beq_iff_eq]
  constructor
  · rintro ⟨c, hMem, (rfl | rfl) | rfl⟩
    · exact .inl hMem
    · exact .inr (.inl hMem)
    · exact .inr (.inr hMem)
  · rintro (hMem | hMem | hMem)
    · exact ⟨_, hMem, .inl (.inl rfl)⟩
    · exact ⟨_, hMem, .inl (.inr rfl)⟩
    · exact ⟨_, hMem, .inr rfl⟩

theorem opensList_iff (line : Line) : opensList line = true ↔ '(' ∈ line ∧ ')' ∉ line := by
  simp [opensList]

/-- The lines that end a header are those that close its list and open nothing. -/
theorem closesList_iff (line : Line) : BlockScan.closesList line = true ↔ EndsHeader line := by
  simp only [BlockScan.closesList, EndsHeader, Bool.and_eq_true, Bool.not_eq_true',
    ← Bool.not_eq_true, opensMore_iff, List.contains_iff_mem, not_or]
  exact and_comm

/-- A header goes on after the plain lines and after no others. -/
theorem not_endsList_iff (line : Line) : (!BlockScan.endsList line) = true ↔ Plain line := by
  simp only [BlockScan.endsList, Plain, Bool.not_eq_true', ← Bool.not_eq_true, Bool.or_eq_true,
    opensMore_iff, List.contains_iff_mem, List.isEmpty_iff, not_or, ne_eq]
  tauto

/-- A block is closed by a brace alone on its line, or with a semicolon. -/
theorem closesBlock_iff (line : Line) :
    closesBlock line = true ↔ line = ['\x7d'] ∨ line = ['\x7d', ';'] := by
  simp [closesBlock, closeBrace]

/-- Lines without text in the first column are those that a body may have. -/
theorem indented_iff (line : Line) : line.head?.all Text.isBlank = true ↔ Indented line := by
  cases line with
  | nil => simp [Indented]
  | cons c line => simp [Indented]

/-- An ASCII letter is needed; an underscore is none. -/
theorem startsWithLetter_iff (line : Line) :
    line.head?.any Char.isAlpha = true ↔ StartsWithLetter line := by
  cases line with
  | nil => simp [StartsWithLetter]
  | cons c line => simp [StartsWithLetter]

/-- The number of lines up to the first one that is final, where those before it are inner ones. -/
def runLength? (inner final : Line → Bool) : List Line → Option Nat
  | [] => none
  | line :: rest =>
    if final line then some 1
    else if inner line then (runLength? inner final rest).map (· + 1)
    else none

/-- The number of lines up to a final one says which line it is. Final lines must not be inner ones,
or the first of them would not have to be the last line of the run. -/
theorem runLength?_drop {isInner isFinal : Line → Bool}
    (hInner : ∀ line, isInner line = true ↔ inner line)
    (hFinal : ∀ line, isFinal line = true ↔ final line)
    (hDisjoint : ∀ line, final line → ¬inner line) (lines : List Line) (i : Nat) {count : Nat} :
    runLength? isInner isFinal (lines.drop i) = some count ↔
      ∃ last, RunsTo lines inner final i last ∧ count = last + 1 - i := by
  by_cases hInside : i < lines.length
  · have hLine : lines[i]? = some lines[i] := List.getElem?_eq_getElem hInside
    rw [List.drop_eq_getElem_cons hInside, runLength?]
    split_ifs with hEnds hGoesOn
    · rw [hFinal] at hEnds
      constructor
      · intro h
        cases h
        exact ⟨i, .here ⟨_, hLine, hEnds⟩, by omega⟩
      · rintro ⟨last, hRuns, rfl⟩
        rcases hRuns.cases_first hLine with ⟨rfl, -⟩ | ⟨hFirst, -⟩
        · rw [Nat.add_sub_cancel_left]
        · exact absurd hFirst (hDisjoint _ hEnds)
    · rw [hFinal] at hEnds
      rw [hInner] at hGoesOn
      constructor
      · intro h
        obtain ⟨later, hLater, rfl⟩ := Option.map_eq_some_iff.mp h
        obtain ⟨last, hRuns, rfl⟩ := (runLength?_drop hInner hFinal hDisjoint lines _).mp hLater
        have hOrder := hRuns.order
        exact ⟨last, hRuns.cons hLine hGoesOn, by omega⟩
      · rintro ⟨last, hRuns, rfl⟩
        rcases hRuns.cases_first hLine with ⟨-, hFirst⟩ | ⟨-, hLater⟩
        · exact absurd hFirst hEnds
        · rw [(runLength?_drop hInner hFinal hDisjoint lines _).mpr ⟨last, hLater, rfl⟩,
            Option.map_some]
          have hOrder := hLater.order
          congr 1
          omega
    · rw [hFinal] at hEnds
      rw [hInner] at hGoesOn
      refine iff_of_false (by simp) ?_
      rintro ⟨last, hRuns, -⟩
      rcases hRuns.cases_first hLine with ⟨-, hFirst⟩ | ⟨hFirst, -⟩
      · exact hEnds hFirst
      · exact hGoesOn hFirst
  · rw [List.drop_eq_nil_of_le (Nat.le_of_not_lt hInside)]
    refine iff_of_false (by simp [runLength?]) ?_
    rintro ⟨last, hRuns, -⟩
    exact hInside (Nat.lt_of_le_of_lt hRuns.order hRuns.lt_length)
termination_by lines.length - i

/-- The lines of a header after its first one run up to one that closes the list. -/
theorem listEnd?_eq_runLength? (lines : List Line) :
    listEnd? lines =
      (runLength? (fun line => !BlockScan.endsList line) BlockScan.closesList lines).map
        fun count => (count, lines.drop count) := by
  induction lines with
  | nil => rfl
  | cons line rest ih =>
      rw [BlockScan.listEnd?_cons, runLength?, ih]
      cases BlockScan.closesList line with
      | true => rfl
      | false =>
          cases BlockScan.endsList line with
          | true => rfl
          | false => simp [Function.comp_def]

/-- The lines of a body run up to one that closes the block. -/
theorem bodyLength?_eq_runLength? (lines : List Line) :
    bodyLength? lines = runLength? (fun line => line.head?.all Text.isBlank) closesBlock lines := by
  induction lines with
  | nil => rfl
  | cons line rest ih =>
      rw [bodyLength?, runLength?, ih]
      cases hCloses : closesBlock line with
      | true =>
          rcases (closesBlock_iff line).mp hCloses with rfl | rfl
          · rfl
          · rfl
      | false => rfl

/-- The list of a header ends where a run of plain lines does. -/
theorem listEnd?_drop (lines : List Line) (i : Nat) {count : Nat} {rest : List Line} :
    listEnd? (lines.drop i) = some (count, rest) ↔
      ∃ last, RunsTo lines Plain EndsHeader i last ∧ count = last + 1 - i ∧
        rest = lines.drop (last + 1) := by
  have hRuns (n : Nat) :
      runLength? (fun line => !BlockScan.endsList line) BlockScan.closesList (lines.drop i) =
          some n ↔ ∃ last, RunsTo lines Plain EndsHeader i last ∧ n = last + 1 - i :=
    runLength?_drop not_endsList_iff closesList_iff
      (fun line hEnds hPlain => hPlain.2.2.1 hEnds.1) lines i
  rw [listEnd?_eq_runLength?, Option.map_eq_some_iff]
  constructor
  · rintro ⟨n, hLength, hEq⟩
    cases hEq
    obtain ⟨last, hLast, rfl⟩ := (hRuns _).mp hLength
    have hOrder := hLast.order
    refine ⟨last, hLast, rfl, ?_⟩
    rw [List.drop_drop]
    congr 1
    omega
  · rintro ⟨last, hLast, rfl, rfl⟩
    have hOrder := hLast.order
    refine ⟨_, (hRuns _).mpr ⟨last, hLast, rfl⟩, ?_⟩
    rw [List.drop_drop]
    congr 2
    omega

/-- A body ends where a run of indented lines does. A closing brace is not indented, so that it is
not a part of the body. -/
theorem bodyLength?_drop (lines : List Line) (i : Nat) {count : Nat} :
    bodyLength? (lines.drop i) = some count ↔
      ∃ last, RunsTo lines Indented (fun line => line = ['\x7d'] ∨ line = ['\x7d', ';']) i last ∧
        count = last + 1 - i := by
  rw [bodyLength?_eq_runLength?]
  refine runLength?_drop indented_iff closesBlock_iff (fun line hCloses hIndented => ?_) lines i
  rcases hCloses with rfl | rfl
  · exact absurd (hIndented _ rfl) (by decide)
  · exact absurd (hIndented _ rfl) (by decide)

/-- The empty lines before the first other one run up to it if it starts with a letter. -/
theorem runLength?_isEmpty (lines : List Line) :
    runLength? List.isEmpty (fun line => line.head?.any Char.isAlpha) lines =
      if (lines.dropWhile List.isEmpty).head?.any fun line => line.head?.any Char.isAlpha then
        some ((lines.takeWhile List.isEmpty).length + 1)
      else none := by
  induction lines with
  | nil => rfl
  | cons line rest ih =>
      cases line with
      | nil =>
          rw [runLength?, ih]
          simp only [List.head?_nil, Option.any_none, List.isEmpty_nil, List.dropWhile_cons_of_pos,
            List.takeWhile_cons_of_pos, List.length_cons, if_true, Bool.false_eq_true, if_false]
          split
          · rfl
          · rfl
      | cons c line =>
          rw [runLength?]
          simp

/-- The lines from the first one that does not satisfy a condition on. -/
theorem drop_length_takeWhile (p : Line → Bool) (lines : List Line) (start : Nat) :
    lines.drop (start + ((lines.drop start).takeWhile p).length) =
      (lines.drop start).dropWhile p := by
  have hSplit := List.takeWhile_append_dropWhile (p := p) (l := lines.drop start)
  rw [← List.drop_drop]
  exact (congrArg (List.drop _) hSplit.symm).trans List.drop_left

/-- The first line that is not empty, if it starts with a letter. -/
theorem runsTo_empty_iff (lines : List Line) (start first : Nat) :
    RunsTo lines (· = []) StartsWithLetter start first ↔
      first = start + ((lines.drop start).takeWhile List.isEmpty).length ∧
        ∃ header, lines[first]? = some header ∧ StartsWithLetter header := by
  have hRuns (n : Nat) :
      runLength? List.isEmpty (fun line => line.head?.any Char.isAlpha) (lines.drop start) =
          some n ↔ ∃ first, RunsTo lines (· = []) StartsWithLetter start first ∧
            n = first + 1 - start := by
    refine runLength?_drop (fun line => List.isEmpty_iff) startsWithLetter_iff ?_ lines start
    rintro line ⟨c, hHead, -⟩ rfl
    exact absurd hHead (by simp)
  simp only [runLength?_isEmpty, ← drop_length_takeWhile, List.head?_drop] at hRuns
  constructor
  · intro h
    have hOrder := h.order
    have hLength := (hRuns _).mpr ⟨first, h, rfl⟩
    split_ifs at hLength
    have hCount := Option.some.inj hLength
    exact ⟨by omega, h.final⟩
  · rintro ⟨rfl, header, hHeader, hLetter⟩
    rw [hHeader, Option.any_some, if_pos ((startsWithLetter_iff header).mpr hLetter)] at hRuns
    obtain ⟨first, hFirst, hCount⟩ := (hRuns _).mp rfl
    have hOrder := hFirst.order
    obtain rfl : first = start + ((lines.drop start).takeWhile List.isEmpty).length := by omega
    exact hFirst

/-- A body in braces has its opening brace alone on a line. -/
theorem bracedLength?_drop (lines : List Line) (i : Nat) {count : Nat} :
    BlockScan.bracedLength? (lines.drop i) = some count ↔
      lines[i]? = some openBrace ∧ ∃ inner, bodyLength? (lines.drop (i + 1)) = some inner ∧
        count = inner + 1 := by
  by_cases hInside : i < lines.length
  · rw [List.drop_eq_getElem_cons hInside, BlockScan.bracedLength?,
      List.getElem?_eq_getElem hInside]
    split_ifs with hBrace
    · simp [hBrace, eq_comm]
    · simp [hBrace]
  · rw [List.drop_eq_nil_of_le (Nat.le_of_not_lt hInside),
      List.getElem?_eq_none (Nat.le_of_not_lt hInside)]
    simp [BlockScan.bracedLength?]

/-- What is left after a header are the lines after the one at which it ends. -/
theorem headerTo_iff {header : Line} (hHeader : lines[first]? = some header) {count : Nat}
    {rest : List Line} :
    (if opensList header then listEnd? (lines.drop (first + 1))
      else some (0, lines.drop (first + 1))) = some (count, rest) ↔
      HeaderTo lines first (first + count) ∧ rest = lines.drop (first + count + 1) := by
  split_ifs with hList
  · have hOpened := (opensList_iff header).mp hList
    rw [listEnd?_drop]
    constructor
    · rintro ⟨last, hRuns, rfl, rfl⟩
      have hOrder := hRuns.order
      have hLast : first + (last + 1 - (first + 1)) = last := by omega
      rw [hLast]
      exact ⟨.listed hHeader hOpened.1 hOpened.2 hRuns, rfl⟩
    · rintro ⟨hTo, rfl⟩
      generalize hLast : first + count = last at hTo
      cases hTo with
      | single line complete =>
          obtain rfl := Option.some.inj (hHeader.symm.trans line)
          exact absurd hOpened (by tauto)
      | listed line opened unclosed rest => exact ⟨last, rest, by omega, rfl⟩
  · have hComplete := mt (opensList_iff header).mpr hList
    constructor
    · intro h
      cases h
      exact ⟨.single hHeader (by tauto), rfl⟩
    · rintro ⟨hTo, rfl⟩
      generalize hLast : first + count = last at hTo
      cases hTo with
      | single line complete =>
          obtain rfl : count = 0 := by omega
          rfl
      | listed line opened unclosed rest =>
          obtain rfl := Option.some.inj (hHeader.symm.trans line)
          exact absurd ⟨opened, unclosed⟩ hComplete

/-- A header has at least one line. -/
theorem HeaderTo.order (h : HeaderTo lines first last) : first ≤ last := by
  cases h with
  | single line complete => exact Nat.le_refl first
  | listed line opened unclosed rest => exact Nat.le_of_succ_le rest.order

/-- The brace and the last line of a block come after its header. -/
theorem BlockAt.order {headerEnd : Nat} (h : BlockAt lines first headerEnd last) :
    first ≤ headerEnd ∧ headerEnd + 2 ≤ last :=
  ⟨h.header.order, h.body.order⟩

/-- The length of a block says which line is its last, and where its header ends is not on record.
-/
theorem blockLength?_drop (lines : List Line) (first : Nat) {count : Nat} :
    blockLength? (lines.drop first) = some count ↔
      ∃ headerEnd last, BlockAt lines first headerEnd last ∧ count = last + 1 - first := by
  by_cases hInside : first < lines.length
  · have hHeader : lines[first]? = some lines[first] := List.getElem?_eq_getElem hInside
    rw [List.drop_eq_getElem_cons hInside, BlockScan.blockLength?_cons]
    by_cases hLetter : lines[first].head?.any Char.isAlpha = true
    · rw [if_pos hLetter, Option.bind_eq_some_iff]
      constructor
      · rintro ⟨⟨listed, rest⟩, hListed, hBraced⟩
        obtain ⟨hTo, rfl⟩ := (headerTo_iff hHeader).mp hListed
        obtain ⟨braced, hRest, rfl⟩ := Option.map_eq_some_iff.mp hBraced
        obtain ⟨hBrace, inner, hBody, rfl⟩ := (bracedLength?_drop lines _).mp hRest
        obtain ⟨last, hRuns, rfl⟩ := (bodyLength?_drop lines _).mp hBody
        have hOrder := hRuns.order
        have hStart := (startsWithLetter_iff _).mp hLetter
        exact ⟨_, last, ⟨⟨_, hHeader, hStart⟩, hTo, hBrace, hRuns⟩, by omega⟩
      · rintro ⟨headerEnd, last, hBlock, rfl⟩
        have hOrder := hBlock.order
        obtain ⟨listed, rfl⟩ := Nat.exists_eq_add_of_le hOrder.1
        have hBody := (bodyLength?_drop lines _).mpr ⟨last, hBlock.body, rfl⟩
        have hBraced := (bracedLength?_drop lines _).mpr ⟨hBlock.brace, _, hBody, rfl⟩
        exact ⟨_, (headerTo_iff hHeader).mpr ⟨hBlock.header, rfl⟩,
          Option.map_eq_some_iff.mpr ⟨_, hBraced, by omega⟩⟩
    · rw [if_neg hLetter]
      refine iff_of_false (by simp) ?_
      rintro ⟨headerEnd, last, hBlock, -⟩
      obtain ⟨header, hLine, hStart⟩ := hBlock.letter
      obtain rfl := Option.some.inj (hHeader.symm.trans hLine)
      exact hLetter ((startsWithLetter_iff _).mpr hStart)
  · rw [List.drop_eq_nil_of_le (Nat.le_of_not_lt hInside)]
    refine iff_of_false (by simp [blockLength?]) ?_
    rintro ⟨headerEnd, last, hBlock, -⟩
    obtain ⟨header, hLine, -⟩ := hBlock.letter
    exact hInside (List.getElem?_eq_some_iff.mp hLine).1

/-- The search goes to the first line that is not empty, and a block has to start there. -/
theorem findBlock?_eq_some_iff (lines : List Line) (start first last : Nat) :
    findBlock? lines start = some (first, last) ↔ NextBlock lines start first last := by
  rw [findBlock?_eq, Option.map_eq_some_iff, NextBlock, runsTo_empty_iff]
  constructor
  · rintro ⟨count, hBlock, hEq⟩
    obtain ⟨headerEnd, lastLine, hAt, rfl⟩ := (blockLength?_drop lines _).mp hBlock
    have hOrder := hAt.order
    obtain ⟨rfl, hLast⟩ := Prod.mk.inj hEq
    obtain rfl : lastLine = last := by omega
    exact ⟨⟨rfl, hAt.letter⟩, headerEnd, hAt⟩
  · rintro ⟨⟨rfl, -⟩, headerEnd, hAt⟩
    have hOrder := hAt.order
    refine ⟨_, (blockLength?_drop lines _).mpr ⟨headerEnd, last, hAt, rfl⟩, ?_⟩
    congr 1
    omega

/-- A block is found exactly where the grammar has one, from wherever the search starts, and so it
is by the search that goes through the line numbers. A block has at least three lines, of which only
those of its header, its opening brace and its last line have text in the first column. -/
theorem findBlock?_iff_nextBlock (lines : List Line) (start first last : Nat) :
    (findBlock? lines start = some (first, last) ↔ NextBlock lines start first last) ∧
    (BlockScan.findBlock lines start = .ok (some (first, last)) ↔
      NextBlock lines start first last) ∧
    (NextBlock lines start first last → first + 2 ≤ last ∧
      ∃ headerEnd, HeaderTo lines first headerEnd ∧ headerEnd + 1 < last ∧
        ∀ i line, first ≤ i → i < last → lines[i]? = some line →
          i ≤ headerEnd ∨ i = headerEnd + 1 ∨ Indented line) := by
  have hFound := findBlock?_eq_some_iff lines start first last
  refine ⟨hFound, ?_, ?_⟩
  · rw [BlockScan.findBlock_eq, ← hFound]
    exact ⟨Except.ok.inj, congrArg Except.ok⟩
  · rintro ⟨-, headerEnd, hAt⟩
    have hOrder := hAt.order
    refine ⟨by omega, headerEnd, hAt.header, by omega, fun i line hFrom hTo hLine => ?_⟩
    rcases Nat.lt_or_ge i (headerEnd + 2) with hBefore | hAfter
    · omega
    · exact .inr (.inr (hAt.body.inner i line hAfter hTo hLine))

/-- The header takes two lines, and the body has an empty one. -/
example :
    findBlock? (["", "void f(int a,", "  int b)", "\x7b", "", "  g();", "\x7d;", "int x;"].map
      String.toList) 0 = some (1, 6) := by decide

end TruthLint.Reduction
