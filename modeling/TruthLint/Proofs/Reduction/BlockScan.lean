import TruthLint.Proofs.Reduction.Block

/-! Blocks that are found by line numbers. The search is a loop over line numbers here, taken three
times with different ends, that looks ahead by two lines, and to ask for a line that does not exist
is an error. The error never occurs, and the block is the one that the parts of a block make up. -/

namespace TruthLint.Reduction

namespace BlockScan

/-- The line with a number, or the number as an error if there is none. -/
def lineAt (lines : List Line) (i : Nat) : Except Nat Line :=
  match lines[i]? with
  | some line => .ok line
  | none => .error i

/-- Moves on from line `i` to the first line at which to stop, and no further than `limit`. -/
def advance (lines : List Line) (stop : Line → Bool) (limit i : Nat) : Except Nat Nat :=
  if i < limit then do
    let line ← lineAt lines i
    if stop line then pure i else advance lines stop limit (i + 1)
  else pure i
termination_by limit - i

/-- Whether the list of a header cannot go on after a line. -/
def endsList (line : Line) : Bool := line.isEmpty || opensMore line || line.contains ')'

/-- Whether a line is the last one of a header's list. -/
def closesList (line : Line) : Bool := !opensMore line && line.contains ')'

/-- Whether a line is not a part of a body. -/
def endsBody (line : Line) : Bool := !line.head?.all Text.isBlank

/-- The last line of the header that starts with a line. Two more lines have to follow it. -/
def headerEnd (lines : List Line) (first : Nat) : Except Nat (Option Nat) := do
  let header ← lineAt lines first
  if opensList header then
    let i ← advance lines endsList (lines.length - 2) (first + 1)
    let line ← lineAt lines i
    pure (if closesList line then some i else none)
  else pure (some first)

/-- The closing line of the body that follows the last line of a header. -/
def bodyEnd (lines : List Line) (i : Nat) : Except Nat (Option Nat) :=
  if i + 2 < lines.length then do
    let brace ← lineAt lines (i + 1)
    if brace = openBrace then
      let last ← advance lines endsBody lines.length (i + 2)
      if last < lines.length then
        let line ← lineAt lines last
        pure (if closesBlock line then some last else none)
      else pure none
    else pure none
  else pure none

/-- The last line of the block that starts with a line. -/
def blockEnd (lines : List Line) (first : Nat) : Except Nat (Option Nat) := do
  let header ← lineAt lines first
  if header.head?.any Char.isAlpha then
    match ← headerEnd lines first with
    | some i => bodyEnd lines i
    | none => pure none
  else pure none

/-- The first and last line of the block that starts with the first non-empty line at or after
line `start`. -/
def findBlock (lines : List Line) (start : Nat) : Except Nat (Option (Nat × Nat)) := do
  let first ← advance lines (fun line => !line.isEmpty) lines.length start
  if first + 2 < lines.length then
    return (← blockEnd lines first).map fun last => (first, last)
  else pure none

variable {lines : List Line} {stop : Line → Bool} {limit i : Nat}

/-- A line that exists is read without an error. -/
theorem lineAt_eq (h : i < lines.length) : lineAt lines i = .ok lines[i] := by
  rw [lineAt, List.getElem?_eq_getElem h]

theorem advance_of_not_lt (h : ¬i < limit) : advance lines stop limit i = .ok i := by
  rw [advance, if_neg h]
  rfl

/-- Below it, a line is read and decides whether the scan goes on. -/
theorem advance_of_lt (h : i < limit) (hInside : i < lines.length) :
    advance lines stop limit i =
      if stop lines[i] then .ok i else advance lines stop limit (i + 1) := by
  rw [advance, if_pos h, lineAt_eq hInside]
  rfl

/-- The first line that is not empty is where the empty ones before it end. -/
theorem advance_nonempty (lines : List Line) (i : Nat) :
    advance lines (fun line => !line.isEmpty) lines.length i =
      .ok (i + ((lines.drop i).takeWhile List.isEmpty).length) := by
  by_cases h : i < lines.length
  · rw [advance_of_lt h h, List.drop_eq_getElem_cons h, List.takeWhile_cons]
    cases hEmpty : lines[i].isEmpty with
    | false => rfl
    | true =>
        rw [if_neg (by simp), advance_nonempty lines (i + 1), if_pos rfl, List.length_cons]
        congr 1
        omega
  · rw [advance_of_not_lt h, List.drop_eq_nil_of_le (Nat.le_of_not_lt h)]
    rfl
termination_by lines.length - i

/-- A list is closed by a line, given up at a line, or goes on behind it. -/
theorem listEnd?_cons (line : Line) (rest : List Line) :
    listEnd? (line :: rest) =
      if closesList line then some (1, rest)
      else if endsList line then none
      else (listEnd? rest).map fun (count, rest) => (count + 1, rest) := by
  rw [listEnd?, closesList, endsList]
  cases line with
  | nil => rfl
  | cons c line =>
      cases opensMore (c :: line) with
      | true => simp
      | false => cases (c :: line).contains ')' <;> simp

/-- A line that closes a list also ends it, so that it is tested first. -/
theorem endsList_of_closesList {line : Line} (h : closesList line = true) :
    endsList line = true := by
  rw [closesList, Bool.and_eq_true] at h
  rw [endsList, h.2, Bool.or_true]

theorem rest_of_listEnd?_singleton {line : Line} {count : Nat} {rest : List Line}
    (h : listEnd? [line] = some (count, rest)) : rest = [] := by
  rw [listEnd?_cons] at h
  split_ifs at h
  · cases h
    rfl
  · cases h

/-- The list of a header is looked for in all lines but the last two. If it does not close where
that ends, no line comes after it. -/
theorem advance_list (i : Nat) (h : i + 1 < lines.length) :
    ∃ last line, advance lines endsList (lines.length - 2) i = .ok last ∧ i ≤ last ∧
      last + 1 < lines.length ∧ lines[last]? = some line ∧
      if closesList line then listEnd? (lines.drop i) = some (last + 1 - i, lines.drop (last + 1))
      else ∀ count rest, listEnd? (lines.drop i) = some (count, rest) → rest = [] := by
  have hInside : i < lines.length := by omega
  have hLine : lines[i]? = some lines[i] := List.getElem?_eq_getElem hInside
  rw [List.drop_eq_getElem_cons hInside, listEnd?_cons]
  by_cases hLimit : i < lines.length - 2
  · rw [advance_of_lt hLimit hInside]
    by_cases hEnds : endsList lines[i] = true
    · refine ⟨i, lines[i], if_pos hEnds, Nat.le_refl i, h, hLine, ?_⟩
      rw [if_pos hEnds]
      split <;> simp
    · have hOpen : ¬closesList lines[i] = true := mt endsList_of_closesList hEnds
      obtain ⟨last, line, hLast, hOrder, hNext, hClosing, hList⟩ :=
        advance_list (i + 1) (by omega)
      refine ⟨last, line, by rw [if_neg hEnds, hLast], by omega, hNext, hClosing, ?_⟩
      rw [if_neg hOpen, if_neg hEnds]
      by_cases hCloses : closesList line = true
      · rw [if_pos hCloses] at hList ⊢
        have hCount : last + 1 - (i + 1) + 1 = last + 1 - i := by omega
        simp only [hList, Option.map_some, hCount]
      · rw [if_neg hCloses] at hList ⊢
        intro count rest hRest
        obtain ⟨⟨count', rest'⟩, hLater, hEq⟩ := Option.map_eq_some_iff.mp hRest
        cases hEq
        exact hList count' rest hLater
  · refine ⟨i, lines[i], advance_of_not_lt hLimit, Nat.le_refl i, h, hLine, ?_⟩
    by_cases hCloses : closesList lines[i] = true
    · rw [if_pos hCloses, if_pos hCloses, Nat.add_sub_cancel_left]
    · have hLast : lines.drop (i + 1) = [lines[i + 1]] := by
        rw [List.drop_eq_getElem_cons h, List.drop_eq_nil_of_le (by omega)]
      rw [if_neg hCloses, if_neg hCloses, hLast]
      intro count rest hRest
      split_ifs at hRest
      obtain ⟨⟨count', rest'⟩, hOnly, hEq⟩ := Option.map_eq_some_iff.mp hRest
      cases hEq
      exact rest_of_listEnd?_singleton hOnly
termination_by lines.length - i

/-- A body ends at the line at which the loop stops, if this line closes a block. -/
theorem advance_body (lines : List Line) (i : Nat) :
    ∃ last, advance lines endsBody lines.length i = .ok last ∧ i ≤ last ∧
      bodyLength? (lines.drop i) =
        if lines[last]?.any closesBlock then some (last + 1 - i) else none := by
  by_cases h : i < lines.length
  · have hLine : lines[i]? = some lines[i] := List.getElem?_eq_getElem h
    rw [advance_of_lt h h, List.drop_eq_getElem_cons h, bodyLength?]
    cases hInner : lines[i].head?.all Text.isBlank with
    | false =>
        refine ⟨i, by simp [endsBody, hInner], Nat.le_refl i, ?_⟩
        rw [hLine, Option.any_some, Nat.add_sub_cancel_left]
        rfl
    | true =>
        obtain ⟨last, hLast, hOrder, hBody⟩ := advance_body lines (i + 1)
        refine ⟨last, by simpa [endsBody, hInner] using hLast, by omega, ?_⟩
        rw [if_pos rfl, hBody]
        split
        · simp
          omega
        · rfl
  · refine ⟨i, advance_of_not_lt h, Nat.le_refl i, ?_⟩
    rw [List.drop_eq_nil_of_le (Nat.le_of_not_lt h), List.getElem?_eq_none (Nat.le_of_not_lt h)]
    rfl
termination_by lines.length - i

/-- The number of lines of a body with the opening brace before it. -/
def bracedLength? : List Line → Option Nat
  | [] => none
  | brace :: body => if brace = openBrace then (bodyLength? body).map (· + 1) else none

theorem bracedLength?_cons (count : Nat) (brace : Line) (body : List Line) :
    (do
      guard (brace = openBrace)
      (bodyLength? body).map (count + 2 + ·)) =
      (bracedLength? (brace :: body)).map (count + 1 + ·) := by
  have hCount (inner : Nat) : count + 1 + (inner + 1) = count + 2 + inner := by omega
  by_cases hBrace : brace = openBrace
  · simp [bracedLength?, hBrace, guard, Function.comp_def, hCount]
  · simp [bracedLength?, hBrace]

/-- A block is a header, over one line or several, and a body in braces behind it. -/
theorem blockLength?_cons (header : Line) (lines : List Line) :
    blockLength? (header :: lines) =
      if header.head?.any Char.isAlpha then
        (if opensList header then listEnd? lines else some (0, lines)).bind fun (count, rest) =>
          (bracedLength? rest).map (count + 1 + ·)
      else none := by
  rw [blockLength?]
  cases header.head?.any Char.isAlpha with
  | false => rfl
  | true =>
      cases opensList header with
      | false =>
          cases lines with
          | nil => rfl
          | cons brace body => exact bracedLength?_cons 0 brace body
      | true =>
          cases listEnd? lines with
          | none => rfl
          | some listed =>
              obtain ⟨count, rest⟩ := listed
              cases rest with
              | nil => rfl
              | cons brace body => exact bracedLength?_cons count brace body

theorem ok_bind {α β : Type} (a : α) (f : α → Except Nat β) :
    ((.ok a : Except Nat α) >>= f) = f a := rfl

/-- The scan for the end of a body reads only lines that exist, as two more lines have to be there
when it starts. -/
theorem bodyEnd_eq (lines : List Line) (i : Nat) :
    bodyEnd lines i = .ok ((bracedLength? (lines.drop (i + 1))).map (i + ·)) := by
  rw [bodyEnd]
  split_ifs with h
  · have hNext : i + 1 < lines.length := by omega
    rw [lineAt_eq hNext, List.drop_eq_getElem_cons hNext, ok_bind, bracedLength?]
    split_ifs with hBrace
    · obtain ⟨last, hLast, hOrder, hBody⟩ := advance_body lines (i + 2)
      rw [hLast, ok_bind, hBody]
      by_cases hInside : last < lines.length
      · rw [if_pos hInside, lineAt_eq hInside, ok_bind, List.getElem?_eq_getElem hInside,
          Option.any_some]
        split_ifs
        · have hCount : i + (last + 1 - (i + 2) + 1) = last := by omega
          simp only [Option.map_some, hCount]
          rfl
        · rfl
      · rw [if_neg hInside, List.getElem?_eq_none (Nat.le_of_not_lt hInside)]
        rfl
    · rfl
  · have hShort : (lines.drop (i + 1)).length ≤ 1 := by
      rw [List.length_drop]
      omega
    cases hRest : lines.drop (i + 1) with
    | nil => rfl
    | cons brace body =>
        obtain rfl : body = [] := by simpa [hRest] using hShort
        rw [bracedLength?]
        split_ifs <;> rfl

theorem blockEnd_eq {first : Nat} (h : first + 2 < lines.length) :
    blockEnd lines first = .ok ((blockLength? (lines.drop first)).map (first + · - 1)) := by
  have hFirst : first < lines.length := by omega
  rw [blockEnd, lineAt_eq hFirst, ok_bind, List.drop_eq_getElem_cons hFirst, blockLength?_cons]
  split_ifs with hLetter hList
  · obtain ⟨last, line, hLast, hOrder, hNext, hLine, hEnd⟩ := advance_list (first + 1) h
    have hRead : lineAt lines last = .ok line := by rw [lineAt, hLine]
    rw [headerEnd, lineAt_eq hFirst, ok_bind, if_pos hList, hLast, ok_bind, hRead, ok_bind]
    by_cases hCloses : closesList line = true
    · rw [if_pos hCloses] at hEnd ⊢
      have hCount (inner : Nat) : first + (last + 1 - (first + 1) + 1 + inner) - 1 =
          last + inner := by omega
      change bodyEnd lines last = _
      rw [bodyEnd_eq, hEnd]
      simp only [Option.bind_some, Option.map_map, Function.comp_def, hCount]
    · rw [if_neg hCloses] at hEnd ⊢
      cases hListed : listEnd? (lines.drop (first + 1)) with
      | none => rfl
      | some listed =>
          obtain ⟨count, rest⟩ := listed
          obtain rfl := hEnd count rest hListed
          rfl
  · have hCount (inner : Nat) : first + (0 + 1 + inner) - 1 = first + inner := by omega
    rw [headerEnd, lineAt_eq hFirst, ok_bind, if_neg hList]
    change bodyEnd lines first = _
    rw [bodyEnd_eq]
    simp only [Option.bind_some, Option.map_map, Function.comp_def, hCount]
  · rfl

/-- The search by line numbers reads lines that exist only, from wherever it starts, and finds the
block that the search by parts finds. -/
theorem findBlock_eq (lines : List Line) (start : Nat) :
    findBlock lines start = .ok (findBlock? lines start) := by
  rw [findBlock, advance_nonempty, ok_bind, findBlock?_eq]
  generalize start + ((lines.drop start).takeWhile List.isEmpty).length = first
  split_ifs with h
  · rw [blockEnd_eq h, ok_bind, Option.map_map]
    rfl
  · have hNone : blockLength? (lines.drop first) = none := by
      rw [Option.eq_none_iff_forall_ne_some]
      intro count hCount
      have hLength := length_of_blockLength? hCount
      rw [List.length_drop] at hLength
      omega
    rw [hNone]
    rfl

end BlockScan

end TruthLint.Reduction
