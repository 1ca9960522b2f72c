import Mathlib.Data.Option.Basic
import Mathlib.Tactic.SplitIfs
import TruthLint.Reduction.Block

/-! How far a block reaches. A block that is found lies within the lines, has a header, a line
with its opening brace and a last line of its own, and does not start before the line from which
it is looked for. -/

namespace TruthLint.Reduction

/-- The lines that a header's list takes up and those after it are all the lines. -/
theorem length_of_listEnd? {lines rest : List Line} {count : Nat}
    (h : listEnd? lines = some (count, rest)) : count + rest.length = lines.length := by
  induction lines generalizing count with
  | nil => simp [listEnd?] at h
  | cons line lines ih =>
      rw [listEnd?] at h
      split_ifs at h with hStop hClose
      · cases h
        simp [Nat.add_comm]
      · obtain ⟨⟨inner, rest'⟩, hInner, hEq⟩ := Option.map_eq_some_iff.mp h
        cases hEq
        have hLength := ih hInner
        simp only [List.length_cons]
        omega

/-- A body has at least its closing line. -/
theorem length_of_bodyLength? {lines : List Line} {count : Nat}
    (h : bodyLength? lines = some count) : 1 ≤ count ∧ count ≤ lines.length := by
  induction lines generalizing count with
  | nil => simp [bodyLength?] at h
  | cons line lines ih =>
      rw [bodyLength?] at h
      split_ifs at h with hInner hClose
      · obtain ⟨inner, hRest, rfl⟩ := Option.map_eq_some_iff.mp h
        have hLength := ih hRest
        simp only [List.length_cons]
        omega
      · cases h
        simp

/-- A block is a header with the lines of its list, a line with the opening brace and a body. -/
theorem parts_of_blockLength? {header : Line} {lines : List Line} {count : Nat}
    (h : blockLength? (header :: lines) = some count) :
    ∃ listed body inner,
      (if opensList header then listEnd? lines else some (0, lines)) =
        some (listed, openBrace :: body) ∧
      bodyLength? body = some inner ∧ count = listed + 2 + inner := by
  have hBody {listed : Nat} {brace : Line} {body : List Line}
      (h : ((guard (brace = openBrace) : Option PUnit).bind fun _ =>
        (bodyLength? body).map (listed + 2 + ·)) = some count) :
      brace = openBrace ∧ ∃ inner, bodyLength? body = some inner ∧ count = listed + 2 + inner := by
    obtain ⟨u, hGuard, hMap⟩ := Option.bind_eq_some_iff.mp h
    obtain ⟨inner, hInner, hCount⟩ := Option.map_eq_some_iff.mp hMap
    exact ⟨(Option.guard_eq_some' u).mp hGuard, inner, hInner, hCount.symm⟩
  simp only [blockLength?, Option.bind_eq_bind, Option.bind_eq_some_iff] at h
  obtain ⟨-, -, h⟩ := h
  split_ifs at h ⊢ with hList
  · obtain ⟨⟨listed, rest⟩, hListed, h⟩ := Option.bind_eq_some_iff.mp h
    cases rest with
    | nil => simp at h
    | cons brace body =>
        obtain ⟨rfl, inner, hInner, hCount⟩ := hBody h
        exact ⟨listed, body, inner, hListed, hInner, hCount⟩
  · cases lines with
    | nil => simp at h
    | cons brace body =>
        obtain ⟨rfl, inner, hInner, hCount⟩ := hBody h
        exact ⟨0, body, inner, rfl, hInner, hCount⟩

/-- A block has a header, a line with a brace and a last line at least. -/
theorem length_of_blockLength? {lines : List Line} {count : Nat}
    (h : blockLength? lines = some count) : 3 ≤ count ∧ count ≤ lines.length := by
  cases lines with
  | nil => simp [blockLength?] at h
  | cons header lines =>
      obtain ⟨listed, body, inner, hHeader, hInner, rfl⟩ := parts_of_blockLength? h
      have hListed : listed + (openBrace :: body).length = lines.length := by
        split_ifs at hHeader with hList
        · exact length_of_listEnd? hHeader
        · cases hHeader
          simp
      have hLength := length_of_bodyLength? hInner
      simp only [List.length_cons] at hListed ⊢
      omega

/-- A block is looked for at the first line that is not empty. -/
theorem findBlock?_eq (lines : List Line) (start : Nat) :
    let first := start + ((lines.drop start).takeWhile List.isEmpty).length
    findBlock? lines start =
      (blockLength? (lines.drop first)).map fun count => (first, first + count - 1) := by
  intro first
  have hSplit := List.takeWhile_append_dropWhile (p := List.isEmpty) (l := lines.drop start)
  have hRest : lines.drop first = (lines.drop start).dropWhile List.isEmpty := by
    rw [← List.drop_drop]
    exact (congrArg (List.drop _) hSplit.symm).trans List.drop_left
  rw [findBlock?, ← hRest]

/-- A block that is found starts with a line that is not empty. -/
theorem header_of_findBlock? {lines : List Line} {start first last : Nat}
    (h : findBlock? lines start = some (first, last)) :
    ∃ header, lines[first]? = some header ∧ header ≠ [] := by
  rw [findBlock?_eq] at h
  obtain ⟨count, hCount, hEq⟩ := Option.map_eq_some_iff.mp h
  cases hEq
  generalize start + ((lines.drop start).takeWhile List.isEmpty).length = first at hCount ⊢
  cases hLines : lines.drop first with
  | nil => simp [hLines, blockLength?] at hCount
  | cons header rest =>
      rw [hLines] at hCount
      simp only [blockLength?, Option.bind_eq_bind, Option.bind_eq_some_iff] at hCount
      obtain ⟨u, hLetter, -⟩ := hCount
      refine ⟨header, ?_, ?_⟩
      · rw [← List.head?_drop, hLines, List.head?_cons]
      · rintro rfl
        exact absurd ((Option.guard_eq_some' u).mp hLetter) (by simp)

/-- A block that is found starts at or after the given line, and its last line exists. -/
theorem bounds_of_findBlock? {lines : List Line} {start first last : Nat}
    (h : findBlock? lines start = some (first, last)) :
    start ≤ first ∧ first + 2 ≤ last ∧ last < lines.length := by
  obtain ⟨count, hCount, hEq⟩ := Option.map_eq_some_iff.mp h
  cases hEq
  have hBlock := length_of_blockLength? hCount
  have hSplit := congrArg List.length
    (List.takeWhile_append_dropWhile (p := List.isEmpty) (l := lines.drop start))
  simp only [List.length_append, List.length_drop] at hSplit
  omega

end TruthLint.Reduction
