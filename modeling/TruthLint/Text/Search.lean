import TruthLint.Text.Blank

/-! Finding and splitting at a fixed piece of text. -/

namespace TruthLint.Text

/-- The text that follows `lead`, if the text starts with it. -/
def afterLead? : (lead cs : List Char) → Option (List Char)
  | [], cs => some cs
  | _ :: _, [] => none
  | l :: lead, c :: cs => if l = c then afterLead? lead cs else none

theorem afterLead?_eq_some_iff {lead cs rest : List Char} :
    afterLead? lead cs = some rest ↔ cs = lead ++ rest := by
  induction lead generalizing cs with
  | nil => simp [afterLead?]
  | cons l lead ih =>
    cases cs with
    | nil => simp [afterLead?]
    | cons c cs =>
      by_cases h : l = c
      · simp [afterLead?, h, ih]
      · simp [afterLead?, h, Ne.symm h]

/-- The text before and after the first occurrence of `piece`. -/
def cut? (piece : List Char) : List Char → Option (List Char × List Char)
  | [] => if piece.isEmpty then some ([], []) else none
  | c :: cs =>
    match afterLead? piece (c :: cs) with
    | some rest => some ([], rest)
    | none => (cut? piece cs).map fun (before, rest) => (c :: before, rest)

/-- Nothing is lost: the text is put together of the part before, the piece and the part after. -/
theorem eq_append_of_cut? {piece cs before rest : List Char}
    (h : cut? piece cs = some (before, rest)) : cs = before ++ piece ++ rest := by
  induction cs generalizing before with
  | nil =>
      cases piece with
      | nil =>
          cases h
          rfl
      | cons p piece => simp [cut?] at h
  | cons c cs ih =>
      rw [cut?] at h
      cases hLead : afterLead? piece (c :: cs) with
      | some after =>
          rw [hLead] at h
          cases h
          exact afterLead?_eq_some_iff.mp hLead
      | none =>
          rw [hLead] at h
          obtain ⟨⟨before', rest'⟩, hLater, hEq⟩ := Option.map_eq_some_iff.mp h
          cases hEq
          rw [ih hLater]
          rfl

def occurs (piece cs : List Char) : Bool := (cut? piece cs).isSome

/-- The pieces between the occurrences of a character; there is always at least one. -/
def splitAt (separator : Char) : List Char → List (List Char)
  | [] => [[]]
  | c :: cs =>
    match splitAt separator cs with
    | [] => [[]]
    | piece :: pieces => if c = separator then [] :: piece :: pieces else (c :: piece) :: pieces

/-- The pieces between the double colons, which are taken from the left; there is always at
least one. -/
def splitColons : List Char → List (List Char)
  | [] => [[]]
  | ':' :: ':' :: cs => [] :: splitColons cs
  | c :: cs =>
    match splitColons cs with
    | [] => [[c]]
    | piece :: pieces => (c :: piece) :: pieces

/-- Whether the text `piece` stands somewhere in `s`. -/
def contains (s piece : String) : Bool := occurs piece.toList s.toList

def startsWith (s lead : String) : Bool := (afterLead? lead.toList s.toList).isSome

end TruthLint.Text
