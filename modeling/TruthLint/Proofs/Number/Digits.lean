import Mathlib.Data.List.Induction
import Mathlib.Data.Nat.Digits.Defs
import TruthLint.Number.Literal

/-! Digits as literals spell them, with letters in either case and with separators. What reads a
literal drops the separators and the case first, which leaves one character for each digit. -/

namespace TruthLint

namespace Text

/-- An end is dropped whole when nothing before it would be dropped. -/
theorem dropEndWhile_append_of_forall {p : Char → Bool} {cs ending : List Char}
    (hKept : ∀ c ∈ cs, p c = false) (hDropped : ∀ c ∈ ending, p c = true) :
    dropEndWhile p (cs ++ ending) = cs := by
  have hEnding : ∀ c ∈ ending.reverse, p c = true := fun c hc =>
    hDropped c (List.mem_reverse.mp hc)
  have hRest : cs.reverse.dropWhile p = cs.reverse := by
    cases hReverse : cs.reverse with
    | nil => rfl
    | cons last before =>
        have hLast : last ∈ cs := List.mem_reverse.mp (hReverse ▸ List.mem_cons_self)
        rw [List.dropWhile_cons_of_neg (by simp [hKept last hLast])]
  rw [dropEndWhile, List.reverse_append, List.dropWhile_append_of_pos hEnding, hRest,
    List.reverse_reverse]

end Text

namespace Number

/-- Spellings of digits, the most significant first. A letter may stand in either case, and there
may be a separator between two digits, but not before the first or after the last. -/
inductive Spelled (radix : Nat) : List Nat → List Char → Prop
  | nil : Spelled radix [] []
  | digit {d : Nat} {ds : List Nat} {c : Char} {cs : List Char} (hRadix : d < radix)
      (hChar : c.toLower = d.digitChar) (rest : Spelled radix ds cs) :
      Spelled radix (d :: ds) (c :: cs)
  | separated {d next : Nat} {ds : List Nat} {c : Char} {cs : List Char} (hRadix : d < radix)
      (hChar : c.toLower = d.digitChar) (rest : Spelled radix (next :: ds) cs) :
      Spelled radix (d :: next :: ds) (c :: '\x27' :: cs)

/-- The characters in lower case, without separators. -/
def plain (cs : List Char) : List Char := (cs.filter (· != '\x27')).map Char.toLower

theorem literal?_eq (text : String) : literal? text = ofLowercase? (plain text.toList) := rfl

/-- Separators are left out and letters put in lower case piece by piece. -/
theorem plain_append (first second : List Char) :
    plain (first ++ second) = plain first ++ plain second := by
  rw [plain, List.filter_append, List.map_append, plain, plain]

/-- A character that is no separator stays, in lower case. -/
theorem plain_cons {c : Char} (h : c ≠ '\x27') (cs : List Char) :
    plain (c :: cs) = c.toLower :: plain cs := by
  rw [plain, List.filter_cons_of_pos (by simpa using h), List.map_cons, plain]

theorem plain_separator_cons (cs : List Char) : plain ('\x27' :: cs) = plain cs := by
  rw [plain, List.filter_cons_of_neg (by simp), plain]

/-- A character whose lower case is another one than a separator is no separator. -/
theorem ne_separator {c lower : Char} (h : c.toLower = lower) (hLower : lower ≠ '\x27') :
    c ≠ '\x27' := by
  rintro rfl
  exact hLower h.symm

/-- The characters of the digits below ten. -/
def decimalChars : List Char := ['0', '1', '2', '3', '4', '5', '6', '7', '8', '9']

/-- The characters of the digits below sixteen, in lower case. -/
def hexadecimalChars : List Char := decimalChars ++ ['a', 'b', 'c', 'd', 'e', 'f']

theorem digitChar_mem_decimalChars : ∀ d < 10, d.digitChar ∈ decimalChars := by decide

theorem digitChar_mem_hexadecimalChars : ∀ d < 16, d.digitChar ∈ hexadecimalChars := by decide

variable {radix : Nat} {ds : List Nat} {cs : List Char}

/-- The digits of a spelling are digits of its radix. -/
theorem Spelled.lt (h : Spelled radix ds cs) : ∀ d ∈ ds, d < radix := by
  induction h with
  | nil => exact fun d hd => absurd hd List.not_mem_nil
  | digit hRadix _ _ ih => exact List.forall_mem_cons.mpr ⟨hRadix, ih⟩
  | separated hRadix _ _ ih => exact List.forall_mem_cons.mpr ⟨hRadix, ih⟩

/-- Without separators and in lower case, digits have one spelling. -/
theorem Spelled.plain_eq (hRadix : radix ≤ 16) (h : Spelled radix ds cs) :
    plain cs = ds.map Nat.digitChar := by
  have hApart {d : Nat} {c : Char} (hd : d < radix) (hc : c.toLower = d.digitChar) :
      c ≠ '\x27' := by
    refine ne_separator hc fun hEq => ?_
    exact absurd (hEq ▸ digitChar_mem_hexadecimalChars d (by omega)) (by decide)
  induction h with
  | nil => rfl
  | digit hd hc _ ih => rw [plain_cons (hApart hd hc), ih, hc, List.map_cons]
  | separated hd hc _ ih =>
      rw [plain_cons (hApart hd hc), plain_separator_cons, ih, hc]
      rfl

/-- A digit is read as what it is, in every radix that has it. -/
theorem digit?_digitChar (hRadix : radix ≤ 16) {d : Nat} (h : d < radix) :
    digit? radix d.digitChar = some d := by
  have hValue : ∀ d < 16, digit? 16 d.digitChar = some d := by decide
  have hSixteen := hValue d (by omega)
  simp only [digit?, Option.filter_eq_some_iff] at hSixteen ⊢
  exact ⟨hSixteen.1, by simpa using h⟩

/-- The digits of a radix are read in positional notation. -/
theorem ofDigits?_digitChar (hRadix : radix ≤ 16) (h : ∀ d ∈ ds, d < radix) :
    ofDigits? radix (ds.map Nat.digitChar) = some (Nat.ofDigits radix ds.reverse) := by
  induction ds using List.reverseRecOn with
  | nil => rfl
  | append_singleton ds d ih =>
      obtain ⟨hBefore, hLast⟩ := List.forall_mem_append.mp h
      have hDigit := digit?_digitChar hRadix (hLast d List.mem_cons_self)
      rw [ofDigits?] at ih ⊢
      rw [List.map_append, List.foldlM_append, ih hBefore, List.reverse_append,
        List.reverse_singleton, List.singleton_append, Nat.ofDigits_cons]
      simp [hDigit, Nat.add_comm]

/-- Decimal digits are read in positional notation, whatever their number. -/
theorem ofDecimalDigits_digitChar (h : ∀ d ∈ ds, d < 10) :
    ofDecimalDigits (ds.map Nat.digitChar) = Nat.ofDigits 10 ds.reverse := by
  have hValue : ∀ d < 10, decimalDigit? d.digitChar = some d := by decide
  induction ds using List.reverseRecOn with
  | nil => rfl
  | append_singleton ds d ih =>
      obtain ⟨hBefore, hLast⟩ := List.forall_mem_append.mp h
      rw [ofDecimalDigits] at ih ⊢
      rw [List.map_append, List.foldl_append, ih hBefore, List.reverse_append,
        List.reverse_singleton, List.singleton_append, Nat.ofDigits_cons]
      simp [hValue d (hLast d List.mem_cons_self), Nat.add_comm]

end Number

end TruthLint
