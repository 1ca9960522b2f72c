import TruthLint.Proofs.Number.Digits

/-! Integer literals. Whatever the radix, the case of the letters, the separators and the suffix,
the value is that of the digits, as long as it fits in 64 bits. -/

namespace TruthLint.Number

/-- Letters that may follow the digits of an integer literal. -/
def IsIntegerSuffix (suffix : List Char) : Prop := ∀ c ∈ suffix, c.toLower ∈ ['u', 'l', 'z']

/-- The spellings of integer literals, with the number that each of them denotes. The zero that
marks an octal literal is its first digit. -/
inductive IntegerLiteral : List Char → Nat → Prop
  | decimal {d : Nat} {ds : List Nat} {cs suffix : List Char} (hFirst : d ≠ 0)
      (digits : Spelled 10 (d :: ds) cs) (hSuffix : IsIntegerSuffix suffix) :
      IntegerLiteral (cs ++ suffix) (Nat.ofDigits 10 (d :: ds).reverse)
  | octal {ds : List Nat} {cs suffix : List Char} (digits : Spelled 8 (0 :: ds) cs)
      (hSuffix : IsIntegerSuffix suffix) :
      IntegerLiteral (cs ++ suffix) (Nat.ofDigits 8 (0 :: ds).reverse)
  | hexadecimal {x : Char} {ds : List Nat} {cs suffix : List Char} (hMark : x.toLower = 'x')
      (hNonempty : ds ≠ []) (digits : Spelled 16 ds cs) (hSuffix : IsIntegerSuffix suffix) :
      IntegerLiteral ('0' :: x :: (cs ++ suffix)) (Nat.ofDigits 16 ds.reverse)
  | binary {b : Char} {ds : List Nat} {cs suffix : List Char} (hMark : b.toLower = 'b')
      (hNonempty : ds ≠ []) (digits : Spelled 2 ds cs) (hSuffix : IsIntegerSuffix suffix) :
      IntegerLiteral ('0' :: b :: (cs ++ suffix)) (Nat.ofDigits 2 ds.reverse)

variable {radix : Nat} {ds : List Nat} {cs suffix : List Char}

/-- The letters of a suffix are told from digits, even from hexadecimal ones. -/
theorem IsIntegerSuffix.plain (h : IsIntegerSuffix suffix) :
    ∀ c ∈ plain suffix, c ∈ ['u', 'l', 'z'] := by
  intro c hc
  obtain ⟨written, hWritten, rfl⟩ := List.mem_map.mp hc
  exact h written ((List.mem_filter.mp hWritten).1)

/-- A number is written without a sign, so that all of its characters are digits. -/
theorem word?_digitChar (hRadix : radix ≤ 16) (hDigits : ∀ d ∈ ds, d < radix)
    (hNonempty : ds ≠ []) :
    word? radix (ds.map Nat.digitChar) =
      if Nat.ofDigits radix ds.reverse < 2 ^ 64 then some (Nat.ofDigits radix ds.reverse)
      else none := by
  obtain ⟨d, ds, rfl⟩ := List.exists_cons_of_ne_nil hNonempty
  have hSixteen : d < 16 := Nat.lt_of_lt_of_le (hDigits d List.mem_cons_self) hRadix
  have hFirst : d.digitChar ≠ '+' := fun hEq =>
    absurd (hEq ▸ digitChar_mem_hexadecimalChars d hSixteen) (by decide)
  have hSign : ∀ digits, (d :: ds).map Nat.digitChar ≠ '+' :: digits := fun _ hEq =>
    hFirst (List.cons.inj hEq).1
  unfold word?
  split
  next digits hEq => exact absurd hEq (hSign digits)
  next =>
    dsimp only
    rw [ofDigits?_digitChar hRadix hDigits, Option.filter_some]
    simp [wordBound]

/-- The suffix ends where the digits do: none of its letters is a digit in any radix. -/
theorem integer?_digitChar (hRadix : radix ≤ 16) (hDigits : ∀ d ∈ ds, d < radix)
    (hNonempty : ds ≠ [] ∨ radix = 8) (hSuffix : ∀ c ∈ suffix, c ∈ ['u', 'l', 'z']) :
    integer? radix (ds.map Nat.digitChar ++ suffix) =
      if Nat.ofDigits radix ds.reverse < 2 ^ 64 then some (Nat.ofDigits radix ds.reverse)
      else none := by
  have hKept : ∀ c ∈ ds.map Nat.digitChar, (c == 'u' || c == 'l' || c == 'z') = false := by
    intro c hc
    obtain ⟨d, hd, rfl⟩ := List.mem_map.mp hc
    have hApart : ∀ c ∈ hexadecimalChars, (c == 'u' || c == 'l' || c == 'z') = false := by
      simp [hexadecimalChars, decimalChars]
    exact hApart _ (digitChar_mem_hexadecimalChars d (Nat.lt_of_lt_of_le (hDigits d hd) hRadix))
  have hDropped : ∀ c ∈ suffix, (c == 'u' || c == 'l' || c == 'z') = true := by
    simpa [or_assoc] using hSuffix
  rw [integer?, Text.dropEndWhile_append_of_forall hKept hDropped]
  by_cases hEmpty : ds = []
  · obtain rfl := hNonempty.resolve_left (not_not.mpr hEmpty)
    subst hEmpty
    rfl
  · rw [← word?_digitChar hRadix hDigits hEmpty]
    simp [hEmpty]

/-- Digits below ten and an integer suffix hold no mark of another kind of literal. -/
theorem unmarked_of_decimal (hDigits : ∀ d ∈ ds, d < 10)
    (hSuffix : ∀ c ∈ suffix, c ∈ ['u', 'l', 'z']) :
    ∀ mark ∈ ['x', 'b', '.', 'e'], mark ∉ ds.map Nat.digitChar ++ suffix := by
  have hApart : ∀ mark ∈ ['x', 'b', '.', 'e'], mark ∉ decimalChars ∧ mark ∉ ['u', 'l', 'z'] := by
    simp [decimalChars]
  intro mark hMark
  obtain ⟨hNoDigit, hNoLetter⟩ := hApart mark hMark
  rw [List.mem_append, List.mem_map]
  rintro (⟨d, hd, rfl⟩ | hLetter)
  · exact hNoDigit (digitChar_mem_decimalChars d (hDigits d hd))
  · exact hNoLetter (hSuffix mark hLetter)

/-- Without a mark and a leading zero, text is read as a decimal number. -/
theorem ofLowercase?_decimal (hUnmarked : ∀ mark ∈ ['x', 'b', '.', 'e'], mark ∉ cs)
    (hZero : cs.head? ≠ some '0') : ofLowercase? cs = integer? 10 cs := by
  have hNoFraction : ¬(cs.contains '.' || cs.contains 'e') = true := by
    simp only [List.contains_iff_mem, Bool.or_eq_true, not_or]
    exact ⟨hUnmarked '.' (by decide), hUnmarked 'e' (by decide)⟩
  unfold ofLowercase?
  split
  · exact absurd rfl hZero
  · exact absurd rfl hZero
  · rw [if_neg hNoFraction]
    split
    · exact absurd rfl hZero
    · rfl

/-- The zero in front of an octal literal is left out. What is left may be empty. -/
theorem ofLowercase?_octal (hUnmarked : ∀ mark ∈ ['x', 'b', '.', 'e'], mark ∉ '0' :: cs) :
    ofLowercase? ('0' :: cs) = integer? 8 cs := by
  have hNoFraction : ¬(('0' :: cs).contains '.' || ('0' :: cs).contains 'e') = true := by
    simp only [List.contains_iff_mem, Bool.or_eq_true, not_or]
    exact ⟨hUnmarked '.' (by decide), hUnmarked 'e' (by decide)⟩
  cases cs with
  | nil => decide
  | cons c cs =>
      unfold ofLowercase?
      split
      next digits hEq =>
        cases hEq
        exact absurd (by simp) (hUnmarked 'x' (by decide))
      next digits hEq =>
        cases hEq
        exact absurd (by simp) (hUnmarked 'b' (by decide))
      next => exact if_neg hNoFraction

/-- Behind its mark a hexadecimal number is read. Letters that are digits do not end it, and those
of a suffix do. -/
theorem ofLowercase?_hexadecimal (hDigits : ∀ d ∈ ds, d < 16)
    (hSuffix : ∀ c ∈ suffix, c ∈ ['u', 'l', 'z']) :
    ofLowercase? ('0' :: 'x' :: (ds.map Nat.digitChar ++ suffix)) =
      integer? 16 (ds.map Nat.digitChar ++ suffix) := by
  have hNoFraction {mark : Char} (hMark : mark ∈ ['.', 'p']) :
      mark ∉ ds.map Nat.digitChar ++ suffix := by
    have hApart : ∀ mark ∈ ['.', 'p'], mark ∉ hexadecimalChars ∧ mark ∉ ['u', 'l', 'z'] := by
      simp [hexadecimalChars, decimalChars]
    obtain ⟨hNoDigit, hNoLetter⟩ := hApart mark hMark
    rw [List.mem_append, List.mem_map]
    rintro (⟨d, hd, rfl⟩ | hLetter)
    · exact hNoDigit (digitChar_mem_hexadecimalChars d (hDigits d hd))
    · exact hNoLetter (hSuffix mark hLetter)
  rw [ofLowercase?, if_neg]
  simp only [List.contains_iff_mem, Bool.or_eq_true, not_or]
  exact ⟨hNoFraction (by decide), hNoFraction (by decide)⟩

/-- The value of an integer literal is the number that it denotes, unless this takes more than 64
bits. Separators, the case of letters and the suffix never change it. -/
theorem literal?_of_integerLiteral {text : String} {value : Nat}
    (h : IntegerLiteral text.toList value) :
    literal? text = if value < 2 ^ 64 then some value else none := by
  rw [literal?_eq]
  generalize text.toList = cs at h
  cases h with
  | @decimal d ds cs suffix hFirst digits hSuffix =>
      have hDigits := digits.lt
      have hZero : ∀ d < 10, d ≠ 0 → d.digitChar ≠ '0' := by decide
      have hHead : ((d :: ds).map Nat.digitChar ++ plain suffix).head? ≠ some '0' := by
        simpa using hZero d (hDigits d List.mem_cons_self) hFirst
      rw [plain_append, digits.plain_eq (by decide),
        ofLowercase?_decimal (unmarked_of_decimal hDigits hSuffix.plain) hHead,
        integer?_digitChar (by decide) hDigits (.inl (List.cons_ne_nil d ds)) hSuffix.plain]
  | @octal ds cs suffix digits hSuffix =>
      obtain ⟨-, hDigits⟩ := List.forall_mem_cons.mp digits.lt
      have hUnmarked := unmarked_of_decimal (fun d hd => Nat.lt_trans (digits.lt d hd) (by decide))
        hSuffix.plain
      have hValue : Nat.ofDigits 8 (0 :: ds).reverse = Nat.ofDigits 8 ds.reverse :=
        Nat.ofDigits_reverse_zero_cons ds
      rw [plain_append, digits.plain_eq (by decide), List.map_cons, List.cons_append, hValue]
      exact (ofLowercase?_octal hUnmarked).trans
        (integer?_digitChar (by decide) hDigits (.inr rfl) hSuffix.plain)
  | @hexadecimal x ds cs suffix hMark hNonempty digits hSuffix =>
      rw [plain_cons (by decide), plain_cons (ne_separator hMark (by decide)), plain_append,
        digits.plain_eq (by decide), hMark]
      exact (ofLowercase?_hexadecimal digits.lt hSuffix.plain).trans
        (integer?_digitChar (by decide) digits.lt (.inl hNonempty) hSuffix.plain)
  | @binary b ds cs suffix hMark hNonempty digits hSuffix =>
      rw [plain_cons (by decide), plain_cons (ne_separator hMark (by decide)), plain_append,
        digits.plain_eq (by decide), hMark]
      exact integer?_digitChar (by decide) digits.lt (.inl hNonempty) hSuffix.plain

/-- The digit `e` with a separator after it and a suffix, and the least number that takes 65
bits. -/
theorem literal?_of_integerLiteral_hexadecimal :
    IntegerLiteral "0XE\x27e1Lu".toList 0xEE1 ∧ literal? "0XE\x27e1Lu" = some 0xEE1 ∧
      IntegerLiteral "0x10000000000000000z".toList (2 ^ 64) ∧
      literal? "0x10000000000000000z" = none := by
  have hSmall : IntegerLiteral "0XE\x27e1Lu".toList 0xEE1 :=
    @IntegerLiteral.hexadecimal 'X' [14, 14, 1] ['E', '\x27', 'e', '1'] ['L', 'u']
      (by decide) (by decide)
      (.separated (by decide) (by decide) (.digit (by decide) (by decide)
        (.digit (by decide) (by decide) .nil)))
      (by simp [IsIntegerSuffix])
  have hZeros : Spelled 16 (1 :: List.replicate 16 0) ('1' :: List.replicate 16 '0') := by
    iterate 17 refine .digit (by decide) (by decide) ?_
    exact .nil
  have hLarge : IntegerLiteral "0x10000000000000000z".toList (2 ^ 64) :=
    @IntegerLiteral.hexadecimal 'x' (1 :: List.replicate 16 0) ('1' :: List.replicate 16 '0') ['z']
      (by decide) (by decide) hZeros (by simp [IsIntegerSuffix])
  exact ⟨hSmall, literal?_of_integerLiteral hSmall, hLarge, literal?_of_integerLiteral hLarge⟩

end TruthLint.Number
