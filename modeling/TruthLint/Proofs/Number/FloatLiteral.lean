import TruthLint.Proofs.Number.IntegerLiteral
import TruthLint.Proofs.Number.Magnitude

/-! Floating point literals that denote whole numbers. A number that a floating point value
represents exactly is known, and one that is too large for 64 bits is not, but for those that are
rounded to `2 ^ 64` itself: they are taken for the largest number of 64 bits. -/

namespace TruthLint.Number

/-- The sign of an exponent and the factor that it stands for. -/
inductive ExponentSign : List Char → Int → Prop
  | absent : ExponentSign [] 1
  | plus : ExponentSign ['+'] 1
  | minus : ExponentSign ['-'] (-1)

/-- Spellings of the exponent of a literal, which may be absent. -/
inductive ExponentPart : Int → List Char → Prop
  | absent : ExponentPart 0 []
  | present {e : Char} {sign cs : List Char} {factor : Int} {ds : List Nat}
      (hMark : e.toLower = 'e') (hSign : ExponentSign sign factor) (hNonempty : ds ≠ [])
      (digits : Spelled 10 ds cs) :
      ExponentPart (factor * (Nat.ofDigits 10 ds.reverse : Nat)) (e :: (sign ++ cs))

/-- One letter may follow a floating point literal. -/
def IsFloatSuffix (suffix : List Char) : Prop :=
  suffix = [] ∨ ∃ c, (c.toLower = 'f' ∨ c.toLower = 'l') ∧ suffix = [c]

/-- The spellings of decimal floating point literals, with the number that each of them denotes.
There is a point or an exponent, and a digit before or after the point. -/
inductive FloatLiteral : List Char → ℚ → Prop
  | point {whole fraction : List Nat} {ws fs es suffix : List Char} {exponent : Int}
      (hWhole : Spelled 10 whole ws) (hFraction : Spelled 10 fraction fs)
      (hNonempty : whole ++ fraction ≠ []) (hExponent : ExponentPart exponent es)
      (hSuffix : IsFloatSuffix suffix) :
      FloatLiteral (ws ++ '.' :: (fs ++ (es ++ suffix)))
        ((Nat.ofDigits 10 (whole ++ fraction).reverse : Nat) * 10 ^ (exponent - fraction.length))
  | scientific {whole : List Nat} {ws es suffix : List Char} {exponent : Int}
      (hWhole : Spelled 10 whole ws) (hNonempty : whole ≠ [])
      (hExponent : ExponentPart exponent es) (hPresent : es ≠ [])
      (hSuffix : IsFloatSuffix suffix) :
      FloatLiteral (ws ++ (es ++ suffix)) ((Nat.ofDigits 10 whole.reverse : Nat) * 10 ^ exponent)

variable {whole fraction ds : List Nat} {cs es suffix : List Char} {exponent : Int}

theorem isDecimalDigit_digitChar (h : ∀ d ∈ ds, d < 10) :
    ∀ c ∈ ds.map Nat.digitChar, isDecimalDigit c = true := by
  have hDigit : ∀ d < 10, isDecimalDigit d.digitChar = true := by decide
  intro c hc
  obtain ⟨d, hd, rfl⟩ := List.mem_map.mp hc
  exact hDigit d (h d hd)

theorem ExponentSign.plain_eq {sign : List Char} {factor : Int} (h : ExponentSign sign factor) :
    plain sign = sign := by
  cases h <;> rfl

/-- An exponent that is there starts with its mark, and its sign and digits follow. -/
theorem plain_exponent {e : Char} {sign : List Char} {factor : Int} (hMark : e.toLower = 'e')
    (hSign : ExponentSign sign factor) (digits : Spelled 10 ds cs) :
    plain (e :: (sign ++ cs)) = 'e' :: (sign ++ ds.map Nat.digitChar) := by
  rw [plain_cons (ne_separator hMark (by decide)), plain_append, hSign.plain_eq,
    digits.plain_eq (by decide), hMark]

/-- An exponent starts with its letter if it is there. -/
theorem head?_plain_exponent (h : ExponentPart exponent es) {c : Char}
    (hc : (plain es).head? = some c) : c = 'e' := by
  cases h with
  | absent => cases hc
  | present hMark hSign _ digits =>
      rw [plain_exponent hMark hSign digits] at hc
      exact (Option.some.inj hc).symm

namespace Decimal

/-- What does not start with a sign has none. -/
theorem sign_eq (hMinus : cs.head? ≠ some '-') (hPlus : cs.head? ≠ some '+') :
    sign cs = (false, cs) := by
  unfold sign
  split
  · exact absurd rfl hMinus
  · exact absurd rfl hPlus
  · rfl

/-- Digits do not start with a sign. -/
theorem sign_digitChar (h : ∀ d ∈ ds, d < 10) (rest : List Char)
    (hMinus : rest.head? ≠ some '-') (hPlus : rest.head? ≠ some '+') :
    sign (ds.map Nat.digitChar ++ rest) = (false, ds.map Nat.digitChar ++ rest) := by
  have hApart : ∀ d < 10, d.digitChar ≠ '-' ∧ d.digitChar ≠ '+' := by decide
  cases ds with
  | nil => exact sign_eq hMinus hPlus
  | cons d ds =>
      obtain ⟨hNoMinus, hNoPlus⟩ := hApart d (h d List.mem_cons_self)
      exact sign_eq (by simp [hNoMinus]) (by simp [hNoPlus])

/-- An exponent is read with its sign, however many digits it has. -/
theorem exponent?_plain (h : ExponentPart exponent es) : exponent? (plain es) = some exponent := by
  cases h with
  | absent => rfl
  | @present e sign cs factor ds hMark hSign hNonempty digits =>
      have hAll : (ds.map Nat.digitChar).all isDecimalDigit = true :=
        List.all_eq_true.mpr (isDecimalDigit_digitChar digits.lt)
      have hSplit : Decimal.sign (sign ++ ds.map Nat.digitChar) =
          (decide (factor = -1), ds.map Nat.digitChar) := by
        cases hSign with
        | absent => simpa using sign_digitChar digits.lt [] (by simp) (by simp)
        | plus => rfl
        | minus => rfl
      rw [plain_exponent hMark hSign digits, exponent?, hSplit]
      dsimp only
      rw [if_neg (by simp [hAll, hNonempty]), ofDecimalDigits_digitChar digits.lt]
      cases hSign <;> simp

/-- Digits end before a character that is none. -/
theorem takeWhile_digitChar (h : ∀ d ∈ ds, d < 10) (rest : List Char)
    (hRest : ∀ c, rest.head? = some c → isDecimalDigit c = false) :
    (ds.map Nat.digitChar ++ rest).takeWhile isDecimalDigit = ds.map Nat.digitChar ∧
      (ds.map Nat.digitChar ++ rest).dropWhile isDecimalDigit = rest := by
  have hDigits := isDecimalDigit_digitChar h
  rw [List.takeWhile_append_of_pos hDigits, List.dropWhile_append_of_pos hDigits]
  cases rest with
  | nil => simp
  | cons c rest => simp [hRest c rfl]

/-- A number before an exponent has no digits behind the point. -/
theorem parse?_whole (hWhole : ∀ d ∈ whole, d < 10) (hNonempty : whole ≠ [])
    (hExponent : ExponentPart exponent es) :
    parse? (whole.map Nat.digitChar ++ plain es) =
      some ⟨false, Nat.ofDigits 10 whole.reverse, exponent⟩ := by
  have hMark {c : Char} := head?_plain_exponent hExponent (c := c)
  have hSign := sign_digitChar hWhole (plain es) (fun h => absurd (hMark h) (by decide))
    (fun h => absurd (hMark h) (by decide))
  obtain ⟨hTake, hDrop⟩ := takeWhile_digitChar hWhole (plain es) fun c hc => hMark hc ▸ rfl
  rw [parse?, hSign]
  dsimp only
  rw [hTake, hDrop]
  split
  next rest hPoint =>
    have hHead : (plain es).head? = some '.' := by rw [hPoint, List.head?_cons]
    exact absurd (hMark hHead) (by decide)
  next =>
    dsimp only
    rw [if_neg (by simpa using hNonempty), exponent?_plain hExponent, List.append_nil,
      ofDecimalDigits_digitChar hWhole]
    simp

/-- The digits on both sides of a point are read as one number, whose exponent is lower by the
number of digits behind the point. -/
theorem parse?_point (hWhole : ∀ d ∈ whole, d < 10) (hFraction : ∀ d ∈ fraction, d < 10)
    (hNonempty : whole ++ fraction ≠ []) (hExponent : ExponentPart exponent es) :
    parse? (whole.map Nat.digitChar ++ '.' :: (fraction.map Nat.digitChar ++ plain es)) =
      some ⟨false, Nat.ofDigits 10 (whole ++ fraction).reverse, exponent - fraction.length⟩ := by
  have hDigits : ∀ d ∈ whole ++ fraction, d < 10 := List.forall_mem_append.mpr ⟨hWhole, hFraction⟩
  have hSign := sign_digitChar hWhole ('.' :: (fraction.map Nat.digitChar ++ plain es)) (by simp)
    (by simp)
  obtain ⟨hTake, hDrop⟩ := takeWhile_digitChar hWhole
    ('.' :: (fraction.map Nat.digitChar ++ plain es)) fun c hc => by cases hc; rfl
  obtain ⟨hTakeFraction, hDropFraction⟩ := takeWhile_digitChar hFraction (plain es) fun c hc =>
    head?_plain_exponent hExponent hc ▸ rfl
  rw [parse?, hSign]
  dsimp only
  rw [hTake, hDrop]
  simp only [hTakeFraction, hDropFraction, ← List.map_append, exponent?_plain hExponent,
    ofDecimalDigits_digitChar hDigits, List.length_map]
  rw [if_neg (by rwa [List.isEmpty_iff, List.map_eq_nil_iff])]
  rfl

end Decimal

/-- The characters of a decimal number in lower case. -/
def numberChars : List Char := decimalChars ++ ['.', 'e', '+', '-']

/-- A literal in lower case and without separators, taken apart into a decimal number and a
suffix. -/
structure DecimalText (cs : List Char) (x : Decimal) (body suffix : List Char) : Prop where
  eq_append : cs = body ++ suffix
  body_mem : ∀ c ∈ body, c ∈ numberChars
  suffix_mem : ∀ c ∈ suffix, c ∈ ['f', 'l']
  mark : '.' ∈ body ∨ 'e' ∈ body
  parse? : Decimal.parse? body = some x
  unsigned : x.negative = false

theorem digitChar_mem_body (h : ∀ d ∈ ds, d < 10) :
    ∀ c ∈ ds.map Nat.digitChar, c ∈ numberChars := by
  intro c hc
  obtain ⟨d, hd, rfl⟩ := List.mem_map.mp hc
  exact List.mem_append_left _ (digitChar_mem_decimalChars d (h d hd))

/-- An exponent is made of characters of numbers. -/
theorem exponent_mem_body (h : ExponentPart exponent es) :
    ∀ c ∈ plain es, c ∈ numberChars := by
  cases h with
  | absent => exact fun c hc => absurd hc List.not_mem_nil
  | @present e sign cs factor ds hMark hSign hNonempty digits =>
      have hSigns : ∀ c ∈ sign, c ∈ numberChars := by cases hSign <;> simp [numberChars]
      rw [plain_exponent hMark hSign digits, List.forall_mem_cons, List.forall_mem_append]
      exact ⟨by decide, hSigns, digitChar_mem_body digits.lt⟩

theorem IsFloatSuffix.plain (h : IsFloatSuffix suffix) : ∀ c ∈ plain suffix, c ∈ ['f', 'l'] := by
  intro c hc
  obtain ⟨written, hWritten, rfl⟩ := List.mem_map.mp hc
  rcases h with rfl | ⟨letter, hLetter, rfl⟩
  · cases hWritten
  · obtain rfl := List.mem_singleton.mp (List.mem_filter.mp hWritten).1
    simpa using hLetter

/-- Every floating point literal is a decimal number of the same value with a suffix behind it. -/
theorem FloatLiteral.exists_decimalText {q : ℚ} (h : FloatLiteral cs q) :
    ∃ x body suffix, DecimalText (plain cs) x body suffix ∧ x.value = q := by
  cases h with
  | @point whole fraction ws fs es suffix exponent hWhole hFraction hNonempty hExponent hSuffix =>
      refine ⟨_, whole.map Nat.digitChar ++ '.' :: (fraction.map Nat.digitChar ++ plain es), _,
        ⟨?_, ?_, hSuffix.plain, .inl (by simp),
          Decimal.parse?_point hWhole.lt hFraction.lt hNonempty hExponent, rfl⟩, rfl⟩
      · rw [plain_append, plain_cons (by decide), plain_append, plain_append,
          hWhole.plain_eq (by decide), hFraction.plain_eq (by decide)]
        simp
      · rw [List.forall_mem_append, List.forall_mem_cons, List.forall_mem_append]
        exact ⟨digitChar_mem_body hWhole.lt, by decide, digitChar_mem_body hFraction.lt,
          exponent_mem_body hExponent⟩
  | @scientific whole ws es suffix exponent hWhole hNonempty hExponent hPresent hSuffix =>
      have hMark : 'e' ∈ plain es := by
        cases hExponent with
        | absent => exact absurd rfl hPresent
        | present hMark hSign _ digits =>
            rw [plain_exponent hMark hSign digits]
            exact List.mem_cons_self
      refine ⟨_, whole.map Nat.digitChar ++ plain es, _,
        ⟨?_, ?_, hSuffix.plain, .inr (List.mem_append_right _ hMark),
          Decimal.parse?_whole hWhole.lt hNonempty hExponent, rfl⟩, rfl⟩
      · rw [plain_append, plain_append, hWhole.plain_eq (by decide), List.append_assoc]
      · rw [List.forall_mem_append]
        exact ⟨digitChar_mem_body hWhole.lt, exponent_mem_body hExponent⟩

/-- A point or an exponent leads to the reading of floating point literals. -/
theorem ofLowercase?_float (hx : 'x' ∉ cs) (hb : 'b' ∉ cs) (h : '.' ∈ cs ∨ 'e' ∈ cs) :
    ofLowercase? cs = wholeFloat? cs := by
  unfold ofLowercase?
  split
  · simp at hx
  · simp at hb
  · rw [if_pos (by simpa [List.contains_iff_mem] using h)]

/-- The suffix ends where the number does, and the number is rounded. -/
theorem DecimalText.ofLowercase?_eq {x : Decimal} {body : List Char}
    (h : DecimalText cs x body suffix) :
    ofLowercase? cs = x.rounded?.bind fun value =>
      if 2 ^ 64 < value then none else some (min value (2 ^ 64 - 1)) := by
  have hForeign {c : Char} (hBody : c ∉ numberChars) (hSuffix : c ∉ ['f', 'l']) :
      c ∉ cs := by
    rw [h.eq_append, List.mem_append]
    exact not_or.mpr ⟨mt (h.body_mem c) hBody, mt (h.suffix_mem c) hSuffix⟩
  have hMark : '.' ∈ cs ∨ 'e' ∈ cs := by
    rw [h.eq_append]
    exact h.mark.imp (List.mem_append_left suffix) (List.mem_append_left suffix)
  have hKept : ∀ c ∈ body, (c == 'f' || c == 'l') = false := by
    have hApart : ∀ c ∈ numberChars, (c == 'f' || c == 'l') = false := by
      simp [numberChars, decimalChars]
    exact fun c hc => hApart c (h.body_mem c hc)
  have hDropped : ∀ c ∈ suffix, (c == 'f' || c == 'l') = true := by simpa using h.suffix_mem
  rw [ofLowercase?_float (hForeign (by decide) (by decide)) (hForeign (by decide) (by decide))
    hMark, h.eq_append, wholeFloat?, Text.dropEndWhile_append_of_forall hKept hDropped, h.parse?,
    Decimal.rounded?]
  simp only [Option.bind_eq_bind, Option.bind_some, Option.bind_assoc, h.unsigned, Bool.false_and,
    Bool.false_or, decide_eq_true_eq]
  rfl

/-- A literal that denotes a whole number below `2 ^ 53` has this value. From `2 ^ 64` on it has
none, unless it is so near to `2 ^ 64` that it is rounded to it. -/
theorem literal?_of_floatLiteral {text : String} {v : Nat} (h : FloatLiteral text.toList v) :
    (v < 2 ^ 53 → literal? text = some v) ∧
      (2 ^ 64 ≤ v →
        literal? text = if v ≤ 2 ^ 64 + 2 ^ 11 then some (2 ^ 64 - 1) else none) := by
  obtain ⟨x, body, suffix, hText, hValue⟩ := h.exists_decimalText
  rw [literal?_eq, hText.ofLowercase?_eq]
  refine ⟨fun hSmall => ?_, fun hLarge => ?_⟩
  · rw [Decimal.rounded?_of_lt hValue hSmall, Option.bind_some, if_neg (by omega),
      Nat.min_eq_left (by omega)]
  · have hRounded := Decimal.rounded?_of_le hValue hLarge
    split_ifs at hRounded ⊢ with hNear
    · rw [hRounded]
      rfl
    · cases hResult : x.rounded? with
      | none => rfl
      | some rounded => rw [Option.bind_some, if_pos (hRounded rounded hResult)]

/-- Digits on both sides of the point that an exponent makes a whole number, and a number of more
than 64 bits without a point. -/
theorem literal?_of_floatLiteral_exponent :
    FloatLiteral "1\x270.50E+1f".toList (105 : Nat) ∧ literal? "1\x270.50E+1f" = some 105 ∧
      FloatLiteral "1e20".toList (10 ^ 20 : Nat) ∧ literal? "1e20" = none := by
  have hSmall : FloatLiteral "1\x270.50E+1f".toList (105 : Nat) := by
    have hPoint := @FloatLiteral.point [1, 0] [5, 0] ['1', '\x27', '0'] ['5', '0'] ['E', '+', '1']
      ['f'] _ (.separated (by decide) (by decide) (.digit (by decide) (by decide) .nil))
      (.digit (by decide) (by decide) (.digit (by decide) (by decide) .nil)) (by decide)
      (@ExponentPart.present 'E' ['+'] ['1'] 1 [1] (by decide) .plus (by decide)
        (.digit (by decide) (by decide) .nil)) (.inr ⟨'f', by decide, rfl⟩)
    convert hPoint using 1
    · decide
    · norm_num [Nat.ofDigits]
  have hLarge : FloatLiteral "1e20".toList (10 ^ 20 : Nat) := by
    have hScientific := @FloatLiteral.scientific [1] ['1'] ['e', '2', '0'] [] _
      (.digit (by decide) (by decide) .nil) (by decide)
      (@ExponentPart.present 'e' [] ['2', '0'] 1 [2, 0] (by decide) .absent (by decide)
        (.digit (by decide) (by decide) (.digit (by decide) (by decide) .nil))) (by decide)
      (.inl rfl)
    convert hScientific using 1
    · decide
    · norm_num [Nat.ofDigits]
  exact ⟨hSmall, (literal?_of_floatLiteral hSmall).1 (by decide), hLarge,
    (literal?_of_floatLiteral hLarge).2 (by decide)⟩

/-- The bound itself is taken for the largest number of 64 bits, although it takes one more. -/
theorem not_literal?_of_floatLiteral :
    literal? "18446744073709551616.0" = some (2 ^ 64 - 1) ∧
      ¬∀ (text : String) (v : Nat), FloatLiteral text.toList v → 2 ^ 64 ≤ v →
        literal? text = none := by
  have hValue : literal? "18446744073709551616.0" = some (2 ^ 64 - 1) := by decide +kernel
  have hDigits : Spelled 10 [1, 8, 4, 4, 6, 7, 4, 4, 0, 7, 3, 7, 0, 9, 5, 5, 1, 6, 1, 6]
      "18446744073709551616".toList := by
    iterate 20 refine .digit (by decide) (by decide) ?_
    exact .nil
  have hBound : FloatLiteral "18446744073709551616.0".toList (2 ^ 64 : Nat) := by
    have hPoint := @FloatLiteral.point _ [0] _ ['0'] [] [] _ hDigits
      (.digit (by decide) (by decide) .nil) (by decide) .absent (.inl rfl)
    convert hPoint using 1
    · decide
    · norm_num [Nat.ofDigits]
  refine ⟨hValue, fun hAll => ?_⟩
  rw [hAll _ _ hBound (by decide)] at hValue
  cases hValue

end TruthLint.Number
