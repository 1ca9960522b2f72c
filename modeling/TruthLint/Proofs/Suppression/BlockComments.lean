import TruthLint.Proofs.Suppression.Directives
import TruthLint.Proofs.Text.Pair

/-! Directives in block comments. The first block comment of a line counts whatever follows it, as
long as no `//` stands anywhere on the line, since a line comment is looked for first. -/

namespace TruthLint

namespace Directive

open Text (NoPair)

variable {before body after : List Char}

/-- A line on which a block comment with the text `body` stands. -/
def blockLine (before body after : List Char) : List Char :=
  before ++ '/' :: '*' :: (body ++ '*' :: '/' :: after)

/-- Without a `//` the comment of the line is the text of its first block comment, to the first
closing. -/
theorem comment?_blockLine (hOpening : NoPair '/' '*' before) (hClosing : NoPair '*' '/' body)
    (hSlashes : NoPair '/' '/' (blockLine before body after)) :
    comment? (blockLine before body after) = some (Text.trimChars body) := by
  have hOpen : Text.cut? ['/', '*'] (blockLine before body after) =
      some (before, body ++ '*' :: '/' :: after) :=
    Text.cut?_append_pair (hOpening.concat (by decide)) _
  have hClose : Text.cut? ['*', '/'] (body ++ '*' :: '/' :: after) = some (body, after) :=
    Text.cut?_append_pair (hClosing.concat (by decide)) after
  rw [comment?, Text.cut?_eq_none hSlashes, hOpen]
  dsimp only [Option.map_some]
  rw [hClose]

end Directive

namespace Directives

open Text (NoPair)

/-- What a line says is disabled in the whole source. -/
theorem disabled_of_ofLine? {text : String} {index : Nat} {line : List Char} {d : Directive}
    (hLine : (Text.lines text.toList)[index]? = some line)
    (hDirective : Directive.ofLine? (index + 1) line = some d) {rule : String}
    (hRule : d.rules = [] ∨ rule ∈ d.rules) : (ofText text).disabled d.line rule = true := by
  rw [ofText, disabled_addAll]
  refine .inr ⟨d, ?_, rfl, Directive.disables_iff.mpr hRule⟩
  rw [List.mem_filterMap]
  exact ⟨(line, index), List.mem_zipIdx_iff_getElem?.mpr hLine, hDirective⟩

/-- A directive in the first block comment of a line is read and disables the rules that it lists,
on its own line or on the next one. What follows the comment does not matter, other comments
included, unless there is a `//` somewhere on the line. -/
theorem disabled_by_blockComment {text : String} {index target : Nat}
    {before body after mark refs : List Char}
    (hLine : (Text.lines text.toList)[index]? = some (Directive.blockLine before body after))
    (hOpening : NoPair '/' '*' before) (hClosing : NoPair '*' '/' body)
    (hSlashes : NoPair '/' '/' (Directive.blockLine before body after))
    (hMark : mark = Directive.lineMark ∧ target = index + 1 ∨
      mark = Directive.nextLineMark ∧ target = index + 2)
    (hBody : Text.trimChars body = mark ++ refs) :
    Directive.ofLine? (index + 1) (Directive.blockLine before body after) =
        some ⟨target, Directive.ruleRefs refs⟩ ∧
      ∀ rule, Directive.ruleRefs refs = [] ∨ rule ∈ Directive.ruleRefs refs →
        (ofText text).disabled target rule = true := by
  have hComment := Directive.comment?_blockLine hOpening hClosing hSlashes
  have hDirective : Directive.ofLine? (index + 1) (Directive.blockLine before body after) =
      some ⟨target, Directive.ruleRefs refs⟩ := by
    rw [Directive.ofLine?_eq_some_iff]
    refine ⟨refs, ?_⟩
    rw [hComment, hBody]
    rcases hMark with ⟨rfl, rfl⟩ | ⟨rfl, rfl⟩
    · exact .inr ⟨rfl, rfl⟩
    · exact .inl ⟨rfl, rfl⟩
  exact ⟨hDirective, fun rule hRule => disabled_of_ofLine? hLine hDirective hRule⟩

/-- A directive in front of code and another block comment. -/
theorem disabled_by_blockComment_flag :
    let text := "int a;\nflag++; /* boolcheck-disable-line B002, B003 */ x = 1; /* later */"
    let body := " boolcheck-disable-line B002, B003 ".toList
    let line := Directive.blockLine "flag++; ".toList body " x = 1; /* later */".toList
    (Text.lines text.toList)[1]? = some line ∧ NoPair '/' '*' "flag++; ".toList ∧
      NoPair '*' '/' body ∧ NoPair '/' '/' line ∧
      Text.trimChars body = Directive.lineMark ++ " B002, B003".toList ∧
      (ofText text).disabled 2 "B002" = true ∧ (ofText text).disabled 2 "B003" = true := by
  intro text body line
  have hLine : (Text.lines text.toList)[1]? = some line := by decide +kernel
  have hOpening : NoPair '/' '*' "flag++; ".toList := by decide +kernel
  have hClosing : NoPair '*' '/' body := by decide +kernel
  have hSlashes : NoPair '/' '/' line := by decide +kernel
  have hMark : Text.trimChars body = Directive.lineMark ++ " B002, B003".toList := by
    decide +kernel
  obtain ⟨-, hDisabled⟩ :=
    disabled_by_blockComment hLine hOpening hClosing hSlashes (.inl ⟨rfl, rfl⟩) hMark
  have hRefs : Directive.ruleRefs " B002, B003".toList = ["B002", "B003"] := by decide +kernel
  rw [hRefs] at hDisabled
  exact ⟨hLine, hOpening, hClosing, hSlashes, hMark, hDisabled "B002" (by decide),
    hDisabled "B003" (by decide)⟩

/-- A line comment after the block comment takes its place, and so does a `//` in a string: the
directive is not read at all. -/
theorem not_disabled_by_blockComment :
    let text := "flag++; /* boolcheck-disable-line B002 */ // done"
    let body := " boolcheck-disable-line B002 ".toList
    Text.lines text.toList = [Directive.blockLine "flag++; ".toList body " // done".toList] ∧
      Text.trimChars body = Directive.lineMark ++ " B002".toList ∧
      ofText text = [] ∧
      ofText "flag++; /* boolcheck-disable-line B002 */ open(\x22ftp://host\x22);" = [] ∧
      ¬∀ (number : Nat) (before body after refs : List Char), NoPair '/' '/' before →
        NoPair '/' '*' before → NoPair '*' '/' body →
        Text.trimChars body = Directive.lineMark ++ refs →
        Directive.ofLine? number (Directive.blockLine before body after) =
          some ⟨number, Directive.ruleRefs refs⟩ := by
  intro text body
  have hMark : Text.trimChars body = Directive.lineMark ++ " B002".toList := by decide +kernel
  have hLost : Directive.ofLine? 1 (Directive.blockLine "flag++; ".toList body
      " // done".toList) = none := by decide +kernel
  refine ⟨by decide +kernel, hMark, by decide +kernel, by decide +kernel, fun hAll => ?_⟩
  have hRead := hAll 1 "flag++; ".toList body " // done".toList " B002".toList
    (by decide +kernel) (by decide +kernel) (by decide +kernel) hMark
  rw [hLost] at hRead
  cases hRead

end Directives

end TruthLint
