import Mathlib.Data.List.Chain
import TruthLint.Text.Search

/-! Pieces of two characters, and texts that such a piece can be cut out of in one way only. -/

namespace TruthLint.Text

variable {p q c : Char} {cs before rest : List Char}

theorem cut?_pair (p q : Char) (rest : List Char) :
    cut? [p, q] (p :: q :: rest) = some ([], rest) := by
  simp [cut?, afterLead?]

/-- A piece of two characters that does not start a text is looked for after its first one. -/
theorem cut?_pair_cons (h : ∀ rest, c = p → cs = q :: rest → False) :
    cut? [p, q] (c :: cs) = (cut? [p, q] cs).map fun (before, rest) => (c :: before, rest) := by
  have hLead : afterLead? [p, q] (c :: cs) = none := by
    rw [Option.eq_none_iff_forall_ne_some]
    intro rest hRest
    obtain ⟨hFirst, hSecond⟩ := List.cons.inj (afterLead?_eq_some_iff.mp hRest)
    exact h rest hFirst hSecond
  rw [cut?, hLead]

/-- Two characters either stand in front of a text or they do not. -/
theorem pair_cases (p q c : Char) (cs : List Char) :
    (∃ rest, c = p ∧ cs = q :: rest) ∨ ∀ rest, c = p → cs = q :: rest → False := by
  by_cases h : ∃ rest, c = p ∧ cs = q :: rest
  · exact .inl h
  · exact .inr fun rest hc hcs => h ⟨rest, hc, hcs⟩

/-- Nowhere in the text does `q` follow `p`. -/
abbrev NoPair (p q : Char) (cs : List Char) : Prop := cs.IsChain fun a b => a = p → b ≠ q

theorem NoPair.not_start (h : NoPair p q (c :: cs)) :
    ∀ rest, c = p → cs = q :: rest → False := by
  rintro rest hc rfl
  exact (List.isChain_cons_cons.mp h).1 hc rfl

/-- The pair does not start with the first character either when the text goes on with `p`. -/
theorem NoPair.not_start_append (h : NoPair p q (c :: before ++ [p])) :
    ∀ more, c = p → before ++ p :: rest = q :: more → False := by
  intro more hc hMore
  cases before with
  | nil =>
      obtain ⟨hNext, -⟩ := List.cons.inj hMore
      exact h.not_start [] hc (by rw [hNext]; rfl)
  | cons d before =>
      obtain ⟨rfl, -⟩ := List.cons.inj hMore
      exact h.not_start _ hc rfl

/-- Read backwards, the text has no reversed pair. -/
theorem NoPair.reverse (h : NoPair p q cs) : NoPair q p cs.reverse :=
  List.isChain_reverse.mpr (h.imp fun _ _ hApart hSecond hFirst => hApart hFirst hSecond)

/-- A first character at the end does not complete the pair. -/
theorem NoPair.concat (h : NoPair p q cs) (hDistinct : p ≠ q) : NoPair p q (cs ++ [p]) :=
  List.isChain_append.mpr ⟨h, .singleton p, fun _ _ next hNext _ => by
    cases hNext
    exact hDistinct⟩

/-- A pair that is never begun does not stand in the text. -/
theorem noPair_of_ne (h : ∀ c ∈ cs, c ≠ p) : NoPair p q cs := by
  induction cs with
  | nil => exact .nil
  | cons c cs ih =>
      obtain ⟨hFirst, hRest⟩ := List.forall_mem_cons.mp h
      exact List.isChain_cons.mpr ⟨fun _ _ hc => absurd hc hFirst, ih hRest⟩

theorem noPair_of_occurs (h : occurs [p, q] cs = false) : NoPair p q cs := by
  induction cs with
  | nil => exact .nil
  | cons c cs ih =>
      rcases pair_cases p q c cs with ⟨rest, rfl, rfl⟩ | hNot
      · rw [occurs, cut?_pair] at h
        cases h
      · rw [occurs, cut?_pair_cons hNot, Option.isSome_map] at h
        refine List.isChain_cons.mpr ⟨fun next hNext hc hEq => ?_, ih h⟩
        obtain ⟨rest, rfl⟩ := List.head?_eq_some_iff.mp hNext
        exact hNot rest hc (by rw [hEq])

/-- Before its first occurrence, the piece does not stand in the text. -/
theorem noPair_before_of_cut? (h : cut? [p, q] cs = some (before, rest)) : NoPair p q before := by
  induction cs generalizing before with
  | nil => simp [cut?] at h
  | cons c cs ih =>
      rcases pair_cases p q c cs with ⟨more, rfl, rfl⟩ | hNot
      · rw [cut?_pair] at h
        cases h
        exact .nil
      · rw [cut?_pair_cons hNot] at h
        obtain ⟨⟨before', rest'⟩, hLater, hEq⟩ := Option.map_eq_some_iff.mp h
        cases hEq
        refine List.isChain_cons.mpr ⟨fun next hNext hc hq => ?_, ih hLater⟩
        obtain ⟨more, rfl⟩ := List.head?_eq_some_iff.mp hNext
        exact hNot _ hc (by rw [eq_append_of_cut? hLater, hq]; rfl)

/-- What does not stand in a text does not stand in a part of it. -/
theorem NoPair.of_isInfix {part : List Char} (h : NoPair p q cs) (hPart : part <:+: cs) :
    NoPair p q part := List.IsChain.infix h hPart

/-- That is to say that the pair is no part of the text. -/
theorem noPair_iff_not_isInfix : NoPair p q cs ↔ ¬[p, q] <:+: cs := by
  rw [NoPair, List.isChain_iff_forall_rel_of_append_cons_cons]
  constructor
  · rintro h ⟨before, after, rfl⟩
    exact h (List.append_assoc before [p, q] after) rfl rfl
  · rintro h a b before after rfl rfl rfl
    exact h ⟨before, after, by simp⟩

/-- Where the piece does not stand before, nor across the border, it is found at once. -/
theorem cut?_append_pair (h : NoPair p q (before ++ [p])) (rest : List Char) :
    cut? [p, q] (before ++ p :: q :: rest) = some (before, rest) := by
  induction before with
  | nil => exact cut?_pair p q rest
  | cons c before ih =>
      rw [List.cons_append, cut?_pair_cons h.not_start_append, ih (List.isChain_cons.mp h).2]
      rfl

theorem cut?_eq_none (h : NoPair p q cs) : cut? [p, q] cs = none := by
  induction cs with
  | nil => rfl
  | cons c cs ih => rw [cut?_pair_cons h.not_start, ih (List.isChain_cons.mp h).2]; rfl

end TruthLint.Text
