import Mathlib.Data.List.DropRight
import TruthLint.FileSystem.Basic

/-! Where an absolute path leads. Each step stays in a directory, leaves it or goes down to one of
its entries; a path without its last step leads to the directory around or, if that step leaves a
directory, to the one that is left. -/

namespace TruthLint

namespace FileSystem

variable {fs : FileSystem} {place next : List String} {segment name : String}

/-- Whether the directory at a place has an entry of this name. -/
def HasEntry (fs : FileSystem) (place : List String) (name : String) : Prop :=
  (fs.root.find? (place ++ [name])).isSome = true

instance (fs : FileSystem) (place : List String) (name : String) :
    Decidable (fs.HasEntry place name) :=
  inferInstanceAs (Decidable (_ = true))

/-- A name that is not a dot step and not empty. -/
def IsName (segment : String) : Prop := segment ≠ "" ∧ segment ≠ "." ∧ segment ≠ ".."

instance (segment : String) : Decidable (IsName segment) := inferInstanceAs (Decidable (_ ∧ _))

/-- The entries of a directory are those that are listed in it. -/
theorem hasEntry_of_directory {entries : List (String × FileTree)}
    (h : fs.root.find? place = some (.directory entries)) (name : String) :
    fs.HasEntry place name ↔ (entries.lookup name).isSome = true := by
  rw [HasEntry, FileTree.find?_append, h, Option.bind_some, FileTree.find?]
  cases entries.lookup name <;> simp [FileTree.find?]

theorem not_hasEntry_of_file {content : ByteArray} (h : fs.root.find? place = some (.file content))
    (name : String) : ¬fs.HasEntry place name := by
  rw [HasEntry, FileTree.find?_append, h, Option.bind_some, FileTree.find?]
  simp

theorem not_hasEntry_of_none (h : fs.root.find? place = none) (name : String) :
    ¬fs.HasEntry place name := by
  rw [HasEntry, FileTree.find?_append, h, Option.bind_none]
  simp

/-- A name leads to the entry of this name, if there is one. -/
theorem enter_name (hName : IsName segment) :
    fs.enter place segment = .ok next ↔ fs.HasEntry place segment ∧ next = place ++ [segment] := by
  obtain ⟨hEmpty, hDot, hDots⟩ := hName
  unfold enter
  split
  next hNone => exact iff_of_false (by simp) fun h => not_hasEntry_of_none hNone _ h.1
  next content hFile => exact iff_of_false (by simp) fun h => not_hasEntry_of_file hFile _ h.1
  next entries hDirectory =>
    rw [hasEntry_of_directory hDirectory, if_neg (by simp [hEmpty, hDot]), if_neg hDots]
    split
    next hFound => simp [hFound, eq_comm]
    next hMissing => simp [hMissing]

/-- A step stays, leaves a directory or goes down to an entry. -/
theorem enter_cases (h : fs.enter place segment = .ok next) :
    ((segment = "" ∨ segment = ".") ∧ next = place) ∨
      (segment = ".." ∧ next = place.dropLast) ∨ (IsName segment ∧ next = place ++ [segment]) := by
  by_cases hIdle : segment = "" ∨ segment = "."
  · refine .inl ⟨hIdle, ?_⟩
    unfold enter at h
    split at h
    · cases h
    · cases h
    · rw [if_pos hIdle] at h
      exact (Except.ok.inj h).symm
  · by_cases hLeave : segment = ".."
    · refine .inr (.inl ⟨hLeave, ?_⟩)
      unfold enter at h
      split at h
      · cases h
      · cases h
      · rw [if_neg hIdle, if_pos hLeave] at h
        exact (Except.ok.inj h).symm
    · have hName : IsName segment := ⟨fun h => hIdle (.inl h), fun h => hIdle (.inr h), hLeave⟩
      exact .inr (.inr ⟨hName, ((enter_name hName).mp h).2⟩)

/-- Where some steps lead from a place. -/
def follow (fs : FileSystem) (place : List String) (segments : List String) :
    Except FileError (List String) :=
  segments.foldlM fs.enter place

theorem locate_absolute (fs : FileSystem) (segments : List String) :
    fs.locate ⟨true, segments⟩ = fs.follow [] segments := by
  simp [locate, follow]

/-- To follow some steps and then others is to follow them all. -/
theorem follow_append (fs : FileSystem) (place first second : List String) :
    fs.follow place (first ++ second) = fs.follow place first >>= (fs.follow · second) :=
  List.foldlM_append

/-- A way that leads somewhere leads somewhere at each point of it. -/
theorem follow_append_ok {first second : List String}
    (h : fs.follow place (first ++ second) = .ok next) :
    ∃ between, fs.follow place first = .ok between ∧ fs.follow between second = .ok next := by
  rw [follow_append] at h
  cases hFirst : fs.follow place first with
  | error cause =>
      rw [hFirst] at h
      cases h
  | ok between =>
      rw [hFirst] at h
      exact ⟨between, rfl, h⟩

theorem follow_singleton (fs : FileSystem) (place : List String) (segment : String) :
    fs.follow place [segment] = fs.enter place segment := by
  rw [follow, List.foldlM_cons]
  cases fs.enter place segment <;> rfl

/-- The first step of such a way leads somewhere, and the rest goes on from there. -/
theorem follow_cons_ok {segments : List String}
    (h : fs.follow place (segment :: segments) = .ok next) :
    ∃ between, fs.enter place segment = .ok between ∧ fs.follow between segments = .ok next := by
  have hSplit : fs.follow place ([segment] ++ segments) = .ok next := h
  obtain ⟨between, hFirst, hRest⟩ := follow_append_ok hSplit
  exact ⟨between, (follow_singleton fs place segment).symm.trans hFirst, hRest⟩

/-- Idle steps lead nowhere. -/
theorem follow_idle {segments : List String} (hIdle : ∀ s ∈ segments, s = "" ∨ s = ".")
    (h : fs.follow place segments = .ok next) : next = place := by
  induction segments generalizing place with
  | nil => exact (Except.ok.inj h).symm
  | cons segment segments ih =>
      obtain ⟨hFirst, hRest⟩ := List.forall_mem_cons.mp hIdle
      obtain ⟨between, hEnter, hFollow⟩ := follow_cons_ok h
      rw [ih hRest hFollow]
      rcases enter_cases hEnter with ⟨-, hStay⟩ | ⟨rfl, -⟩ | ⟨hName, -⟩
      · exact hStay
      · simp at hFirst
      · exact absurd hFirst (not_or.mpr ⟨hName.1, hName.2.1⟩)

/-- Without a step that leaves a directory the way only goes down. -/
theorem follow_down {segments : List String} (hDown : ".." ∉ segments)
    (h : fs.follow place segments = .ok next) : place <+: next := by
  induction segments generalizing place with
  | nil =>
      obtain rfl := Except.ok.inj h
      exact List.prefix_rfl
  | cons segment segments ih =>
      obtain ⟨hFirst, hRest⟩ := not_or.mp (mt List.mem_cons.mpr hDown)
      obtain ⟨between, hEnter, hFollow⟩ := follow_cons_ok h
      refine List.IsPrefix.trans ?_ (ih hRest hFollow)
      rcases enter_cases hEnter with ⟨-, rfl⟩ | ⟨rfl, -⟩ | ⟨-, rfl⟩
      · exact List.prefix_rfl
      · exact absurd rfl hFirst
      · exact List.prefix_append _ _

/-- A name below a path is looked for at the place to which the path leads. -/
theorem locate_join {p : Path} (hAbsolute : p.absolute = true) (h : fs.locate p = .ok place)
    (name : String) : fs.locate (p.join name) = fs.enter place name := by
  obtain ⟨absolute, segments⟩ := p
  obtain rfl : absolute = true := hAbsolute
  rw [locate_absolute] at h
  have hBase {base : List String} (hBase : fs.follow [] base = .ok place) :
      fs.locate ⟨true, base ++ [name]⟩ = fs.enter place name := by
    rw [locate_absolute, follow_append, hBase, ← follow_singleton]
    rfl
  unfold Path.join
  split
  next hSlash =>
    obtain ⟨base, rfl⟩ := List.getLast?_eq_some_iff.mp hSlash
    obtain ⟨between, hFirst, hLast⟩ := follow_append_ok h
    obtain rfl := follow_idle (by simp) hLast
    simpa using hBase hFirst
  next => exact hBase h

end FileSystem

namespace Path

/-- A piece that leads nowhere. -/
def IsIdle (segment : String) : Prop := segment = "" ∨ segment = "."

theorem steps_absolute (segments : List String) :
    steps ⟨true, segments⟩ = segments.rdropWhile fun s => s == "" || s == "." := rfl

/-- An absolute path has a parent if it has a last step, with idle pieces around it. -/
theorem parent?_cases (segments : List String) :
    ((⟨true, segments⟩ : Path).parent? = none ∧ ∀ s ∈ segments, IsIdle s) ∨
      ∃ above before last after, segments = above ++ before ++ [last] ++ after ∧
        (∀ s ∈ before, IsIdle s) ∧ ¬IsIdle last ∧ (∀ s ∈ after, IsIdle s) ∧
        (⟨true, segments⟩ : Path).parent? = some ⟨true, above⟩ := by
  have hIdle (s : String) : (s == "" || s == ".") = true ↔ IsIdle s := by simp [IsIdle]
  rcases List.eq_nil_or_concat' (steps ⟨true, segments⟩) with hNone | ⟨named, last, hSteps⟩
  · refine .inl ⟨by simp [parent?, hNone], fun s hs => ?_⟩
    rw [steps_absolute, List.rdropWhile_eq_nil_iff] at hNone
    exact (hIdle s).mp (hNone s hs)
  · refine .inr ⟨steps ⟨true, named⟩, named.rtakeWhile fun s => s == "" || s == ".", last,
      segments.rtakeWhile fun s => s == "" || s == ".", ?_, ?_, ?_, ?_, ?_⟩
    · rw [steps_absolute, List.rdropWhile_append_rtakeWhile, ← hSteps, steps_absolute,
        List.rdropWhile_append_rtakeWhile]
    · intro s hs
      have hTaken := List.mem_rtakeWhile_imp hs
      exact (hIdle s).mp hTaken
    · have hLast := List.rdropWhile_last_not (fun s => s == "" || s == ".") segments
      rw [steps_absolute] at hSteps
      simp only [hSteps] at hLast
      rw [← hIdle]
      simpa using hLast
    · intro s hs
      have hTaken := List.mem_rtakeWhile_imp hs
      exact (hIdle s).mp hTaken
    · simp [parent?, hSteps]

end Path

namespace FileSystem

variable {fs : FileSystem} {p q : Path} {place : List String}

/-- An absolute path without a parent leads to the root. -/
theorem eq_nil_of_parent?_eq_none (hAbsolute : p.absolute = true) (h : fs.locate p = .ok place)
    (hNone : p.parent? = none) : place = [] := by
  obtain ⟨absolute, segments⟩ := p
  obtain rfl : absolute = true := hAbsolute
  rw [locate_absolute] at h
  rcases Path.parent?_cases segments with ⟨-, hIdle⟩ | ⟨above, _, _, _, -, -, -, -, hSome⟩
  · exact follow_idle hIdle h
  · rw [hNone] at hSome
    cases hSome

/-- The path without its last step leads to the directory around, or down to one that the step
leaves. -/
theorem locate_parent? (hAbsolute : p.absolute = true) (h : fs.locate p = .ok place)
    (hParent : p.parent? = some q) :
    q.absolute = true ∧ q.segments <+: p.segments ∧ ∃ above, fs.locate q = .ok above ∧
      (place = above.dropLast ∨ ∃ name, place = above ++ [name]) := by
  obtain ⟨absolute, segments⟩ := p
  obtain rfl : absolute = true := hAbsolute
  rw [locate_absolute] at h
  rcases Path.parent?_cases segments with
    ⟨hNone, -⟩ | ⟨above, before, last, after, rfl, hBefore, hLast, hAfter, hSome⟩
  · rw [hParent] at hNone
    cases hNone
  · obtain rfl := Option.some.inj (hParent.symm.trans hSome)
    obtain ⟨behind, hSteps, hIdle⟩ := follow_append_ok h
    obtain rfl := follow_idle hAfter hIdle
    obtain ⟨front, hFront, hEnter⟩ := follow_append_ok hSteps
    obtain ⟨start, hAbove, hStart⟩ := follow_append_ok hFront
    obtain rfl := follow_idle hBefore hStart
    refine ⟨rfl, ⟨before ++ [last] ++ after, by simp⟩, front, ?_, ?_⟩
    · rw [locate_absolute]
      exact hAbove
    · rw [follow_singleton] at hEnter
      rcases enter_cases hEnter with ⟨hStay, -⟩ | ⟨-, hLeave⟩ | ⟨-, hDown⟩
      · exact absurd hStay hLast
      · exact .inl hLeave
      · exact .inr ⟨last, hDown⟩

/-- A directory on the way: a beginning of the path leads there. -/
def Passes (fs : FileSystem) (p : Path) (place : List String) : Prop :=
  ∃ way, way <+: p.segments ∧ fs.locate ⟨p.absolute, way⟩ = .ok place

theorem passes_self (h : fs.locate p = .ok place) : fs.Passes p place :=
  ⟨p.segments, List.prefix_rfl, h⟩

/-- A directory on the way along a beginning of a path is on the way along the path. -/
theorem Passes.of_prefix (h : fs.Passes q place) (hAbsolute : q.absolute = p.absolute)
    (hSegments : q.segments <+: p.segments) : fs.Passes p place := by
  obtain ⟨way, hWay, hPlace⟩ := h
  exact ⟨way, hWay.trans hSegments, hAbsolute ▸ hPlace⟩

/-- A path without a step that leaves a directory only passes directories around its end. -/
theorem Passes.encloses {dir : List String} (h : fs.Passes p dir) (hAbsolute : p.absolute = true)
    (hPlace : fs.locate p = .ok place) (hDown : ".." ∉ p.segments) : dir <+: place := by
  obtain ⟨absolute, segments⟩ := p
  obtain rfl : absolute = true := hAbsolute
  obtain ⟨way, ⟨rest, rfl⟩, hDir⟩ := h
  rw [locate_absolute] at hPlace hDir
  obtain ⟨between, hWay, hRest⟩ := follow_append_ok hPlace
  obtain rfl := Except.ok.inj (hDir.symm.trans hWay)
  exact follow_down (fun hRestDots => hDown (List.mem_append_right way hRestDots)) hRest

end FileSystem

end TruthLint
