import Mathlib.Data.List.Infix
import TruthLint.Config.Lookup
import TruthLint.Proofs.FileSystem.Locate

/-! Which configuration file applies to a path. The search takes the steps of the path away one by
one, so it comes to every directory around the place to which the path leads, the nearest first.
Where a step leaves a directory the search goes down into it again, and a file there is taken for
one that applies. -/

namespace TruthLint

namespace Path

/-- A path has no more steps than pieces between its slashes; empty pieces and dots are none. -/
theorem length_steps_le (p : Path) : p.steps.length ≤ p.segments.length := by
  unfold steps
  split
  next rest _ hSegments =>
    have hRest := length_dropIdle_le rest
    rw [hSegments]
    simpa using hRest
  next => exact length_dropIdle_le _

/-- The parent of a path is shorter, so that the search upwards comes to an end. -/
theorem length_of_parent? {p q : Path} (h : p.parent? = some q) :
    q.segments.length < p.segments.length := by
  unfold parent? at h
  split_ifs at h with hSteps
  obtain rfl := Option.some.inj h
  have hParent := length_steps_le ⟨p.absolute, p.steps.dropLast⟩
  have hSome : 0 < p.steps.length := List.length_pos_iff.mpr (by simpa using hSteps)
  have hLength := length_steps_le p
  have hInner := length_steps_le ⟨p.absolute, steps ⟨p.absolute, p.steps.dropLast⟩⟩
  simp only [List.length_dropLast] at hParent ⊢
  omega

/-- Any two bounds beyond the number of steps are alike. -/
theorem upward_congr {first second : Nat} {p : Path} (hFirst : p.segments.length < first)
    (hSecond : p.segments.length < second) : p.upward first = p.upward second := by
  induction first generalizing second p with
  | zero => exact absurd hFirst (Nat.not_lt_zero _)
  | succ first ih =>
      obtain ⟨second, rfl⟩ := Nat.exists_eq_succ_of_ne_zero (Nat.ne_zero_of_lt hSecond)
      rw [upward, upward]
      cases hParent : p.parent? with
      | none => rfl
      | some q =>
          have hLength := length_of_parent? hParent
          have hSame : q.upward first = q.upward second := ih (by omega) (by omega)
          rw [Option.map_some, Option.map_some, hSame]

/-- A path is the first in its list of ancestors, and those of its parent follow. -/
theorem ancestors_eq (p : Path) : p.ancestors = p :: (p.parent?.map ancestors).getD [] := by
  rw [ancestors, upward]
  cases hParent : p.parent? with
  | none => rfl
  | some q =>
      have hLength := length_of_parent? hParent
      have hSame : q.upward p.segments.length = q.ancestors :=
        upward_congr hLength (Nat.lt_succ_self _)
      rw [Option.map_some, Option.map_some, hSame]

end Path

namespace Config

variable {fs : FileSystem} {p found : Path} {place dir : List String}

/-- The file is looked for below the path itself, and then from its parent on if it has one. -/
theorem find?_eq (fs : FileSystem) (p : Path) :
    find? fs p =
      if fs.hasPath (p.join fileName) then some (p.join fileName)
      else p.parent?.bind (find? fs) := by
  rw [find?, Path.ancestors_eq, List.map_cons, List.find?_cons]
  cases fs.hasPath (p.join fileName) with
  | true => rfl
  | false =>
      cases p.parent? with
      | none => rfl
      | some q => rfl

theorem isName_fileName : FileSystem.IsName fileName := by decide

/-- A configuration file is where a path leads if the directory at its end has an entry of that
name. -/
theorem locate_join_fileName (hAbsolute : p.absolute = true) (hPlace : fs.locate p = .ok place)
    (next : List String) : fs.locate (p.join fileName) = .ok next ↔
      fs.HasEntry place fileName ∧ next = place ++ [fileName] := by
  rw [FileSystem.locate_join hAbsolute hPlace, FileSystem.enter_name isName_fileName]

/-- The search finds a file below a path exactly if the directory to which the path leads has one.
-/
theorem hasPath_join_fileName (hAbsolute : p.absolute = true) (hPlace : fs.locate p = .ok place) :
    fs.hasPath (p.join fileName) = true ↔ fs.HasEntry place fileName := by
  have hLocate := locate_join_fileName hAbsolute hPlace
  rw [FileSystem.hasPath]
  cases hJoin : fs.locate (p.join fileName) with
  | error cause =>
      rw [hJoin] at hLocate
      refine iff_of_false Bool.false_ne_true fun hEntry => ?_
      cases (hLocate _).mpr ⟨hEntry, rfl⟩
  | ok next => exact iff_of_true rfl ((hLocate next).mp hJoin).1

/-- The file that is found lies in a directory on the way, at or below every directory around the
place that has one. -/
structure FoundIn (fs : FileSystem) (p : Path) (place : List String) (found : Path)
    (dir : List String) : Prop where
  passed : fs.Passes p dir
  entry : fs.HasEntry dir fileName
  leads : fs.locate found = .ok (dir ++ [fileName])
  below : ∀ other, other <+: place → fs.HasEntry other fileName → other <+: dir

/-- What is not found is not there: the search comes to each directory around the place. -/
theorem find?_cases {p : Path} {place : List String} (hAbsolute : p.absolute = true)
    (hPlace : fs.locate p = .ok place) :
    (find? fs p = none ∧ ∀ other, other <+: place → ¬fs.HasEntry other fileName) ∨
      ∃ found dir, find? fs p = some found ∧ FoundIn fs p place found dir := by
  rw [find?_eq]
  by_cases hHere : fs.HasEntry place fileName
  · rw [if_pos ((hasPath_join_fileName hAbsolute hPlace).mpr hHere)]
    exact .inr ⟨_, place, rfl, FileSystem.passes_self hPlace, hHere,
      (locate_join_fileName hAbsolute hPlace _).mpr ⟨hHere, rfl⟩, fun _ hAround _ => hAround⟩
  · rw [if_neg (mt (hasPath_join_fileName hAbsolute hPlace).mp hHere)]
    cases hParent : p.parent? with
    | none =>
        obtain rfl := FileSystem.eq_nil_of_parent?_eq_none hAbsolute hPlace hParent
        refine .inl ⟨rfl, fun other hAround => ?_⟩
        obtain rfl := List.prefix_nil.mp hAround
        exact hHere
    | some q =>
        obtain ⟨hAbsolute', hSegments, above, hAbove, hStep⟩ :=
          FileSystem.locate_parent? hAbsolute hPlace hParent
        have hUp {other : List String} (hAround : other <+: place)
            (hEntry : fs.HasEntry other fileName) : other <+: above := by
          rcases hStep with hLeft | ⟨name, hDown⟩
          · exact hAround.trans (hLeft ▸ List.dropLast_prefix above)
          · subst hDown
            rcases List.prefix_concat_iff.mp hAround with rfl | hOuter
            · exact absurd hEntry hHere
            · exact hOuter
        have hLength := Path.length_of_parent? hParent
        rw [Option.bind_some]
        rcases find?_cases hAbsolute' hAbove with ⟨hNone, hFree⟩ | ⟨found, dir, hFound, hIn⟩
        · exact .inl ⟨hNone, fun other hAround hEntry => hFree other (hUp hAround hEntry) hEntry⟩
        · exact .inr ⟨found, dir, hFound,
            hIn.passed.of_prefix (hAbsolute'.trans hAbsolute.symm) hSegments, hIn.entry, hIn.leads,
            fun other hAround hEntry => hIn.below other (hUp hAround hEntry) hEntry⟩
termination_by p.segments.length

/-- A file is found exactly if a directory around the place has one, and it is that of the nearest
such directory. -/
def NearestApplies (fs : FileSystem) (p : Path) (place : List String) : Prop :=
  ((find? fs p).isSome ↔ ∃ dir, dir <+: place ∧ fs.HasEntry dir fileName) ∧
    ∀ found, find? fs p = some found → ∃ dir, dir <+: place ∧ fs.HasEntry dir fileName ∧
      fs.locate found = .ok (dir ++ [fileName]) ∧
      ∀ other, other <+: place → fs.HasEntry other fileName → other <+: dir

/-- The file that is found is the nearest one, unless a directory on the way that does not enclose
the place has one too. -/
theorem nearestApplies (hAbsolute : p.absolute = true) (hPlace : fs.locate p = .ok place)
    (hWay : ∀ dir, fs.Passes p dir → fs.HasEntry dir fileName → dir <+: place) :
    NearestApplies fs p place := by
  rcases find?_cases hAbsolute hPlace with ⟨hNone, hFree⟩ | ⟨found, dir, hFound, hIn⟩
  · refine ⟨iff_of_false (by simp [hNone]) ?_, fun found hFound => ?_⟩
    · rintro ⟨dir, hAround, hEntry⟩
      exact hFree dir hAround hEntry
    · rw [hNone] at hFound
      cases hFound
  · have hAround : dir <+: place := hWay dir hIn.passed hIn.entry
    refine ⟨iff_of_true (by simp [hFound]) ⟨dir, hAround, hIn.entry⟩, fun other hOther => ?_⟩
    obtain rfl := Option.some.inj (hFound.symm.trans hOther)
    exact ⟨dir, hAround, hIn.entry, hIn.leads, hIn.below⟩

/-- The file of the nearest directory around the place of an absolute path applies, if no directory
that the path leaves again by a step upwards has one; there is no such directory if the path has
no such step. In any case a file is found if there is one around the place, and the one that
is found lies on the way, at or below each directory around the place that has one. -/
theorem find?_nearest (hAbsolute : p.absolute = true) (hPlace : fs.locate p = .ok place) :
    ((∀ dir, fs.Passes p dir → fs.HasEntry dir fileName → dir <+: place) →
      NearestApplies fs p place) ∧
    (".." ∉ p.segments → NearestApplies fs p place) ∧
    ((∃ dir, dir <+: place ∧ fs.HasEntry dir fileName) → (find? fs p).isSome) ∧
    ∀ found, find? fs p = some found → ∃ dir, FoundIn fs p place found dir := by
  refine ⟨nearestApplies hAbsolute hPlace, fun hDown => ?_, ?_, fun found hFound => ?_⟩
  · exact nearestApplies hAbsolute hPlace fun dir hPassed _ =>
      hPassed.encloses hAbsolute hPlace hDown
  · rintro ⟨dir, hAround, hEntry⟩
    rcases find?_cases hAbsolute hPlace with ⟨-, hFree⟩ | ⟨found, picked, hFound, -⟩
    · exact absurd hEntry (hFree dir hAround)
    · rw [hFound]
      rfl
  · rcases find?_cases hAbsolute hPlace with ⟨hNone, -⟩ | ⟨other, dir, hOther, hIn⟩
    · rw [hNone] at hFound
      cases hFound
    · obtain rfl := Option.some.inj (hOther.symm.trans hFound)
      exact ⟨dir, hIn⟩

def settings : FileTree := .file ByteArray.empty

/-- Files at `/r` and in `/r/b/d`, which is not on the way. -/
def nestedFiles : FileSystem where
  root := .directory [("r", .directory [("a", .directory []), (fileName, settings),
    ("b", .directory [("c", .directory []), ("d", .directory [(fileName, settings)])])])]
  workingDirectory := []

/-- `/r/a/../b/./c` -/
def nestedPath : Path := ⟨true, ["r", "a", "..", "b", ".", "c"]⟩

/-- The path leaves `a` again, which has no file, and goes on to `c` in `b`. Neither of these has
one, so that the file in `r` is found, below a path that still goes through `a`. -/
theorem find?_nearest_upwards :
    nestedPath.absolute = true ∧ nestedFiles.locate nestedPath = .ok ["r", "b", "c"] ∧
      NearestApplies nestedFiles nestedPath ["r", "b", "c"] ∧
      find? nestedFiles nestedPath = some ⟨true, ["r", "a", "..", fileName]⟩ := by
  have hPlace : nestedFiles.locate nestedPath = .ok ["r", "b", "c"] := by decide +kernel
  have hWays : ∀ way ∈ nestedPath.segments.inits, ∀ dir ∈ (nestedFiles.locate ⟨true, way⟩).toOption,
      nestedFiles.HasEntry dir fileName → dir <+: ["r", "b", "c"] := by decide +kernel
  refine ⟨rfl, hPlace, (find?_nearest rfl hPlace).1 ?_, by decide +kernel⟩
  rintro dir ⟨way, hWay, hDir⟩ hEntry
  refine hWays way ((List.mem_inits _ _).mpr hWay) dir ?_ hEntry
  exact congrArg Except.toOption hDir

/-- A file in `/r/a` only. -/
def asideFiles : FileSystem where
  root := .directory [("r", .directory [("a", .directory [(fileName, settings)]),
    ("b", .directory [])])]
  workingDirectory := []

/-- `/r/a/../b` -/
def asidePath : Path := ⟨true, ["r", "a", "..", "b"]⟩

/-- The condition on the directories on the way cannot be left out: a path that goes through a
directory and leaves it again gets the file there, which is no directory around its end. -/
theorem not_find?_nearest :
    find? asideFiles asidePath = some ⟨true, ["r", "a", fileName]⟩ ∧
      ¬∀ {fs : FileSystem} {p : Path} {place : List String}, p.absolute = true →
        fs.locate p = .ok place → NearestApplies fs p place := by
  have hFound : find? asideFiles asidePath = some ⟨true, ["r", "a", fileName]⟩ := by
    decide +kernel
  have hPlace : asideFiles.locate asidePath = .ok ["r", "b"] := by decide +kernel
  have hFree : ∀ dir ∈ ["r", "b"].inits, ¬asideFiles.HasEntry dir fileName := by decide +kernel
  refine ⟨hFound, fun hAll => ?_⟩
  obtain ⟨dir, hAround, hEntry⟩ := (hAll rfl hPlace).1.mp (by rw [hFound]; rfl)
  exact hFree dir ((List.mem_inits _ _).mpr hAround) hEntry

end Config

end TruthLint
