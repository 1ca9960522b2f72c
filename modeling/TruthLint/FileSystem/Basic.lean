import TruthLint.FileSystem.Path

/-! File systems without links, as trees of directories and files. -/

namespace TruthLint

/-- Why a path cannot be read or written. -/
inductive FileError where
  | notFound | notADirectory | isADirectory | notText
deriving DecidableEq, Repr

namespace FileError

def message : FileError → String
  | notFound => "No such file or directory (os error 2)"
  | notADirectory => "Not a directory (os error 20)"
  | isADirectory => "Is a directory (os error 21)"
  | notText => "stream did not contain valid UTF-8"

end FileError

inductive FileTree where
  | file (content : ByteArray)
  | directory (entries : List (String × FileTree))

namespace FileTree

/-- The tree at the end of a list of names. -/
def find? : (names : List String) → FileTree → Option FileTree
  | [], tree => some tree
  | name :: names, directory entries => (entries.lookup name).bind (find? names)
  | _ :: _, file _ => none

/-- To follow one list of names after another is to follow both in one. -/
theorem find?_append (first second : List String) (tree : FileTree) :
    find? (first ++ second) tree = (find? first tree).bind (find? second) := by
  induction first generalizing tree with
  | nil => simp [find?]
  | cons name names ih =>
    cases tree with
    | file content => simp [find?]
    | directory entries => cases h : entries.lookup name <;> simp [find?, h, ih]

/-- Puts a tree in the place of the entry with its name, or after all others. -/
def replace (name : String) (tree : FileTree) :
    List (String × FileTree) → List (String × FileTree)
  | [] => [(name, tree)]
  | (other, old) :: rest =>
    if other = name then (name, tree) :: rest else (other, old) :: replace name tree rest

theorem lookup_replace (name : String) (tree : FileTree) (entries : List (String × FileTree)) :
    (replace name tree entries).lookup name = some tree := by
  induction entries with
  | nil => simp [replace]
  | cons entry rest ih =>
    obtain ⟨other, old⟩ := entry
    by_cases h : other = name
    · simp [replace, h]
    · have hne : (name == other) = false := by simpa using Ne.symm h
      simp [replace, h, List.lookup_cons, hne, ih]

/-- Puts a tree at the end of a list of names; missing directories are made. -/
def put (tree : FileTree) : (names : List String) → FileTree → FileTree
  | [], _ => tree
  | name :: names, directory entries =>
    let below := (entries.lookup name).getD (directory [])
    directory (replace name (put tree names below) entries)
  | name :: names, file _ => directory [(name, put tree names (directory []))]

/-- What is put at the end of a list of names is found there. -/
theorem find?_put (tree : FileTree) (names : List String) (whole : FileTree) :
    find? names (put tree names whole) = some tree := by
  induction names generalizing whole with
  | nil => simp [find?, put]
  | cons name names ih =>
    cases whole with
    | file content => simp [find?, put, ih]
    | directory entries => simp [find?, put, lookup_replace, ih]

mutual

/-- The files in and below a directory, as lists of names. Entries whose names are not admitted
are left out with all that is below them. -/
def files (admitted : String → Bool) : FileTree → List (List String)
  | file _ => [[]]
  | directory entries => filesIn admitted entries

def filesIn (admitted : String → Bool) : List (String × FileTree) → List (List String)
  | [] => []
  | (name, tree) :: rest =>
    (if admitted name then (files admitted tree).map (name :: ·) else []) ++
      filesIn admitted rest

end

end FileTree

structure FileSystem where
  root : FileTree
  /-- The directory that relative paths start from, as names from the root on. -/
  workingDirectory : List String

namespace FileSystem

/-- One step of a path from a place. Only a directory can be left or stayed in. -/
def enter (fs : FileSystem) (place : List String) (segment : String) :
    Except FileError (List String) :=
  match fs.root.find? place with
  | none => .error .notFound
  | some (.file _) => .error .notADirectory
  | some (.directory entries) =>
    if segment = "" ∨ segment = "." then .ok place
    else if segment = ".." then .ok place.dropLast
    else if (entries.lookup segment).isSome then .ok (place ++ [segment])
    else .error .notFound

/-- Where a path leads to. -/
def locate (fs : FileSystem) (path : Path) : Except FileError (List String) :=
  if path = ⟨false, []⟩ then .error .notFound
  else path.segments.foldlM fs.enter (if path.absolute then [] else fs.workingDirectory)

def tree? (fs : FileSystem) (path : Path) : Except FileError FileTree := do
  match fs.root.find? (← fs.locate path) with
  | some tree => .ok tree
  | none => .error .notFound

def hasPath (fs : FileSystem) (path : Path) : Bool := (fs.locate path).toBool

def read (fs : FileSystem) (path : Path) : Except FileError String := do
  match ← fs.tree? path with
  | .directory _ => .error .isADirectory
  | .file content =>
    match String.fromUTF8? content with
    | some text => .ok text
    | none => .error .notText

/-- Writes a file. Its directory has to exist, and a path that ends in a slash or a dot step names
no file. -/
def write (fs : FileSystem) (path : Path) (text : String) : Except FileError FileSystem := do
  let segments := (path.segments.reverse.dropWhile (· == "")).reverse
  match segments.getLast? with
  | none => .error (if path.absolute then .isADirectory else .notFound)
  | some name =>
    let start := if path.absolute then [] else fs.workingDirectory
    let above ← segments.dropLast.foldlM fs.enter start
    let place ← fs.enter above ""
    if segments.length < path.segments.length ∨ name = "." ∨ name = ".." then
      .error .isADirectory
    else
      match fs.root.find? (place ++ [name]) with
      | some (.directory _) => .error .isADirectory
      | _ => .ok { fs with root := FileTree.put (.file text.toUTF8) (place ++ [name]) fs.root }

def workingPath (fs : FileSystem) : Path := ⟨true, fs.workingDirectory⟩

end FileSystem

end TruthLint
