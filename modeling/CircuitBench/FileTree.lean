import CircuitBench.Dictionary

/-!
# Files by path

A tree of text files below one directory. A directory exists as far as a file lies in
it. Paths are relative, with `.` for the directory itself and `..` for the one around
it, and every directory on the way has to exist.
-/

namespace CircuitBench

/-- Why a file cannot be read or written. -/
inductive FileFault where
  | missing
  /-- A directory on the way is a file. -/
  | notDirectory
  | isDirectory
  /-- Anything else, in the words of the system. -/
  | other (text : String)
deriving DecidableEq, Repr

def FileFault.message : FileFault → String
  | missing => "No such file or directory (os error 2)"
  | notDirectory => "Not a directory (os error 20)"
  | isDirectory => "Is a directory (os error 21)"
  | other text => text

/-- Text files by the names on the way to them, joined by slashes. -/
abbrev FileTree := Dictionary String

namespace FileTree

/-- The place that names lead to, the last of which comes first. -/
def place (names : List String) : String :=
  String.intercalate "/" names.reverse

def isDirectory (tree : FileTree) (names : List String) : Bool :=
  names.isEmpty ||
    tree.entries.any fun entry => ((place names).toList ++ ['/']).isPrefixOf entry.1.toList

/-- Goes along names from the directory at `here`, whose last name comes first. -/
def walk (tree : FileTree) (here : List String) : List String → Except FileFault (List String)
  | [] => .ok here
  | name :: rest =>
    if (tree.get? (place here)).isSome then .error .notDirectory
    else if !tree.isDirectory here then .error .missing
    else if name = "" ∨ name = "." then walk tree here rest
    else if name = ".." then
      match here with
      | [] => .error (if rest.all (· = "") then .isDirectory else .missing)
      | _ :: outer => walk tree outer rest
    else walk tree (name :: here) rest

/-- The parts of a text between slashes, at least one. -/
def parts : List Char → List (List Char)
  | [] => [[]]
  | '/' :: rest => [] :: parts rest
  | c :: rest =>
    match parts rest with
    | [] => [[c]]
    | part :: behind => (c :: part) :: behind

/-- The names that a path consists of; a slash at the end leaves an empty one. -/
def names (path : String) : List String :=
  (parts path.toList).map String.ofList

/-- The place of a path. -/
def locate (tree : FileTree) (path : String) : Except FileFault (List String) :=
  match names path with
  | "" :: _ => .error .missing
  | names => walk tree [] names

def read (tree : FileTree) (path : String) : Except FileFault String :=
  match tree.locate path with
  | .error fault => .error fault
  | .ok found =>
    match tree.get? (place found) with
    | some text => .ok text
    | none => .error (if tree.isDirectory found then .isDirectory else .missing)

/-- The tree with a text at a path, in place of an older text. The directory has to exist. A slash
at the end of the path makes it that of a directory. -/
def write (tree : FileTree) (path text : String) : Except FileFault FileTree :=
  match names path with
  | "" :: _ => .error .missing
  | steps =>
    if steps.getLast? = some "" then
      (walk tree [] steps.dropLast).bind fun _ => .error .isDirectory
    else
      match walk tree [] steps with
      | .error fault => .error fault
      | .ok found =>
        if tree.isDirectory found then .error .isDirectory
        else .ok (tree.insert (place found) text)

/-- The tree of files with their paths; directories are made where a file needs them. -/
def ofFiles (files : List (String × String)) : FileTree :=
  files.foldl (fun tree (path, text) => tree.insert path text) .empty

end FileTree

end CircuitBench
