/-!
# Trees of files

A tree of directories and files, and what is found at the end of a path that starts at its root. The
part of a path behind the last slash may be empty, and `.` and `..` are the directory itself and the
one above. Above the root lie directories about which nothing is known, except that going up from
them goes on.
-/

namespace SpriteVM

/-- Why a path does not lead to the contents of a file. -/
inductive ReadError where
  /-- nothing has this name -/
  | notFound
  /-- the path ends at a directory -/
  | isDirectory
  /-- the path goes on behind a file -/
  | notDirectory
  deriving DecidableEq, Repr

/-- The wording of a failed read. -/
def ReadError.message : ReadError → String
  | .notFound => "No such file or directory (os error 2)"
  | .isDirectory => "Is a directory (os error 21)"
  | .notDirectory => "Not a directory (os error 20)"

/-- The names along a path, between its slashes. -/
def pathNames (path : String) : List String :=
  (path.toList.splitOn '/').map String.ofList

/-- The names along a path that lead somewhere else. -/
def properNames (path : String) : List String :=
  (pathNames path).filter fun name => name ≠ "" ∧ name ≠ "."

/-- A tree of directories and files. Every directory on the way to a listed one exists too. -/
structure FileTree where
  /-- the names on the way to each directory -/
  directories : List (List String)
  /-- the names on the way to each file, and its contents -/
  files : List (List String × List UInt8)
  deriving DecidableEq, Repr

namespace FileTree

/-- What a name stands for. -/
inductive Node where
  /-- a directory -/
  | directory
  /-- a file with its contents -/
  | file (contents : List UInt8)
  deriving DecidableEq, Repr

/-- The tree of paths to directories, and of paths to files with their contents. -/
def ofPaths (directories : List String) (files : List (String × List UInt8)) : FileTree where
  directories := directories.map properNames
  files := files.map fun f => (properNames f.1, f.2)

/-- Whether there is a directory at the end of the given names. -/
def hasDirectory (t : FileTree) (names : List String) : Bool :=
  (t.directories ++ t.files.map fun f => f.1.dropLast).any names.isPrefixOf

/-- What is at the end of the given names. -/
def node? (t : FileTree) (names : List String) : Option Node :=
  match t.files.lookup names with
  | some contents => some (.file contents)
  | none => if t.hasDirectory names then some .directory else none

/-- The contents at the end of a path. The search stands in the directory at the end of `base`, or
in one above the root when `base` is `none`. -/
def descend (t : FileTree) (base : Option (List String)) : List String →
    Except ReadError (List UInt8)
  | [] => .error .isDirectory
  | name :: names =>
    if name = "" ∨ name = "." then t.descend base names
    else if name = ".." then
      t.descend (base.bind fun b => if b = [] then none else some b.dropLast) names
    else
      match base with
      | none => .error .notFound
      | some b =>
        match t.node? (b ++ [name]) with
        | none => .error .notFound
        | some .directory => t.descend (some (b ++ [name])) names
        | some (.file contents) =>
          if names = [] then .ok contents else .error .notDirectory

/-- The contents at the end of a path. A path that begins with a slash does not start at the root of
the tree but at the top of everything. -/
def read (t : FileTree) (path : String) : Except ReadError (List UInt8) :=
  t.descend (if path.toList.head? = some '/' then none else some []) (pathNames path)

end FileTree

end SpriteVM
