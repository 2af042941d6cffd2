/-! # Trees of files

A directory tree held in memory, putting files into it and reading them by their paths.  The rules
are those of POSIX path resolution: every component but the last names a directory, empty
components and `.` stay where they are, `..` goes up, and a path that ends in a slash names a
directory.  Putting a file makes all directories that its path leads through, also those that it
leaves again by `..`.
-/

namespace ProtoSchema

/-- Why a file cannot be read. -/
inductive ReadError where
  | notFound
  | notDirectory
  | isDirectory
  | nameTooLong
  | nulInName
  /-- A failure that has a wording of its own. -/
  | other (message : String)
  deriving DecidableEq, Repr

def ReadError.message : ReadError → String
  | notFound => "No such file or directory (os error 2)"
  | notDirectory => "Not a directory (os error 20)"
  | isDirectory => "Is a directory (os error 21)"
  | nameTooLong => "File name too long (os error 36)"
  | nulInName => "file name contained an unexpected NUL byte"
  | other message => message

inductive FileTree where
  | file (bytes : ByteArray)
  | directory (entries : List (String × FileTree))

namespace FileTree

def empty : FileTree := directory []

/-- What a directory holds; a file holds nothing. -/
def entries : FileTree → List (String × FileTree)
  | file _ => []
  | directory entries => entries

/-- Put `leaf` at a path, making the directories on the way.  A directory that is there stays. -/
def insert (leaf : FileTree) : List String → FileTree → FileTree
  | [], tree =>
    match leaf, tree with
    | directory [], directory entries => directory entries
    | leaf, _ => leaf
  | name :: path, tree =>
    let child := (tree.entries.lookup name).getD empty
    directory ((name, insert leaf path child) :: tree.entries.filter (·.1 ≠ name))

/-- The components of a path. -/
def components (path : String) : List String := path.splitOn "/"

/-- Where a component of a path leads from `place`, the names of the directories down to a place.
The tree is not left: at its root, `..` stays there. -/
def step (place : List String) (name : String) : List String :=
  if name = "" ∨ name = "." then place
  else if name = ".." then place.dropLast
  else place ++ [name]

/-- Make the directories that a path leads through from `place` on, and put `leaf` at its end. -/
def put (leaf : FileTree) (place : List String) : List String → FileTree → FileTree
  | [], tree => insert leaf place tree
  | name :: path, tree => put leaf (step place name) path (insert empty place tree)

/-- The tree of files with contents, and of directories, which have none. -/
def ofList (files : List (String × Option ByteArray)) : FileTree :=
  files.foldl (fun tree (path, content) =>
    put ((content.map file).getD empty) [] (components path) tree) empty

/-- The longest name that a component may have, in bytes. -/
def maxNameLength : Nat := 255

/-- The longest path, in bytes. -/
def maxPathLength : Nat := 4095

/-- Follow a path from `here`, the nearest directory above it the first of `above`.  The
directories above the tree hold nothing. -/
def follow (above : List FileTree) (here : FileTree) : List String → Except ReadError FileTree
  | [] => .ok here
  | name :: path =>
    match here with
    | file _ => .error .notDirectory
    | directory entries =>
      if name = "" ∨ name = "." then follow above here path
      else if name = ".." then
        match above with
        | [] => follow [] empty path
        | up :: above => follow above up path
      else if maxNameLength < name.utf8ByteSize then .error .nameTooLong
      else match entries.lookup name with
        | none => .error .notFound
        | some child => follow (here :: above) child path

/-- The content of the file at `path`.  An absolute path leads out of the tree, where nothing is. -/
def read (tree : FileTree) (path : String) : Except ReadError ByteArray := do
  if path = "" then throw .notFound
  if '\x00' ∈ path.toList then throw .nulInName
  if maxPathLength < path.utf8ByteSize then throw .nameTooLong
  let root := if path.toList.head? = some '/' then empty else tree
  match ← follow [] root (components path) with
  | file bytes => return bytes
  | directory _ => throw .isDirectory

end FileTree

end ProtoSchema
