import SyscallTrace.File

/-!
# File trees

The files that a command may read, as a tree of named files and directories. A path leads from the
root or from the current directory along its names, one by one: every place on the way has to be a
directory, also before a name that stays there or goes up. `FileTree.read` gives the text at the
end of a path, or the reason why there is none.
-/

namespace SyscallTrace

/-- The names that lead from the root to a file or a directory. -/
abbrev Place := List Text

/-- Files by their places. The directories are those on the way to a file or to the current
directory. -/
structure FileTree where
  files : List (Place × FileText)
  current : Place := []

namespace FileTree

/-- The number of bytes that hold a name. -/
def byteSize (name : Text) : Nat := name.foldl (fun n c => n + c.utf8Size) 0

/-- The most bytes of a name. -/
def nameLimit : Nat := 255

/-- The most bytes of a path. -/
def pathLimit : Nat := 4095

/-- There is a file at the place, whether or not it can be read. -/
def hasFile (tree : FileTree) (place : Place) : Bool :=
  tree.files.any fun f => f.1 == place

/-- There is a file or a directory at the place. -/
def holds (tree : FileTree) (place : Place) : Bool :=
  place.isPrefixOf tree.current || tree.files.any fun f => place.isPrefixOf f.1

/-- Follows one name of a path. -/
def enter (tree : FileTree) (place : Place) (name : Text) : Except ReadFailure Place :=
  if tree.hasFile place then .error .notDirectory
  else if name.isEmpty || name == ['.'] then .ok place
  else if name == ['.', '.'] then .ok place.dropLast
  else if nameLimit < byteSize name then .error .nameTooLong
  else if tree.holds (place ++ [name]) then .ok (place ++ [name])
  else .error .notFound

/-- The place at the end of a path. -/
def resolve (tree : FileTree) (path : Text) : Except ReadFailure Place :=
  if path.isEmpty then .error .notFound
  else if pathLimit < byteSize path then .error .nameTooLong
  else (path.splitOn '/').foldlM tree.enter (if path.startsWith ['/'] then [] else tree.current)

/-- Reads the file at the end of a path. -/
def read (tree : FileTree) (path : Text) : FileText := do
  (tree.files.lookup (← tree.resolve path)).getD (.error .isDirectory)

end FileTree

end SyscallTrace
