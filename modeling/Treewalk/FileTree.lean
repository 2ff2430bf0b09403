/-!
File trees and the files to which paths lead. A path is followed part by part: from the root of
the tree if it begins with a slash, else from the place where the follower stands.
-/

namespace Treewalk

inductive FileTree where
  | file (contents : ByteArray)
  | folder (entries : List (String × FileTree))

/-- Why a path leads to no file that can be read. -/
inductive PathError where
  | missing
  | denied
  | notFolder
  | isFolder
  | nameTooLong
  deriving DecidableEq

/-- The words of the operating system. -/
def PathError.message : PathError → String
  | missing => "No such file or directory (os error 2)"
  | denied => "Permission denied (os error 13)"
  | notFolder => "Not a directory (os error 20)"
  | isFolder => "Is a directory (os error 21)"
  | nameTooLong => "File name too long (os error 36)"

/-- The most bytes that the name of a file or folder may have. -/
def maximumName : Nat := 255

/-- The most bytes that a path may have. -/
def maximumPath : Nat := 4095

/-- A place in a file tree: what stands there, and the folders around it, innermost first. -/
structure Place where
  tree : FileTree
  around : List FileTree

namespace Place

/-- The outermost place. -/
def root (place : Place) : Place :=
  match place.around.getLast? with
  | none => place
  | some tree => ⟨tree, []⟩

/-- The place around this one. The outermost place is around itself. -/
def outward (place : Place) : Place :=
  match place.around with
  | [] => place
  | tree :: around => ⟨tree, around⟩

/-- Follows one part of a path. Nothing can be followed from a file, not even an empty part. -/
def follow (place : Place) (part : String) : Except PathError Place :=
  match place.tree with
  | .file _ => .error .notFolder
  | .folder entries =>
      if part == "" || part == "." then .ok place
      else if part == ".." then .ok place.outward
      else if maximumName < part.utf8ByteSize then .error .nameTooLong
      else
        match entries.find? (·.1 == part) with
        | none => .error .missing
        | some (_, tree) => .ok ⟨tree, place.tree :: place.around⟩

/-- The bytes of the file at a place. -/
def contents (place : Place) : Except PathError ByteArray :=
  match place.tree with
  | .file contents => .ok contents
  | .folder _ => .error .isFolder

/-- The bytes of the file to which a path leads from a place. -/
def read (place : Place) (path : String) : Except PathError ByteArray :=
  if path.isEmpty then .error .missing
  else if maximumPath < path.utf8ByteSize then .error .nameTooLong
  else do
    let start := if path.startsWith "/" then place.root else place
    let found ← (path.splitOn "/").foldlM follow start
    found.contents

end Place

end Treewalk
