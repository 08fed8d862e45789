import BlobReplica.Cache

/-! Folders: keys as paths whose elements stand between slashes. -/

namespace BlobReplica.Cache

/-- Versions and bytes under one child of a folder: those of the child's own key, and those of keys
further below. -/
structure FolderStats where
  ownCount : Nat := 0
  ownSize : Nat := 0
  nestedCount : Nat := 0
  nestedSize : Nat := 0
deriving DecidableEq, Repr

/-- What follows a folder in a key, without slashes in front; nothing for keys outside it. -/
def below? (folder key : List Char) : Option (List Char) :=
  if folder = [] then some (key.dropWhile (· == '/'))
  else if (folder ++ ['/']).isPrefixOf key then
    some ((key.drop (folder.length + 1)).dropWhile (· == '/'))
  else none

/-- The child of a folder that a key lies in, and whether the key is the child itself. -/
def child? (folder key : List Char) : Option (String × Bool) :=
  match below? folder key with
  | none | some [] => none
  | some rest =>
    some (String.ofList (rest.takeWhile (· != '/')), rest.all (· != '/'))

def FolderStats.add (s : FolderStats) (isOwn : Bool) (blobs : List Blob) : FolderStats :=
  let size := totalSize blobs
  if isOwn then { s with ownCount := s.ownCount + blobs.length, ownSize := s.ownSize + size }
  else { s with nestedCount := s.nestedCount + blobs.length, nestedSize := s.nestedSize + size }

/-- The children of a folder. Slashes around the folder's name do not count, and a key that equals
it is not listed. -/
def subfolders (c : Cache) (folder : String) : Table FolderStats :=
  let folder := Text.trimOf '/' folder.toList
  c.lists.entries.foldl (fun out e =>
    match child? folder e.1.toList with
    | none => out
    | some (child, isOwn) => out.insert child (((out.get? child).getD {}).add isOwn e.2)) {}

end BlobReplica.Cache
