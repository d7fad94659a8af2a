import RetroShare.FileSharing.HierarchyUpdates
import RetroShare.Util.RegularExpression

/-!
# Searching the file hierarchy

`searchTerms` and `searchBoolExp` go through the map from file hashes to indices, take the node that
each entry leads to for a file, and collect the indices of those that match. An entry that leads
behind the end of the table or to a directory has no outcome here. Entries that are out of date stay
in the map until they are looked up.
-/

namespace RetroShare.FileSharing

/-- `DirectoryStorageExprFileEntry`: what an expression sees of a file. -/
def exprFileEntry (fe : FileEntry) (de : DirEntry) : RegularExpression.ExpFileEntry where
  fileName := fe.fileName
  fileSize := UInt64.ofNat fe.fileSize
  fileModtime := Int64.ofInt fe.fileModtime
  filePopularity := 0
  fileParentPath := makePath de.dirParentPath de.dirName
  fileHash := fe.fileHash

namespace Storage

/-- An entry that does not lead to a file of that hash goes. -/
def getIndexFromFileHash (s : Storage) (hash : FileHash) : Option Nat × Storage :=
  match s.mFileHashes[hash]? with
  | none => (none, s)
  | some index =>
      if !s.checkIndex index .file || (s.getFile index).map (·.fileHash) ≠ some hash then
        (none, { s with mFileHashes := s.mFileHashes.erase hash })
      else (some index, s)

/-- One entry of the map. -/
def searchEntry (s : Storage) (found : FileEntry → Option Bool) (results : List Nat)
    (entry : FileHash × Nat) : Option (List Nat) :=
  match s.mNodes[entry.2]? with
  | none => none
  | some none => some results
  | some (some (.dir _)) => none
  | some (some (.file fe)) =>
      (found fe).map fun matching => if matching then results ++ [entry.2] else results

def searchHashes (s : Storage) (found : FileEntry → Option Bool) : Option (List Nat) :=
  s.mFileHashes.toList.foldlM (s.searchEntry found) []

/-- The name holds one of the terms. -/
def searchTerms (s : Storage) (terms : List Name) : Option (List Nat) :=
  s.searchHashes fun fe => some (terms.any fun term =>
    !(RegularExpression.search RegularExpression.compareCharIC fe.fileName term).isEmpty)

/-- The parent is taken for a directory. -/
def searchBoolExp (s : Storage) (exp : RegularExpression.Expression) : Option (List Nat) :=
  s.searchHashes fun fe =>
    if exp = .null then none
    else (s.getDir fe.parentIndex).map fun de => exp.eval (exprFileEntry fe de)

end Storage

/-! ### Runs -/

/-- The updates, with lookups between them, which repair the maps. -/
inductive RepairOp
  | update (op : StorageOp)
  | getIndexFromDirHash (hash : FileHash)
  | getIndexFromFileHash (hash : FileHash)

def Storage.stepOrRepair (sha1sum : List UInt8 → FileHash) (s : Storage) :
    RepairOp → Option Storage
  | .update op => s.step sha1sum op
  | .getIndexFromDirHash hash => some (s.getIndexFromDirHash hash).2
  | .getIndexFromFileHash hash => some (s.getIndexFromFileHash hash).2

end RetroShare.FileSharing
