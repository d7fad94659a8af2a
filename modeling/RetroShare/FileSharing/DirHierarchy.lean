import RetroShare.Foundation.OrderedMap
import RetroShare.Foundation.Transition
import RetroShare.Foundation.Word
import Mathlib.Data.List.Lex

/-!
# The file hierarchy

`InternalFileHierarchyStorage`: directories and files as entries of one table of nodes that refer to
each other by index. A step of the code that reads a null pointer, reads behind the end of the table
or takes a node for one of the other kind has no outcome here.
-/

namespace RetroShare.FileSharing

abbrev Name := List UInt8

/-- The bytes of an `RsFileHash`. -/
abbrev FileHash := { bytes : List UInt8 // bytes.length = 20 }

def nullHash : FileHash := ⟨List.replicate 20 0, List.length_replicate⟩

structure FileEntry where
  fileName : Name
  fileSize : Nat
  fileModtime : Int
  fileHash : FileHash
  parentIndex : Nat
  row : Nat
  deriving DecidableEq

structure DirEntry where
  dirName : Name
  dirParentPath : Name
  dirHash : FileHash
  subdirs : List Nat
  subfiles : List Nat
  dirModtime : Int
  dirMostRecentTime : Int
  dirUpdateTime : Int
  parentIndex : Nat
  row : Nat
  deriving DecidableEq

/-- The constructors do not set the parent and the row, which their callers do. -/
def FileEntry.new (name : Name) (size : Nat) (modtime : Int) (hash : FileHash) : FileEntry :=
  ⟨name, size, modtime, hash, 0, 0⟩

def DirEntry.new (name : Name) : DirEntry := ⟨name, [], nullHash, [], [], 0, 0, 0, 0, 0⟩

inductive Node
  | file (entry : FileEntry)
  | dir (entry : DirEntry)
  deriving DecidableEq

inductive NodeType
  | file
  | dir
  deriving DecidableEq

def Node.type : Node → NodeType
  | file _ => .file
  | dir _ => .dir

structure Storage where
  mFreeNodes : List Nat
  mNodes : List (Option Node)
  mFileHashes : OrderedMap FileHash Nat
  mDirHashes : OrderedMap FileHash Nat
  mTotalFiles : Nat
  mTotalSize : Nat

def noIndex : Nat := 0xffffffff

/-- What `updateSubFilesList` is told about a file. -/
structure FileTS where
  size : Nat
  modtime : Int
  deriving DecidableEq

namespace Storage

def new : Storage where
  mFreeNodes := []
  mNodes := [some (.dir (.new []))]
  mFileHashes := ∅
  mDirHashes := (∅ : OrderedMap FileHash Nat).insert nullHash 0
  mTotalFiles := 0
  mTotalSize := 0

/-! ### Nodes -/

def node (s : Storage) (i : Nat) : Option Node := (s.mNodes[i]?).join

def getDir (s : Storage) (i : Nat) : Option DirEntry :=
  match s.node i with
  | some (.dir entry) => some entry
  | _ => none

def getFile (s : Storage) (i : Nat) : Option FileEntry :=
  match s.node i with
  | some (.file entry) => some entry
  | _ => none

def setNode (s : Storage) (i : Nat) (node : Option Node) : Storage :=
  { s with mNodes := s.mNodes.set i node }

def modifyDir (s : Storage) (i : Nat) (f : DirEntry → DirEntry) : Option Storage :=
  (s.getDir i).map fun entry => s.setNode i (some (.dir (f entry)))

def modifyFile (s : Storage) (i : Nat) (f : FileEntry → FileEntry) : Option Storage :=
  (s.getFile i).map fun entry => s.setNode i (some (.file (f entry)))

def checkIndex (s : Storage) (indx : Nat) (type : NodeType) : Bool :=
  indx != noIndex && (s.node indx).any (·.type = type)

def subSize (s : Storage) (size : Nat) : Storage :=
  { s with mTotalSize := Word.sub 64 s.mTotalSize size }

def addSize (s : Storage) (size : Nat) : Storage :=
  { s with mTotalSize := Word.add 64 s.mTotalSize size }

/-- `mNodes.push_back`. -/
def pushNode (s : Storage) (node : Option Node) : Storage :=
  { s with mNodes := s.mNodes ++ [node] }

def deleteNode (s : Storage) (index : Nat) : Option Storage :=
  match s.mNodes[index]? with
  | none => none
  | some none => some s
  | some (some _) => some { s.setNode index none with mFreeNodes := s.mFreeNodes ++ [index] }

def deleteFileNode (s : Storage) (index : Nat) : Option Storage :=
  match s.mNodes[index]? with
  | none => none
  | some none => some s
  | some (some (.dir _)) => none
  | some (some (.file fe)) =>
      let s := if s.mTotalSize ≥ fe.fileSize then s.subSize fe.fileSize else s
      let s := if s.mTotalFiles > 0 then { s with mTotalFiles := s.mTotalFiles - 1 } else s
      some { s.setNode index none with mFreeNodes := s.mFreeNodes ++ [index] }

/-- The loop of `allocateNewIndex` over the free indices. -/
def allocateFrom (s : Storage) : List Nat → Option (Nat × Storage)
  | [] => some (s.mNodes.length, { s with mFreeNodes := [] }.pushNode none)
  | index :: rest =>
      match s.mNodes[index]? with
      | none => none
      | some none => some (index, { s with mFreeNodes := rest })
      | some (some _) => s.allocateFrom rest

def allocateNewIndex (s : Storage) : Option (Nat × Storage) := s.allocateFrom s.mFreeNodes

/-- An entry that does not lead to a directory of that hash goes. -/
def getIndexFromDirHash (s : Storage) (hash : FileHash) : Option Nat × Storage :=
  match s.mDirHashes[hash]? with
  | none => (none, s)
  | some index =>
      if !s.checkIndex index .dir || (s.getDir index).map (·.dirHash) ≠ some hash then
        (none, { s with mDirHashes := s.mDirHashes.erase hash })
      else (some index, s)

/-! ### Consistency check -/

/-- The error string collects each text once. -/
def report (text : String) (errors : List String) : List String :=
  if text ∈ errors then errors else errors ++ [text]

/-- `v[j] = v.back(); v.pop_back()` -/
def swapRemove (kids : List Nat) (j : Nat) : List Nat :=
  (kids.set j (kids.getLastD 0)).dropLast

/-- Stamps the children in one list. Every pass either goes on to the next place or shortens the
list, so as many passes as the list is long are enough. -/
def stampKids (nodes : Nat) (out double : String) :
    Nat → Nat → List Nat → List Nat → List String → List Nat × List Nat × List String
  | 0, _, kids, hits, errors => (kids, hits, errors)
  | passes + 1, j, kids, hits, errors =>
      match kids[j]? with
      | none => (kids, hits, errors)
      | some kid =>
          if kid ≥ nodes then
            stampKids nodes out double passes j (swapRemove kids j) hits (report out errors)
          else if hits.getD kid 0 ≠ 0 then
            stampKids nodes out double passes j (swapRemove kids j) hits (report double errors)
          else stampKids nodes out double passes (j + 1) kids (hits.set kid 1) errors

/-- What the first loop of `check` does at node `i`. -/
def checkNode (acc : Storage × List Nat × List String) (i : Nat) :
    Storage × List Nat × List String :=
  let (s, hits, errors) := acc
  match s.mNodes[i]? with
  | some (some (.dir de)) =>
      let (subdirs, hits, errors) := stampKids s.mNodes.length " - Node child dir out of tab!"
        " - Double hit on a single node dir." de.subdirs.length 0 de.subdirs hits errors
      let (subfiles, hits, errors) := stampKids s.mNodes.length " - Node child file out of tab!"
        " - Double hit on a single node file." de.subfiles.length 0 de.subfiles hits errors
      (s.setNode i (some (.dir { de with subdirs := subdirs, subfiles := subfiles })), hits, errors)
  | some none => ({ s with mFreeNodes := s.mFreeNodes ++ [i] }, hits, errors)
  | _ => acc

/-- What the second loop of `check` does at node `i`. -/
def dropOrphan (hits : List Nat) (acc : Storage × List String) (i : Nat) :
    Option (Storage × List String) :=
  if hits.getD i 0 = 0 ∧ (acc.1.node i).isSome then
    (acc.1.deleteNode i).map fun s => (s, report " - Orphean node!" acc.2)
  else some acc

/-- The error string. The node table of the code is never empty here, except after a failed load. -/
def check (s : Storage) : Option (Storage × String) :=
  if s.mNodes = [] then none
  else do
    let n := s.mNodes.length
    let hits := (List.replicate n 0).set 0 1
    let (s, hits, errors) := (List.range n).foldl checkNode ({ s with mFreeNodes := [] }, hits, [])
    let (s, errors) ← (List.range n).foldlM (dropOrphan hits) (s, errors)
    return (s, String.join errors)

/-! ### Removal -/

/-- One level of the recursion is spent for each directory on the way down. -/
def recursRemove : Nat → Storage → Nat → Option Storage
  | 0, _, _ => none
  | depth + 1, s, dir => do
      let d ← s.getDir dir
      let s ← d.subdirs.foldlM (recursRemove depth) s
      let s ← d.subfiles.foldlM deleteFileNode s
      let s ← s.deleteNode dir
      return { s with mDirHashes := s.mDirHashes.erase d.dirHash }

def recursRemoveDirectory (s : Storage) (dir : Nat) : Option Storage :=
  recursRemove s.mNodes.length s dir

/-- As built with `DEBUG_DIRECTORY_STORAGE`, a removal ends with a consistency check. -/
def removeDirectory (s : Storage) (indx : Nat) : Option (Bool × Storage) :=
  if !s.checkIndex indx .dir then some (false, s)
  else if indx = 0 then some (false, s)
  else do
    let d ← s.getDir indx
    let parentDir ← s.getDir d.parentIndex
    match parentDir.subdirs.findIdx? (· = indx) with
    | none => return (false, s)
    | some i =>
        let s ← s.modifyDir d.parentIndex fun p => { p with subdirs := swapRemove p.subdirs i }
        let s ← s.recursRemoveDirectory indx
        let (s, _) ← s.check
        return (true, s)

end Storage

end RetroShare.FileSharing
