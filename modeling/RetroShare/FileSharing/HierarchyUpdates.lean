import RetroShare.FileSharing.DirHierarchy

/-!
# Updates of the file hierarchy

The functions that bring the hierarchy in line with the disk, with what a peer sent and with a saved
file, and the operations a run is made of.
-/

namespace RetroShare.FileSharing

/-- `RsDirUtil::makePath` -/
def makePath (path1 path2 : Name) : Name :=
  (if path1 ≠ [] ∧ path1.getLast? ≠ some 47 then path1 ++ [47] else path1) ++ path2

/-- What `readField` finds in a saved file, section after section. A directory can break off behind
its index, when room for it has been made already. -/
inductive LoadSection
  | fileEntry (nodeIndex : Nat) (entry : FileEntry)
  | dirEntry (nodeIndex : Nat) (entry : DirEntry)
  | cutDirEntry (nodeIndex : Nat)
  | broken

/-- A saved file that cannot be read up to the number of nodes, one of another version, or the rest. -/
inductive LoadedData
  | unreadable
  | wrongVersion
  | nodes (nNodes : Nat) (sections : List LoadSection)

/-- How `load` ends: the exception about the version is not caught. -/
inductive LoadResult
  | returned (result : Bool)
  | thrown
  deriving DecidableEq

namespace Storage

/-! ### From the disk -/

section Local

-- the digest function of the cryptography library
variable (sha1sum : List UInt8 → FileHash)

def createDirHash (dirName : Name) (dirParentHash randomHashSalt : FileHash) : FileHash :=
  sha1sum (randomHashSalt.1 ++ dirParentHash.1 ++ dirName)

/-- The loop over the existing subdirectories; a pass goes on to the next one or removes one. -/
def keepSubdirs (indx : Nat) (subdirs : OrderedMap Name Unit) :
    Nat → Nat → Storage → OrderedMap Name Unit → Option (Storage × OrderedMap Name Unit)
  | 0, _, s, shouldCreate => some (s, shouldCreate)
  | passes + 1, i, s, shouldCreate => do
      let d ← s.getDir indx
      match d.subdirs[i]? with
      | none => return (s, shouldCreate)
      | some kid =>
          let entry ← s.getDir kid
          if subdirs[entry.dirName]?.isNone then
            let (removed, s) ← s.removeDirectory kid
            keepSubdirs indx subdirs passes (if removed then i else i + 1) s shouldCreate
          else keepSubdirs indx subdirs passes (i + 1) s (shouldCreate.erase entry.dirName)

def createSubdir (indx : Nat) (randomHashSeed : FileHash) (s : Storage) (name : Name) :
    Option Storage := do
  let d ← s.getDir indx
  let index := s.mNodes.length
  let dirHash := createDirHash sha1sum name d.dirHash randomHashSeed
  let de := { DirEntry.new name with
    row := index, parentIndex := indx, dirModtime := 0,
    dirParentPath := makePath d.dirParentPath d.dirName, dirHash := dirHash }
  let s ← s.modifyDir indx fun d => { d with subdirs := d.subdirs ++ [index] }
  return { s.pushNode (some (.dir de)) with mDirHashes := s.mDirHashes.insert dirHash index }

def updateSubDirectoryList (s : Storage) (indx : Nat) (subdirs : OrderedMap Name Unit)
    (randomHashSeed : FileHash) : Option (Bool × Storage) :=
  if !s.checkIndex indx .dir then some (false, s)
  else do
    let d ← s.getDir indx
    let (s, shouldCreate) ← keepSubdirs indx subdirs d.subdirs.length 0 s subdirs
    let s ← (shouldCreate.toList.map Prod.fst).foldlM (createSubdir sha1sum indx randomHashSeed) s
    return (true, s)

end Local

/-- The total is corrected by the size that the file has by then. -/
def refreshSubfile (s : Storage) (kid : Nat) (ts : FileTS) : Option Storage := do
  let f ← s.getFile kid
  if ts.modtime ≠ f.fileModtime ∨ ts.size ≠ f.fileSize then
    let s ← s.modifyFile kid fun f =>
      { f with fileHash := nullHash, fileModtime := ts.modtime, fileSize := ts.size }
    let f ← s.getFile kid
    return (s.subSize f.fileSize).addSize ts.size
  else return s

/-- The loop over the existing files; a pass goes on to the next one or removes one. -/
def keepSubfiles (indx : Nat) (subfiles : OrderedMap Name FileTS) :
    Nat → Nat → Storage → OrderedMap Name FileTS → Option (Storage × OrderedMap Name FileTS)
  | 0, _, s, newFiles => some (s, newFiles)
  | passes + 1, i, s, newFiles => do
      let d ← s.getDir indx
      match d.subfiles[i]? with
      | none => return (s, newFiles)
      | some kid =>
          let f ← s.getFile kid
          match subfiles[f.fileName]? with
          | none =>
              let s ← s.deleteFileNode kid
              let s ← s.modifyDir indx fun d => { d with subfiles := swapRemove d.subfiles i }
              keepSubfiles indx subfiles passes i s newFiles
          | some ts =>
              let s ← s.refreshSubfile kid ts
              keepSubfiles indx subfiles passes (i + 1) s (newFiles.erase f.fileName)

def createSubfile (indx : Nat) (s : Storage) (file : Name × FileTS) : Option Storage := do
  let index := s.mNodes.length
  let s ← s.modifyDir indx fun d => { d with subfiles := d.subfiles ++ [index] }
  let entry := { FileEntry.new file.1 file.2.size file.2.modtime nullHash with
    row := index, parentIndex := indx }
  let s := (s.pushNode (some (.file entry))).addSize file.2.size
  return { s with mTotalFiles := Word.add 32 s.mTotalFiles 1 }

/-- The result, the files that are new and the storage. -/
def updateSubFilesList (s : Storage) (indx : Nat) (subfiles : OrderedMap Name FileTS) :
    Option (Bool × OrderedMap Name FileTS × Storage) :=
  if !s.checkIndex indx .dir then some (false, ∅, s)
  else do
    let d ← s.getDir indx
    let (s, newFiles) ← keepSubfiles indx subfiles d.subfiles.length 0 s subfiles
    let s ← newFiles.toList.foldlM (createSubfile indx) s
    return (true, newFiles, s)

def updateHash (s : Storage) (fileIndex : Nat) (hash : FileHash) : Option (Bool × Storage) :=
  if !s.checkIndex fileIndex .file then some (false, s)
  else do
    let s ← s.modifyFile fileIndex fun fe => { fe with fileHash := hash }
    return (true, { s with mFileHashes := s.mFileHashes.insert hash fileIndex })

def updateFile (s : Storage) (fileIndex : Nat) (hash : FileHash) (fname : Name) (size : Nat)
    (modfTime : Int) : Option (Bool × Storage) :=
  if !s.checkIndex fileIndex .file then some (false, s)
  else do
    let fe ← s.getFile fileIndex
    let s := if s.mTotalSize ≥ fe.fileSize then s.subSize fe.fileSize else s
    let s := s.addSize size
    let s ← s.modifyFile fileIndex fun fe =>
      { fe with fileHash := hash, fileSize := size, fileModtime := modfTime, fileName := fname }
    return (true, if hash ≠ nullHash then
        { s with mFileHashes := s.mFileHashes.insert hash fileIndex } else s)

/-! ### From a peer -/

/-- The children of a directory by a key that its peer chose; of children with one key, the last. -/
def existingKids {Key : Type} [LinearOrder Key] (keyOf : Nat → Option Key) (kids : List Nat) :
    Option (OrderedMap Key Nat) :=
  kids.foldlM (fun existing kid => (keyOf kid).map fun key => existing.insert key kid) ∅

/-- The index for a hash: an existing subdirectory or a new one. -/
def subdirSlot (indx : Nat) (dirName : Name) (s : Storage) (existing : OrderedMap FileHash Nat)
    (hash : FileHash) : Option (Nat × Storage × OrderedMap FileHash Nat) :=
  match existing[hash]?.filter fun i => (s.getDir i).isSome with
  | some i => some (i, s, existing.erase hash)
  | none => do
      let (i, s) ← s.allocateNewIndex
      let d ← s.getDir indx
      let s := s.setNode i (some (.dir { DirEntry.new [] with
        dirParentPath := makePath d.dirParentPath dirName, dirHash := hash }))
      return (i, { s with mDirHashes := s.mDirHashes.insert hash i }, existing)

def placeSubdir (indx : Nat) (dirName : Name) (acc : Storage × OrderedMap FileHash Nat)
    (hash : FileHash) : Option (Storage × OrderedMap FileHash Nat) := do
  let (dirIndex, s, existing) ← subdirSlot indx dirName acc.1 acc.2 hash
  let s ← s.modifyDir indx fun d => { d with subdirs := d.subdirs ++ [dirIndex] }
  return ({ s with mDirHashes := s.mDirHashes.insert hash dirIndex }, existing)

/-- The index for a file: an existing one of that name, which is brought up to date, or a new one. -/
def subfileSlot (s : Storage) (existing : OrderedMap Name Nat) (f : FileEntry) :
    Option (Nat × Storage × OrderedMap Name Nat) :=
  match existing[f.fileName]?.filter fun i => (s.getFile i).isSome with
  | some i => do
      let (_, s) ← s.updateFile i f.fileHash f.fileName f.fileSize f.fileModtime
      return (i, s, existing.erase f.fileName)
  | none => do
      let (i, s) ← s.allocateNewIndex
      let s := s.setNode i (some (.file (.new f.fileName f.fileSize f.fileModtime f.fileHash)))
      let s := { s with mFileHashes := s.mFileHashes.insert f.fileHash i }.addSize f.fileSize
      return (i, { s with mTotalFiles := Word.add 32 s.mTotalFiles 1 }, existing)

def placeSubfile (indx : Nat) (acc : Storage × OrderedMap Name Nat) (f : FileEntry) :
    Option (Storage × OrderedMap Name Nat) := do
  let (fileIndex, s, existing) ← subfileSlot acc.1 acc.2 f
  let s ← s.modifyDir indx fun d => { d with subfiles := d.subfiles ++ [fileIndex] }
  return (s, existing)

def removeSubdir (s : Storage) (kid : Nat) : Option Storage :=
  if !s.checkIndex kid .dir then some s else s.recursRemoveDirectory kid

def removeSubfile (s : Storage) (kid : Nat) : Option Storage :=
  if !s.checkIndex kid .file then some s else s.deleteFileNode kid

def adoptSubdir (indx : Nat) (acc : Storage × Nat) (kid : Nat) : Option (Storage × Nat) :=
  (acc.1.modifyDir kid fun de =>
    { de with dirUpdateTime := 0, parentIndex := indx, row := acc.2 }).map fun s => (s, acc.2 + 1)

/-- Here the code does not care which kind of node it is. -/
def adoptSubfile (indx : Nat) (acc : Storage × Nat) (kid : Nat) : Option (Storage × Nat) :=
  match acc.1.node kid with
  | none => none
  | some (.file fe) =>
      some (acc.1.setNode kid (some (.file { fe with parentIndex := indx, row := acc.2 })), acc.2 + 1)
  | some (.dir de) =>
      some (acc.1.setNode kid (some (.dir { de with parentIndex := indx, row := acc.2 })), acc.2 + 1)

def updateSubdirsOf (s : Storage) (indx : Nat) (dirName : Name) (subdirsHash : List FileHash) :
    Option Storage := do
  let d ← s.getDir indx
  let existing ← existingKids (fun kid => (s.getDir kid).map (·.dirHash)) d.subdirs
  let s ← s.modifyDir indx fun d => { d with subdirs := [] }
  let (s, existing) ← subdirsHash.foldlM (placeSubdir indx dirName) (s, existing)
  (existing.toList.map Prod.snd).foldlM removeSubdir s

def updateSubfilesOf (s : Storage) (indx : Nat) (subfilesArray : List FileEntry) :
    Option Storage := do
  let d ← s.getDir indx
  let existing ← existingKids (fun kid => (s.getFile kid).map (·.fileName)) d.subfiles
  let s ← s.modifyDir indx fun d => { d with subfiles := [] }
  let (s, existing) ← subfilesArray.foldlM (placeSubfile indx) (s, existing)
  (existing.toList.map Prod.snd).foldlM removeSubfile s

/-- Parent and row of all children. -/
def adoptKids (s : Storage) (indx : Nat) : Option Storage := do
  let d ← s.getDir indx
  let (s, n) ← d.subdirs.foldlM (adoptSubdir indx) (s, 0)
  let (s, _) ← d.subfiles.foldlM (adoptSubfile indx) (s, n)
  return s

def updateDirEntry (s : Storage) (indx : Nat) (dirName : Name) (mostRecentTime dirModtime : Int)
    (subdirsHash : List FileHash) (subfilesArray : List FileEntry) (now : Int) :
    Option (Bool × Storage) :=
  if !s.checkIndex indx .dir then some (false, s)
  else do
    let s ← s.modifyDir indx fun d =>
      { d with dirMostRecentTime := mostRecentTime, dirModtime := dirModtime, dirUpdateTime := now,
               dirName := dirName }
    let s ← s.updateSubdirsOf indx dirName subdirsHash
    let s ← s.updateSubfilesOf indx subfilesArray
    let s ← s.adoptKids indx
    return (true, s)

/-! ### From a saved file -/

/-- `mNodes.resize(index + 1, NULL)` when the index is behind the end; the sum is one of 32 bits. -/
def growTo (s : Storage) (index : Nat) : Storage :=
  if s.mNodes.length ≤ index then
    let size := Word.add 32 index 1
    { s with mNodes := s.mNodes.take size ++ List.replicate (size - s.mNodes.length) none }
  else s

def loadNode (s : Storage) (index : Nat) (node : Node) : Option Storage :=
  let s := s.growTo index
  if index < s.mNodes.length then some (s.setNode index (some node)) else none

/-- The sections, as long as there are as many nodes; `false` when one cannot be read. -/
def loadSections : Nat → List LoadSection → Storage → Option (Bool × Storage)
  | _, [], s => some (true, s)
  | i, found :: rest, s =>
      if s.mNodes.length ≤ i then some (true, s)
      else
        match found with
        | .broken => some (false, s)
        | .cutDirEntry nodeIndex => some (false, s.growTo nodeIndex)
        | .fileEntry nodeIndex fe => do
            let s ← s.loadNode nodeIndex (.file fe)
            loadSections (i + 1) rest { s.addSize fe.fileSize with
              mFileHashes := s.mFileHashes.insert fe.fileHash nodeIndex
              mTotalFiles := Word.add 32 s.mTotalFiles 1 }
        | .dirEntry nodeIndex de => do
            let s ← s.loadNode nodeIndex (.dir de)
            loadSections (i + 1) rest
              { s with mDirHashes := s.mDirHashes.insert de.dirHash nodeIndex }

/-- The totals and the free indices are reset before the file is opened. -/
def load (s : Storage) (data : LoadedData) : Option (LoadResult × Storage) :=
  let s := { s with mFreeNodes := [], mTotalFiles := 0, mTotalSize := 0 }
  match data with
  | .unreadable => some (.returned false, s)
  | .wrongVersion => some (.thrown, s)
  | .nodes nNodes sections =>
      match loadSections 0 sections { s with mNodes := List.replicate nNodes none } with
      | none => none
      | some (false, s) => some (.returned false, s)
      | some (true, s) => s.check.map fun (s, _) => (.returned true, s)

end Storage

/-! ### Runs -/

inductive StorageOp
  | updateSubDirectoryList (indx : Nat) (subdirs : OrderedMap Name Unit) (seed : FileHash)
  | updateSubFilesList (indx : Nat) (subfiles : OrderedMap Name FileTS)
  | updateDirEntry (indx : Nat) (dirName : Name) (mostRecentTime dirModtime : Int)
      (subdirsHash : List FileHash) (subfilesArray : List FileEntry) (now : Int)
  | removeDirectory (indx : Nat)
  | updateFile (fileIndex : Nat) (hash : FileHash) (fname : Name) (size : Nat) (modfTime : Int)
  | updateHash (fileIndex : Nat) (hash : FileHash)
  | check
  | load (data : LoadedData)

def Storage.step (sha1sum : List UInt8 → FileHash) (s : Storage) : StorageOp → Option Storage
  | .updateSubDirectoryList indx subdirs seed =>
      (s.updateSubDirectoryList sha1sum indx subdirs seed).map (·.2)
  | .updateSubFilesList indx subfiles => (s.updateSubFilesList indx subfiles).map (·.2.2)
  | .updateDirEntry indx dirName mostRecentTime dirModtime subdirsHash subfilesArray now =>
      (s.updateDirEntry indx dirName mostRecentTime dirModtime subdirsHash subfilesArray now).map
        (·.2)
  | .removeDirectory indx => (s.removeDirectory indx).map (·.2)
  | .updateFile fileIndex hash fname size modfTime =>
      (s.updateFile fileIndex hash fname size modfTime).map (·.2)
  | .updateHash fileIndex hash => (s.updateHash fileIndex hash).map (·.2)
  | .check => s.check.map (·.1)
  | .load data => (s.load data).map (·.2)

end RetroShare.FileSharing
