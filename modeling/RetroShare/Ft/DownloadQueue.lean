import RetroShare.Foundation.OrderedMap
import RetroShare.Foundation.Transition

/-!
# The download queue of the file transfer controller

`ftController` keeps its downloads in a map and in a queue of pointers to the same `ftFileControl`s.
The elements below `_max_active_downloads` download, the later ones wait. Controls live at addresses,
and a pointer to one that is deleted, or to a `mTransfer` or `mCreator` that is, has nothing behind it.
-/

namespace RetroShare.Ft

/-- What a call may run into instead of an outcome. -/
inductive Fault
  /-- A pointer that is null or whose object is deleted is followed. -/
  | dangling
  /-- An element outside a vector is accessed. -/
  | outOfRange
  /-- A loop does not end. -/
  | endless
  deriving DecidableEq, Repr

/-! ### Controls -/

namespace FileState

/-- The values of `ftFileControl::mState`, which is an integer and may be restored from a file. -/
def downloading : Nat := 0

def completed : Nat := 1

def errorCompletion : Nat := 2

def queued : Nat := 3

def paused : Nat := 4

end FileState

/-- The parts of a `ftTransferModule` that the controller looks at. -/
structure TransferModule where
  lastActvTimeStamp : Int
  isCheckingHash : Bool
  deriving DecidableEq, Repr

/-- The parts of a `ftFileCreator` that the controller looks at. -/
structure CreatorHandle where
  finished : Bool
  fileOpen : Bool
  deriving DecidableEq, Repr

/-- `ftFileControl`. -/
structure FileControl (Hash : Type) where
  mTransfer : Option TransferModule
  mCreator : Option CreatorHandle
  mState : Nat
  mHash : Hash
  mSize : Nat
  mQueuePosition : Nat
  deriving DecidableEq, Repr

namespace FileControl

variable {Hash : Type}

def transfer (fc : FileControl Hash) : Except Fault TransferModule :=
  match fc.mTransfer with
  | some transfer => .ok transfer
  | none => .error .dangling

def creator (fc : FileControl Hash) : Except Fault CreatorHandle :=
  match fc.mCreator with
  | some creator => .ok creator
  | none => .error .dangling

/-- `mTransfer->resetActvTimeStamp()`. -/
def resetActvTimeStamp (fc : FileControl Hash) (now : Int) : Except Fault (FileControl Hash) := do
  let transfer ← fc.transfer
  return { fc with mTransfer := some { transfer with lastActvTimeStamp := now } }

/-- `mCreator->closeFile()`. -/
def closeFile (fc : FileControl Hash) : Except Fault (FileControl Hash) := do
  let creator ← fc.creator
  return { fc with mCreator := some { creator with fileOpen := false } }

/-- What `locked_checkQueueElement` does with the control at position `pos`. -/
def checked (maxActive : Nat) (now : Int) (pos : Nat) (fc : FileControl Hash) :
    Except Fault (FileControl Hash) :=
  let fc := { fc with mQueuePosition := pos }
  if pos < maxActive ∧ fc.mState ≠ FileState.paused then do
    let fc ← if fc.mState = FileState.queued then fc.resetActvTimeStamp now else .ok fc
    return { fc with mState := FileState.downloading }
  else if maxActive ≤ pos ∧ fc.mState ≠ FileState.queued ∧ fc.mState ≠ FileState.paused then
    { fc with mState := FileState.queued }.closeFile
  else .ok fc

end FileControl

/-! ### The controller -/

/-- `ftPendingRequest`. -/
structure PendingRequest (Hash : Type) where
  mHash : Hash
  mSize : Nat
  deriving DecidableEq, Repr

/-- `ftController`. `mPendingChunkMaps` keeps the state of a saved transfer. -/
structure Controller (Hash : Type) [LinearOrder Hash] where
  controls : Nat → Option (FileControl Hash)
  fresh : Nat
  mDownloads : OrderedMap Hash Nat
  mCompleted : OrderedMap Hash Nat
  mDownloadQueue : List Nat
  maxActiveDownloads : Nat
  mFtActive : Bool
  mPendingRequests : List (PendingRequest Hash)
  mPendingChunkMaps : OrderedMap Hash Nat

namespace Controller

variable {Hash : Type} [LinearOrder Hash]

def new : Controller Hash :=
  { controls := fun _ => none
    fresh := 0
    mDownloads := ∅
    mCompleted := ∅
    mDownloadQueue := []
    maxActiveDownloads := 5
    mFtActive := false
    mPendingRequests := []
    mPendingChunkMaps := ∅ }

def control (s : Controller Hash) (addr : Nat) : Except Fault (FileControl Hash) :=
  match s.controls addr with
  | some fc => .ok fc
  | none => .error .dangling

def queueAt (s : Controller Hash) (pos : Nat) : Except Fault Nat :=
  match s.mDownloadQueue[pos]? with
  | some addr => .ok addr
  | none => .error .outOfRange

def setControl (s : Controller Hash) (addr : Nat) (fc : FileControl Hash) : Controller Hash :=
  { s with controls := fun a => if a = addr then some fc else s.controls a }

def deleteControl (s : Controller Hash) (addr : Nat) : Controller Hash :=
  { s with controls := fun a => if a = addr then none else s.controls a }

def setQueue (s : Controller Hash) (pos addr : Nat) : Controller Hash :=
  { s with mDownloadQueue := s.mDownloadQueue.set pos addr }

/-! ### The queue -/

def checkQueueElement (now : Int) (s : Controller Hash) (pos : Nat) :
    Except Fault (Controller Hash) := do
  let addr ← s.queueAt pos
  let fc ← s.control addr
  let fc ← fc.checked s.maxActiveDownloads now pos
  return s.setControl addr fc

def addToQueue (now : Int) (s : Controller Hash) (addr : Nat) : Except Fault (Controller Hash) :=
  let s := { s with mDownloadQueue := s.mDownloadQueue ++ [addr] }
  s.checkQueueElement now (s.mDownloadQueue.length - 1)

/-- `mDownloadQueue[p] = mDownloadQueue[from]; locked_checkQueueElement(p)`. -/
def shift (now : Int) (s : Controller Hash) (p source : Nat) : Except Fault (Controller Hash) := do
  let addr ← s.queueAt source
  (s.setQueue p addr).checkQueueElement now p

/-- The loops that move every element behind `pos` one place up. -/
def shiftUp (now : Int) (s : Controller Hash) (pos : Nat) : Except Fault (Controller Hash) :=
  (List.range' pos (s.mDownloadQueue.length - 1 - pos)).foldlM (fun s p => s.shift now p (p + 1)) s

/-- The loop that moves every element before `pos` one place down. -/
def shiftDown (now : Int) (s : Controller Hash) (pos : Nat) : Except Fault (Controller Hash) :=
  (List.range pos).reverse.foldlM (fun s p => s.shift now (p + 1) p) s

/-- The size of an empty queue less one is a huge number. -/
def queueRemove (now : Int) (s : Controller Hash) (pos : Nat) : Except Fault (Controller Hash) :=
  if s.mDownloadQueue = [] then .error .outOfRange
  else do
    let s ← s.shiftUp now pos
    return { s with mDownloadQueue := s.mDownloadQueue.dropLast }

def topQueue (now : Int) (s : Controller Hash) (pos : Nat) : Except Fault (Controller Hash) := do
  let tmp ← s.queueAt pos
  let s ← s.shiftDown now pos
  (s.setQueue 0 tmp).checkQueueElement now 0

def bottomQueue (now : Int) (s : Controller Hash) (pos : Nat) : Except Fault (Controller Hash) := do
  let tmp ← s.queueAt pos
  let s ← s.shiftUp now pos
  (s.setQueue (s.mDownloadQueue.length - 1) tmp).checkQueueElement now (s.mDownloadQueue.length - 1)

def swapQueue (now : Int) (s : Controller Hash) (pos1 pos2 : Nat) :
    Except Fault (Controller Hash) :=
  if pos1 = pos2 then .ok s
  else do
    let tmp ← s.queueAt pos1
    let addr ← s.queueAt pos2
    let s ← ((s.setQueue pos1 addr).setQueue pos2 tmp).checkQueueElement now pos1
    s.checkQueueElement now pos2

/-- The loop ends behind `max(s, old_s)`, which a 32-bit counter may not get past. -/
def setQueueSize (now : Int) (s : Controller Hash) (size : Nat) : Except Fault (Controller Hash) :=
  if 0 < size then
    let old := s.maxActiveDownloads
    let s := { s with maxActiveDownloads := size }
    if max size old = 2 ^ 32 - 1 then .error .endless
    else
      ((List.range' (min size old) (max size old + 1 - min size old)).filter
        fun p => decide (p < s.mDownloadQueue.length)).foldlM (checkQueueElement now) s
  else .ok s

inductive QueueMove
  | up
  | down
  | top
  | bottom
  deriving DecidableEq, Repr

def moveInQueue (now : Int) (s : Controller Hash) (hash : Hash) (mv : QueueMove) :
    Except Fault (Controller Hash) :=
  match s.mDownloads[hash]? with
  | none => .ok s
  | some addr => do
      let fc ← s.control addr
      let pos := fc.mQueuePosition
      match mv with
      | .top => s.topQueue now pos
      | .bottom => s.bottomQueue now pos
      | .up => if 0 < pos then s.swapQueue now pos (pos - 1) else return s
      | .down =>
          if pos < s.mDownloadQueue.length - 1 then s.swapQueue now pos (pos + 1) else return s

/-! ### The check of the queue -/

def maxTimeInactiveRequeued : Int := 120

def isInactive (now : Int) (fc : FileControl Hash) : Except Fault Bool :=
  if fc.mState = FileState.queued then .ok false
  else if fc.mState = FileState.paused then .ok true
  else fc.transfer.map fun transfer =>
    decide (transfer.lastActvTimeStamp + maxTimeInactiveRequeued < now)

def isReady (hasOnlineSource : Hash → Bool) (hash : Hash) (fc : FileControl Hash) :
    Except Fault Bool :=
  if fc.mState = FileState.queued then fc.transfer.map fun _ => hasOnlineSource hash
  else .ok false

/-- The downloads that are inactive, and the queued ones with a source that is online. -/
def classify (now : Int) (hasOnlineSource : Hash → Bool) (s : Controller Hash) :
    List (Hash × Nat) → Except Fault (List Nat × List Nat)
  | [] => .ok ([], [])
  | (hash, addr) :: entries => do
      let fc ← s.control addr
      let inactive ← isInactive now fc
      let ready ← isReady hasOnlineSource hash fc
      let (inactiveTransfers, withOnlineSources) ← s.classify now hasOnlineSource entries
      return (if inactive then addr :: inactiveTransfers else inactiveTransfers,
        if ready then addr :: withOnlineSources else withOnlineSources)

def resetActvTimeStamp (now : Int) (s : Controller Hash) (addr : Nat) :
    Except Fault (Controller Hash) := do
  let fc ← s.control addr
  let fc ← fc.resetActvTimeStamp now
  return s.setControl addr fc

/-- An inactive transfer changes places with a queued one. -/
def exchange (now : Int) (s : Controller Hash) (inactive online : Nat) :
    Except Fault (Controller Hash) := do
  let s ← s.resetActvTimeStamp now inactive
  let s ← s.resetActvTimeStamp now online
  let fc ← s.control inactive
  let fc' ← s.control online
  s.swapQueue now fc.mQueuePosition fc'.mQueuePosition

/-- An inactive transfer goes to the end of the queue. -/
def requeue (now : Int) (s : Controller Hash) (inactive : Nat) : Except Fault (Controller Hash) := do
  let fc ← s.control inactive
  let s ← s.bottomQueue now fc.mQueuePosition
  s.resetActvTimeStamp now inactive

def checkDownloadQueue (now : Int) (hasOnlineSource : Hash → Bool) (s : Controller Hash) :
    Except Fault (Controller Hash) :=
  if s.mDownloads.size ≤ s.maxActiveDownloads then .ok s
  else do
    let (inactiveTransfers, withOnlineSources) ← s.classify now hasOnlineSource s.mDownloads.toList
    let s ← (inactiveTransfers.zip withOnlineSources).foldlM
      (fun s entry => s.exchange now entry.1 entry.2) s
    let s ← (inactiveTransfers.drop withOnlineSources.length).foldlM (requeue now) s
    (List.range s.mDownloadQueue.length).foldlM (checkQueueElement now) s

/-! ### Requests -/

/-- What `FileRequest` finds around it: whether the file lists have the file, whether one of the
sources may be asked directly, and the time. -/
structure RequestEnv where
  listed : Bool
  directSource : Bool
  now : Int
  deriving DecidableEq, Repr

/-- The download status that `FileDetails` reports is `FT_STATE_COMPLETE`. -/
def detailsComplete (s : Controller Hash) (hash : Hash) : Except Fault Bool :=
  match s.mDownloads[hash]? with
  | some addr => do
      let fc ← s.control addr
      let transfer ← fc.transfer
      let creator ← fc.creator
      return creator.finished && fc.mState != FileState.queued && fc.mState != FileState.paused &&
        !transfer.isCheckingHash
  | none =>
      match s.mCompleted[hash]? with
      | some addr => do
          let fc ← s.control addr
          return fc.mState != FileState.queued && fc.mState != FileState.paused
      | none => .ok false

def alreadyHaveFile (env : RequestEnv) (s : Controller Hash) (hash : Hash) : Except Fault Bool := do
  let complete ← s.detailsComplete hash
  return complete || env.listed

/-- `1024ull*1024ull*((1ull << 32) - 1)`. -/
def maxRequestSize : Nat := 1024 * 1024 * (2 ^ 32 - 1)

def newControl (env : RequestEnv) (hash : Hash) (size : Nat) : FileControl Hash :=
  { mTransfer := some { lastActvTimeStamp := env.now, isCheckingHash := false }
    mCreator := some { finished := false, fileOpen := false }
    mState := FileState.downloading
    mHash := hash
    mSize := size
    mQueuePosition := 0 }

/-- A new download. -/
def addDownload (env : RequestEnv) (s : Controller Hash) (hash : Hash) (size : Nat) :
    Except Fault (Controller Hash) := do
  let addr := s.fresh
  let s := { s.setControl addr (newControl env hash size) with fresh := s.fresh + 1 }
  let s ← s.addToQueue env.now addr
  return { s with mDownloads := s.mDownloads.insert hash addr }

def fileRequest (env : RequestEnv) (s : Controller Hash) (hash : Hash) (size : Nat) :
    Except Fault (Controller Hash) := do
  let have' ← s.alreadyHaveFile env hash
  if have' then return s
  else if size = 0 then return s
  else if maxRequestSize ≤ size then return s
  else if !s.mFtActive then
    return { s with mPendingRequests := s.mPendingRequests ++ [{ mHash := hash, mSize := size }] }
  else
    match s.mDownloads[hash]? with
    | some addr => do
        let fc ← s.control addr
        if env.directSource then do
          let _ ← fc.transfer
          return s
        else return s
    | none => s.addDownload env hash size

/-- The control that a saved transfer is restored into, if there is one. -/
def restoreTarget (s : Controller Hash) (hash : Hash) : Except Fault (Option Nat) :=
  match s.mDownloads[hash]? with
  | none => .ok none
  | some addr => do
      let fc ← s.control addr
      return if fc.mCreator.isSome then some addr else none

/-- The part of `loadList` for one saved transfer. -/
def loadTransfer (env : RequestEnv) (s : Controller Hash) (hash : Hash) (size state : Nat) :
    Except Fault (Controller Hash) := do
  let s ← s.fileRequest env hash size
  match ← s.restoreTarget hash with
  | none => return { s with mPendingChunkMaps := s.mPendingChunkMaps.insert hash state }
  | some _ => return s

/-- `(fit->second)->mState = rsft->state`, without a check of the queue. -/
def takeState (s : Controller Hash) (target : Option Nat) (state : Nat) :
    Except Fault (Controller Hash) :=
  match target with
  | none => .ok s
  | some addr => do
      let fc ← s.control addr
      return s.setControl addr { fc with mState := state }

/-- The state of a saved transfer is taken over, and the saved transfer is forgotten. -/
def restoreState (s : Controller Hash) (hash : Hash) : Except Fault (Controller Hash) :=
  match s.mPendingChunkMaps[hash]? with
  | none => .ok s
  | some state => do
      let target ← s.restoreTarget hash
      let s ← s.takeState target state
      return { s with mPendingChunkMaps := s.mPendingChunkMaps.erase hash }

/-- One pass of the loop of `handleAPendingRequest`. -/
def handleOne (env : RequestEnv) (s : Controller Hash) : Except Fault (Controller Hash) :=
  match s.mPendingRequests with
  | [] => .ok s
  | request :: requests => do
      let s ← { s with mPendingRequests := requests }.fileRequest env request.mHash request.mSize
      s.restoreState request.mHash

/-- At most one pass for each of these surroundings. -/
def handlePasses (s : Controller Hash) (envs : List RequestEnv) : Except Fault (Controller Hash) :=
  envs.foldlM (fun s env => s.handleOne env) s

def maxSimultaneousPendingRequests : Nat := 100

def handleAPendingRequest (env : Nat → RequestEnv) (s : Controller Hash) :
    Except Fault (Controller Hash) :=
  s.handlePasses ((List.range maxSimultaneousPendingRequests).map env)

/-! ### The end of a download -/

/-- `completeFile`, with the outcomes of moving the file. -/
def completeFile (now : Int) (movedHere movedThere : Bool) (s : Controller Hash) (hash : Hash) :
    Except Fault (Controller Hash) :=
  match s.mDownloads[hash]? with
  | none => .ok s
  | some addr => do
      let fc ← s.control addr
      let creator ← fc.creator
      if !creator.finished then return s
      else do
        let _ ← fc.transfer
        let state := if fc.mSize = 0 ∨ !movedHere ∨ !movedThere then FileState.errorCompletion
          else FileState.completed
        let s := s.setControl addr { fc with mTransfer := none, mCreator := none, mState := state }
        let s ← s.queueRemove now fc.mQueuePosition
        return { s with
          mCompleted := s.mCompleted.insert fc.mHash addr
          mDownloads := s.mDownloads.erase hash }

def fileCancel (now : Int) (s : Controller Hash) (hash : Hash) : Except Fault (Controller Hash) :=
  match s.mDownloads[hash]? with
  | none => .ok s
  | some addr => do
      let fc ← s.control addr
      let creator ← fc.creator
      if creator.finished then return s
      else do
        let _ ← fc.transfer
        let s := s.setControl addr { fc with mTransfer := none, mCreator := none }
        let s ← s.queueRemove now fc.mQueuePosition
        let s := s.deleteControl addr
        return { s with mDownloads := s.mDownloads.erase hash }

inductive ControlFlag
  | pause
  | start
  | forceCheck
  | other
  deriving DecidableEq, Repr

def fileControl (s : Controller Hash) (hash : Hash) (flags : ControlFlag) :
    Except Fault (Controller Hash) :=
  match s.mDownloads[hash]? with
  | none => .ok s
  | some addr => do
      let fc ← s.control addr
      match flags with
      | .pause => return s.setControl addr { fc with mState := FileState.paused }
      | .start => return s.setControl addr { fc with mState := FileState.downloading }
      | .forceCheck => do
          let _ ← fc.transfer
          return s
      | .other => return s

/-- The finished files are forgotten. -/
def fileClearCompleted (s : Controller Hash) : Controller Hash :=
  { s.mCompleted.toList.foldl (fun s entry => s.deleteControl entry.2) s with mCompleted := ∅ }

/-- Data arrives for a download, or its hash is checked: its objects change by themselves. -/
def progress (s : Controller Hash) (hash : Hash) (transfer : TransferModule)
    (creator : CreatorHandle) : Except Fault (Controller Hash) :=
  match s.mDownloads[hash]? with
  | none => .ok s
  | some addr => do
      let fc ← s.control addr
      return s.setControl addr { fc with mTransfer := some transfer, mCreator := some creator }

/-! ### Runs -/

inductive Op (Hash : Type)
  | activate
  | fileRequest (env : RequestEnv) (hash : Hash) (size : Nat)
  | loadTransfer (env : RequestEnv) (hash : Hash) (size state : Nat)
  | handleAPendingRequest (env : Nat → RequestEnv)
  | fileCancel (now : Int) (hash : Hash)
  | fileControl (hash : Hash) (flags : ControlFlag)
  | completeFile (now : Int) (movedHere movedThere : Bool) (hash : Hash)
  | fileClearCompleted
  | moveInQueue (now : Int) (hash : Hash) (mv : QueueMove)
  | setQueueSize (now : Int) (size : Nat)
  | checkDownloadQueue (now : Int) (hasOnlineSource : Hash → Bool)
  | progress (hash : Hash) (transfer : TransferModule) (creator : CreatorHandle)

def perform (s : Controller Hash) : Op Hash → Except Fault (Controller Hash)
  | .activate => .ok { s with mFtActive := true }
  | .fileRequest env hash size => s.fileRequest env hash size
  | .loadTransfer env hash size state => s.loadTransfer env hash size state
  | .handleAPendingRequest env => s.handleAPendingRequest env
  | .fileCancel now hash => s.fileCancel now hash
  | .fileControl hash flags => s.fileControl hash flags
  | .completeFile now movedHere movedThere hash => s.completeFile now movedHere movedThere hash
  | .fileClearCompleted => .ok s.fileClearCompleted
  | .moveInQueue now hash mv => s.moveInQueue now hash mv
  | .setQueueSize now size => s.setQueueSize now size
  | .checkDownloadQueue now hasOnlineSource => s.checkDownloadQueue now hasOnlineSource
  | .progress hash transfer creator => s.progress hash transfer creator

def step (s : Controller Hash) (op : Op Hash) : Option (Controller Hash) :=
  (s.perform op).toOption

end Controller

end RetroShare.Ft
