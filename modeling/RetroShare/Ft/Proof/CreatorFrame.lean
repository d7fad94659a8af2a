import RetroShare.Ft.FileCreatorRun
import RetroShare.Ft.Proof.ChunkMapSteps
import RetroShare.Ft.Proof.PieceTable

/-!
# What every operation of a file creator keeps

No condition on the data is needed here: however badly the sizes of the pieces go wrong, the size of
the file never changes, every piece sits under its own offset, and the table work after a write
does not look at the file.
-/

namespace RetroShare.Ft

open RetroShare.Transition

namespace FileCreator

variable {PeerId : Type} [LinearOrder PeerId] {s s' : FileCreator PeerId}

/-- Every piece sits under its own offset. -/
def Keyed (s : FileCreator PeerId) : Prop :=
  ∀ (key : Nat) (chunk : FtChunk PeerId), s.mChunks[key]? = some chunk → chunk.offset = key

structure Framed (s s' : FileCreator PeerId) : Prop where
  mSize_eq : s'.mSize = s.mSize
  keyed : s.Keyed → s'.Keyed

theorem Framed.refl (s : FileCreator PeerId) : Framed s s := ⟨rfl, id⟩

theorem Framed.trans {s'' : FileCreator PeerId} (hfirst : Framed s s') (hsecond : Framed s' s'') :
    Framed s s'' :=
  ⟨hsecond.mSize_eq.trans hfirst.mSize_eq, hsecond.keyed ∘ hfirst.keyed⟩

theorem Framed.of_chunks (hsize : s'.mSize = s.mSize) (hchunks : s'.mChunks = s.mChunks) :
    Framed s s' := by
  refine ⟨hsize, fun hkeyed key chunk hmem => ?_⟩
  rw [hchunks] at hmem
  exact hkeyed key chunk hmem

theorem Framed.of_insert (value : FtChunk PeerId) (hsize : s'.mSize = s.mSize)
    (hchunks : s'.mChunks = s.mChunks.insert value.offset value) : Framed s s' := by
  refine ⟨hsize, fun hkeyed key chunk hmem => ?_⟩
  rw [hchunks] at hmem
  rcases lookup_insert_imp hmem with ⟨hkey, rfl⟩ | ⟨_, hmem⟩
  · exact hkey
  · exact hkeyed key chunk hmem

theorem Framed.of_erase {dropped : Nat} (hsize : s'.mSize = s.mSize)
    (hchunks : s'.mChunks = s.mChunks.erase dropped) : Framed s s' := by
  refine ⟨hsize, fun hkeyed key chunk hmem => ?_⟩
  rw [hchunks] at hmem
  exact hkeyed key chunk (lookup_erase_imp hmem).2

/-! ### The functions, one by one -/

theorem initializeFileAttrs_eq {opening : OpenOutcome} (hinit : s.initializeFileAttrs opening = some s') :
    ∃ file, s' = { s with fd := true, file := file } ∧ (s.fd = true ∨ opening ≠ .failed) := by
  unfold initializeFileAttrs at hinit
  split at hinit
  · next hfd =>
      cases hinit
      exact ⟨s.file, by rw [← hfd], Or.inl hfd⟩
  · cases opening with
    | opened =>
        cases hinit
        exact ⟨s.file, rfl, Or.inr nofun⟩
    | created =>
        cases hinit
        exact ⟨_, rfl, Or.inr nofun⟩
    | failed => exact absurd hinit nofun

theorem oldPiece_spec {peerId : PeerId} {now : Int} (entries : List (Nat × FtChunk PeerId)) :
    ∀ (m : ChunkMap PeerId) (result : ChunkMap PeerId × Option (Nat × FtChunk PeerId)),
      oldPiece peerId now entries m = some result →
      ChunkMap.SameDownload m result.1 ∧ ∀ entry, result.2 = some entry → entry ∈ entries := by
  induction entries with
  | nil =>
      intro m result hloop
      cases hloop
      exact ⟨ChunkMap.SameDownload.refl m, nofun⟩
  | cons entry rest ih =>
      obtain ⟨key, chunk⟩ := entry
      intro m result hloop
      have hskip : ∀ m', ChunkMap.SameDownload m m' → oldPiece peerId now rest m' = some result →
          ChunkMap.SameDownload m result.1 ∧
            ∀ entry, result.2 = some entry → entry ∈ (key, chunk) :: rest := by
        intro m' hsame hrest
        obtain ⟨hlater, hmem⟩ := ih m' result hrest
        exact ⟨hsame.trans hlater, fun entry hentry => List.mem_cons_of_mem _ (hmem entry hentry)⟩
      simp only [oldPiece] at hloop
      split at hloop
      · have hsame := ChunkMap.getSourceChunksInfo_same m peerId
        obtain ⟨has, _, hloop⟩ := Option.bind_eq_some_iff.mp hloop
        cases has with
        | false => exact hskip _ hsame hloop
        | true =>
            cases hloop
            refine ⟨hsame, fun entry hentry => ?_⟩
            cases hentry
            exact List.mem_cons_self
      · exact hskip m (ChunkMap.SameDownload.refl m) hloop

theorem provide_eq (s : FileCreator PeerId) (env : ReadEnv) (offset chunkSize : Nat) :
    ∃ fd, (s.provide env offset chunkSize).1 = { s with fd := fd } := by
  unfold provide
  split
  · exact ⟨s.fd, rfl⟩
  · refine ⟨true, ?_⟩
    simp only
    split_ifs <;> rfl

theorem getFileData_eq {env : ReadEnv} {offset chunkSize : Nat} {allowUnverified : Bool}
    {result : FileCreator PeerId × Option Nat}
    (hget : s.getFileData env offset chunkSize allowUnverified = some result) :
    ∃ fd, result.1 = { s with fd := fd } := by
  obtain ⟨available, _, hget⟩ := Option.bind_eq_some_iff.mp hget
  cases available with
  | true =>
      cases hget
      exact provide_eq s env offset chunkSize
  | false =>
      cases allowUnverified with
      | false =>
          cases hget
          exact ⟨s.fd, rfl⟩
      | true =>
          simp only [Bool.false_eq_true, if_false, if_true] at hget
          obtain ⟨outstanding, _, hget⟩ := Option.bind_eq_some_iff.mp hget
          cases hget
          split
          · exact provide_eq s env offset _
          · exact ⟨s.fd, rfl⟩

theorem verifyChunk_cases {opening : OpenOutcome} {chunkNumber : Nat}
    {readable sumMatches : Bool}
    (hverify : s.verifyChunk opening chunkNumber readable sumMatches = some s') :
    s' = s ∨ ∃ file m,
      s.chunkMap.setChunkCheckingResult chunkNumber (readable && sumMatches) = some m ∧
      s' = { s with fd := true, file := file, chunkMap := m } := by
  unfold verifyChunk at hverify
  split at hverify
  · exact Or.inl (Option.some.inj hverify).symm
  · next opened hinit =>
      obtain ⟨file, rfl, _⟩ := initializeFileAttrs_eq hinit
      obtain ⟨m, hcheck, hafter⟩ := Option.bind_eq_some_iff.mp hverify
      cases hafter
      exact Or.inr ⟨file, m, hcheck, rfl⟩

theorem incRef_eq {chunk : FtChunk PeerId} (hinc : s.incRef chunk = some s') :
    ∃ refs, s' = { s with refCnts := refs } := by
  obtain ⟨ref, _, hinc⟩ := Option.bind_eq_some_iff.mp hinc
  obtain ⟨count, _, hinc⟩ := Option.bind_eq_some_iff.mp hinc
  exact ⟨_, (Option.some.inj hinc).symm⟩

theorem decRef_eq {chunk : FtChunk PeerId} {last : Bool} (hdec : s.decRef chunk = some (s', last)) :
    ∃ refs, s' = { s with refCnts := refs } := by
  obtain ⟨ref, _, hdec⟩ := Option.bind_eq_some_iff.mp hdec
  obtain ⟨count, _, hdec⟩ := Option.bind_eq_some_iff.mp hdec
  split at hdec <;> cases hdec <;> exact ⟨_, rfl⟩

theorem shrinkPiece_framed {chunk : FtChunk PeerId} {chunkSize : Nat} {now : Int}
    {reported : Option Nat} (hshrink : s.shrinkPiece chunk chunkSize now = some (s', reported)) :
    Framed s s' := by
  unfold shrinkPiece at hshrink
  split at hshrink
  · cases hshrink
    exact Framed.of_insert _ rfl rfl
  · obtain ⟨⟨middle, last⟩, hdec, hshrink⟩ := Option.bind_eq_some_iff.mp hshrink
    obtain ⟨refs, rfl⟩ := decRef_eq hdec
    simp only at hshrink
    split at hshrink
    · obtain ⟨m, _, hshrink⟩ := Option.bind_eq_some_iff.mp hshrink
      cases hshrink
      exact Framed.of_chunks rfl rfl
    · cases hshrink
      exact Framed.of_chunks rfl rfl

theorem notifyReceived_framed {offset chunkSize : Nat} {now : Int} {reported : Option Nat}
    (hnotify : s.notifyReceived offset chunkSize now = some (s', reported)) : Framed s s' := by
  unfold notifyReceived at hnotify
  split at hnotify
  · have herased : Framed s { s with mChunks := s.mChunks.erase offset } := Framed.of_erase rfl rfl
    exact herased.trans (shrinkPiece_framed hnotify)
  · split at hnotify
    · cases hnotify
      exact Framed.refl s
    · next key whole hfound =>
        obtain ⟨middle, hinc, hshrink⟩ := Option.bind_eq_some_iff.mp hnotify
        obtain ⟨refs, rfl⟩ := incRef_eq hinc
        have hfirst : Framed s { s with
            mChunks := s.mChunks.insert whole.offset
              { whole with size := Word.sub 64 offset whole.offset }
            refCnts := refs } :=
          Framed.of_insert { whole with size := Word.sub 64 offset whole.offset } rfl rfl
        exact hfirst.trans (shrinkPiece_framed hshrink)

theorem addFileData_framed {env : WriteEnv} {offset chunkSize : Nat} {data : Nat → UInt8}
    {stored : Bool} {reported : Option Nat}
    (hadd : s.addFileData env offset chunkSize data = some (s', stored, reported)) :
    Framed s s' := by
  unfold addFileData at hadd
  split at hadd
  · cases hadd
    exact Framed.refl s
  · split at hadd
    · cases hadd
      exact Framed.refl s
    · next opened hinit =>
        have hopened : Framed s opened := by
          obtain ⟨file, rfl, _⟩ := initializeFileAttrs_eq hinit
          exact Framed.of_chunks rfl rfl
        simp only at hadd
        split at hadd
        · cases hadd
          exact hopened
        · split at hadd
          · cases hadd
            exact hopened.trans (Framed.of_chunks rfl rfl)
          · obtain ⟨⟨middle, slice⟩, hnotify, hadd⟩ := Option.bind_eq_some_iff.mp hadd
            cases hadd
            have hwritten : ∀ file, Framed opened { opened with file := file } :=
              fun _ => Framed.of_chunks rfl rfl
            exact hopened.trans ((hwritten _).trans
              ((notifyReceived_framed hnotify).trans (Framed.of_chunks rfl rfl)))

theorem removePieces_framed {id : Nat} (entries : List (Nat × FtChunk PeerId)) :
    ∀ s s' : FileCreator PeerId, removePieces id entries s = some s' → Framed s s' := by
  induction entries with
  | nil =>
      intro s s' hloop
      cases hloop
      exact Framed.refl s
  | cons entry rest ih =>
      intro s s' hloop
      unfold removePieces at hloop
      split at hloop
      · obtain ⟨⟨middle, last⟩, hdec, hloop⟩ := Option.bind_eq_some_iff.mp hloop
        obtain ⟨refs, rfl⟩ := decRef_eq hdec
        have herased : Framed s { ({ s with refCnts := refs } : FileCreator PeerId).decPeer
            entry.2.peerId with mChunks := s.mChunks.erase entry.1 } := Framed.of_erase rfl rfl
        exact herased.trans (ih _ s' hloop)
      · exact ih s s' hloop

theorem removeSlices_framed (ids : List Nat) :
    ∀ s s' : FileCreator PeerId, removeSlices ids s = some s' → Framed s s' := by
  induction ids with
  | nil =>
      intro s s' hloop
      cases hloop
      exact Framed.refl s
  | cons id rest ih =>
      intro s s' hloop
      obtain ⟨middle, hpieces, hloop⟩ := Option.bind_eq_some_iff.mp hloop
      exact (removePieces_framed _ s middle hpieces).trans (ih middle s' hloop)

theorem getMissingChunk_framed {peerId : PeerId} {sizeHint : Nat} {now : Int} {rand : Nat}
    {request : Option (Nat × Nat)} {mapNeeded : Bool}
    (hget : s.getMissingChunk peerId sizeHint now rand = some (s', request, mapNeeded)) :
    Framed s s' := by
  simp only [getMissingChunk] at hget
  obtain ⟨⟨m, old⟩, hold, hget⟩ := Option.bind_eq_some_iff.mp hget
  obtain ⟨_, hfrom⟩ := oldPiece_spec _ _ _ hold
  cases old with
  | some entry =>
      obtain ⟨key, piece⟩ := entry
      cases hget
      refine ⟨rfl, fun hkeyed k chunk hmem => ?_⟩
      rcases lookup_insert_imp hmem with ⟨rfl, rfl⟩ | ⟨_, hmem⟩
      · exact hkeyed _ piece ((OrderedMap.mem_toList _).mp (hfrom _ rfl))
      · exact hkeyed k chunk hmem
  | none =>
      simp only at hget
      split at hget
      · cases hget
        exact Framed.of_chunks rfl rfl
      · obtain ⟨⟨m', slice, needed⟩, _, hget⟩ := Option.bind_eq_some_iff.mp hget
        cases slice with
        | none =>
            obtain ⟨⟨m'', asked⟩, _, hget⟩ := Option.bind_eq_some_iff.mp hget
            cases hget
            exact Framed.of_chunks rfl rfl
        | some slice =>
            cases hget
            exact Framed.of_insert { slice with refCnt := some s.nextRef } rfl rfl

/-- **No operation** changes the size of the file or moves a piece away from its offset. -/
theorem step_framed {op : FileCreatorOp PeerId} (hstep : s.step op = some s') : Framed s s' := by
  cases op with
  | getMissingChunk peerId sizeHint now rand =>
      obtain ⟨result, hget, rfl⟩ := Option.map_eq_some_iff.mp hstep
      exact getMissingChunk_framed hget
  | addFileData env offset chunkSize data =>
      obtain ⟨result, hadd, rfl⟩ := Option.map_eq_some_iff.mp hstep
      exact addFileData_framed hadd
  | removeInactiveChunks now =>
      obtain ⟨⟨m, toRemove⟩, _, hslices⟩ := Option.bind_eq_some_iff.mp hstep
      have hmap : Framed s { s with chunkMap := m } := Framed.of_chunks rfl rfl
      exact hmap.trans (removeSlices_framed toRemove _ s' hslices)
  | getFileData env offset chunkSize allowUnverified =>
      obtain ⟨result, hget, rfl⟩ := Option.map_eq_some_iff.mp hstep
      obtain ⟨fd, hafter⟩ := getFileData_eq hget
      rw [hafter]
      exact Framed.of_chunks rfl rfl
  | verifyChunk opening chunkNumber readable sumMatches =>
      rcases verifyChunk_cases hstep with rfl | ⟨file, m, _, rfl⟩
      · exact Framed.refl s'
      · exact Framed.of_chunks rfl rfl
  | setSourceMap peerId cmap now =>
      obtain ⟨m, _, hafter⟩ := Option.bind_eq_some_iff.mp hstep
      cases hafter
      exact Framed.of_chunks rfl rfl
  | setAvailabilityMap cmap =>
      obtain ⟨m, _, hafter⟩ := Option.bind_eq_some_iff.mp hstep
      cases hafter
      exact Framed.of_chunks rfl rfl
  | forceCheck =>
      obtain ⟨m, _, hafter⟩ := Option.bind_eq_some_iff.mp hstep
      cases hafter
      exact Framed.of_chunks rfl rfl
  | removeFileSource _ | sourceIsComplete _ | setChunkStrategy _ | getChunksToCheck | closeFile =>
      cases hstep
      exact Framed.of_chunks rfl rfl

theorem keyed_new (size : Nat) (availability : Bool) (file : PartialFile) (now : Int) :
    (new size availability file now : FileCreator PeerId).Keyed := by
  intro key chunk hmem
  simp [new] at hmem

/-- In every run whatsoever, the file keeps its size and the pieces their keys. -/
theorem reaches_framed {allowed : FileCreator PeerId → FileCreatorOp PeerId → Prop} {size : Nat}
    {availability : Bool} {file : PartialFile} {lastRecvTime : Int}
    (hreach : Reaches step allowed (new size availability file lastRecvTime) s) :
    s.mSize = size ∧ s.Keyed := by
  refine hreach.invariant (fun s => s.mSize = size ∧ s.Keyed) ?_
    ⟨rfl, keyed_new size availability file lastRecvTime⟩
  rintro before op after ⟨hsize, hkeyed⟩ _ hstep
  have hframed := step_framed hstep
  exact ⟨hframed.mSize_eq.trans hsize, hframed.keyed hkeyed⟩

end FileCreator

namespace LedgeredCreator

variable {PeerId : Type} [LinearOrder PeerId] {s s' : LedgeredCreator PeerId}

/-- The ghosts follow the program. -/
theorem step_creator {op : FileCreatorOp PeerId} (hstep : s.step op = some s') :
    s.creator.step op = some s'.creator := by
  cases op with
  | getMissingChunk peerId sizeHint now rand =>
      obtain ⟨result, hget, rfl⟩ := Option.map_eq_some_iff.mp hstep
      exact Option.map_eq_some_iff.mpr ⟨result, hget, rfl⟩
  | addFileData env offset chunkSize data =>
      obtain ⟨result, hadd, rfl⟩ := Option.map_eq_some_iff.mp hstep
      exact Option.map_eq_some_iff.mpr ⟨result, hadd, rfl⟩
  | removeFileSource _ | sourceIsComplete _ | setChunkStrategy _ | getChunksToCheck | closeFile =>
      cases hstep
      rfl
  | _ =>
      obtain ⟨creator, hop, rfl⟩ := Option.map_eq_some_iff.mp hstep
      exact hop

/-- Without its ghosts, a run is a run of the program. -/
theorem reaches_creator {allowed : LedgeredCreator PeerId → FileCreatorOp PeerId → Prop} {size : Nat}
    {availability : Bool} {file : PartialFile} {lastRecvTime : Int}
    (hreach : Reaches step allowed (new size availability file lastRecvTime) s) :
    Reaches FileCreator.step (fun _ _ => True) (.new size availability file lastRecvTime)
      s.creator := by
  refine hreach.invariant (fun s => Reaches FileCreator.step (fun _ _ => True)
    (.new size availability file lastRecvTime) s.creator) ?_ (Reaches.refl _)
  intro before op after hbefore _ hstep
  exact hbefore.tail trivial (step_creator hstep)

end LedgeredCreator

end RetroShare.Ft
