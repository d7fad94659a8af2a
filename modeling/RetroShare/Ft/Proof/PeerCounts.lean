import RetroShare.Foundation.Tally
import RetroShare.Ft.Proof.PendingTable

/-!
# The counter of every peer

`mChunksPerPeer` counts the slices that a peer was asked for and that have not arrived. A slice is
counted when it is handed out, whatever becomes of its pieces, and taken off when its last piece
arrives. When it is dropped, it is taken off once for each of its pieces.
-/

namespace RetroShare.Ft

open RetroShare.Extent RetroShare.Word RetroShare.Transition

namespace FileCreator

variable {PeerId : Type} [LinearOrder PeerId] {s s' : FileCreator PeerId}

/-- The identifiers of the slices that are still expected from a peer. -/
def unfinishedSlices (s : FileCreator PeerId) (peerId : PeerId) : Finset Nat :=
  ((s.mChunks.toList.filter (·.2.peerId = peerId)).map (·.2.id)).toFinset

/-- `mChunksPerPeer[peer_id].cnt` -/
def peerCount (s : FileCreator PeerId) (peerId : PeerId) : Nat := s.mChunksPerPeer.getD peerId 0

/-- The slice that a piece belongs to, and the peer it is expected from. -/
def sliceOf (chunk : FtChunk PeerId) : Nat × PeerId := (chunk.id, chunk.peerId)

def slices (s : FileCreator PeerId) : Finset (Nat × PeerId) := OrderedMap.labels sliceOf s.mChunks

/-- Data that begins where a piece begins is not longer than the piece, a slice that is dropped is in
one piece, and the map of chunks is only overwritten while no chunk is being downloaded. -/
def CountsSlices (s : FileCreator PeerId) : FileCreatorOp PeerId → Prop
  | .addFileData env offset chunkSize _ =>
      s.Stores env offset chunkSize → ∀ chunk, s.mChunks[offset.1]? = some chunk →
        s.clampedSize offset chunkSize ≤ chunk.size
  | .removeInactiveChunks now =>
      ∀ (n : Nat) (info : ChunkDownloadInfo PeerId),
        s.chunkMap.slicesToDownload[n]? = some info → ChunkMap.inactive info now = true →
        ∀ id ∈ info.slices.keys, pieceCount s.mChunks id ≤ 1
  | .setAvailabilityMap cmap => s.chunkMap.Permits (.setAvailabilityMap cmap)
  | .forceCheck => s.chunkMap.Permits .forceCheck
  | _ => True

/-- A slice is expected from one peer, every peer's counter is the number of its slices, and no peer has
more than the maximum. -/
structure Counts (s : FileCreator PeerId) : Prop where
  onePeer : ∀ a ∈ s.slices, ∀ b ∈ s.slices, a.1 = b.1 → a = b
  tally : Tally Prod.snd s.slices s.peerCount
  bounded : ∀ peerId, s.peerCount peerId ≤ maxFtchunksPerPeer

theorem peerCount_eq_card (hcounts : s.Counts) (peerId : PeerId) :
    s.peerCount peerId = (s.unfinishedSlices peerId).card := by
  have himage : s.unfinishedSlices peerId =
      (s.slices.filter (Prod.snd · = peerId)).image Prod.fst := by
    ext id
    simp only [unfinishedSlices, slices, OrderedMap.labels, sliceOf, List.mem_toFinset, List.mem_map,
      List.mem_filter, Finset.mem_image, Finset.mem_filter]
    constructor
    · rintro ⟨entry, ⟨hentry, hpeer⟩, rfl⟩
      exact ⟨_, ⟨⟨entry, hentry, rfl⟩, of_decide_eq_true hpeer⟩, rfl⟩
    · rintro ⟨_, ⟨⟨entry, hentry, rfl⟩, hpeer⟩, rfl⟩
      exact ⟨entry, ⟨hentry, decide_eq_true hpeer⟩, rfl⟩
  rw [himage, Finset.card_image_of_injOn, hcounts.tally]
  intro a ha b hb hid
  exact hcounts.onePeer a (Finset.mem_filter.mp ha).1 b (Finset.mem_filter.mp hb).1 hid

/-! ### The three ways in which the counters move -/

theorem Counts.congr (hcounts : s.Counts) (hslices : s'.slices = s.slices)
    (hcount : ∀ peerId, s'.peerCount peerId = s.peerCount peerId) : s'.Counts where
  onePeer := by
    rw [hslices]
    exact hcounts.onePeer
  tally := by
    intro peerId
    rw [hslices, hcount]
    exact hcounts.tally peerId
  bounded := fun peerId => (hcount peerId).trans_le (hcounts.bounded peerId)

theorem peerCount_insert {counts : OrderedMap PeerId Nat} {peerId : PeerId} {count : Nat}
    (hcounts : s'.mChunksPerPeer = counts.insert peerId count) :
    s'.peerCount = Function.update (fun other => counts.getD other 0) peerId count := by
  funext other
  rw [peerCount, hcounts, Function.update_apply, Std.ExtTreeMap.getD_insert]
  exact if_congr (compare_eq_iff_eq.trans eq_comm) rfl rfl

/-- A slice with a new identifier is handed out. -/
theorem Counts.handOut (hcounts : s.Counts) {slice : Nat × PeerId}
    (hfresh : ∀ other ∈ s.slices, other.1 ≠ slice.1) (hslices : s'.slices = insert slice s.slices)
    (hroom : s.peerCount slice.2 < maxFtchunksPerPeer) (hcount : s'.peerCount =
      Function.update s.peerCount slice.2 (s.peerCount slice.2 + 1)) : s'.Counts where
  onePeer := by
    intro a ha b hb hid
    rw [hslices] at ha hb
    rcases Finset.mem_insert.mp ha with rfl | hold
    · rcases Finset.mem_insert.mp hb with rfl | hother
      · rfl
      · exact absurd hid.symm (hfresh b hother)
    · rcases Finset.mem_insert.mp hb with rfl | hother
      · exact absurd hid (hfresh a hold)
      · exact hcounts.onePeer a hold b hother hid
  tally := by
    rw [hslices, hcount]
    exact hcounts.tally.insert fun hmem => hfresh slice hmem rfl
  bounded := by
    intro peerId
    rw [hcount, Function.update_apply]
    split
    · exact hroom
    · exact hcounts.bounded peerId

/-- The last piece of a slice leaves, and the counter goes down by one. -/
theorem Counts.takeOff (hcounts : s.Counts) {slice : Nat × PeerId} (hmem : slice ∈ s.slices)
    (hslices : s'.slices = s.slices.erase slice)
    (hcount : s'.peerCount =
      Function.update s.peerCount slice.2 (sub 32 (s.peerCount slice.2) 1)) : s'.Counts := by
  have hbounded := hcounts.bounded slice.2
  have hsmall : maxFtchunksPerPeer < 2 ^ 32 := by decide
  rw [sub_of_le (hcounts.tally.pos hmem) (lt_of_le_of_lt hbounded hsmall)] at hcount
  constructor
  case onePeer =>
    intro a ha b hb hid
    rw [hslices] at ha hb
    exact hcounts.onePeer a (Finset.mem_of_mem_erase ha) b (Finset.mem_of_mem_erase hb) hid
  case tally =>
    rw [hslices, hcount]
    exact hcounts.tally.erase hmem
  case bounded =>
    intro peerId
    rw [hcount, Function.update_apply]
    split
    · omega
    · exact hcounts.bounded peerId

/-! ### Asking for data -/

theorem getDataChunk_peerId {m m' : ChunkMap PeerId} (hcons : m.Consistent) {peerId : PeerId}
    {sizeHint : SizeHint} {now : Int} {rand : Nat} {slice : FtChunk PeerId} {mapNeeded : Option Bool}
    (hget : m.getDataChunk peerId sizeHint now rand = some (m', some slice, mapNeeded)) :
    slice.peerId = peerId := by
  have hcut : ∀ {middle : ChunkMap PeerId} {feeder : PeerId},
      middle.cutSlice feeder peerId sizeHint now = some (m', slice) → slice.peerId = peerId := by
    intro middle feeder hcut
    obtain ⟨feed, _, hcut⟩ := Option.bind_eq_some_iff.mp hcut
    cases hcut
    rfl
  rcases hcons.getDataChunk_cases hget with ⟨_, hnone⟩ | ⟨_, _, _, _, hsome, hcuts⟩ |
    ⟨_, _, _, _, hsome, _, _, _, hcuts⟩
  · cases hnone
  · cases hsome
    exact hcut hcuts
  · cases hsome
    exact hcut hcuts

/-- A slice that is not pending has no piece. -/
theorem Tabled.id_ne_of_new (htabled : s.Tabled) {id : Nat} (hnew : s.chunkMap.pendingSize id = none) :
    ∀ slice ∈ s.slices, slice.1 ≠ id := by
  rintro slice hmem rfl
  obtain ⟨key, chunk, hlookup, rfl⟩ := (OrderedMap.mem_labels sliceOf).mp hmem
  obtain ⟨n, hpending, _⟩ := htabled.pieces.inside hlookup
  rw [sliceOf] at hnew
  rw [hnew] at hpending
  cases hpending

theorem Tabled.key_new (htabled : s.Tabled) {slice : FtChunk PeerId} {m : ChunkMap PeerId}
    (hcons : m.Consistent)
    (hpending : ∀ id, m.pendingSize id =
      if slice.offset = id then some slice.size else s.chunkMap.pendingSize id)
    (hnew : s.chunkMap.pendingSize slice.offset = none) : s.mChunks[slice.offset]? = none := by
  rw [Option.eq_none_iff_forall_ne_some]
  intro chunk hlookup
  obtain ⟨n, hn, hstart, hend⟩ := htabled.pieces.inside hlookup
  have hchunk := htabled.pieces.packed.positive hlookup
  have hne : slice.offset ≠ chunk.id := by
    intro hsame
    rw [← hsame, hnew] at hn
    cases hn
  have hself : m.pendingSize slice.offset = some slice.size := by rw [hpending, if_pos rfl]
  have hother : m.pendingSize chunk.id = some n := by rw [hpending, if_neg hne, hn]
  have hdisjoint := hcons.pending_disjoint hother hself (by omega)
  omega

theorem Counts.getMissingChunk (hcounts : s.Counts) (htabled : s.Tabled) {peerId : PeerId}
    {sizeHint : SizeHint} {now : Int} {rand : Nat} {request : Option (Nat × Nat)} {mapNeeded : Bool}
    (hget : s.getMissingChunk peerId sizeHint now rand = some (s', request, mapNeeded)) :
    s'.Counts := by
  simp only [FileCreator.getMissingChunk] at hget
  obtain ⟨⟨m, old⟩, hold, hget⟩ := Option.bind_eq_some_iff.mp hget
  obtain ⟨hsame, hfrom⟩ := oldPiece_spec _ _ _ hold
  have hkept : ∀ {mChunks : OrderedMap PeerId Nat},
      mChunks = s.mChunksPerPeer.insert peerId (s.mChunksPerPeer.getD peerId 0) →
      ∀ other, mChunks.getD other 0 = s.peerCount other := by
    rintro _ rfl other
    rw [Std.ExtTreeMap.getD_insert]
    split
    · next heq =>
      rw [compare_eq_iff_eq.mp heq]
      rfl
    · rfl
  cases old with
  | some entry =>
      obtain ⟨key, chunk⟩ := entry
      have hmem := (OrderedMap.mem_toList _).mp (hfrom _ rfl)
      cases hget
      exact hcounts.congr (OrderedMap.labels_insert_of_same sliceOf hmem rfl) fun _ => rfl
  | none =>
      simp only at hget
      split at hget
      · cases hget
        exact hcounts.congr rfl (hkept rfl)
      · next hroom =>
        obtain ⟨⟨m', slice, needed⟩, hdata, hget⟩ := Option.bind_eq_some_iff.mp hget
        have hcons := hsame.consistent htabled.consistent
        cases slice with
        | none =>
            obtain ⟨⟨m'', asked⟩, _, hget⟩ := Option.bind_eq_some_iff.mp hget
            cases hget
            exact hcounts.congr rfl (hkept rfl)
        | some slice =>
            obtain ⟨hid, _, hnew, hpending⟩ := hcons.getDataChunk_pending hdata
            rw [hsame.pendingSize_eq] at hnew hpending
            have hcons' := hcons.step
              (show ChunkMap.Permits _ (.getDataChunk peerId sizeHint now rand) from trivial)
              (Option.map_eq_some_iff.mpr ⟨_, hdata, rfl⟩)
            have hpeer := getDataChunk_peerId hcons hdata
            have hcount : s.peerCount peerId < maxFtchunksPerPeer := Nat.lt_of_not_le hroom
            have hlimit : maxFtchunksPerPeer = 20 := rfl
            cases hget
            have hfresh : ∀ other ∈ s.slices, other.1 ≠ ((slice.offset, peerId) : Nat × PeerId).1 :=
              htabled.id_ne_of_new hnew
            refine hcounts.handOut hfresh ?_ ?_ ?_
            · refine (OrderedMap.labels_insert_of_absent sliceOf _
                (htabled.key_new hcons' hpending hnew)).trans ?_
              rw [sliceOf, hid, hpeer]
              rfl
            · exact hcount
            · rw [peerCount_insert rfl, add_of_lt (by unfold peerCount at hcount; omega)]
              exact congrArg (Function.update · peerId _) (funext (hkept rfl))

/-! ### Receiving data -/

omit [LinearOrder PeerId] in
/-- A slice with more than one piece has another one. -/
theorem exists_other_piece {table : OrderedMap Nat (FtChunk PeerId)} {key : Nat}
    {chunk : FtChunk PeerId} (hmem : table[key]? = some chunk)
    (hcount : pieceCount table chunk.id ≠ 1) : ∃ (key' : Nat) (other : FtChunk PeerId),
      (table.erase key)[key']? = some other ∧ other.id = chunk.id := by
  have herase := pieceCount_erase hmem chunk.id
  rw [if_pos rfl] at herase
  have hmore : pieceCount (table.erase key) chunk.id ≠ 0 := by omega
  rw [pieceCount, Ne, OrderedMap.sumOver_eq_zero] at hmore
  push Not at hmore
  obtain ⟨key', other, hother, hid⟩ := hmore
  refine ⟨key', other, hother, ?_⟩
  by_contra hne
  exact hid (if_neg hne)

omit [LinearOrder PeerId] in
theorem no_other_piece {table : OrderedMap Nat (FtChunk PeerId)} {key : Nat} {chunk : FtChunk PeerId}
    (hmem : table[key]? = some chunk) (hcount : pieceCount table chunk.id ≤ 1) {key' : Nat}
    {other : FtChunk PeerId} (hother : (table.erase key)[key']? = some other) :
    other.id ≠ chunk.id := by
  intro hid
  have herase := pieceCount_erase hmem chunk.id
  rw [if_pos rfl] at herase
  have hpos := pieceCount_pos hother
  rw [hid] at hpos
  omega

theorem Counts.eq_of_id (hcounts : s.Counts) {key key' : Nat} {chunk other : FtChunk PeerId}
    (hmem : s.mChunks[key]? = some chunk) (hother : s.mChunks[key']? = some other)
    (hid : other.id = chunk.id) : sliceOf other = sliceOf chunk :=
  hcounts.onePeer _ (OrderedMap.label_mem sliceOf hother) _ (OrderedMap.label_mem sliceOf hmem) hid

theorem decRef_cases {chunk : FtChunk PeerId} {last : Bool}
    (hdec : s.decRef chunk = some (s', last)) :
    ∃ ref count refs, chunk.refCnt = some ref ∧ s.refCnts[ref]? = some count ∧
      (last = true ↔ count - 1 = 0) ∧ s' = { s with refCnts := refs } := by
  obtain ⟨ref, href, hdec⟩ := Option.bind_eq_some_iff.mp hdec
  obtain ⟨count, hheap, hdec⟩ := Option.bind_eq_some_iff.mp hdec
  split at hdec
  · next hlast =>
    cases hdec
    exact ⟨ref, count, _, href, hheap, iff_of_true rfl hlast, rfl⟩
  · next hmore =>
    cases hdec
    exact ⟨ref, count, _, href, hheap, iff_of_false nofun hmore, rfl⟩

theorem Counts.shrinkPiece (hcounts : s.Counts) (htabled : s.Tabled) {key size : Nat}
    {chunk : FtChunk PeerId} {now : Int} {reported : Option Nat}
    (hmem : s.mChunks[key]? = some chunk) (hle : size ≤ chunk.size) (hpos : 0 < size)
    (hshrink : ({ s with mChunks := s.mChunks.erase key } : FileCreator PeerId).shrinkPiece
      chunk size now = some (s', reported)) : s'.Counts := by
  have hupper := htabled.pieces.packed.upper hmem
  have hsmall := htabled.mSize_lt
  have hkey := htabled.pieces.keyed hmem
  unfold FileCreator.shrinkPiece at hshrink
  split at hshrink
  · next hne =>
    have hlt : size < chunk.size := lt_of_le_of_ne hle (Ne.symm hne)
    cases hshrink
    refine hcounts.congr ?_ fun _ => rfl
    have habsent : (s.mChunks.erase key)[add 64 chunk.offset size]? = none := by
      rw [add_of_lt (by omega), hkey, OrderedMap.lookup_erase_ne _ (by omega),
        Option.eq_none_iff_forall_ne_some]
      intro other hother
      have hseparated := htabled.pieces.packed.separated hmem hother (by omega)
      omega
    rw [slices, slices, OrderedMap.labels_eq_insert_erase sliceOf hmem]
    exact OrderedMap.labels_insert_of_absent sliceOf _ habsent
  · obtain ⟨⟨middle, last⟩, hdec, hshrink⟩ := Option.bind_eq_some_iff.mp hshrink
    obtain ⟨ref, count, refs, href, hheap, hlast, rfl⟩ := decRef_cases hdec
    obtain ⟨ref', href', _, hcounter⟩ := htabled.pieces.counted hmem
    obtain rfl : ref = ref' := Option.some.inj (href.symm.trans href')
    obtain rfl : count = pieceCount s.mChunks chunk.id := Option.some.inj (hheap.symm.trans hcounter)
    simp only at hshrink
    split at hshrink
    · next hdone =>
      obtain ⟨m, _, hshrink⟩ := Option.bind_eq_some_iff.mp hshrink
      cases hshrink
      have hone := hlast.mp hdone
      refine hcounts.takeOff (OrderedMap.label_mem sliceOf hmem) ?_ (peerCount_insert rfl)
      refine OrderedMap.labels_erase_of_only sliceOf hmem fun key' other hother hsame => ?_
      exact no_other_piece hmem (by omega) hother (congrArg Prod.fst hsame)
    · next hmore =>
      cases hshrink
      refine hcounts.congr ?_ fun _ => rfl
      have hcount : pieceCount s.mChunks chunk.id ≠ 1 := fun hone => hmore (hlast.mpr (by omega))
      obtain ⟨key', other, hother, hid⟩ := exists_other_piece hmem hcount
      refine OrderedMap.labels_erase_of_other sliceOf hmem hother ?_
      exact hcounts.eq_of_id hmem (lookup_erase_imp hother).2 hid

/-- Data that does not run over the end of the piece it begins with moves the counters right. -/
theorem Counts.notifyReceived (hcounts : s.Counts) (htabled : s.Tabled) {offset size : Nat}
    {now : Int} {reported : Option Nat} (hpos : 0 < size) (hend : offset + size < 2 ^ 64)
    (hfits : ∀ chunk, s.mChunks[offset]? = some chunk → size ≤ chunk.size)
    (hnotify : s.notifyReceived offset size now = some (s', reported)) :
    s'.Tabled ∧ s'.Counts := by
  unfold FileCreator.notifyReceived at hnotify
  split at hnotify
  · next chunk hmem =>
    have hle := hfits chunk hmem
    exact ⟨(htabled.shrinkPiece_spec hmem hpos hle hnotify).tabled,
      hcounts.shrinkPiece htabled hmem hle hpos hnotify⟩
  · split at hnotify
    · cases hnotify
      exact ⟨htabled, hcounts⟩
    · next key whole hfound =>
      have hmem := (OrderedMap.mem_toList _).mp (List.mem_of_find?_eq_some hfound)
      have hsplits : splits offset size whole = true :=
        List.find?_some (p := fun entry : Nat × FtChunk PeerId => splits offset size entry.2) hfound
      obtain ⟨hlow, hhigh⟩ := (htabled.splits_iff hmem hend).mp hsplits
      obtain rfl := htabled.pieces.keyed hmem
      have hupper := htabled.pieces.packed.upper hmem
      have hlt := htabled.mSize_lt
      simp only at hnotify
      rw [sub_of_le hlow.le (by omega), sub_of_le (by omega) (by omega)] at hnotify
      obtain ⟨middle, hinc, hshrink⟩ := Option.bind_eq_some_iff.mp hnotify
      obtain ⟨ref, href, hinc⟩ := Option.bind_eq_some_iff.mp hinc
      obtain ⟨count, hheap, hinc⟩ := Option.bind_eq_some_iff.mp hinc
      cases hinc
      simp only at href hheap
      obtain ⟨hsplit, hfree, _⟩ := htabled.pieces.split hmem hlow (by omega) href hheap
      -- As in the table, the second half counts as stored and taken off again.
      generalize hsecond : ({ whole with
        offset := offset
        size := whole.size - (offset - whole.offset) } : FtChunk PeerId) = second at *
      have hsize : second.size = whole.size - (offset - whole.offset) := by rw [← hsecond]
      have hlabel : sliceOf second = sliceOf whole := by
        rw [← hsecond]
        rfl
      generalize hfirst : ({ whole with size := offset - whole.offset } : FtChunk PeerId) = first at *
      have hlabel' : sliceOf first = sliceOf whole := by
        rw [← hfirst]
        rfl
      have hstored : ({ s with
          mChunks := (s.mChunks.insert whole.offset first).insert offset second
          refCnts := s.refCnts.insert ref (count + 1) } : FileCreator PeerId).Tabled :=
        ⟨htabled.consistent, htabled.fileSize_eq, hsplit⟩
      have hsame : OrderedMap.labels sliceOf
          ((s.mChunks.insert whole.offset first).insert offset second) = s.slices := by
        rw [OrderedMap.labels_insert_of_absent sliceOf _ hfree,
          OrderedMap.labels_insert_of_same sliceOf hmem hlabel', hlabel]
        exact Finset.insert_eq_of_mem (OrderedMap.label_mem sliceOf hmem)
      have hcounted : ({ s with
          mChunks := (s.mChunks.insert whole.offset first).insert offset second
          refCnts := s.refCnts.insert ref (count + 1) } : FileCreator PeerId).Counts :=
        hcounts.congr hsame fun _ => rfl
      have hlookup := OrderedMap.lookup_insert_self (s.mChunks.insert whole.offset first) offset second
      have hback := OrderedMap.erase_insert_of_absent (s.mChunks.insert whole.offset first) second hfree
      rw [← hback] at hshrink
      exact ⟨(hstored.shrinkPiece_spec hlookup hpos (by omega) hshrink).tabled,
        hcounted.shrinkPiece hstored hlookup (by omega) hpos hshrink⟩

theorem Counts.addFileData (hcounts : s.Counts) (htabled : s.Tabled) {env : WriteEnv}
    {offset chunkSize : Nat} {data : Nat → UInt8} {stored : Bool} {reported : Option Nat}
    (hsize : chunkSize < 2 ^ 32)
    (hfits : s.Stores env offset chunkSize → ∀ chunk, s.mChunks[offset]? = some chunk →
      s.clampedSize offset chunkSize ≤ chunk.size)
    (hadd : s.addFileData env offset chunkSize data = some (s', stored, reported)) :
    s'.Tabled ∧ s'.Counts := by
  rcases addFileData_cases hadd with ⟨_, _, _, fd, file, rfl⟩ |
    ⟨hstores, _, file, middle, fd, hnotify, rfl⟩
  · exact ⟨htabled.congr rfl rfl rfl rfl rfl, hcounts.congr rfl fun _ => rfl⟩
  · have hclamped : s.clampedSize offset chunkSize < 2 ^ 32 := clampedSize_lt hsize
    have hopened : ({ s with fd := true, file := file } : FileCreator PeerId).Tabled :=
      htabled.congr rfl rfl rfl rfl rfl
    have hcounted : ({ s with fd := true, file := file } : FileCreator PeerId).Counts :=
      hcounts.congr rfl fun _ => rfl
    have hwhole := hfits hstores
    obtain ⟨_, _, hoffset, hpos, _⟩ := hstores
    obtain ⟨hafter, hcountsAfter⟩ :=
      hcounted.notifyReceived hopened hpos (by omega) hwhole hnotify
    exact ⟨hafter.congr rfl rfl rfl rfl rfl, hcountsAfter.congr rfl fun _ => rfl⟩

/-! ### Dropping slices -/

/-- Only slices of inactive chunks are dropped. -/
theorem dropInactive_removed {now : Int} (entries : List (Nat × ChunkDownloadInfo PeerId)) :
    ∀ (m : ChunkMap PeerId) (toRemove : List Nat) (result : ChunkMap PeerId × List Nat),
      ChunkMap.dropInactive now entries m toRemove = some result →
      ∀ id ∈ result.2, id ∈ toRemove ∨
        ∃ entry ∈ entries, ChunkMap.inactive entry.2 now = true ∧ id ∈ entry.2.slices.keys := by
  induction entries with
  | nil =>
      intro m toRemove result hloop id hid
      cases hloop
      exact .inl hid
  | cons entry rest ih =>
      obtain ⟨n, info⟩ := entry
      intro m toRemove result hloop id hid
      simp only [ChunkMap.dropInactive] at hloop
      split at hloop
      · next hinactive =>
        obtain ⟨after, _, hloop⟩ := Option.bind_eq_some_iff.mp hloop
        rcases ih after _ result hloop id hid with hbefore | ⟨entry, hentry, hold⟩
        · rcases List.mem_append.mp hbefore with hbefore | hkey
          · exact .inl hbefore
          · exact .inr ⟨(n, info), List.mem_cons_self, hinactive, hkey⟩
        · exact .inr ⟨entry, List.mem_cons_of_mem _ hentry, hold⟩
      · rcases ih m _ result hloop id hid with hbefore | ⟨entry, hentry, hold⟩
        · exact .inl hbefore
        · exact .inr ⟨entry, List.mem_cons_of_mem _ hentry, hold⟩

/-- Every piece of the one table is in the other. -/
def Subtable (s s' : FileCreator PeerId) : Prop :=
  ∀ (key : Nat) (chunk : FtChunk PeerId), s'.mChunks[key]? = some chunk →
    s.mChunks[key]? = some chunk

/-- The slice is in one piece. -/
def Whole (s : FileCreator PeerId) (id : Nat) : Prop :=
  ∀ (key key' : Nat) (chunk other : FtChunk PeerId), s.mChunks[key]? = some chunk →
    s.mChunks[key']? = some other → chunk.id = id → other.id = id → key = key'

theorem whole_of_pieceCount {id : Nat} (hcount : pieceCount s.mChunks id ≤ 1) : s.Whole id := by
  rintro key key' chunk other hmem hother rfl hid
  by_contra hne
  have hkept : (s.mChunks.erase key)[key']? = some other := by
    rw [OrderedMap.lookup_erase_ne _ hne, hother]
  exact no_other_piece hmem hcount hkept hid

theorem Whole.mono {id : Nat} (hwhole : s.Whole id) (hsub : Subtable s s') : s'.Whole id :=
  fun key key' chunk other hmem hother =>
    hwhole key key' chunk other (hsub key chunk hmem) (hsub key' other hother)

/-- A slice that is in one piece is taken off once. -/
theorem Counts.removePieces {id : Nat} (entries : List (Nat × FtChunk PeerId)) :
    ∀ s s' : FileCreator PeerId, s.Counts → s.Whole id → (entries.map Prod.fst).Nodup →
      (∀ entry ∈ entries, s.mChunks[entry.1]? = some entry.2) →
      FileCreator.removePieces id entries s = some s' → s'.Counts ∧ Subtable s s' := by
  induction entries with
  | nil =>
      intro s s' hcounts _ _ _ hloop
      cases hloop
      exact ⟨hcounts, fun _ _ hmem => hmem⟩
  | cons entry rest ih =>
      obtain ⟨key, chunk⟩ := entry
      intro s s' hcounts hwhole hnodup hentries hloop
      obtain ⟨hfresh, hnodup⟩ := List.nodup_cons.mp hnodup
      have hmem : s.mChunks[key]? = some chunk := hentries _ List.mem_cons_self
      have hrest : ∀ entry ∈ rest, s.mChunks[entry.1]? = some entry.2 :=
        fun entry hentry => hentries entry (List.mem_cons_of_mem _ hentry)
      unfold FileCreator.removePieces at hloop
      split at hloop
      · next hid =>
        obtain ⟨⟨middle, last⟩, hdec, hloop⟩ := Option.bind_eq_some_iff.mp hloop
        obtain ⟨refs, rfl⟩ := decRef_eq hdec
        have hkept : ∀ entry ∈ rest, (s.mChunks.erase key)[entry.1]? = some entry.2 := by
          intro entry hentry
          rw [OrderedMap.lookup_erase_ne _ ?_]
          · exact hrest entry hentry
          · rintro rfl
            exact hfresh (List.mem_map.mpr ⟨entry, hentry, rfl⟩)
        have honly : ∀ (key' : Nat) (other : FtChunk PeerId),
            (s.mChunks.erase key)[key']? = some other → sliceOf other ≠ sliceOf chunk := by
          intro key' other hother hsame
          obtain ⟨hne, hother⟩ := lookup_erase_imp hother
          exact hne (hwhole key key' chunk other hmem hother hid
            ((congrArg Prod.fst hsame).trans hid))
        have hsub : Subtable s { ({ s with refCnts := refs } : FileCreator PeerId).decPeer
            chunk.peerId with mChunks := s.mChunks.erase key } :=
          fun _ _ hlookup => (lookup_erase_imp hlookup).2
        have htaken : FileCreator.Counts { ({ s with refCnts := refs } : FileCreator PeerId).decPeer
            chunk.peerId with mChunks := s.mChunks.erase key } :=
          hcounts.takeOff (OrderedMap.label_mem sliceOf hmem)
            (OrderedMap.labels_erase_of_only sliceOf hmem honly) (peerCount_insert rfl)
        obtain ⟨hafter, hsub'⟩ := ih _ s' htaken (hwhole.mono hsub) hnodup hkept hloop
        exact ⟨hafter, fun k c hlookup => hsub k c (hsub' k c hlookup)⟩
      · exact ih s s' hcounts hwhole hnodup hrest hloop

theorem Counts.removeSlices (ids : List Nat) :
    ∀ s s' : FileCreator PeerId, s.Counts → (∀ id ∈ ids, s.Whole id) →
      FileCreator.removeSlices ids s = some s' → s'.Counts := by
  induction ids with
  | nil =>
      intro s s' hcounts _ hloop
      cases hloop
      exact hcounts
  | cons id rest ih =>
      intro s s' hcounts hwhole hloop
      obtain ⟨hfirst, hothers⟩ := List.forall_mem_cons.mp hwhole
      obtain ⟨middle, hpieces, hloop⟩ := Option.bind_eq_some_iff.mp hloop
      obtain ⟨hmiddle, hsub⟩ := Counts.removePieces _ s middle hcounts hfirst
        (OrderedMap.nodup_keys_toList _) (fun _ hentry => (OrderedMap.mem_toList _).mp hentry) hpieces
      exact ih middle s' hmiddle (fun id hid => (hothers id hid).mono hsub) hloop

theorem Counts.removeInactiveChunks (hcounts : s.Counts) {now : Int}
    (hwhole : s.CountsSlices (.removeInactiveChunks now))
    (hremove : s.removeInactiveChunks now = some s') : s'.Counts := by
  obtain ⟨⟨m, toRemove⟩, hmap, hslices⟩ := Option.bind_eq_some_iff.mp hremove
  have hcounted : ({ s with chunkMap := m } : FileCreator PeerId).Counts :=
    hcounts.congr rfl fun _ => rfl
  refine Counts.removeSlices toRemove _ s' hcounted (fun id hid => ?_) hslices
  rcases dropInactive_removed _ _ _ _ hmap id hid with hnone | ⟨entry, hentry, hinactive, hkey⟩
  · exact absurd hnone List.not_mem_nil
  · exact whole_of_pieceCount
      (hwhole entry.1 entry.2 ((OrderedMap.mem_toList _).mp hentry) hinactive id hkey)

/-! ### Runs -/

theorem Counts.step (hcounts : s.Counts) (htabled : s.Tabled) {op : FileCreatorOp PeerId}
    (hallowed : s.CountsSlices op) (hstep : s.step op = some s') : s'.Tabled ∧ s'.Counts := by
  have hrests : LeavesPieces op → s.Permits op → s'.Tabled ∧ s'.Counts := by
    intro hleaves hpermits
    have hrests := htabled.step_rests hleaves hpermits hstep
    refine ⟨hrests.tabled, hcounts.congr ?_ fun peerId => ?_⟩
    · rw [slices, hrests.mChunks_eq]
      rfl
    · rw [peerCount, hrests.mChunksPerPeer_eq]
      rfl
  cases op with
  | getMissingChunk peerId sizeHint now rand =>
      obtain ⟨⟨after, request, mapNeeded⟩, hget, rfl⟩ := Option.map_eq_some_iff.mp hstep
      exact ⟨(htabled.getMissingChunk_spec hget).1, hcounts.getMissingChunk htabled hget⟩
  | addFileData env offset chunkSize data =>
      obtain ⟨⟨after, stored, reported⟩, hadd, rfl⟩ := Option.map_eq_some_iff.mp hstep
      exact hcounts.addFileData htabled chunkSize.2 hallowed hadd
  | removeInactiveChunks now =>
      exact ⟨(htabled.removeInactiveChunks_spec hstep).1,
        hcounts.removeInactiveChunks hallowed hstep⟩
  | setAvailabilityMap cmap => exact hrests trivial hallowed
  | forceCheck => exact hrests trivial hallowed
  | _ => exact hrests trivial trivial

theorem counts_new (size : Nat) (availability : Bool) (file : PartialFile) (now : Int) :
    (new size availability file now : FileCreator PeerId).Counts := by
  have hnone : (new size availability file now : FileCreator PeerId).slices = ∅ :=
    OrderedMap.labels_empty sliceOf
  have hzero : ∀ peerId, (new size availability file now : FileCreator PeerId).peerCount peerId = 0 :=
    fun _ => Std.ExtTreeMap.getD_empty
  constructor
  case onePeer =>
    rw [hnone]
    exact fun a ha => absurd ha (Finset.notMem_empty a)
  case tally =>
    intro peerId
    rw [hzero, hnone, Finset.filter_empty, Finset.card_empty]
  case bounded =>
    intro peerId
    rw [hzero]
    exact Nat.zero_le _

/-- **The counters of the peers.** As long as stored data does not run over the end of the piece it
begins with and the slices that are dropped are whole, the counter of every peer is the number of
slices that are expected from it, so that a peer that owes nothing is not refused. -/
theorem reachable_peerCount {size : Nat} (hsize : size < 2 ^ 64) {availability : Bool}
    {file : PartialFile} {lastRecvTime : Int} {s : FileCreator PeerId}
    (hreach : Reaches step CountsSlices (new size availability file lastRecvTime) s)
    (peerId : PeerId) :
    s.peerCount peerId = (s.unfinishedSlices peerId).card ∧
      (s.unfinishedSlices peerId = ∅ → s.peerCount peerId < maxFtchunksPerPeer) := by
  obtain ⟨_, hcounts⟩ := hreach.invariant (fun s => s.Tabled ∧ s.Counts)
    (fun _ _ _ hbefore hallowed hstep => hbefore.2.step hbefore.1 hallowed hstep)
    ⟨tabled_new hsize availability file lastRecvTime,
      counts_new size availability file lastRecvTime⟩
  have hcard := peerCount_eq_card hcounts peerId
  refine ⟨hcard, fun hnone => ?_⟩
  rw [hcard, hnone]
  decide

/-- A slice of 100 bytes is asked for, and ten bytes in the middle of it arrive. -/
def askSlice : FileCreatorOp Nat := .getMissingChunk 7 ⟨100, by decide⟩ 0 0

def middleBytes : FileCreatorOp Nat :=
  .addFileData ⟨true, .created, 10, 1⟩ ⟨50, by decide⟩ ⟨10, by decide⟩ fun _ => 7

def splitSlice : Option (FileCreator Nat) :=
  ((new 1000 true .empty 0).step askSlice).bind (·.step middleBytes)

theorem reaches_splitSlice {s : FileCreator Nat} (hsplit : splitSlice = some s) :
    Reaches step CountsSlices (new 1000 true .empty 0) s := by
  obtain ⟨asked, hask, hdata⟩ := Option.bind_eq_some_iff.mp hsplit
  have hnone : ((new 1000 true .empty 0 : FileCreator Nat).step askSlice).bind
      (·.mChunks[50]?) = none := by decide
  rw [hask, Option.bind_some] at hnone
  have hallowed : asked.CountsSlices middleBytes := by
    intro _ chunk hmem
    cases hnone.symm.trans hmem
  have hreach : Reaches step CountsSlices (new 1000 true .empty 0) asked :=
    (Reaches.refl _).next askSlice trivial hask
  exact hreach.tail hallowed hdata

theorem reachable_peerCount_splitSlice :
    ∃ s, splitSlice = some s ∧ s.peerCount 7 = (s.unfinishedSlices 7).card := by
  have hsome : splitSlice = some (splitSlice.get (by decide)) := (Option.some_get _).symm
  exact ⟨_, hsome, (reachable_peerCount (by decide) (reaches_splitSlice hsome) 7).1⟩

/-- The two pieces of the slice are dropped, and the counter of its peer, which was one, wraps. -/
theorem peerCount_counterexample :
    ¬ ∀ s : FileCreator Nat, Reaches step (fun _ _ => True) (new 1000 true .empty 0) s →
      ∀ peerId, s.peerCount peerId = (s.unfinishedSlices peerId).card := by
  intro hclaim
  have hsplit : splitSlice = some (splitSlice.get (by decide)) := (Option.some_get _).symm
  have hdrop : (splitSlice.get (by decide)).step (.removeInactiveChunks 4000) =
      some (((splitSlice.get (by decide)).step (.removeInactiveChunks 4000)).get (by decide)) :=
    (Option.some_get _).symm
  have hreach : Reaches step (fun _ _ => True) (new 1000 true .empty 0)
      (splitSlice.get (by decide)) := (reaches_splitSlice hsplit).mono fun _ _ _ => trivial
  have hcount := hclaim _ (hreach.next (.removeInactiveChunks 4000) trivial hdrop) 7
  exact absurd hcount (by decide)

end FileCreator

end RetroShare.Ft
