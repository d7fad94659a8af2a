import RetroShare.Ft.Proof.CreatorFrame
import RetroShare.Ft.Proof.PendingSlices

/-!
# The pending requests of a file creator

`Tabled` ties the table of pieces to the slices that are pending in the chunk map. Each operation
keeps it as long as stored data lies inside one piece or touches none. The bytes a piece covers are
the bytes of pending slices that have not arrived, so a slice is reported exactly when its last
byte arrives.
-/

namespace RetroShare.Ft

open RetroShare.Extent RetroShare.Word RetroShare.Transition

namespace FileCreator

variable {PeerId : Type} [LinearOrder PeerId] {s s' : FileCreator PeerId}

structure Tabled (s : FileCreator PeerId) : Prop where
  consistent : s.chunkMap.Consistent
  fileSize_eq : s.chunkMap.fileSize = s.mSize
  pieces : Pieces s.chunkMap.pendingSize s.mSize s.mChunks s.refCnts s.nextRef

theorem tabled_new {size : Nat} (hsize : size < 2 ^ 64) (availability : Bool) (file : PartialFile)
    (now : Int) : (new size availability file now : FileCreator PeerId).Tabled where
  consistent := ChunkMap.consistent_new hsize availability
  fileSize_eq := rfl
  pieces := by
    have hnone : (ChunkMap.new size availability : ChunkMap PeerId).pendingSize = fun _ => none := by
      funext id
      exact ChunkMap.pendingSize_eq_none (by simp [ChunkMap.new])
    simp only [new]
    rw [hnone]
    exact Pieces.empty

theorem Tabled.mSize_lt (htabled : s.Tabled) : s.mSize < 2 ^ 64 :=
  htabled.fileSize_eq ▸ htabled.consistent.sized.fileSize_lt

theorem Tabled.withChunkMap (htabled : s.Tabled) {m : ChunkMap PeerId} (hcons : m.Consistent)
    (hsize : m.fileSize = s.chunkMap.fileSize) (hpending : m.pendingSize = s.chunkMap.pendingSize) :
    ({ s with chunkMap := m } : FileCreator PeerId).Tabled where
  consistent := hcons
  fileSize_eq := hsize.trans htabled.fileSize_eq
  pieces := by
    simp only
    rw [hpending]
    exact htabled.pieces

/-- The file, the handle and the bookkeeping per peer play no part. -/
theorem Tabled.congr (htabled : s.Tabled) (hsize : s'.mSize = s.mSize)
    (hchunks : s'.mChunks = s.mChunks) (hrefs : s'.refCnts = s.refCnts)
    (hnext : s'.nextRef = s.nextRef) (hmap : s'.chunkMap = s.chunkMap) : s'.Tabled where
  consistent := hmap ▸ htabled.consistent
  fileSize_eq := by rw [hmap, hsize, htabled.fileSize_eq]
  pieces := by
    rw [hmap, hsize, hchunks, hrefs, hnext]
    exact htabled.pieces

/-- Inside a pending slice, only pieces of that slice cover anything. -/
theorem Tabled.covers_iff_own (htabled : s.Tabled) {id n x : Nat}
    (hpending : s.chunkMap.pendingSize id = some n) (hlow : id ≤ x) (hhigh : x < id + n) :
    Covers FtChunk.size s.mChunks x ↔ ∃ (key : Nat) (chunk : FtChunk PeerId),
      s.mChunks[key]? = some chunk ∧ chunk.id = id ∧ key ≤ x ∧ x < key + chunk.size := by
  constructor
  · rintro ⟨key, chunk, hmem, hle, hlt⟩
    refine ⟨key, chunk, hmem, ?_, hle, hlt⟩
    obtain ⟨k, hk, hstart, hend⟩ := htabled.pieces.inside hmem
    rcases lt_trichotomy chunk.id id with hbefore | heq | hafter
    · have := htabled.consistent.pending_disjoint hk hpending hbefore
      omega
    · exact heq
    · have := htabled.consistent.pending_disjoint hpending hk hafter
      omega
  · rintro ⟨key, chunk, hmem, _, hle, hlt⟩
    exact ⟨key, chunk, hmem, hle, hlt⟩

/-! ### Asking for data -/

/-- What a request does to the pending slices and to the bytes that pieces cover: nothing, or it
adds one slice with one piece. -/
theorem Tabled.getMissingChunk_spec (htabled : s.Tabled) {peerId : PeerId} {sizeHint : SizeHint}
    {now : Int} {rand : Nat} {request : Option (Nat × Nat)} {mapNeeded : Bool}
    (hget : s.getMissingChunk peerId sizeHint now rand = some (s', request, mapNeeded)) :
    s'.Tabled ∧
    ((s'.chunkMap.pendingSize = s.chunkMap.pendingSize ∧
        ∀ x, Covers FtChunk.size s'.mChunks x ↔ Covers FtChunk.size s.mChunks x) ∨
      ∃ offset size, request = some (offset, size) ∧ s.chunkMap.pendingSize offset = none ∧
        (∀ id, s'.chunkMap.pendingSize id =
          if offset = id then some size else s.chunkMap.pendingSize id) ∧
        ∀ x, Covers FtChunk.size s'.mChunks x ↔
          Covers FtChunk.size s.mChunks x ∨ (offset ≤ x ∧ x < offset + size)) := by
  simp only [getMissingChunk] at hget
  obtain ⟨⟨m, old⟩, hold, hget⟩ := Option.bind_eq_some_iff.mp hget
  obtain ⟨hsame, hfrom⟩ := oldPiece_spec _ _ _ hold
  have hcons := hsame.consistent htabled.consistent
  have hsize : m.fileSize = s.chunkMap.fileSize := by
    obtain ⟨_, rfl⟩ := hsame
    rfl
  have hpending := hsame.pendingSize_eq
  cases old with
  | some entry =>
      obtain ⟨key, chunk⟩ := entry
      have hmem := (OrderedMap.mem_toList _).mp (hfrom _ rfl)
      simp only [Option.some.injEq, Prod.mk.injEq] at hget
      obtain ⟨rfl, _, _⟩ := hget
      obtain ⟨hretimed, hcovers⟩ := htabled.pieces.retime hmem now
      refine ⟨⟨hcons, hsize.trans htabled.fileSize_eq, ?_⟩, Or.inl ⟨hpending, hcovers⟩⟩
      simp only
      rw [hpending]
      exact hretimed
  | none =>
      simp only at hget
      split at hget
      · cases hget
        exact ⟨(htabled.withChunkMap hcons hsize hpending).congr rfl rfl rfl rfl rfl,
          Or.inl ⟨hpending, fun _ => Iff.rfl⟩⟩
      · obtain ⟨⟨m', slice, needed⟩, hdata, hget⟩ := Option.bind_eq_some_iff.mp hget
        have hcons' := hcons.step
          (show ChunkMap.Permits _ (.getDataChunk peerId sizeHint now rand) from trivial)
          (Option.map_eq_some_iff.mpr ⟨_, hdata, rfl⟩)
        have hslice := hcons.getDataChunk_pending hdata
        have hsize' : m'.fileSize = s.chunkMap.fileSize :=
          (ChunkMap.getDataChunk_fileSize hcons hdata).trans hsize
        cases slice with
        | none =>
            simp only at hslice hget
            obtain ⟨⟨m'', asked⟩, hask, hget⟩ := Option.bind_eq_some_iff.mp hget
            cases hget
            rcases ChunkMap.reAskPendingChunk_cases hask with ⟨rfl, _⟩ |
              ⟨_, _, _, _, _, hreasks, _⟩
            · exact ⟨(htabled.withChunkMap hcons' hsize' (hslice.trans hpending)).congr
                rfl rfl rfl rfl rfl, Or.inl ⟨hslice.trans hpending, fun _ => Iff.rfl⟩⟩
            · have hpending' := hreasks.pendingSize_eq.trans (hslice.trans hpending)
              have hsize'' : m''.fileSize = s.chunkMap.fileSize := by
                rw [← hsize', hreasks.after]
              exact ⟨(htabled.withChunkMap (hreasks.consistent hcons') hsize'' hpending').congr
                rfl rfl rfl rfl rfl, Or.inl ⟨hpending', fun _ => Iff.rfl⟩⟩
        | some slice =>
            obtain ⟨hid, hpos, hnew, hpending'⟩ := hslice
            rw [hpending] at hnew hpending'
            simp only [Option.some.injEq, Prod.mk.injEq] at hget
            obtain ⟨rfl, rfl, _⟩ := hget
            have hself : m'.pendingSize slice.offset = some slice.size := by
              rw [hpending', if_pos rfl]
            have hhigh : slice.offset + slice.size ≤ s.mSize := by
              rw [← htabled.fileSize_eq, ← hsize']
              exact hcons'.pending_le hself
            have hfree : ∀ id n, s.chunkMap.pendingSize id = some n →
                id + n ≤ slice.offset ∨ slice.offset + slice.size ≤ id := by
              intro id n hn
              have hne : slice.offset ≠ id := by
                rintro rfl
                rw [hnew] at hn
                cases hn
              have hn' : m'.pendingSize id = some n := by rw [hpending', if_neg hne, hn]
              rcases lt_or_gt_of_ne hne with hlt | hgt
              · exact Or.inr (hcons'.pending_disjoint hself hn' hlt)
              · exact Or.inl (hcons'.pending_disjoint hn' hself hgt)
            have huncovered : ∀ x, slice.offset ≤ x → x < slice.offset + slice.size →
                ¬ Covers FtChunk.size s.mChunks x := by
              rintro x hlow hlt ⟨key, chunk, hmem, hle, hend⟩
              obtain ⟨n, hn, hstart, hstop⟩ := htabled.pieces.inside hmem
              rcases hfree chunk.id n hn with hbefore | hafter <;> omega
            have hsmall := hcons'.pending_lt hself
            rw [wrap_of_lt hsmall]
            refine ⟨⟨hcons', hsize'.trans htabled.fileSize_eq, ?_⟩, Or.inr
              ⟨slice.offset, slice.size, rfl, hnew, hpending', ?_⟩⟩
            · exact htabled.pieces.handOut { slice with refCnt := some s.nextRef }
                hid rfl hpos hhigh hnew hpending' hfree
            · exact htabled.pieces.packed.covers_insert
                (show 0 < FtChunk.size { slice with refCnt := some s.nextRef } from hpos) huncovered

/-! ### Receiving data -/

/-- The range has arrived: the pieces cover it no longer, and the slice that is reported, if one
is, was pending and is not any more. -/
structure Absorbs (s s' : FileCreator PeerId) (offset size : Nat) (reported : Option Nat) : Prop where
  tabled : s'.Tabled
  covers : ∀ x, Covers FtChunk.size s'.mChunks x ↔
    Covers FtChunk.size s.mChunks x ∧ ¬ (offset ≤ x ∧ x < offset + size)
  pending : ∀ id, s'.chunkMap.pendingSize id =
    if reported = some id then none else s.chunkMap.pendingSize id
  reported_pending : ∀ id, reported = some id → s.chunkMap.pendingSize id ≠ none

theorem Tabled.shrinkPiece_spec (htabled : s.Tabled) {key size : Nat} {chunk : FtChunk PeerId}
    {now : Int} {reported : Option Nat} (hmem : s.mChunks[key]? = some chunk) (hpos : 0 < size)
    (hle : size ≤ chunk.size)
    (hshrink : ({ s with mChunks := s.mChunks.erase key } : FileCreator PeerId).shrinkPiece
      chunk size now = some (s', reported)) : Absorbs s s' key size reported := by
  have hupper := htabled.pieces.packed.upper hmem
  have hlt := htabled.mSize_lt
  have hkey := htabled.pieces.keyed hmem
  unfold shrinkPiece at hshrink
  split at hshrink
  · next hne =>
      have hsmaller : size < chunk.size := lt_of_le_of_ne hle (Ne.symm hne)
      simp only [Option.some.injEq, Prod.mk.injEq] at hshrink
      obtain ⟨rfl, rfl⟩ := hshrink
      rw [sub_of_le hle (by omega), add_of_lt (by omega), hkey]
      constructor
      · exact ⟨htabled.consistent, htabled.fileSize_eq, htabled.pieces.shrink hmem hpos hsmaller⟩
      · exact covers_shrink htabled.pieces.packed hmem hsmaller
      · exact fun id => (if_neg nofun).symm
      · exact nofun
  · next heq =>
      obtain rfl : chunk.size = size := not_not.mp heq
      obtain ⟨⟨middle, last⟩, hdec, hshrink⟩ := Option.bind_eq_some_iff.mp hshrink
      obtain ⟨ref, href, hdec⟩ := Option.bind_eq_some_iff.mp hdec
      obtain ⟨count, hheap, hdec⟩ := Option.bind_eq_some_iff.mp hdec
      have hcovers := htabled.pieces.packed.covers_erase hmem
      split at hdec
      · next hlast =>
          cases hdec
          simp only [if_true] at hshrink
          obtain ⟨m, hreceive, hshrink⟩ := Option.bind_eq_some_iff.mp hshrink
          cases hshrink
          obtain ⟨n, hn, _, _⟩ := htabled.pieces.inside hmem
          obtain ⟨hcons, hsize, hpending⟩ :=
            htabled.consistent.dataReceived_pending hn hreceive
          constructor
          · exact ⟨hcons, hsize.trans htabled.fileSize_eq,
              htabled.pieces.dropLast hmem href hheap hlast hpending⟩
          · exact hcovers
          · simpa only [Option.some.injEq] using hpending
          · intro id hid
            rw [← Option.some.inj hid, hn]
            exact nofun
      · next hmore =>
          cases hdec
          cases hshrink
          constructor
          · exact ⟨htabled.consistent, htabled.fileSize_eq,
              htabled.pieces.dropOne hmem href hheap hmore⟩
          · exact hcovers
          · exact fun id => (if_neg nofun).symm
          · exact nofun

theorem Tabled.splits_iff (htabled : s.Tabled) {key offset size : Nat} {chunk : FtChunk PeerId}
    (hmem : s.mChunks[key]? = some chunk) (hend : offset + size < 2 ^ 64) :
    splits offset size chunk = true ↔ key < offset ∧ offset + size ≤ key + chunk.size := by
  have hupper := htabled.pieces.packed.upper hmem
  have hlt := htabled.mSize_lt
  unfold splits
  rw [htabled.pieces.keyed hmem, add_of_lt (by omega), add_of_lt (by omega), Bool.and_eq_true,
    decide_eq_true_iff, decide_eq_true_iff, Nat.add_comm size, Nat.add_comm chunk.size]

/-- **Data that fits is taken off the table**, and nothing else is. -/
theorem Tabled.notifyReceived_spec (htabled : s.Tabled) {offset size : Nat} {now : Int}
    {reported : Option Nat} (hpos : 0 < size) (hend : offset + size < 2 ^ 64)
    (hfits : s.HasRoom offset size ∨ s.Unasked offset size)
    (hnotify : s.notifyReceived offset size now = some (s', reported)) :
    Absorbs s s' offset size reported := by
  unfold notifyReceived at hnotify
  split at hnotify
  · next chunk hmem =>
      have hle : size ≤ chunk.size := by
        have hkey := htabled.pieces.keyed hmem
        have hchunk := htabled.pieces.packed.positive hmem
        rcases hfits with ⟨⟨key, other⟩, hother, hlow, hhigh⟩ | hfree
        · have hother := (OrderedMap.mem_toList _).mp hother
          simp only at hlow hhigh
          rw [htabled.pieces.keyed hother] at hlow hhigh
          obtain rfl := htabled.pieces.packed.start_unique hother hmem
            (x := offset) ⟨hlow, by omega⟩ ⟨le_rfl, by omega⟩
          rw [hmem] at hother
          cases hother
          omega
        · have := hfree _ ((OrderedMap.mem_toList _).mpr hmem)
          simp only at this
          omega
      exact htabled.shrinkPiece_spec hmem hpos hle hnotify
  · next habsent =>
      split at hnotify
      · next hnone =>
          cases hnotify
          -- No piece begins there and none can be split: the data was not asked for.
          have hout : ∀ x, Covers FtChunk.size s.mChunks x → ¬ (offset ≤ x ∧ x < offset + size) := by
            rintro x ⟨key, chunk, hmem, hle, hlt⟩ ⟨hlow, hhigh⟩
            have hkey := htabled.pieces.keyed hmem
            rcases hfits with ⟨⟨key', other⟩, hother, hstart, hstop⟩ | hfree
            · have hfound := List.find?_eq_none.mp hnone _ hother
              have hother := (OrderedMap.mem_toList _).mp hother
              simp only at hstart hstop
              rw [htabled.pieces.keyed hother] at hstart hstop
              refine hfound ((htabled.splits_iff hother hend).mpr ⟨lt_of_le_of_ne hstart ?_, hstop⟩)
              rintro rfl
              rw [habsent] at hother
              exact absurd hother nofun
            · have := hfree _ ((OrderedMap.mem_toList _).mpr hmem)
              simp only at this
              omega
          constructor
          · exact htabled
          · exact fun x => ⟨fun hcovers => ⟨hcovers, hout x hcovers⟩, And.left⟩
          · exact fun id => (if_neg nofun).symm
          · exact nofun
      · next key whole hfound =>
          have hmem := (OrderedMap.mem_toList _).mp (List.mem_of_find?_eq_some hfound)
          have hsplits : splits offset size whole = true :=
            List.find?_some (p := fun entry : Nat × FtChunk PeerId => splits offset size entry.2) hfound
          obtain ⟨hlow, hhigh⟩ := (htabled.splits_iff hmem hend).mp hsplits
          obtain rfl := htabled.pieces.keyed hmem
          have hupper := htabled.pieces.packed.upper hmem
          have hlt := htabled.mSize_lt
          simp only at hnotify
          rw [sub_of_le hlow.le (by omega), sub_of_le (by omega) (by omega)] at hnotify
          obtain ⟨middle, hinc, hshrink⟩ := Option.bind_eq_some_iff.mp hnotify
          obtain ⟨ref, href, hinc⟩ := Option.bind_eq_some_iff.mp hinc
          obtain ⟨count, hheap, hinc⟩ := Option.bind_eq_some_iff.mp hinc
          cases hinc
          simp only at href hheap
          obtain ⟨hsplit, hfree, hcovers⟩ :=
            htabled.pieces.split hmem hlow (by omega) href hheap
          -- The second half is never stored; the table is as if it had been and was taken off.
          generalize hsecond : ({ whole with
            offset := offset
            size := whole.size - (offset - whole.offset) } : FtChunk PeerId) = second at *
          have hsecondSize : second.size = whole.size - (offset - whole.offset) := by rw [← hsecond]
          have hstored : ({ s with
              mChunks := (s.mChunks.insert whole.offset { whole with size := offset - whole.offset }).insert
                offset second
              refCnts := s.refCnts.insert ref (count + 1) } : FileCreator PeerId).Tabled :=
            ⟨htabled.consistent, htabled.fileSize_eq, hsplit⟩
          have habsorbs : Absorbs _ s' offset size reported := hstored.shrinkPiece_spec
            (OrderedMap.lookup_insert_self _ _ _) hpos (by omega)
            (by simp only; rw [OrderedMap.erase_insert_of_absent _ _ hfree]; exact hshrink)
          constructor
          · exact habsorbs.tabled
          · intro x
            rw [habsorbs.covers, hcovers]
          · exact habsorbs.pending
          · exact habsorbs.reported_pending

/-- **A slice is reported exactly when no piece covers any of its bytes any more.** -/
theorem Absorbs.reported_iff (htabled : s.Tabled) {offset size : Nat} {reported : Option Nat}
    (habsorbs : Absorbs s s' offset size reported) {id n : Nat}
    (hpending : s.chunkMap.pendingSize id = some n) :
    reported = some id ↔ ∀ x, id ≤ x → x < id + n → ¬ Covers FtChunk.size s'.mChunks x := by
  have hafter := habsorbs.pending id
  constructor
  · intro hreported x hlow hhigh hcovers
    rw [if_pos hreported] at hafter
    obtain ⟨key, chunk, hmem, hle, hlt⟩ := hcovers
    obtain ⟨k, hk, hstart, hend⟩ := habsorbs.tabled.pieces.inside hmem
    have hbefore : s.chunkMap.pendingSize chunk.id = some k := by
      have := habsorbs.pending chunk.id
      rw [hk] at this
      split at this
      · exact absurd this nofun
      · exact this.symm
    rcases lt_trichotomy chunk.id id with hless | heq | hmore
    · have := htabled.consistent.pending_disjoint hbefore hpending hless
      omega
    · rw [heq, hafter] at hk
      exact absurd hk nofun
    · have := htabled.consistent.pending_disjoint hpending hbefore hmore
      omega
  · intro hnone
    by_contra hreported
    rw [if_neg hreported, hpending] at hafter
    obtain ⟨key, chunk, hmem, rfl⟩ := habsorbs.tabled.pieces.present hafter
    obtain ⟨k, hk, hstart, hend⟩ := habsorbs.tabled.pieces.inside hmem
    rw [hafter] at hk
    cases hk
    have hchunk := habsorbs.tabled.pieces.packed.positive hmem
    exact hnone key hstart (by omega) ⟨key, chunk, hmem, le_rfl, by omega⟩

/-- **What `addFileData` can do.** Unless the data is stored in full, nothing but the file and its
handle changes; otherwise the table is told. -/
theorem addFileData_cases {env : WriteEnv} {offset chunkSize : Nat} {data : Nat → UInt8}
    {stored : Bool} {reported : Option Nat}
    (hadd : s.addFileData env offset chunkSize data = some (s', stored, reported)) :
    (¬ s.Stores env offset chunkSize ∧ stored = false ∧ reported = none ∧
      ∃ fd file, s' = { s with fd := fd, file := file }) ∨
    (s.Stores env offset chunkSize ∧ stored = true ∧ ∃ file middle fd,
      ({ s with fd := true, file := file } : FileCreator PeerId).notifyReceived offset
        (s.clampedSize offset chunkSize) env.now = some (middle, reported) ∧
      s' = { middle with fd := fd }) := by
  unfold addFileData at hadd
  split at hadd
  · next hspace =>
      cases hadd
      exact Or.inl ⟨fun hstores => hspace hstores.1, rfl, rfl, s.fd, s.file, rfl⟩
  · next hspace =>
      split at hadd
      · next hinit =>
          cases hadd
          refine Or.inl ⟨?_, rfl, rfl, s.fd, s.file, rfl⟩
          rintro ⟨_, hopened, _⟩
          unfold initializeFileAttrs at hinit
          split at hinit
          · exact absurd hinit nofun
          · next hfd =>
              have hopening := hopened.resolve_left hfd
              cases hcase : env.opening <;> rw [hcase] at hinit hopening
              · exact absurd hinit nofun
              · exact absurd hinit nofun
              · exact hopening rfl
      · next opened hinit =>
          obtain ⟨file, rfl, hopened⟩ := initializeFileAttrs_eq hinit
          simp only at hadd
          split at hadd
          · next hbig =>
              cases hadd
              refine Or.inl ⟨?_, rfl, rfl, true, file, rfl⟩
              rintro ⟨_, _, hoffset, _⟩
              omega
          · next hoffset =>
              split at hadd
              · next hshort =>
                  cases hadd
                  refine Or.inl ⟨?_, rfl, rfl, true, _, rfl⟩
                  rintro ⟨_, _, _, hpos, htaken⟩
                  change s.clampedSize offset chunkSize = 0 ∨
                    env.taken < s.clampedSize offset chunkSize at hshort
                  omega
              · next hlong =>
                  change ¬ (s.clampedSize offset chunkSize = 0 ∨
                    env.taken < s.clampedSize offset chunkSize) at hlong
                  obtain ⟨⟨middle, slice⟩, hnotify, hadd⟩ := Option.bind_eq_some_iff.mp hadd
                  cases hadd
                  exact Or.inr ⟨⟨not_not.mp hspace, hopened, by omega, by omega, by omega⟩, rfl,
                    _, middle, _, hnotify, rfl⟩

theorem clampedSize_lt {offset chunkSize : Nat} (hsize : chunkSize < 2 ^ 32) :
    s.clampedSize offset chunkSize < 2 ^ 32 := by
  unfold clampedSize
  split
  · exact wrap_lt
  · exact hsize

/-- One call of `addFileData` under the condition on its data. -/
theorem Tabled.addFileData_spec (htabled : s.Tabled) {env : WriteEnv} {offset chunkSize : Nat}
    {data : Nat → UInt8} {stored : Bool} {reported : Option Nat} (hsize : chunkSize < 2 ^ 32)
    (hfits : s.Stores env offset chunkSize →
      s.HasRoom offset (s.clampedSize offset chunkSize) ∨
        s.Unasked offset (s.clampedSize offset chunkSize))
    (hadd : s.addFileData env offset chunkSize data = some (s', stored, reported)) :
    if s.Stores env offset chunkSize then
      Absorbs s s' offset (s.clampedSize offset chunkSize) reported
    else Absorbs s s' offset 0 reported := by
  rcases addFileData_cases hadd with ⟨hnot, _, rfl, fd, file, rfl⟩ |
    ⟨hstores, _, file, middle, fd, hnotify, rfl⟩
  · rw [if_neg hnot]
    constructor
    · exact htabled.congr rfl rfl rfl rfl rfl
    · exact fun x => ⟨fun hcovers => ⟨hcovers, by omega⟩, And.left⟩
    · exact fun id => (if_neg nofun).symm
    · exact nofun
  · rw [if_pos hstores]
    have hclamped : s.clampedSize offset chunkSize < 2 ^ 32 := clampedSize_lt hsize
    obtain ⟨_, _, hoffset, hpos, _⟩ := hstores
    have habsorbs := Tabled.notifyReceived_spec
      (s := { s with fd := true, file := file }) (htabled.congr rfl rfl rfl rfl rfl) hpos
      (by omega) (hfits ⟨‹_›, ‹_›, hoffset, hpos, ‹_›⟩) hnotify
    exact ⟨habsorbs.tabled.congr rfl rfl rfl rfl rfl, habsorbs.covers, habsorbs.pending,
      habsorbs.reported_pending⟩

/-! ### Dropping slices -/

/-- The loop over the pieces of one slice takes them all off, and the slice with the last. -/
theorem removePieces_spec {id : Nat} (entries : List (Nat × FtChunk PeerId)) :
    ∀ (s s' : FileCreator PeerId) (pending : Nat → Option Nat),
      Pieces pending s.mSize s.mChunks s.refCnts s.nextRef → (entries.map Prod.fst).Nodup →
      (∀ entry ∈ entries, s.mChunks[entry.1]? = some entry.2) →
      (∀ (key : Nat) (chunk : FtChunk PeerId), s.mChunks[key]? = some chunk → chunk.id = id →
        (key, chunk) ∈ entries) →
      removePieces id entries s = some s' →
      Pieces (fun i => if id = i then none else pending i) s'.mSize s'.mChunks s'.refCnts s'.nextRef ∧
        s'.mSize = s.mSize ∧ s'.chunkMap = s.chunkMap ∧
        ∀ (key : Nat) (chunk : FtChunk PeerId),
          s'.mChunks[key]? = some chunk ↔ s.mChunks[key]? = some chunk ∧ chunk.id ≠ id := by
  induction entries with
  | nil =>
      intro s s' pending hpieces _ _ hall hloop
      cases hloop
      have hgone : pending id = none := by
        by_contra hsome
        obtain ⟨n, hn⟩ := Option.ne_none_iff_exists'.mp hsome
        obtain ⟨key, chunk, hmem, hid⟩ := hpieces.present hn
        exact absurd (hall key chunk hmem hid) List.not_mem_nil
      have hsame : (fun i => if id = i then none else pending i) = pending := by
        funext i
        split
        · next heq => rw [← heq, hgone]
        · rfl
      rw [hsame]
      refine ⟨hpieces, rfl, rfl, fun key chunk => ⟨fun hmem => ⟨hmem, fun hid => ?_⟩, And.left⟩⟩
      exact absurd (hall key chunk hmem hid) List.not_mem_nil
  | cons entry rest ih =>
      obtain ⟨key, chunk⟩ := entry
      intro s s' pending hpieces hnodup hentries hall hloop
      obtain ⟨hfresh, hnodup⟩ := List.nodup_cons.mp hnodup
      have hmem : s.mChunks[key]? = some chunk := hentries _ List.mem_cons_self
      have hrest : ∀ entry ∈ rest, s.mChunks[entry.1]? = some entry.2 :=
        fun entry hentry => hentries entry (List.mem_cons_of_mem _ hentry)
      unfold removePieces at hloop
      split at hloop
      · next hid =>
          obtain ⟨⟨middle, last⟩, hdec, hloop⟩ := Option.bind_eq_some_iff.mp hloop
          obtain ⟨ref, href, hdec⟩ := Option.bind_eq_some_iff.mp hdec
          obtain ⟨count, hheap, hdec⟩ := Option.bind_eq_some_iff.mp hdec
          have hlookup : ∀ (k : Nat) (c : FtChunk PeerId), (s.mChunks.erase key)[k]? = some c →
              key ≠ k ∧ s.mChunks[k]? = some c := fun k c hc => lookup_erase_imp hc
          have hkept : ∀ entry ∈ rest, (s.mChunks.erase key)[entry.1]? = some entry.2 := by
            intro entry hentry
            have hne : key ≠ entry.1 := by
              rintro rfl
              exact hfresh (List.mem_map.mpr ⟨entry, hentry, rfl⟩)
            rw [OrderedMap.lookup_erase_ne _ hne]
            exact hrest entry hentry
          have hallRest : ∀ (k : Nat) (c : FtChunk PeerId), (s.mChunks.erase key)[k]? = some c →
              c.id = id → (k, c) ∈ rest := by
            intro k c hc hcid
            obtain ⟨hne, hc⟩ := hlookup k c hc
            rcases List.mem_cons.mp (hall k c hc hcid) with heq | hin
            · exact absurd (congrArg Prod.fst heq).symm hne
            · exact hin
          have hiff : ∀ (k : Nat) (c : FtChunk PeerId),
              (s.mChunks.erase key)[k]? = some c ∧ c.id ≠ id ↔
                s.mChunks[k]? = some c ∧ c.id ≠ id := by
            intro k c
            refine ⟨fun h => ⟨(hlookup k c h.1).2, h.2⟩, fun h => ⟨?_, h.2⟩⟩
            rw [OrderedMap.lookup_erase_ne, h.1]
            rintro rfl
            rw [hmem] at h
            exact h.2 (Option.some.inj h.1 ▸ hid)
          split at hdec
          · next hlast =>
              cases hdec
              obtain ⟨hdone, hsize, hmap, hfinal⟩ := ih _ s'
                (fun i => if id = i then none else pending i)
                (hpieces.dropLast hmem href hheap hlast fun i => by rw [hid])
                hnodup hkept hallRest hloop
              refine ⟨?_, hsize, hmap, fun k c => (hfinal k c).trans (hiff k c)⟩
              have hsame : (fun i => if id = i then none else
                  (fun i => if id = i then none else pending i) i) =
                  fun i => if id = i then none else pending i := by
                funext i
                by_cases heq : id = i <;> simp [heq]
              rw [hsame] at hdone
              exact hdone
          · next hmore =>
              cases hdec
              obtain ⟨hdone, hsize, hmap, hfinal⟩ := ih _ s' pending
                (hpieces.dropOne hmem href hheap hmore) hnodup hkept hallRest hloop
              exact ⟨hdone, hsize, hmap, fun k c => (hfinal k c).trans (hiff k c)⟩
      · next hid =>
          refine ih s s' pending hpieces hnodup hrest ?_ hloop
          intro k c hc hcid
          rcases List.mem_cons.mp (hall k c hc hcid) with heq | hin
          · cases heq
            exact absurd hcid hid
          · exact hin

theorem removeSlices_spec (ids : List Nat) :
    ∀ (s s' : FileCreator PeerId) (pending : Nat → Option Nat),
      Pieces pending s.mSize s.mChunks s.refCnts s.nextRef → removeSlices ids s = some s' →
      Pieces (fun i => if i ∈ ids then none else pending i)
          s'.mSize s'.mChunks s'.refCnts s'.nextRef ∧
        s'.mSize = s.mSize ∧ s'.chunkMap = s.chunkMap ∧
        ∀ (key : Nat) (chunk : FtChunk PeerId),
          s'.mChunks[key]? = some chunk ↔ s.mChunks[key]? = some chunk ∧ chunk.id ∉ ids := by
  induction ids with
  | nil =>
      intro s s' pending hpieces hloop
      cases hloop
      exact ⟨by simpa using hpieces, rfl, rfl, by simp⟩
  | cons id rest ih =>
      intro s s' pending hpieces hloop
      obtain ⟨middle, hfirst, hloop⟩ := Option.bind_eq_some_iff.mp hloop
      obtain ⟨hmiddle, hsize, hmap, hkept⟩ := removePieces_spec _ s middle pending hpieces
        (OrderedMap.nodup_keys_toList _) (fun _ hentry => (OrderedMap.mem_toList _).mp hentry)
        (fun _ _ hmem _ => (OrderedMap.mem_toList _).mpr hmem) hfirst
      obtain ⟨hdone, hsize', hmap', hkept'⟩ := ih middle s' _ hmiddle hloop
      refine ⟨?_, hsize'.trans hsize, hmap'.trans hmap, fun key chunk => ?_⟩
      · have hsame : (fun i => if i ∈ rest then none else if id = i then none else pending i) =
            fun i => if i ∈ id :: rest then none else pending i := by
          funext i
          rcases eq_or_ne id i with rfl | hne
          · simp
          · simp [hne, hne.symm]
        rw [hsame] at hdone
        exact hdone
      · rw [hkept', hkept, List.mem_cons, not_or, and_assoc]

/-- The pieces of a slice that stays pending stay. -/
theorem Tabled.removeInactiveChunks_spec (htabled : s.Tabled) {now : Int}
    (hremove : s.removeInactiveChunks now = some s') :
    s'.Tabled ∧ ∀ id n, s'.chunkMap.pendingSize id = some n →
      s.chunkMap.pendingSize id = some n ∧
      ∀ x, id ≤ x → x < id + n →
        (Covers FtChunk.size s'.mChunks x ↔ Covers FtChunk.size s.mChunks x) := by
  obtain ⟨⟨m, toRemove⟩, hmap, hslices⟩ := Option.bind_eq_some_iff.mp hremove
  obtain ⟨hcons, hsize, hpending, _⟩ := htabled.consistent.removeInactiveChunks_pending hmap
  obtain ⟨hpieces, hmSize, hchunkMap, hkept⟩ :=
    removeSlices_spec toRemove { s with chunkMap := m } s' _ htabled.pieces hslices
  have hafter : s'.Tabled := by
    refine ⟨hchunkMap ▸ hcons, ?_, ?_⟩
    · rw [hchunkMap, hmSize]
      exact hsize.trans htabled.fileSize_eq
    · have hfun : s'.chunkMap.pendingSize =
          fun i => if i ∈ toRemove then none else s.chunkMap.pendingSize i := by
        rw [hchunkMap]
        exact funext hpending
      rw [hfun]
      exact hpieces
  simp only at hchunkMap
  refine ⟨hafter, fun id n hn => ?_⟩
  have hbefore := hpending id
  rw [hchunkMap] at hn
  rw [hn] at hbefore
  split at hbefore
  · exact absurd hbefore nofun
  · next hstays =>
      refine ⟨hbefore.symm, fun x hlow hhigh => ?_⟩
      rw [hafter.covers_iff_own (by rw [hchunkMap]; exact hn) hlow hhigh,
        htabled.covers_iff_own hbefore.symm hlow hhigh]
      constructor
      · rintro ⟨key, chunk, hmem, hid, hle, hlt⟩
        exact ⟨key, chunk, ((hkept key chunk).mp hmem).1, hid, hle, hlt⟩
      · rintro ⟨key, chunk, hmem, hid, hle, hlt⟩
        exact ⟨key, chunk, (hkept key chunk).mpr ⟨hmem, hid ▸ hstays⟩, hid, hle, hlt⟩

/-! ### The other operations -/

/-- Neither the pieces nor the pending slices nor the counters of the peers have changed. -/
structure Rests (s s' : FileCreator PeerId) : Prop where
  tabled : s'.Tabled
  mChunks_eq : s'.mChunks = s.mChunks
  mChunksPerPeer_eq : s'.mChunksPerPeer = s.mChunksPerPeer
  pendingSize_eq : s'.chunkMap.pendingSize = s.chunkMap.pendingSize

theorem Tabled.rests (htabled : s.Tabled) (fd : Bool) (file : PartialFile) :
    Rests s { s with fd := fd, file := file } :=
  ⟨htabled.congr rfl rfl rfl rfl rfl, rfl, rfl, rfl⟩

theorem Tabled.rests_withChunkMap (htabled : s.Tabled) {m : ChunkMap PeerId} (hcons : m.Consistent)
    (hsize : m.fileSize = s.chunkMap.fileSize) (hpending : m.pendingSize = s.chunkMap.pendingSize) :
    Rests s { s with chunkMap := m } :=
  ⟨htabled.withChunkMap hcons hsize hpending, rfl, rfl, hpending⟩

/-- Operations that neither ask for data nor receive any nor drop slices. -/
def LeavesPieces : FileCreatorOp PeerId → Prop
  | .getMissingChunk _ _ _ _ => False
  | .addFileData _ _ _ _ => False
  | .removeInactiveChunks _ => False
  | _ => True

theorem Tabled.step_rests (htabled : s.Tabled) {op : FileCreatorOp PeerId} (hleaves : LeavesPieces op)
    (hpermits : s.Permits op) (hstep : s.step op = some s') : Rests s s' := by
  have hcons := htabled.consistent
  cases op with
  | getMissingChunk | addFileData | removeInactiveChunks => exact hleaves.elim
  | getFileData env offset chunkSize allowUnverified =>
      obtain ⟨result, hget, rfl⟩ := Option.map_eq_some_iff.mp hstep
      obtain ⟨fd, hafter⟩ := getFileData_eq hget
      rw [hafter]
      exact htabled.rests fd s.file
  | verifyChunk opening chunkNumber readable sumMatches =>
      rcases verifyChunk_cases hstep with rfl | ⟨file, m, hcheck, rfl⟩
      · exact htabled.rests s'.fd s'.file
      · have hcons' := hcons.step
          (show s.chunkMap.Permits (.setChunkCheckingResult _ _) from trivial) hcheck
        have hsame : m.pendingSize = s.chunkMap.pendingSize ∧
            m.fileSize = s.chunkMap.fileSize := by
          rcases ChunkMap.setChunkCheckingResult_cases hcheck with ⟨rfl, _⟩ | ⟨_, _, _, _, rfl⟩ |
            ⟨_, _, rfl⟩ <;> exact ⟨rfl, rfl⟩
        exact ⟨(htabled.withChunkMap hcons' hsame.2 hsame.1).congr rfl rfl rfl rfl rfl, rfl, rfl,
          hsame.1⟩
  | setSourceMap peerId cmap now =>
      obtain ⟨m, hmap, hafter⟩ := Option.bind_eq_some_iff.mp hstep
      cases hafter
      have hsame := ChunkMap.setPeerAvailabilityMap_same hmap
      have hpending := hsame.pendingSize_eq
      have hcons' := hsame.consistent hcons
      obtain ⟨_, rfl⟩ := hsame
      exact htabled.rests_withChunkMap hcons' rfl hpending
  | removeFileSource peerId =>
      cases hstep
      exact htabled.rests_withChunkMap (hcons.congr rfl rfl rfl rfl) rfl rfl
  | sourceIsComplete peerId =>
      cases hstep
      have hsame := ChunkMap.getSourceChunksInfo_same s.chunkMap peerId
      have hpending := hsame.pendingSize_eq
      have hcons' := hsame.consistent hcons
      have hsize : (s.chunkMap.getSourceChunksInfo peerId).1.fileSize = s.chunkMap.fileSize := by
        obtain ⟨_, hafter⟩ := hsame
        rw [hafter]
      exact htabled.rests_withChunkMap hcons' hsize hpending
  | setChunkStrategy strategy =>
      cases hstep
      exact htabled.rests_withChunkMap (hcons.congr rfl rfl rfl rfl) rfl rfl
  | getChunksToCheck =>
      cases hstep
      exact htabled.rests_withChunkMap (hcons.congr rfl rfl rfl rfl) rfl rfl
  | closeFile =>
      cases hstep
      exact htabled.rests false s.file
  | setAvailabilityMap cmap =>
      obtain ⟨m, hmap, hafter⟩ := Option.bind_eq_some_iff.mp hstep
      cases hafter
      have hcons' := hcons.step
        (show s.chunkMap.Permits (.setAvailabilityMap cmap) from hpermits) hmap
      have hsame : m.pendingSize = s.chunkMap.pendingSize ∧ m.fileSize = s.chunkMap.fileSize := by
        rcases ChunkMap.setAvailabilityMap_cases hmap with ⟨rfl, _⟩ | ⟨_, _, _, _, hm⟩
        · exact ⟨rfl, rfl⟩
        · rw [hm]
          exact ⟨rfl, rfl⟩
      exact htabled.rests_withChunkMap hcons' hsame.2 hsame.1
  | forceCheck =>
      obtain ⟨m, hmap, hafter⟩ := Option.bind_eq_some_iff.mp hstep
      cases hafter
      have hcons' := hcons.step (show s.chunkMap.Permits .forceCheck from hpermits) hmap
      have hsame : m.pendingSize = s.chunkMap.pendingSize ∧ m.fileSize = s.chunkMap.fileSize := by
        unfold ChunkMap.forceCheck at hmap
        split at hmap
        · rw [ChunkMap.updateTotalDownloaded_eq hmap]
          exact ⟨rfl, rfl⟩
        · exact absurd hmap nofun
      exact htabled.rests_withChunkMap hcons' hsame.2 hsame.1

/-- What the table of pending requests promises. -/
structure RequestTable (s : FileCreator PeerId) : Prop where
  keyed : ∀ (key : Nat) (chunk : FtChunk PeerId), s.mChunks[key]? = some chunk → chunk.offset = key
  positive : ∀ (key : Nat) (chunk : FtChunk PeerId), s.mChunks[key]? = some chunk → 0 < chunk.size
  inside : ∀ (key : Nat) (chunk : FtChunk PeerId), s.mChunks[key]? = some chunk →
    ∃ n, s.chunkMap.pendingSize chunk.id = some n ∧ chunk.id ≤ chunk.offset ∧
      chunk.offset + chunk.size ≤ chunk.id + n
  disjoint : ∀ (key key' : Nat) (chunk chunk' : FtChunk PeerId), s.mChunks[key]? = some chunk →
    s.mChunks[key']? = some chunk' → key < key' → key + chunk.size ≤ key'
  counted : ∀ (key : Nat) (chunk : FtChunk PeerId), s.mChunks[key]? = some chunk →
    ∃ ref, chunk.refCnt = some ref ∧ s.refCnts[ref]? = some (pieceCount s.mChunks chunk.id : Int)
  shared : ∀ (key key' : Nat) (chunk chunk' : FtChunk PeerId), s.mChunks[key]? = some chunk →
    s.mChunks[key']? = some chunk' → (chunk.refCnt = chunk'.refCnt ↔ chunk.id = chunk'.id)

theorem Tabled.requestTable (htabled : s.Tabled) : s.RequestTable where
  keyed := fun _ _ hmem => htabled.pieces.keyed hmem
  positive := fun _ _ hmem => htabled.pieces.packed.positive hmem
  inside := by
    intro key chunk hmem
    rw [htabled.pieces.keyed hmem]
    exact htabled.pieces.inside hmem
  disjoint := fun _ _ _ _ hmem hmem' hlt => htabled.pieces.packed.separated hmem hmem' hlt
  counted := by
    intro key chunk hmem
    obtain ⟨ref, href, _, hheap⟩ := htabled.pieces.counted hmem
    exact ⟨ref, href, hheap⟩
  shared := fun _ _ _ _ hmem hmem' => htabled.pieces.shared hmem hmem'

end FileCreator

/-! ### Which bytes have arrived -/

namespace LedgeredCreator

variable {PeerId : Type} [LinearOrder PeerId] {s s' : LedgeredCreator PeerId}

/-- The bytes of pending slices that have arrived are those that no piece covers. -/
structure Accounted (s : LedgeredCreator PeerId) : Prop where
  tabled : s.creator.Tabled
  arrived_iff : ∀ {id n x : Nat}, s.creator.chunkMap.pendingSize id = some n → id ≤ x → x < id + n →
    (s.arrived x = true ↔ ¬ Covers FtChunk.size s.creator.mChunks x)

theorem accounted_new {size : Nat} (hsize : size < 2 ^ 64) (availability : Bool)
    (file : PartialFile) (lastRecvTime : Int) :
    (new size availability file lastRecvTime : LedgeredCreator PeerId).Accounted where
  tabled := FileCreator.tabled_new hsize availability file lastRecvTime
  arrived_iff := by
    intro id n x hpending
    rw [show (new size availability file lastRecvTime : LedgeredCreator PeerId).creator.chunkMap =
      .new size availability from rfl,
      ChunkMap.pendingSize_eq_none (by simp [ChunkMap.new])] at hpending
    cases hpending

/-- An operation that leaves the pieces and the pending slices alone. -/
theorem Accounted.withCreator (haccounted : s.Accounted) {creator : FileCreator PeerId}
    {stored : Nat → Bool} (hrests : FileCreator.Rests s.creator creator) :
    (LedgeredCreator.mk creator s.arrived stored).Accounted where
  tabled := hrests.tabled
  arrived_iff := by
    intro id n x hid
    simp only at hid ⊢
    rw [hrests.pendingSize_eq] at hid
    rw [hrests.mChunks_eq]
    exact haccounted.arrived_iff hid

theorem Accounted.getMissingChunk (haccounted : s.Accounted) {peerId : PeerId}
    {sizeHint : SizeHint} {now : Int} {rand : Nat}
    (hstep : s.step (.getMissingChunk peerId sizeHint now rand) = some s') : s'.Accounted := by
  obtain ⟨⟨after, request, mapNeeded⟩, hget, rfl⟩ := Option.map_eq_some_iff.mp hstep
  obtain ⟨htabled, ⟨hpending, hcovers⟩ | ⟨offset, size, rfl, hnew, hpending, hcovers⟩⟩ :=
    haccounted.tabled.getMissingChunk_spec hget
  · refine ⟨htabled, fun {id n x} hid hlow hhigh => ?_⟩
    have hsame : s.arrivedAfterRequest after request = s.arrived := by
      unfold arrivedAfterRequest
      split
      · rfl
      · rw [hpending, if_neg]
        rintro ⟨hnone, hsome⟩
        rw [hnone] at hsome
        exact absurd hsome nofun
    simp only at hid ⊢
    rw [hpending] at hid
    rw [hsame, hcovers, haccounted.arrived_iff hid hlow hhigh]
  · refine ⟨htabled, fun {id n x} hid hlow hhigh => ?_⟩
    have hself : after.chunkMap.pendingSize offset = some size := by rw [hpending, if_pos rfl]
    have harrived : s.arrivedAfterRequest after (some (offset, size)) =
        setRange s.arrived offset size false := if_pos ⟨hnew, hself⟩
    simp only at hid ⊢
    rw [harrived, setRange, hcovers]
    by_cases hin : offset ≤ x ∧ x < offset + size
    · simp [hin]
    · have hne : offset ≠ id := by
        rintro rfl
        rw [hself] at hid
        cases hid
        exact hin ⟨hlow, hhigh⟩
      rw [hpending, if_neg hne] at hid
      rw [if_neg hin, haccounted.arrived_iff hid hlow hhigh]
      simp [hin]

/-- What one call of `addFileData` does to the account, and which slice it reports. -/
theorem Accounted.addFileData (haccounted : s.Accounted) {env : WriteEnv} {offset : Word64}
    {chunkSize : Word32} {data : Nat → UInt8} {after : FileCreator PeerId} {taken : Bool}
    {reported : Option Nat}
    (hpermits : s.creator.Permits (.addFileData env offset chunkSize data))
    (hadd : s.creator.addFileData env offset chunkSize data = some (after, taken, reported)) :
    ∃ size, FileCreator.Absorbs s.creator after offset size reported ∧
      s.arrivedAfterData env offset chunkSize = setRange s.arrived offset size true := by
  have hspec := haccounted.tabled.addFileData_spec chunkSize.2 hpermits hadd
  unfold arrivedAfterData
  split at hspec
  · next hstores => exact ⟨_, hspec, if_pos hstores⟩
  · next hnot =>
      refine ⟨0, hspec, ?_⟩
      rw [if_neg hnot]
      funext x
      exact (if_neg (by omega)).symm

theorem Accounted.arrived_after (haccounted : s.Accounted) {after : FileCreator PeerId}
    {offset size : Nat} {reported : Option Nat}
    (habsorbs : FileCreator.Absorbs s.creator after offset size reported) {id n x : Nat}
    (hpending : s.creator.chunkMap.pendingSize id = some n) (hlow : id ≤ x) (hhigh : x < id + n) :
    setRange s.arrived offset size true x = true ↔ ¬ Covers FtChunk.size after.mChunks x := by
  rw [habsorbs.covers, setRange]
  by_cases hin : offset ≤ x ∧ x < offset + size
  · simp [hin]
  · rw [if_neg hin, haccounted.arrived_iff hpending hlow hhigh]
    simp [hin]

theorem Accounted.step (haccounted : s.Accounted) {op : FileCreatorOp PeerId}
    (hpermits : s.creator.Permits op) (hstep : s.step op = some s') : s'.Accounted := by
  have htabled := haccounted.tabled
  have hrests : ∀ {creator : FileCreator PeerId} {stored : Nat → Bool},
      FileCreator.LeavesPieces op → s.creator.Permits op → s.creator.step op = some creator →
        (LedgeredCreator.mk creator s.arrived stored).Accounted :=
    fun hleaves hpermits hcreator =>
      haccounted.withCreator (htabled.step_rests hleaves hpermits hcreator)
  cases op with
  | getMissingChunk peerId sizeHint now rand => exact haccounted.getMissingChunk hstep
  | addFileData env offset chunkSize data =>
      obtain ⟨⟨after, taken, reported⟩, hadd, rfl⟩ := Option.map_eq_some_iff.mp hstep
      obtain ⟨size, habsorbs, harrived⟩ := haccounted.addFileData hpermits hadd
      refine ⟨habsorbs.tabled, fun {id n x} hid hlow hhigh => ?_⟩
      simp only at hid ⊢
      rw [habsorbs.pending] at hid
      split at hid
      · exact absurd hid nofun
      · rw [harrived]
        exact haccounted.arrived_after habsorbs hid hlow hhigh
  | removeInactiveChunks now =>
      obtain ⟨after, hremove, rfl⟩ := Option.map_eq_some_iff.mp hstep
      obtain ⟨hafter, hkept⟩ := htabled.removeInactiveChunks_spec hremove
      refine ⟨hafter, fun {id n x} hid hlow hhigh => ?_⟩
      obtain ⟨hbefore, hcovers⟩ := hkept id n hid
      simp only
      rw [hcovers x hlow hhigh]
      exact haccounted.arrived_iff hbefore hlow hhigh
  | getFileData | verifyChunk | setSourceMap | setAvailabilityMap | forceCheck =>
      obtain ⟨after, hafter, rfl⟩ := Option.map_eq_some_iff.mp hstep
      exact hrests trivial hpermits hafter
  | removeFileSource | sourceIsComplete | setChunkStrategy | getChunksToCheck | closeFile =>
      cases hstep
      exact hrests trivial hpermits rfl

theorem Accounted.some_missing (haccounted : s.Accounted) {id n : Nat}
    (hpending : s.creator.chunkMap.pendingSize id = some n) :
    ∃ x, id ≤ x ∧ x < id + n ∧ s.arrived x = false := by
  obtain ⟨key, chunk, hmem, rfl⟩ := haccounted.tabled.pieces.present hpending
  obtain ⟨k, hk, hstart, hend⟩ := haccounted.tabled.pieces.inside hmem
  obtain rfl : n = k := Option.some.inj (hpending.symm.trans hk)
  have hpos := haccounted.tabled.pieces.packed.positive hmem
  refine ⟨key, hstart, by omega, ?_⟩
  rw [← Bool.not_eq_true, haccounted.arrived_iff hpending hstart (by omega), not_not]
  exact ⟨key, chunk, hmem, le_rfl, by omega⟩

/-- **The table of pending requests.** As long as stored data lies inside one pending piece or
touches none, the table keeps its promises, and `addFileData` reports a slice to the chunk map
exactly when the last byte of that slice arrives. -/
theorem pending_requests {size : Nat} (hsize : size < 2 ^ 64) {availability : Bool}
    {file : PartialFile} {lastRecvTime : Int} {s : LedgeredCreator PeerId}
    (hreach : Reaches step (fun s op => s.creator.Permits op)
      (new size availability file lastRecvTime) s) :
    s.creator.RequestTable ∧
    ∀ (env : WriteEnv) (offset : Word64) (chunkSize : Word32) (data : Nat → UInt8)
      (after : FileCreator PeerId) (taken : Bool) (reported : Option Nat),
      s.creator.Permits (.addFileData env offset chunkSize data) →
      s.creator.addFileData env offset chunkSize data = some (after, taken, reported) →
      ∀ id, reported = some id ↔ ∃ n, s.creator.chunkMap.pendingSize id = some n ∧
        (∃ x, id ≤ x ∧ x < id + n ∧ s.arrived x = false) ∧
        ∀ x, id ≤ x → x < id + n → s.arrivedAfterData env offset chunkSize x = true := by
  have haccounted : s.Accounted :=
    hreach.invariant _ (fun _ _ _ hbefore hpermits hstep => hbefore.step hpermits hstep)
      (accounted_new hsize availability file lastRecvTime)
  refine ⟨haccounted.tabled.requestTable, ?_⟩
  intro env offset chunkSize data after taken reported hpermits hadd id
  obtain ⟨size, habsorbs, harrived⟩ := haccounted.addFileData hpermits hadd
  have hall : ∀ n, s.creator.chunkMap.pendingSize id = some n →
      (reported = some id ↔
        ∀ x, id ≤ x → x < id + n → s.arrivedAfterData env offset chunkSize x = true) := by
    intro n hpending
    rw [habsorbs.reported_iff haccounted.tabled hpending, harrived]
    refine forall_congr' fun x => imp_congr_right fun hlow => imp_congr_right fun hhigh => ?_
    exact (haccounted.arrived_after habsorbs hpending hlow hhigh).symm
  constructor
  · intro hreported
    obtain ⟨n, hpending⟩ := Option.ne_none_iff_exists'.mp (habsorbs.reported_pending id hreported)
    exact ⟨n, hpending, haccounted.some_missing hpending, (hall n hpending).mp hreported⟩
  · rintro ⟨n, hpending, _, hevery⟩
    exact (hall n hpending).mpr hevery

/-- The first slice of a small file, with its first 40 bytes received. -/
theorem pending_requests_partial_slice :
    ∃ s s' : LedgeredCreator Nat,
      (new 1000 true .empty 0).step (.getMissingChunk 7 ⟨100, by decide⟩ 0 0) = some s ∧
      s.step (.addFileData ⟨true, .created, 40, 1⟩ ⟨0, by decide⟩ ⟨40, by decide⟩ fun _ => 7) =
        some s' ∧
      s'.creator.RequestTable := by
  refine ⟨((new 1000 true .empty 0).step (.getMissingChunk 7 ⟨100, by decide⟩ 0 0)).get (by decide),
    ((((new 1000 true .empty 0).step (.getMissingChunk 7 ⟨100, by decide⟩ 0 0)).get
      (by decide)).step (.addFileData ⟨true, .created, 40, 1⟩ ⟨0, by decide⟩ ⟨40, by decide⟩
        fun _ => 7)).get (by decide), (Option.some_get _).symm, (Option.some_get _).symm, ?_⟩
  refine (pending_requests (by decide) (Reaches.tail (Reaches.tail (Reaches.refl _) ?_
    (Option.some_get _).symm) ?_ (Option.some_get _).symm)).1
  · trivial
  · exact fun _ => Or.inl (by decide)

/-- Data that begins where a piece begins and is longer than the piece makes the size of the piece
wrap. -/
theorem oversized_data_wraps :
    ∃ s : LedgeredCreator Nat,
      Reaches step (fun _ _ => True) (new 1000 true .empty 0) s ∧
        s.creator.mChunks[200]?.map (·.size) = some (2 ^ 64 - 100) ∧
        ¬ s.creator.RequestTable := by
  refine ⟨((((new 1000 true .empty 0).step (.getMissingChunk 7 ⟨100, by decide⟩ 0 0)).get
      (by decide)).step (.addFileData ⟨true, .created, 200, 1⟩ ⟨0, by decide⟩ ⟨200, by decide⟩
        fun _ => 7)).get (by decide), ?_, by decide, fun htable => ?_⟩
  · exact Reaches.tail (Reaches.tail (Reaches.refl _) trivial (Option.some_get _).symm) trivial
      (Option.some_get _).symm
  · obtain ⟨n, hn, _, hend⟩ := htable.inside 200 _ (Option.some_get (by decide)).symm
    have hn' := Option.some.inj (hn.symm.trans (show _ = some 100 by decide))
    subst hn'
    exact absurd hend (by decide)

end LedgeredCreator

end RetroShare.Ft
