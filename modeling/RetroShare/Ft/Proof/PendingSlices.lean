import RetroShare.Ft.Proof.ChunkMapSteps

/-!
# The pending slices of a chunk map

Seen from outside, the download table of a chunk map is a function: the size of the pending slice
with a given identifier. This module says how each operation changes that function, and that the
slices it lists never overlap.
-/

namespace RetroShare.Ft.ChunkMap

open RetroShare.Word RetroShare.Extent

variable {PeerId : Type} [LinearOrder PeerId] {m m' : ChunkMap PeerId}

theorem pendingSize_eq_some_iff {id n : Nat} :
    m.pendingSize id = some n ↔ ∃ info slice, m.slicesToDownload[chunkOf id]? = some info ∧
      info.slices[id]? = some slice ∧ slice.size = n := by
  simp [pendingSize, Option.bind_eq_some_iff]

theorem pendingSize_congr {id : Nat}
    (htable : m'.slicesToDownload[chunkOf id]? = m.slicesToDownload[chunkOf id]?) :
    m'.pendingSize id = m.pendingSize id := by
  rw [pendingSize, pendingSize, htable]

theorem pendingSize_eq_none {id : Nat} (habsent : m.slicesToDownload[chunkOf id]? = none) :
    m.pendingSize id = none := by
  simp [pendingSize, habsent]

theorem pendingSize_of_entry {id : Nat} {info : ChunkDownloadInfo PeerId}
    (hentry : m.slicesToDownload[chunkOf id]? = some info) :
    m.pendingSize id = (info.slices[id]?).map (·.size) := by
  cases hslice : info.slices[id]? <;> simp [pendingSize, hentry, hslice]

theorem SameDownload.pendingSize_eq (hsame : SameDownload m m') : m'.pendingSize = m.pendingSize := by
  obtain ⟨availability, rfl⟩ := hsame
  rfl

/-! ### Where pending slices lie -/

theorem Consistent.pending_pos (hcons : m.Consistent) {id n : Nat}
    (hpending : m.pendingSize id = some n) : 0 < n := by
  obtain ⟨info, slice, hentry, hslice, rfl⟩ := pendingSize_eq_some_iff.mp hpending
  obtain ⟨cut, hsliced⟩ := (hcons.entered hentry).sliced
  exact hsliced.packed.positive hslice

theorem Consistent.pending_le_chunkEnd (hcons : m.Consistent) {id n : Nat}
    (hpending : m.pendingSize id = some n) : id + n ≤ m.chunkEnd (chunkOf id) := by
  obtain ⟨info, slice, hentry, hslice, rfl⟩ := pendingSize_eq_some_iff.mp hpending
  obtain ⟨cut, hsliced⟩ := (hcons.entered hentry).sliced
  exact (hsliced.packed.upper hslice).trans hsliced.le_end

theorem Consistent.chunkOf_lt_length (hcons : m.Consistent) {id n : Nat}
    (hpending : m.pendingSize id = some n) : chunkOf id < m.map.length := by
  obtain ⟨info, slice, hentry, _, _⟩ := pendingSize_eq_some_iff.mp hpending
  exact lt_length_of_getElem? (hcons.entered hentry).active

theorem Consistent.pending_le (hcons : m.Consistent) {id n : Nat}
    (hpending : m.pendingSize id = some n) : id + n ≤ m.fileSize :=
  (hcons.pending_le_chunkEnd hpending).trans
    (hcons.sized.chunkEnd_le (hcons.chunkOf_lt_length hpending))

theorem Consistent.pending_lt (hcons : m.Consistent) {id n : Nat}
    (hpending : m.pendingSize id = some n) : n < 2 ^ 32 := by
  have hend := hcons.pending_le_chunkEnd hpending
  have hsmall := hcons.sized.sizeOfChunk_le (hcons.chunkOf_lt_length hpending)
  rw [chunkEnd] at hend
  simp only [chunkOf, chunkmapFixedChunkSize_eq] at *
  omega

/-- **Pending slices do not overlap**, across chunks either. -/
theorem Consistent.pending_disjoint (hcons : m.Consistent) {a b n k : Nat}
    (ha : m.pendingSize a = some n) (hb : m.pendingSize b = some k) (hlt : a < b) : a + n ≤ b := by
  by_cases hchunk : chunkOf a = chunkOf b
  · obtain ⟨info, slice, hentry, hslice, rfl⟩ := pendingSize_eq_some_iff.mp ha
    obtain ⟨info', slice', hentry', hslice', rfl⟩ := pendingSize_eq_some_iff.mp hb
    rw [← hchunk, hentry] at hentry'
    cases hentry'
    obtain ⟨cut, hsliced⟩ := (hcons.entered hentry).sliced
    exact hsliced.packed.separated hslice hslice' hlt
  · have hend := hcons.pending_le_chunkEnd ha
    have hsmall := hcons.sized.sizeOfChunk_le (hcons.chunkOf_lt_length ha)
    rw [chunkEnd] at hend
    simp only [chunkOf, chunkmapFixedChunkSize_eq] at *
    omega

/-! ### How the operations change them -/

theorem Cuts.pendingSize_eq {feeder : PeerId} {chunk : FtChunk PeerId} {feed : Chunk} {n : Nat}
    {info : ChunkDownloadInfo PeerId} {slice : SliceRequestInfo PeerId} {now : Int}
    (hcuts : Cuts m m' feeder chunk feed n info slice now) (hcons : m.Consistent) :
    m.pendingSize chunk.offset = none ∧
    ∀ id, m'.pendingSize id = if chunk.offset = id then some chunk.size else m.pendingSize id := by
  have hsliced := hcuts.sliced hcons
  have hn : chunkOf feed.offset = n := by
    have hentered := hcons.entered hcuts.entry
    exact hcons.sized.div_eq_of_mem (lt_length_of_getElem? hentered.active) hcuts.feeds.start_le
      (hcuts.feeds.end_eq ▸ hcuts.feeds.lt_end)
  have habsent : info.slices[feed.offset]? = none := hsliced.packed.absent_of_le le_rfl
  rw [hcuts.offset_eq]
  constructor
  · rw [pendingSize_of_entry (hn ▸ hcuts.entry), habsent, Option.map_none]
  · intro id
    by_cases hid : chunkOf id = n
    · have hentry : m'.slicesToDownload[chunkOf id]? = some { info with
          lastDataReceived := now
          slices := info.slices.insert feed.offset slice } := by
        rw [hid, hcuts.after, OrderedMap.lookup_insert_self]
      rw [pendingSize_of_entry hentry, pendingSize_of_entry (hid ▸ hcuts.entry),
        OrderedMap.lookup_insert]
      split
      · rw [Option.map_some, hcuts.size_eq]
      · rfl
    · rw [if_neg, pendingSize_congr]
      · rw [hcuts.after, OrderedMap.lookup_insert_ne _ _ (Ne.symm hid)]
      · rintro rfl
        exact hid hn

theorem openChunk_pendingSize (hcons : m.Consistent) (peerId : PeerId) {c : Nat}
    (hc : m.map[c]? = some .outstanding) : (m.openChunk peerId c).pendingSize = m.pendingSize := by
  funext id
  by_cases hid : c = chunkOf id
  · have hentry : (m.openChunk peerId c).slicesToDownload[chunkOf id]? =
        some { ChunkDownloadInfo.fresh PeerId with remains := m.sizeOfChunk c } := by
      rw [openChunk_table hcons peerId hc, ← hid, OrderedMap.lookup_insert_self]
    rw [pendingSize_of_entry hentry, pendingSize_eq_none (hid ▸ hcons.not_entered hc nofun)]
    simp [ChunkDownloadInfo.fresh]
  · rw [pendingSize_congr]
    rw [openChunk_table hcons peerId hc, OrderedMap.lookup_insert_ne _ _ hid]

/-- A slice handed out was not pending, and it is the only new one. -/
theorem Consistent.getDataChunk_pending (hcons : m.Consistent) {peerId : PeerId}
    {sizeHint : SizeHint} {now : Int} {rand : Nat} {chunk : Option (FtChunk PeerId)}
    {mapNeeded : Option Bool}
    (hget : m.getDataChunk peerId sizeHint now rand = some (m', chunk, mapNeeded)) :
    match chunk with
    | none => m'.pendingSize = m.pendingSize
    | some slice => slice.id = slice.offset ∧ 0 < slice.size ∧
        m.pendingSize slice.offset = none ∧
        ∀ id, m'.pendingSize id =
          if slice.offset = id then some slice.size else m.pendingSize id := by
  rcases hcons.getDataChunk_cases hget with ⟨hsame, rfl⟩ |
    ⟨middle, feeder, slice, hsame, rfl, hcut⟩ |
    ⟨middle, c, slice, hsame, rfl, hc, hnumber, hidle, hcut⟩
  · exact hsame.pendingSize_eq
  · have hmiddle := hsame.consistent hcons
    obtain ⟨_, _, _, _, hcuts⟩ := hmiddle.cutSlice_spec _ sizeHint.2.1 hcut
    obtain ⟨hnone, hall⟩ := hcuts.pendingSize_eq hmiddle
    rw [hsame.pendingSize_eq] at hnone hall
    exact ⟨hcuts.id_eq.trans hcuts.offset_eq.symm, hcuts.size_pos, hnone, hall⟩
  · have hmiddle := hsame.consistent hcons
    have hopened := hmiddle.openChunk hc hnumber hidle
    obtain ⟨_, _, _, _, hcuts⟩ := hopened.cutSlice_spec _ sizeHint.2.1 hcut
    obtain ⟨hnone, hall⟩ := hcuts.pendingSize_eq hopened
    rw [openChunk_pendingSize hmiddle peerId hc, hsame.pendingSize_eq] at hnone hall
    exact ⟨hcuts.id_eq.trans hcuts.offset_eq.symm, hcuts.size_pos, hnone, hall⟩

theorem getDataChunk_fileSize (hcons : m.Consistent) {peerId : PeerId} {sizeHint : SizeHint}
    {now : Int} {rand : Nat} {chunk : Option (FtChunk PeerId)} {mapNeeded : Option Bool}
    (hget : m.getDataChunk peerId sizeHint now rand = some (m', chunk, mapNeeded)) :
    m'.fileSize = m.fileSize := by
  rcases hcons.getDataChunk_cases hget with ⟨⟨_, rfl⟩, _⟩ |
    ⟨middle, feeder, slice, ⟨availability, rfl⟩, _, hcut⟩ |
    ⟨middle, c, slice, ⟨availability, rfl⟩, _, hc, hnumber, hidle, hcut⟩
  · rfl
  · obtain ⟨_, _, _, _, hcuts⟩ :=
      (SameDownload.consistent ⟨availability, rfl⟩ hcons).cutSlice_spec _ sizeHint.2.1 hcut
    rw [hcuts.after]
  · have hopened := (SameDownload.consistent ⟨availability, rfl⟩ hcons).openChunk hc hnumber hidle
    obtain ⟨_, _, _, _, hcuts⟩ := hopened.cutSlice_spec _ sizeHint.2.1 hcut
    rw [hcuts.after]
    rfl

/-- Receiving a pending slice takes it off the list, and nothing else. -/
theorem Consistent.dataReceived_pending (hcons : m.Consistent) {cid n : Nat} {now : Int}
    (hpending : m.pendingSize cid = some n) (hreceive : m.dataReceived cid now = some m') :
    m'.Consistent ∧ m'.fileSize = m.fileSize ∧
      ∀ id, m'.pendingSize id = if cid = id then none else m.pendingSize id := by
  rcases hcons.dataReceived_cases hreceive with ⟨hnone, _⟩ |
    ⟨k, info, slice, hchunk, hreceives | hfinishes⟩
  · rw [hpending] at hnone
    exact absurd hnone nofun
  · refine ⟨hreceives.consistent hcons, by rw [hreceives.after], fun id => ?_⟩
    by_cases hid : chunkOf id = k
    · have hentry : m'.slicesToDownload[chunkOf id]? = some (received info cid slice now) := by
        rw [hid, hreceives.after, OrderedMap.lookup_insert_self]
      rw [pendingSize_of_entry hentry, pendingSize_of_entry (hid ▸ hreceives.entry), received,
        OrderedMap.lookup_erase]
      split <;> rfl
    · rw [if_neg (by rintro rfl; exact hid hchunk), pendingSize_congr]
      rw [hreceives.after, OrderedMap.lookup_insert_ne _ _ (Ne.symm hid)]
  · obtain ⟨retired, state, hretires, _, hrecount⟩ := hfinishes.retired
    have hafter := updateTotalDownloaded_eq hrecount
    refine ⟨hfinishes.consistent hcons, by rw [hafter]; exact hretires.fileSize_eq, fun id => ?_⟩
    have htable : m'.slicesToDownload = m.slicesToDownload.erase k := by
      rw [hafter]
      exact hretires.table_eq
    by_cases hid : chunkOf id = k
    · have hgone : m'.pendingSize id = none :=
        pendingSize_eq_none (by rw [htable, OrderedMap.lookup_erase, if_pos hid.symm])
      rw [hgone]
      split
      · rfl
      · next hne =>
          -- The chunk had no other pending slice: nothing remains of it.
          obtain ⟨cut, hsliced⟩ := (hcons.entered hfinishes.entry).sliced
          have haccounted := (hsliced.received hfinishes.pending now).accounted
          have hfinished := hfinishes.finished
          simp only [received, hfinished, Nat.sub_self] at haccounted
          have hzero : OrderedMap.sumOver (fun _ (s : SliceRequestInfo PeerId) => s.size)
              (info.slices.erase cid) = 0 := by
            simp only [pendingBytes] at haccounted
            omega
          rw [OrderedMap.sumOver_eq_zero] at hzero
          rw [pendingSize_of_entry (hid ▸ hfinishes.entry)]
          cases hslice : info.slices[id]? with
          | none => rfl
          | some other =>
              have hsize := hzero id other (by rw [OrderedMap.lookup_erase_ne _ hne, hslice])
              have := hsliced.packed.positive hslice
              omega
    · rw [if_neg (by rintro rfl; exact hid hchunk), pendingSize_congr]
      rw [htable, OrderedMap.lookup_erase_ne _ (Ne.symm hid)]

theorem ReAsks.pendingSize_eq {n offset : Nat} {info : ChunkDownloadInfo PeerId}
    {slice slice' : SliceRequestInfo PeerId} (hreasks : ReAsks m m' n offset info slice slice') :
    m'.pendingSize = m.pendingSize := by
  funext id
  by_cases hid : n = chunkOf id
  · have hentry : m'.slicesToDownload[chunkOf id]? =
        some { info with slices := info.slices.insert offset slice' } := by
      rw [hreasks.after, ← hid, OrderedMap.lookup_insert_self]
    rw [pendingSize_of_entry hentry, pendingSize_of_entry (hid ▸ hreasks.entry),
      OrderedMap.lookup_insert]
    split
    · next heq => rw [← heq, hreasks.pending, Option.map_some, Option.map_some, hreasks.size_eq]
    · rfl
  · rw [pendingSize_congr]
    rw [hreasks.after, OrderedMap.lookup_insert_ne _ _ hid]

/-- The slices of a dropped chunk are the ones reported as removed. -/
theorem Drops.pendingSize_eq {n : Nat} {info : ChunkDownloadInfo PeerId}
    (hdrops : Drops m m' n info) (hcons : m.Consistent) :
    (∀ id, m'.pendingSize id = if id ∈ info.slices.keys then none else m.pendingSize id) ∧
    ∀ id ∈ info.slices.keys, m.pendingSize id ≠ none := by
  have hkeys : ∀ id, id ∈ info.slices.keys ↔ ∃ slice, info.slices[id]? = some slice := by
    intro id
    rw [Std.ExtTreeMap.mem_keys, Std.ExtTreeMap.mem_iff_isSome_getElem?, Option.isSome_iff_exists]
  have htable := hdrops.retires.table_eq
  constructor
  · intro id
    by_cases hid : n = chunkOf id
    · have hgone : m'.pendingSize id = none :=
        pendingSize_eq_none (by rw [htable, OrderedMap.lookup_erase, if_pos hid])
      rw [hgone]
      split
      · rfl
      · next hnot =>
          rw [pendingSize_of_entry (hid ▸ hdrops.entry)]
          cases hslice : info.slices[id]? with
          | none => rfl
          | some slice => exact absurd ((hkeys id).mpr ⟨slice, hslice⟩) hnot
    · rw [if_neg, pendingSize_congr]
      · rw [htable, OrderedMap.lookup_erase_ne _ hid]
      · intro hmem
        obtain ⟨slice, hslice⟩ := (hkeys id).mp hmem
        exact hid (hcons.chunkOf_slice hdrops.entry hslice).symm
  · intro id hmem
    obtain ⟨slice, hslice⟩ := (hkeys id).mp hmem
    have hid := hcons.chunkOf_slice hdrops.entry hslice
    rw [pendingSize_of_entry (hid ▸ hdrops.entry), hslice]
    exact nofun

theorem dropInactive_pending {now : Int} (entries : List (Nat × ChunkDownloadInfo PeerId)) :
    ∀ (m : ChunkMap PeerId) (toRemove : List Nat) (result : ChunkMap PeerId × List Nat),
      m.Consistent → (entries.map Prod.fst).Nodup →
      (∀ entry ∈ entries, m.slicesToDownload[entry.1]? = some entry.2) →
      dropInactive now entries m toRemove = some result →
      ∃ removed, result.2 = toRemove ++ removed ∧ result.1.fileSize = m.fileSize ∧
        (∀ id, result.1.pendingSize id = if id ∈ removed then none else m.pendingSize id) ∧
        ∀ id ∈ removed, m.pendingSize id ≠ none := by
  induction entries with
  | nil =>
      intro m toRemove result _ _ _ hloop
      cases hloop
      exact ⟨[], by simp, rfl, by simp, by simp⟩
  | cons entry rest ih =>
      obtain ⟨n, info⟩ := entry
      intro m toRemove result hcons hnodup hentries hloop
      obtain ⟨hfresh, hnodup⟩ := List.nodup_cons.mp hnodup
      have hrest : ∀ entry ∈ rest, m.slicesToDownload[entry.1]? = some entry.2 :=
        fun entry hentry => hentries entry (List.mem_cons_of_mem _ hentry)
      simp only [dropInactive] at hloop
      split at hloop
      · obtain ⟨after, hafter, hloop⟩ := Option.bind_eq_some_iff.mp hloop
        have hdrops := dropChunk_spec (hentries _ List.mem_cons_self) hafter
        obtain ⟨hpending, hsome⟩ := hdrops.pendingSize_eq hcons
        have hlaterEntries : ∀ entry ∈ rest, after.slicesToDownload[entry.1]? = some entry.2 := by
          intro entry hentry
          have hne : n ≠ entry.1 := by
            rintro rfl
            exact hfresh (List.mem_map.mpr ⟨entry, hentry, rfl⟩)
          rw [hdrops.retires.table_eq, OrderedMap.lookup_erase_ne _ hne]
          exact hrest entry hentry
        obtain ⟨removed, hlist, hsize, hlater, hlaterSome⟩ := ih after _ result
          (hdrops.retires.consistent hcons) hnodup hlaterEntries hloop
        refine ⟨info.slices.keys ++ removed, by rw [hlist, List.append_assoc],
          hsize.trans hdrops.retires.fileSize_eq, ?_, ?_⟩
        · intro id
          rw [hlater, hpending]
          by_cases hfirst : id ∈ info.slices.keys <;> by_cases hsecond : id ∈ removed <;>
            simp [hfirst, hsecond]
        · intro id hmem
          rcases List.mem_append.mp hmem with hfirst | hsecond
          · exact hsome id hfirst
          · have hne := hlaterSome id hsecond
            rw [hpending] at hne
            split at hne
            · exact absurd rfl hne
            · exact hne
      · exact ih m _ result hcons hnodup hrest hloop

theorem Consistent.removeInactiveChunks_pending (hcons : m.Consistent) {now : Int}
    {toRemove : List Nat} (hremove : m.removeInactiveChunks now = some (m', toRemove)) :
    m'.Consistent ∧ m'.fileSize = m.fileSize ∧
      (∀ id, m'.pendingSize id = if id ∈ toRemove then none else m.pendingSize id) ∧
      ∀ id ∈ toRemove, m.pendingSize id ≠ none := by
  have hcons' := removeInactiveChunks_induction (P := Consistent)
    (fun _ _ _ _ hbefore hdrops _ => hdrops.retires.consistent hbefore) hcons hremove
  obtain ⟨removed, hlist, hsize, hpending, hsome⟩ := dropInactive_pending _ m [] _ hcons
    (OrderedMap.nodup_keys_toList _) (fun _ hentry => (OrderedMap.mem_toList _).mp hentry) hremove
  simp only [List.nil_append] at hlist
  subst hlist
  exact ⟨hcons', hsize, hpending, hsome⟩

end RetroShare.Ft.ChunkMap
