import RetroShare.Ft.Proof.ChunkMapSteps

/-!
# Slice accounting

What the slices of the download table say about single bytes. A byte of a chunk in the table was
handed out once if it lies below the cut, never if it lies above; it was received once if it was
handed out and no pending slice covers it, never otherwise. The ledger keeps both counts from the
operations alone, so the invariant ties the table to the history of the run, and a chunk that leaves
the table through `dataReceived` is one whose every byte was handed out once and received once.
-/

namespace RetroShare.Ft

open RetroShare.Extent RetroShare.Transition

variable {PeerId : Type} [LinearOrder PeerId]

namespace ChunkMap

/-- The bytes of chunk `n` that no slice was cut from. -/
def unfed (m : ChunkMap PeerId) (n : Nat) : Nat :=
  OrderedMap.sumOver (fun _ feed =>
    if feed.start = chunkmapFixedChunkSize * n then feed.end - feed.offset else 0)
    m.activeChunksFeed

/-- Pending slices and unfed part of chunk `n` are disjoint parts of it that add up to what
remains. -/
structure SlicesFit (m : ChunkMap PeerId) (n : Nat) (info : ChunkDownloadInfo PeerId) : Prop where
  inside : ∀ (offset : Nat) (slice : SliceRequestInfo PeerId), info.slices[offset]? = some slice →
    chunkmapFixedChunkSize * n ≤ offset ∧ offset + slice.size ≤ m.chunkEnd n ∧ 0 < slice.size
  disjoint : ∀ (offset : Nat) (slice : SliceRequestInfo PeerId) (offset' : Nat)
    (slice' : SliceRequestInfo PeerId), info.slices[offset]? = some slice →
    info.slices[offset']? = some slice' → offset < offset' → offset + slice.size ≤ offset'
  feed_inside : ∀ (peerId : PeerId) (feed : Chunk), m.activeChunksFeed[peerId]? = some feed →
    feed.start = chunkmapFixedChunkSize * n →
    chunkmapFixedChunkSize * n ≤ feed.offset ∧ feed.offset < feed.end ∧ feed.end = m.chunkEnd n
  feed_disjoint : ∀ (peerId : PeerId) (feed : Chunk) (offset : Nat)
    (slice : SliceRequestInfo PeerId), m.activeChunksFeed[peerId]? = some feed →
    feed.start = chunkmapFixedChunkSize * n → info.slices[offset]? = some slice →
    offset + slice.size ≤ feed.offset
  feed_unique : ∀ (peerId : PeerId) (feed : Chunk) (peerId' : PeerId) (feed' : Chunk),
    m.activeChunksFeed[peerId]? = some feed →
    m.activeChunksFeed[peerId']? = some feed' → feed.start = chunkmapFixedChunkSize * n →
    feed'.start = chunkmapFixedChunkSize * n → peerId = peerId'
  total : pendingBytes info + m.unfed n = info.remains
  no_underflow : ∀ (offset : Nat) (slice : SliceRequestInfo PeerId),
    info.slices[offset]? = some slice → slice.size ≤ info.remains

variable {m m' : ChunkMap PeerId}

theorem Consistent.unfed_eq (hcons : m.Consistent) {n cut : Nat} (hcut : m.CutAt n cut) :
    m.unfed n = m.chunkEnd n - cut := by
  rcases hcut with ⟨peerId, feed, hmem, hstart, rfl⟩ | ⟨hnone, rfl⟩
  · obtain ⟨k, hfeeds⟩ := hcons.feeds hmem
    obtain rfl : k = n := chunkStart_inj (hfeeds.start_eq.symm.trans hstart)
    have hrest : OrderedMap.sumOver (fun _ feed =>
        if feed.start = chunkmapFixedChunkSize * k then feed.end - feed.offset else 0)
        (m.activeChunksFeed.erase peerId) = 0 := by
      rw [OrderedMap.sumOver_eq_zero]
      intro other feed' hother
      rw [OrderedMap.lookup_erase] at hother
      split at hother
      · exact absurd hother nofun
      · next hne =>
          refine if_neg fun hstart' => hne ?_
          exact hcons.feed_unique hmem hother (hstart.trans hstart'.symm)
    rw [unfed, OrderedMap.sumOver_eq_add_erase _ _ hmem, hrest, if_pos hstart, hfeeds.end_eq,
      Nat.add_zero]
  · rw [Nat.sub_self, unfed, OrderedMap.sumOver_eq_zero]
    intro peerId feed hmem
    exact if_neg (hnone peerId feed hmem)

theorem Consistent.slicesFit (hcons : m.Consistent) {n : Nat} {info : ChunkDownloadInfo PeerId}
    (hentry : m.slicesToDownload[n]? = some info) : m.SlicesFit n info := by
  obtain ⟨cut, hsliced⟩ := (hcons.entered hentry).sliced
  have hfeed : ∀ {peerId : PeerId} {feed : Chunk}, m.activeChunksFeed[peerId]? = some feed →
      feed.start = chunkmapFixedChunkSize * n → m.Feeds feed n ∧ cut = feed.offset := by
    intro peerId feed hmem hstart
    obtain ⟨k, hfeeds⟩ := hcons.feeds hmem
    obtain rfl : k = n := chunkStart_inj (hfeeds.start_eq.symm.trans hstart)
    exact ⟨hfeeds, CutAt.eq_offset hcons hmem hfeeds hsliced.cutAt⟩
  constructor
  · intro offset slice hslice
    exact ⟨hsliced.packed.lower hslice, (hsliced.packed.upper hslice).trans hsliced.le_end,
      hsliced.packed.positive hslice⟩
  · intro offset slice offset' slice' hslice hslice'
    exact hsliced.packed.separated hslice hslice'
  · intro peerId feed hmem hstart
    obtain ⟨hfeeds, _⟩ := hfeed hmem hstart
    exact ⟨hfeeds.start_le, hfeeds.lt_end, hfeeds.end_eq⟩
  · intro peerId feed offset slice hmem hstart hslice
    obtain ⟨_, rfl⟩ := hfeed hmem hstart
    exact hsliced.packed.upper hslice
  · intro peerId feed peerId' feed' hmem hmem' hstart hstart'
    exact hcons.feed_unique hmem hmem' (hstart.trans hstart'.symm)
  · rw [hcons.unfed_eq hsliced.cutAt]
    exact hsliced.accounted
  · intro offset slice hslice
    exact hsliced.size_le_remains hslice

/-- What is left in the table after `removeInactiveChunks`. -/
theorem dropInactive_lookup {now : Int} (entries : List (Nat × ChunkDownloadInfo PeerId)) :
    ∀ (m : ChunkMap PeerId) (toRemove : List Nat) (result : ChunkMap PeerId × List Nat),
      (entries.map Prod.fst).Nodup →
      (∀ entry ∈ entries, m.slicesToDownload[entry.1]? = some entry.2) →
      dropInactive now entries m toRemove = some result →
      ∀ n info, m.slicesToDownload[n]? = some info →
        (result.1.slicesToDownload[n]? = none ↔ (n, info) ∈ entries ∧ inactive info now) := by
  induction entries with
  | nil =>
      intro m toRemove result _ _ hloop n info hinfo
      cases hloop
      simp [hinfo]
  | cons entry rest ih =>
      obtain ⟨k, first⟩ := entry
      intro m toRemove result hnodup hentries hloop n info hinfo
      obtain ⟨hfresh, hnodup⟩ := List.nodup_cons.mp hnodup
      have hfirst := hentries _ List.mem_cons_self
      have hrest : ∀ entry ∈ rest, m.slicesToDownload[entry.1]? = some entry.2 :=
        fun entry hentry => hentries entry (List.mem_cons_of_mem _ hentry)
      have hnotin : ∀ other, (k, other) ∉ rest :=
        fun other hmem => hfresh (List.mem_map.mpr ⟨(k, other), hmem, rfl⟩)
      simp only [dropInactive] at hloop
      split at hloop
      · next hinactive =>
          obtain ⟨after, hafter, hloop⟩ := Option.bind_eq_some_iff.mp hloop
          have hdrops := dropChunk_spec hfirst hafter
          have hother : ∀ j : Nat, k ≠ j →
              after.slicesToDownload[j]? = m.slicesToDownload[j]? := by
            intro j hne
            rw [hdrops.retires.table_eq, OrderedMap.lookup_erase_ne _ hne]
          have hafterRest : ∀ entry ∈ rest, after.slicesToDownload[entry.1]? = some entry.2 := by
            intro entry hentry
            have hne : k ≠ entry.1 := by
              rintro rfl
              exact hnotin entry.2 hentry
            rw [hother _ hne]
            exact hrest entry hentry
          by_cases hkn : k = n
          · subst hkn
            rw [hfirst] at hinfo
            cases hinfo
            -- Later drops do not bring the chunk back.
            have hgone : result.1.slicesToDownload[k]? = none := by
              refine dropInactive_induction (P := fun m => m.slicesToDownload[k]? = none) ?_
                rest after _ result hnodup hafterRest ?_ hloop
              · intro before j other next hnone hdrops _
                rw [hdrops.retires.table_eq, OrderedMap.lookup_erase, hnone, ite_self]
              · rw [hdrops.retires.table_eq, OrderedMap.lookup_erase, if_pos rfl]
            simp [hgone, hinactive]
          · rw [ih after _ result hnodup hafterRest hloop n info (by rw [hother n hkn, hinfo])]
            simp [Ne.symm hkn]
      · next hactive =>
          rw [ih m _ result hnodup hrest hloop n info hinfo, List.mem_cons]
          constructor
          · rintro ⟨hmem, hinactive⟩
            exact ⟨Or.inr hmem, hinactive⟩
          · rintro ⟨heq | hmem, hinactive⟩
            · cases heq
              exact absurd hinactive hactive
            · exact ⟨hmem, hinactive⟩

theorem removeInactiveChunks_lookup {now : Int} {result : ChunkMap PeerId × List Nat}
    (hremove : m.removeInactiveChunks now = some result) {n : Nat}
    {info : ChunkDownloadInfo PeerId} (hinfo : m.slicesToDownload[n]? = some info) :
    result.1.slicesToDownload[n]? = none ↔ inactive info now = true := by
  rw [dropInactive_lookup _ m [] result (OrderedMap.nodup_keys_toList _)
    (fun _ hentry => (OrderedMap.mem_toList _).mp hentry) hremove n info hinfo,
    OrderedMap.mem_toList]
  exact and_iff_right hinfo

end ChunkMap

/-! ### The counts of single bytes -/

namespace Ledger

/-- The counts of a chunk in the table whose slices `info` end at `cut`. -/
structure Counts (ledger : Ledger) (m : ChunkMap PeerId) (n : Nat)
    (info : ChunkDownloadInfo PeerId) (cut : Nat) : Prop where
  handed_below : ∀ x, chunkmapFixedChunkSize * n ≤ x → x < cut → ledger.handed x = 1
  handed_above : ∀ x, cut ≤ x → x < m.chunkEnd n → ledger.handed x = 0
  received_pending : ∀ x, Covers SliceRequestInfo.size info.slices x → ledger.received x = 0
  received_above : ∀ x, cut ≤ x → x < m.chunkEnd n → ledger.received x = 0
  received_below : ∀ x, chunkmapFixedChunkSize * n ≤ x → x < cut →
    ¬ Covers SliceRequestInfo.size info.slices x → ledger.received x = 1

/-- Two ledgers agree on the bytes of chunk `n`. -/
def AgreeOn (ledger ledger' : Ledger) (n : Nat) : Prop :=
  ∀ x, ChunkMap.chunkOf x = n →
    ledger'.handed x = ledger.handed x ∧ ledger'.received x = ledger.received x

theorem AgreeOn.refl (ledger : Ledger) (n : Nat) : ledger.AgreeOn ledger n :=
  fun _ _ => ⟨rfl, rfl⟩

theorem AgreeOn.trans {first second third : Ledger} {n : Nat} (hfirst : first.AgreeOn second n)
    (hsecond : second.AgreeOn third n) : first.AgreeOn third n :=
  fun x hx => ⟨(hsecond x hx).1.trans (hfirst x hx).1, (hsecond x hx).2.trans (hfirst x hx).2⟩

theorem bump_of_mem {count : Nat → Nat} {offset size x : Nat} (hlow : offset ≤ x)
    (hhigh : x < offset + size) : bump count offset size x = count x + 1 :=
  if_pos ⟨hlow, hhigh⟩

theorem bump_of_notMem {count : Nat → Nat} {offset size x : Nat}
    (hout : ¬ (offset ≤ x ∧ x < offset + size)) : bump count offset size x = count x :=
  if_neg hout

theorem agreeOn_clear (ledger : Ledger) {n k : Nat} (hne : n ≠ k) :
    ledger.AgreeOn (ledger.clear n) k := by
  intro x hx
  have : ChunkMap.chunkOf x ≠ n := fun heq => hne (heq.symm.trans hx)
  simp [clear, this]

variable {m m' : ChunkMap PeerId}

/-- A range inside chunk `n` holds no byte of another chunk. -/
theorem notMem_of_chunkOf_ne (hsized : m.WellSized) {n k offset size x : Nat}
    (hn : n < m.map.length) (hlow : chunkmapFixedChunkSize * n ≤ offset)
    (hhigh : offset + size ≤ m.chunkEnd n) (hx : ChunkMap.chunkOf x = k) (hne : n ≠ k) :
    ¬ (offset ≤ x ∧ x < offset + size) := by
  rintro ⟨hle, hlt⟩
  have := hsized.div_eq_of_mem hn (hlow.trans hle) (by omega)
  exact hne (this.symm.trans hx)

theorem Counts.congr {ledger ledger' : Ledger} {n cut : Nat} {info : ChunkDownloadInfo PeerId}
    (hcounts : ledger.Counts m n info cut) (hsized : m.WellSized) (hn : n < m.map.length)
    (hsliced : m.Sliced n info cut) (hend : m'.chunkEnd n = m.chunkEnd n)
    (hagree : ledger.AgreeOn ledger' n) : ledger'.Counts m' n info cut := by
  have hchunk : ∀ x, chunkmapFixedChunkSize * n ≤ x → x < m.chunkEnd n →
      ChunkMap.chunkOf x = n := fun x => hsized.div_eq_of_mem hn
  have hle := hsliced.le_end
  have hstart := hsliced.start_le
  constructor
  · intro x hlow hhigh
    rw [(hagree x (hchunk x hlow (by omega))).1]
    exact hcounts.handed_below x hlow hhigh
  · intro x hlow hhigh
    rw [hend] at hhigh
    rw [(hagree x (hchunk x (by omega) hhigh)).1]
    exact hcounts.handed_above x hlow hhigh
  · intro x hcovers
    obtain ⟨hlow, hhigh⟩ := hsliced.packed.lt_of_covers hcovers
    rw [(hagree x (hchunk x hlow (by omega))).2]
    exact hcounts.received_pending x hcovers
  · intro x hlow hhigh
    rw [hend] at hhigh
    rw [(hagree x (hchunk x (by omega) hhigh)).2]
    exact hcounts.received_above x hlow hhigh
  · intro x hlow hhigh hfree
    rw [(hagree x (hchunk x hlow (by omega))).2]
    exact hcounts.received_below x hlow hhigh hfree

end Ledger

/-- The ledger agrees with the table, chunk by chunk. -/
def LedgeredMap.Balanced (s : LedgeredMap PeerId) : Prop :=
  ∀ (n : Nat) (info : ChunkDownloadInfo PeerId), s.chunkMap.slicesToDownload[n]? = some info →
    ∃ cut, s.chunkMap.Sliced n info cut ∧ s.ledger.Counts s.chunkMap n info cut

namespace LedgeredMap

open ChunkMap

variable {m m' : ChunkMap PeerId} {ledger ledger' : Ledger}

theorem Balanced.at (hbalanced : Balanced ⟨m, ledger⟩) {n cut : Nat}
    {info : ChunkDownloadInfo PeerId} (hcons : m.Consistent)
    (hentry : m.slicesToDownload[n]? = some info) (hsliced : m.Sliced n info cut) :
    ledger.Counts m n info cut := by
  obtain ⟨cut', hsliced', hcounts⟩ := hbalanced n info hentry
  have hsame : m.chunkEnd n - cut' = m.chunkEnd n - cut := by
    rw [← hcons.unfed_eq hsliced'.cutAt, ← hcons.unfed_eq hsliced.cutAt]
  have hle := hsliced.le_end
  have hle' := hsliced'.le_end
  obtain rfl : cut' = cut := by
    simp only at hle'
    omega
  exact hcounts

/-- An entry whose slices and feed an operation leaves alone stays balanced. -/
theorem Balanced.transfer (hbalanced : Balanced ⟨m, ledger⟩) (hcons : m.Consistent) {n : Nat}
    {info : ChunkDownloadInfo PeerId} (hentry : m.slicesToDownload[n]? = some info)
    (hlength : m'.map.length = m.map.length) (hsize : m'.fileSize = m.fileSize)
    (hfeed : ∀ (peerId : PeerId) (feed : Chunk), feed.start = chunkmapFixedChunkSize * n →
      (m'.activeChunksFeed[peerId]? = some feed ↔ m.activeChunksFeed[peerId]? = some feed))
    (hagree : ledger.AgreeOn ledger' n) :
    ∃ cut, m'.Sliced n info cut ∧ ledger'.Counts m' n info cut := by
  obtain ⟨cut, hsliced, hcounts⟩ := hbalanced n info hentry
  have hn := lt_length_of_getElem? (hcons.entered hentry).active
  exact ⟨cut, hsliced.congr hlength hsize hfeed,
    hcounts.congr hcons.sized hn hsliced (chunkEnd_congr hlength hsize n) hagree⟩

theorem Balanced.same (hbalanced : Balanced ⟨m, ledger⟩) (hcons : m.Consistent)
    (hmap : m'.map.length = m.map.length) (hsize : m'.fileSize = m.fileSize)
    (hfeed : m'.activeChunksFeed = m.activeChunksFeed)
    (htable : m'.slicesToDownload = m.slicesToDownload) : Balanced ⟨m', ledger⟩ := by
  intro n info hentry
  simp only [htable] at hentry
  exact hbalanced.transfer hcons hentry hmap hsize (fun _ _ _ => by rw [hfeed])
    (Ledger.AgreeOn.refl ledger n)

theorem balanced_retires {n : Nat} {state : ChunkState} (hretires : Retires m m' n state)
    (hcons : m.Consistent) (hbalanced : Balanced ⟨m, ledger⟩)
    (hagree : ∀ k, n ≠ k → ledger.AgreeOn ledger' k) : Balanced ⟨m', ledger'⟩ := by
  intro k info hentry
  have hne : n ≠ k := by
    rintro rfl
    simp only [hretires.table_eq, OrderedMap.lookup_erase, if_true] at hentry
    exact absurd hentry nofun
  simp only [hretires.table_eq] at hentry
  rw [OrderedMap.lookup_erase_ne _ hne] at hentry
  refine hbalanced.transfer hcons hentry hretires.length_map hretires.fileSize_eq ?_ (hagree k hne)
  intro peerId feed hstart
  rw [hretires.feed_iff]
  refine and_iff_left ?_
  rw [hstart]
  exact fun heq => hne (chunkStart_inj heq).symm

/-- Handing out a slice counts its bytes once more. -/
theorem balanced_cuts {feeder : PeerId} {chunk : FtChunk PeerId} {feed : Chunk} {n : Nat}
    {info : ChunkDownloadInfo PeerId} {slice : SliceRequestInfo PeerId} {now : Int}
    (hcuts : Cuts m m' feeder chunk feed n info slice now) (hcons : m.Consistent)
    (hbalanced : Balanced ⟨m, ledger⟩) :
    Balanced ⟨m', ledger.hand chunk.offset chunk.size⟩ := by
  have hsliced := hcuts.sliced hcons
  have hcounts := hbalanced.at hcons hcuts.entry hsliced
  have hentered := hcons.entered hcuts.entry
  have hn := lt_length_of_getElem? hentered.active
  have hfits := hcuts.fits
  have hoffset := hcuts.offset_eq
  have hlength : m'.map.length = m.map.length := by rw [hcuts.after]
  have hsize : m'.fileSize = m.fileSize := by rw [hcuts.after]
  intro k other hentry
  by_cases hnk : n = k
  · subst hnk
    simp only [hcuts.after, OrderedMap.lookup_insert_self, Option.some.injEq] at hentry
    subst hentry
    obtain ⟨cut, hnew⟩ := (hcuts.entered hcons).sliced
    have hcut : cut = feed.offset + chunk.size := by
      have hcut' := hcuts.cutAt hcons
      have hcons' := hcuts.consistent hcons
      have hsame : m'.chunkEnd n - cut = m'.chunkEnd n - (feed.offset + chunk.size) := by
        rw [← hcons'.unfed_eq hnew.cutAt, ← hcons'.unfed_eq hcut']
      have hle := hnew.le_end
      have hend : m'.chunkEnd n = m.chunkEnd n := chunkEnd_congr hlength hsize n
      omega
    subst hcut
    refine ⟨_, hnew, ?_⟩
    have hcovers : ∀ x, Covers SliceRequestInfo.size (info.slices.insert feed.offset slice) x ↔
        Covers SliceRequestInfo.size info.slices x ∨
          (feed.offset ≤ x ∧ x < feed.offset + chunk.size) := by
      intro x
      rw [hsliced.packed.covers_append (hcuts.size_eq ▸ hcuts.size_pos), hcuts.size_eq]
    have hend : m'.chunkEnd n = m.chunkEnd n := chunkEnd_congr hlength hsize n
    simp only [Ledger.hand]
    constructor
    · intro x hlow hhigh
      simp only [hoffset]
      by_cases hx : feed.offset ≤ x
      · rw [Ledger.bump_of_mem hx hhigh, hcounts.handed_above x hx (by omega)]
      · rw [Ledger.bump_of_notMem (by omega)]
        exact hcounts.handed_below x hlow (by omega)
    · intro x hlow hhigh
      rw [hend] at hhigh
      simp only [hoffset]
      rw [Ledger.bump_of_notMem (by omega)]
      exact hcounts.handed_above x (by omega) hhigh
    · intro x hx
      rcases (hcovers x).mp hx with hold | ⟨hlow, hhigh⟩
      · exact hcounts.received_pending x hold
      · exact hcounts.received_above x hlow (by omega)
    · intro x hlow hhigh
      rw [hend] at hhigh
      exact hcounts.received_above x (by omega) hhigh
    · intro x hlow hhigh hfree
      rw [hcovers, not_or] at hfree
      exact hcounts.received_below x hlow (by omega) hfree.1
  · simp only [hcuts.after, OrderedMap.lookup_insert_ne _ _ hnk] at hentry
    refine hbalanced.transfer hcons hentry hlength hsize (hcuts.feed_other hnk) ?_
    intro x hx
    refine ⟨Ledger.bump_of_notMem ?_, rfl⟩
    rw [hoffset]
    exact Ledger.notMem_of_chunkOf_ne hcons.sized hn hsliced.start_le hfits hx hnk

/-- Opening a chunk starts the counts of its bytes from zero. -/
theorem balanced_openChunk {peerId : PeerId} {c : Nat} (hcons : m.Consistent)
    (hc : m.map[c]? = some .outstanding) (hnumber : c < 2 ^ 32)
    (hidle : m.activeChunksFeed[peerId]? = none) (hbalanced : Balanced ⟨m, ledger⟩) :
    Balanced ⟨m.openChunk peerId c, ledger.clear c⟩ := by
  have hbound := lt_length_of_getElem? hc
  have hopened := hcons.openChunk hc hnumber hidle
  have hlength : (m.openChunk peerId c).map.length = m.map.length := by
    rw [openChunk_map, List.length_set]
  have hend : (m.openChunk peerId c).chunkEnd c = m.chunkEnd c := chunkEnd_congr hlength rfl c
  intro n info hentry
  by_cases hcn : c = n
  · subst hcn
    obtain ⟨cut, hsliced⟩ := (hopened.entered hentry).sliced
    simp only [openChunk_table hcons peerId hc, OrderedMap.lookup_insert_self,
      Option.some.injEq] at hentry
    subst hentry
    have hsum := hsliced.accounted
    have hcut : cut = chunkmapFixedChunkSize * c := by
      have hle := hsliced.le_end
      simp only [pendingBytes, ChunkDownloadInfo.fresh, OrderedMap.sumOver_empty, hend] at hsum
      rw [hend] at hle
      have hspan : m.chunkEnd c = chunkmapFixedChunkSize * c + m.sizeOfChunk c := rfl
      have hstart := hsliced.start_le
      omega
    subst hcut
    refine ⟨_, hsliced, ?_⟩
    have hchunk : ∀ x, chunkmapFixedChunkSize * c ≤ x → x < (m.openChunk peerId c).chunkEnd c →
        chunkOf x = c := by
      intro x hlow hhigh
      rw [hend] at hhigh
      exact hcons.sized.div_eq_of_mem hbound hlow hhigh
    constructor
    · intro x hlow hhigh
      omega
    · intro x hlow hhigh
      simp [Ledger.clear, hchunk x hlow hhigh]
    · intro x hcovers
      exact absurd hcovers (not_covers_empty x)
    · intro x hlow hhigh
      simp [Ledger.clear, hchunk x hlow hhigh]
    · intro x hlow hhigh
      omega
  · simp only [openChunk_table hcons peerId hc, OrderedMap.lookup_insert_ne _ _ hcn] at hentry
    refine hbalanced.transfer hcons hentry hlength rfl ?_ (Ledger.agreeOn_clear ledger hcn)
    intro q feed hstart
    rw [openChunk_feed hcons.sized peerId hbound, OrderedMap.lookup_insert]
    split
    · next heq =>
        subst heq
        rw [hidle]
        simp only [Option.some.injEq, reduceCtorEq, iff_false]
        rintro rfl
        exact hcn (chunkStart_inj hstart)
    · rfl

/-- Receiving a slice counts its bytes once. -/
theorem agreeOn_receive (hcons : m.Consistent) {n cid : Nat} {info : ChunkDownloadInfo PeerId}
    {slice : SliceRequestInfo PeerId} (hentry : m.slicesToDownload[n]? = some info)
    (hslice : info.slices[cid]? = some slice) {k : Nat} (hne : n ≠ k) :
    ledger.AgreeOn (ledger.receive cid slice.size) k := by
  have hentered := hcons.entered hentry
  obtain ⟨cut, hsliced⟩ := hentered.sliced
  intro x hx
  refine ⟨rfl, Ledger.bump_of_notMem ?_⟩
  exact Ledger.notMem_of_chunkOf_ne hcons.sized (lt_length_of_getElem? hentered.active)
    (hsliced.packed.lower hslice) ((hsliced.packed.upper hslice).trans hsliced.le_end) hx hne

theorem counts_receive {n cut cid : Nat} {info : ChunkDownloadInfo PeerId}
    {slice : SliceRequestInfo PeerId} (hsliced : m.Sliced n info cut)
    (hslice : info.slices[cid]? = some slice) (hcounts : ledger.Counts m n info cut) (now : Int) :
    (ledger.receive cid slice.size).Counts m n (received info cid slice now) cut := by
  have hcovers : ∀ x, Covers SliceRequestInfo.size (info.slices.erase cid) x ↔
      Covers SliceRequestInfo.size info.slices x ∧ ¬ (cid ≤ x ∧ x < cid + slice.size) :=
    hsliced.packed.covers_erase hslice
  have hupper := hsliced.packed.upper hslice
  refine ⟨hcounts.handed_below, hcounts.handed_above, ?_, ?_, ?_⟩
  · intro x hx
    obtain ⟨hold, hout⟩ := (hcovers x).mp hx
    simp only [Ledger.receive]
    rw [Ledger.bump_of_notMem hout]
    exact hcounts.received_pending x hold
  · intro x hlow hhigh
    simp only [Ledger.receive]
    rw [Ledger.bump_of_notMem (by omega)]
    exact hcounts.received_above x hlow hhigh
  · intro x hlow hhigh hfree
    simp only [Ledger.receive]
    by_cases hin : cid ≤ x ∧ x < cid + slice.size
    · rw [Ledger.bump_of_mem hin.1 hin.2,
        hcounts.received_pending x ⟨cid, slice, hslice, hin.1, hin.2⟩]
    · rw [Ledger.bump_of_notMem hin]
      exact hcounts.received_below x hlow hhigh fun hold => hfree ((hcovers x).mpr ⟨hold, hin⟩)

/-! ### Runs -/

/-- Every byte of chunk `n` was handed out once and received once. -/
def AllOnce (s : LedgeredMap PeerId) (n : Nat) : Prop :=
  ∀ x, chunkmapFixedChunkSize * n ≤ x → x < s.chunkMap.chunkEnd n →
    s.ledger.handed x = 1 ∧ s.ledger.received x = 1

theorem pendingSize_eq {n cid : Nat} {info : ChunkDownloadInfo PeerId}
    {slice : SliceRequestInfo PeerId} (hchunk : chunkOf cid = n)
    (hentry : m.slicesToDownload[n]? = some info) (hslice : info.slices[cid]? = some slice) :
    m.pendingSize cid = some slice.size := by
  simp [pendingSize, hchunk, hentry, hslice]

/-- The ledger follows the run; it does not steer it. -/
theorem map_step (s : LedgeredMap PeerId) (op : ChunkMapOp PeerId) :
    (s.step op).map (·.chunkMap) = s.chunkMap.step op := by
  cases op <;> simp [step, ChunkMap.step, Function.comp_def]

theorem step_chunkMap {s s' : LedgeredMap PeerId} {op : ChunkMapOp PeerId}
    (hstep : s.step op = some s') : s.chunkMap.step op = some s'.chunkMap := by
  rw [← map_step, hstep, Option.map_some]

/-- A chunk in the table still misses a byte. -/
theorem Balanced.not_allOnce {s : LedgeredMap PeerId} (hcons : s.chunkMap.Consistent)
    (hbalanced : s.Balanced) {n : Nat} {info : ChunkDownloadInfo PeerId}
    (hentry : s.chunkMap.slicesToDownload[n]? = some info) : ¬ s.AllOnce n := by
  intro hall
  obtain ⟨cut, hsliced, hcounts⟩ := hbalanced n info hentry
  have hpos := (hcons.entered hentry).remains_pos
  have haccounted := hsliced.accounted
  have hle := hsliced.le_end
  by_cases hcut : cut < s.chunkMap.chunkEnd n
  · have hzero := hcounts.handed_above cut le_rfl hcut
    have hone := (hall cut hsliced.start_le hcut).1
    omega
  · have hpending : pendingBytes info ≠ 0 := by omega
    rw [pendingBytes, ne_eq, total_eq_zero] at hpending
    push Not at hpending
    obtain ⟨x, hcovers⟩ := hpending
    obtain ⟨hlow, hhigh⟩ := hsliced.packed.lt_of_covers hcovers
    have hzero := hcounts.received_pending x hcovers
    have hone := (hall x hlow (by omega)).2
    omega

theorem allOnce_of_finishes {n cid : Nat} {info : ChunkDownloadInfo PeerId}
    {slice : SliceRequestInfo PeerId} (hfinishes : Finishes m m' n cid info slice)
    (hbalanced : Balanced ⟨m, ledger⟩) :
    AllOnce ⟨m', ledger.receive cid slice.size⟩ n := by
  obtain ⟨cut, hsliced, hcounts⟩ := hbalanced n info hfinishes.entry
  have hcounts := counts_receive hsliced hfinishes.pending hcounts 0
  have haccounted := (hsliced.received hfinishes.pending 0).accounted
  have hfinished := hfinishes.finished
  simp only [ChunkMap.received, hfinished, Nat.sub_self] at haccounted
  have hfree : ∀ x, ¬ Covers SliceRequestInfo.size (info.slices.erase cid) x := by
    rw [← total_eq_zero]
    simp only [pendingBytes] at haccounted
    omega
  have hend : m'.chunkEnd n = m.chunkEnd n := by
    obtain ⟨retired, _, hretires, _, hrecount⟩ := hfinishes.retired
    rw [updateTotalDownloaded_eq hrecount]
    exact chunkEnd_congr hretires.length_map hretires.fileSize_eq n
  have hle := hsliced.le_end
  intro x hlow hhigh
  simp only [hend] at hhigh
  simp only at hle
  exact ⟨hcounts.handed_below x hlow (by omega), hcounts.received_below x hlow (by omega) (hfree x)⟩

theorem Balanced.step {s s' : LedgeredMap PeerId} {op : ChunkMapOp PeerId}
    (hcons : s.chunkMap.Consistent) (hbalanced : s.Balanced) (hallowed : ¬ op.OverwritesMap)
    (hstep : s.step op = some s') : s'.Balanced := by
  obtain ⟨m, ledger⟩ := s
  cases op with
  | getDataChunk peerId sizeHint now rand =>
      obtain ⟨⟨after, chunk, mapNeeded⟩, hget, rfl⟩ := Option.map_eq_some_iff.mp hstep
      rcases hcons.getDataChunk_cases hget with ⟨⟨availability, rfl⟩, rfl⟩ |
        ⟨middle, feeder, slice, hsame, rfl, hcut⟩ |
        ⟨middle, c, slice, hsame, rfl, hc, hnumber, hidle, hcut⟩
      · exact hbalanced.same hcons rfl rfl rfl rfl
      · have hmiddle := hsame.consistent hcons
        obtain ⟨feed, n, info, request, hcuts⟩ := hmiddle.cutSlice_spec _ sizeHint.2.1 hcut
        obtain ⟨availability, rfl⟩ := hsame
        have hn : chunkOf slice.offset = n := by
          have hentered := hmiddle.entered hcuts.entry
          rw [hcuts.offset_eq]
          exact hmiddle.sized.div_eq_of_mem (lt_length_of_getElem? hentered.active)
            hcuts.feeds.start_le (hcuts.feeds.end_eq ▸ hcuts.feeds.lt_end)
        have hin : m.slicesToDownload.contains n = true := by
          rw [Std.ExtTreeMap.contains_eq_isSome_getElem?, hcuts.entry, Option.isSome_some]
        simp only [account, hn, hin, if_true]
        exact balanced_cuts hcuts hmiddle (hbalanced.same hcons rfl rfl rfl rfl)
      · have hmiddle := hsame.consistent hcons
        have hopened := hmiddle.openChunk hc hnumber hidle
        obtain ⟨feed, n, info, request, hcuts⟩ := hopened.cutSlice_spec _ sizeHint.2.1 hcut
        obtain ⟨availability, rfl⟩ := hsame
        have hbound := lt_length_of_getElem? hc
        have hfeed : feed.offset = chunkmapFixedChunkSize * c := by
          have hfed := hcuts.fed
          rw [openChunk_feed hmiddle.sized peerId hbound, OrderedMap.lookup_insert_self] at hfed
          cases hfed
          rfl
        have hn : chunkOf slice.offset = c := by
          rw [hcuts.offset_eq, hfeed]
          exact hmiddle.sized.div_eq_of_mem hbound le_rfl
            (Nat.lt_add_of_pos_right (hmiddle.sized.sizeOfChunk_pos hbound))
        have hout : m.slicesToDownload.contains c = false := by
          rw [Std.ExtTreeMap.contains_eq_isSome_getElem?, hcons.not_entered hc nofun,
            Option.isSome_none]
        simp only [account, hn, hout, Bool.false_eq_true, if_false]
        exact balanced_cuts hcuts hopened (balanced_openChunk hmiddle hc hnumber hidle
          (hbalanced.same hcons rfl rfl rfl rfl))
  | reAskPendingChunk peerId now =>
      obtain ⟨after, hop, rfl⟩ := Option.map_eq_some_iff.mp hstep
      obtain ⟨⟨_, asked⟩, hask, rfl⟩ := Option.map_eq_some_iff.mp hop
      rcases reAskPendingChunk_cases hask with ⟨rfl, _⟩ | ⟨n, offset, info, slice, slice',
        hreasks, _⟩
      · exact hbalanced
      · have hafter := hreasks.after
        subst hafter
        intro k other hentry
        simp only [OrderedMap.lookup_insert] at hentry
        split at hentry
        · next heq =>
            subst heq
            cases hentry
            obtain ⟨cut, hsliced, hcounts⟩ := hbalanced n info hreasks.entry
            have hcovers := hsliced.packed.covers_replace hreasks.pending hreasks.size_eq
            refine ⟨cut, (hsliced.replaceSlice hreasks.pending hreasks.size_eq).congr rfl rfl
              fun _ _ _ => Iff.rfl, ?_⟩
            exact {
              handed_below := hcounts.handed_below
              handed_above := hcounts.handed_above
              received_pending := fun x hx => hcounts.received_pending x ((hcovers x).mp hx)
              received_above := hcounts.received_above
              received_below := fun x hlow hhigh hfree =>
                hcounts.received_below x hlow hhigh fun hx => hfree ((hcovers x).mpr hx) }
        · exact hbalanced.transfer hcons hentry rfl rfl (fun _ _ _ => Iff.rfl)
            (Ledger.AgreeOn.refl ledger k)
  | dataReceived cid now =>
      obtain ⟨after, hop, rfl⟩ := Option.map_eq_some_iff.mp hstep
      rcases hcons.dataReceived_cases hop with ⟨hnone, rfl⟩ |
        ⟨n, info, slice, hchunk, hreceives | hfinishes⟩
      · simp only [hnone]
        exact hbalanced
      · simp only [pendingSize_eq hchunk hreceives.entry hreceives.pending]
        have hafter := hreceives.after
        subst hafter
        intro k other hentry
        simp only [OrderedMap.lookup_insert] at hentry
        split at hentry
        · next heq =>
            subst heq
            cases hentry
            obtain ⟨cut, hsliced, hcounts⟩ := hbalanced n info hreceives.entry
            have hcounts := counts_receive hsliced hreceives.pending hcounts now
            exact ⟨cut, (hsliced.received hreceives.pending now).congr rfl rfl
              fun _ _ _ => Iff.rfl, hcounts.handed_below, hcounts.handed_above,
              hcounts.received_pending, hcounts.received_above, hcounts.received_below⟩
        · next hne =>
            exact hbalanced.transfer hcons hentry rfl rfl (fun _ _ _ => Iff.rfl)
              (agreeOn_receive hcons hreceives.entry hreceives.pending hne)
      · simp only [pendingSize_eq hchunk hfinishes.entry hfinishes.pending]
        obtain ⟨retired, state, hretires, _, hrecount⟩ := hfinishes.retired
        have hretired := balanced_retires hretires hcons hbalanced fun k hne =>
          show ledger.AgreeOn _ k from
            agreeOn_receive hcons hfinishes.entry hfinishes.pending hne
        rw [updateTotalDownloaded_eq hrecount]
        exact hretired.same (hretires.consistent hcons) rfl rfl rfl rfl
  | removeInactiveChunks now =>
      obtain ⟨after, hop, rfl⟩ := Option.map_eq_some_iff.mp hstep
      obtain ⟨result, hremove, rfl⟩ := Option.map_eq_some_iff.mp hop
      refine (removeInactiveChunks_induction
        (P := fun m => m.Consistent ∧ Balanced ⟨m, ledger⟩) ?_ ⟨hcons, hbalanced⟩ hremove).2
      rintro before n info after ⟨hbefore, hbal⟩ hdrops _
      exact ⟨hdrops.retires.consistent hbefore, balanced_retires hdrops.retires hbefore hbal
        fun k _ => Ledger.AgreeOn.refl ledger k⟩
  | setChunkCheckingResult chunkNumber checkSucceeded =>
      obtain ⟨after, hop, rfl⟩ := Option.map_eq_some_iff.mp hstep
      rcases setChunkCheckingResult_cases hop with ⟨rfl, _⟩ | ⟨_, _, _, _, rfl⟩ | ⟨_, _, rfl⟩
      · exact hbalanced
      · exact hbalanced.same hcons (by simp only [List.length_set]) rfl rfl rfl
      · exact hbalanced.same hcons (by simp only [List.length_set]) rfl rfl rfl
  | getChunksToCheck =>
      cases hstep
      exact hbalanced.same hcons rfl rfl rfl rfl
  | setPeerAvailabilityMap peerId cmap now =>
      obtain ⟨after, hop, rfl⟩ := Option.map_eq_some_iff.mp hstep
      obtain ⟨availability, rfl⟩ := setPeerAvailabilityMap_same hop
      exact hbalanced.same hcons rfl rfl rfl rfl
  | removeFileSource peerId =>
      cases hstep
      exact hbalanced.same hcons rfl rfl rfl rfl
  | setStrategy strategy =>
      cases hstep
      exact hbalanced.same hcons rfl rfl rfl rfl
  | setAvailabilityMap cmap => exact absurd trivial hallowed
  | forceCheck => exact absurd trivial hallowed

theorem balanced_new (fileSize : Nat) (availability : Bool) :
    (new fileSize availability : LedgeredMap PeerId).Balanced := by
  intro n info hentry
  simp [new, ChunkMap.new] at hentry

/-- The operations that do not overwrite the map. -/
def Downloads (_ : LedgeredMap PeerId) (op : ChunkMapOp PeerId) : Prop := ¬ op.OverwritesMap

theorem reaches_invariant {fileSize : Nat} (hsize : fileSize < 2 ^ 64) {availability : Bool}
    {s : LedgeredMap PeerId}
    (hreach : Reaches step Downloads (new fileSize availability) s) :
    s.chunkMap.Consistent ∧ s.Balanced := by
  refine hreach.invariant (fun s => s.chunkMap.Consistent ∧ s.Balanced) ?_
    ⟨consistent_new hsize availability, balanced_new fileSize availability⟩
  rintro before op after ⟨hcons, hbalanced⟩ hallowed hstep
  exact ⟨hcons.step (permits_of_not_overwritesMap hallowed) (step_chunkMap hstep),
    hbalanced.step hcons hallowed hstep⟩

/-- Only `dataReceived` and `removeInactiveChunks` take a chunk out of the table. -/
theorem entry_kept {s s' : LedgeredMap PeerId} {op : ChunkMapOp PeerId}
    (hcons : s.chunkMap.Consistent) (hallowed : Downloads s op) (hstep : s.step op = some s')
    (hreceived : ∀ cid now, op ≠ .dataReceived cid now)
    (hremove : ∀ now, op ≠ .removeInactiveChunks now) {n : Nat}
    {info : ChunkDownloadInfo PeerId} (hentry : s.chunkMap.slicesToDownload[n]? = some info) :
    s'.chunkMap.slicesToDownload[n]? ≠ none := by
  have hstep := step_chunkMap hstep
  have hinsert : ∀ {table : OrderedMap Nat (ChunkDownloadInfo PeerId)} {k : Nat}
      {value : ChunkDownloadInfo PeerId}, table[n]? ≠ none → (table.insert k value)[n]? ≠ none := by
    intro table k value hold
    rw [OrderedMap.lookup_insert]
    split
    · exact nofun
    · exact hold
  have hpresent : s.chunkMap.slicesToDownload[n]? ≠ none := by
    rw [hentry]
    exact nofun
  cases op with
  | getDataChunk peerId sizeHint now rand =>
      obtain ⟨⟨after, chunk, mapNeeded⟩, hget, hafter⟩ := Option.map_eq_some_iff.mp hstep
      rw [← hafter]
      rcases hcons.getDataChunk_cases hget with ⟨⟨availability, rfl⟩, _⟩ |
        ⟨middle, feeder, slice, hsame, _, hcut⟩ |
        ⟨middle, c, slice, hsame, _, hc, hnumber, hidle, hcut⟩
      · exact hpresent
      · obtain ⟨_, _, _, _, hcuts⟩ := (hsame.consistent hcons).cutSlice_spec _ sizeHint.2.1 hcut
        obtain ⟨availability, rfl⟩ := hsame
        rw [hcuts.after]
        exact hinsert hpresent
      · obtain ⟨_, _, _, _, hcuts⟩ := ((hsame.consistent hcons).openChunk hc hnumber
          hidle).cutSlice_spec _ sizeHint.2.1 hcut
        obtain ⟨availability, rfl⟩ := hsame
        rw [hcuts.after]
        exact hinsert (hinsert hpresent)
  | reAskPendingChunk peerId now =>
      obtain ⟨⟨after, asked⟩, hask, hafter⟩ := Option.map_eq_some_iff.mp hstep
      rw [← hafter]
      rcases reAskPendingChunk_cases hask with ⟨rfl, _⟩ | ⟨_, _, _, _, _, hreasks, _⟩
      · exact hpresent
      · rw [hreasks.after]
        exact hinsert hpresent
  | dataReceived cid now => exact absurd rfl (hreceived cid now)
  | removeInactiveChunks now => exact absurd rfl (hremove now)
  | setChunkCheckingResult chunkNumber checkSucceeded =>
      rcases setChunkCheckingResult_cases hstep with ⟨hafter, _⟩ | ⟨_, _, _, _, hafter⟩ |
        ⟨_, _, hafter⟩ <;> rw [hafter] <;> exact hpresent
  | getChunksToCheck =>
      rw [← Option.some.inj hstep]
      exact hpresent
  | setPeerAvailabilityMap peerId cmap now =>
      obtain ⟨availability, hafter⟩ := setPeerAvailabilityMap_same hstep
      rw [hafter]
      exact hpresent
  | removeFileSource peerId =>
      rw [← Option.some.inj hstep]
      exact hpresent
  | setStrategy strategy =>
      rw [← Option.some.inj hstep]
      exact hpresent
  | setAvailabilityMap cmap => exact absurd trivial hallowed
  | forceCheck => exact absurd trivial hallowed

end LedgeredMap

end RetroShare.Ft
