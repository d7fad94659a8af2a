import RetroShare.Foundation.Extent
import RetroShare.Ft.Proof.ChunkSizes

/-!
# Slices of the chunks being downloaded

An active chunk is split at one position: below it every byte was cut into a slice, which is still
pending or was received, and above it lies the part the feed still holds. `Consistent` states this
for every chunk of the table, together with what ties the table to the feed and to the map. Three
changes of the state carry all operations: a chunk is opened, a slice is cut from a feed, a chunk is
retired; and a pending slice is received.
-/

namespace RetroShare.Ft.ChunkMap

open RetroShare.Word RetroShare.Extent

variable {PeerId : Type} [LinearOrder PeerId]

def pendingBytes (info : ChunkDownloadInfo PeerId) : Nat :=
  OrderedMap.sumOver (fun _ slice => slice.size) info.slices

/-- Chunk `n` is cut into slices up to `cut`: the offset of its feed, or its end once the feed is
used up. -/
def CutAt (m : ChunkMap PeerId) (n cut : Nat) : Prop :=
  (∃ (peerId : PeerId) (feed : Chunk), m.activeChunksFeed[peerId]? = some feed ∧
    feed.start = chunkmapFixedChunkSize * n ∧ feed.offset = cut) ∨
  ((∀ (peerId : PeerId) (feed : Chunk), m.activeChunksFeed[peerId]? = some feed →
    feed.start ≠ chunkmapFixedChunkSize * n) ∧ cut = m.chunkEnd n)

/-- Slices and unfed part of chunk `n` of the table. -/
structure Sliced (m : ChunkMap PeerId) (n : Nat) (info : ChunkDownloadInfo PeerId)
    (cut : Nat) : Prop where
  cutAt : m.CutAt n cut
  start_le : chunkmapFixedChunkSize * n ≤ cut
  le_end : cut ≤ m.chunkEnd n
  packed : Packed SliceRequestInfo.size (chunkmapFixedChunkSize * n) cut info.slices
  accounted : pendingBytes info + (m.chunkEnd n - cut) = info.remains

structure Entered (m : ChunkMap PeerId) (n : Nat) (info : ChunkDownloadInfo PeerId) : Prop where
  active : m.map[n]? = some .active
  number_lt : n < 2 ^ 32
  sliced : ∃ cut, m.Sliced n info cut
  remains_pos : 0 < info.remains
  remains_le : info.remains ≤ m.sizeOfChunk n

structure Feeds (m : ChunkMap PeerId) (feed : Chunk) (n : Nat) : Prop where
  start_eq : feed.start = chunkmapFixedChunkSize * n
  end_eq : feed.end = m.chunkEnd n
  start_le : chunkmapFixedChunkSize * n ≤ feed.offset
  lt_end : feed.offset < feed.end
  entered : ∃ info, m.slicesToDownload[n]? = some info

/-- The table, the feed and the map agree. -/
structure Consistent (m : ChunkMap PeerId) : Prop where
  sized : m.WellSized
  entered : ∀ {n : Nat} {info : ChunkDownloadInfo PeerId},
    m.slicesToDownload[n]? = some info → m.Entered n info
  feeds : ∀ {peerId : PeerId} {feed : Chunk},
    m.activeChunksFeed[peerId]? = some feed → ∃ n, m.Feeds feed n
  feed_unique : ∀ {p q : PeerId} {feed feed' : Chunk}, m.activeChunksFeed[p]? = some feed →
    m.activeChunksFeed[q]? = some feed' → feed.start = feed'.start → p = q
  tabled : ∀ {n : Nat}, m.map[n]? = some .active → ∃ info, m.slicesToDownload[n]? = some info

theorem chunkStart_inj {a b : Nat}
    (heq : chunkmapFixedChunkSize * a = chunkmapFixedChunkSize * b) : a = b := by
  rw [chunkmapFixedChunkSize_eq] at heq
  omega

theorem lt_length_of_getElem? {m : ChunkMap PeerId} {n : Nat} {state : ChunkState}
    (hstate : m.map[n]? = some state) : n < m.map.length :=
  (List.getElem?_eq_some_iff.mp hstate).1

section Transfer

variable {m m' : ChunkMap PeerId}

theorem sizeOfChunk_congr (hlength : m'.map.length = m.map.length)
    (hsize : m'.fileSize = m.fileSize) (n : Nat) : m'.sizeOfChunk n = m.sizeOfChunk n := by
  rw [sizeOfChunk, sizeOfChunk, hlength, hsize]

theorem chunkEnd_congr (hlength : m'.map.length = m.map.length)
    (hsize : m'.fileSize = m.fileSize) (n : Nat) : m'.chunkEnd n = m.chunkEnd n := by
  rw [chunkEnd, chunkEnd, sizeOfChunk_congr hlength hsize]

theorem WellSized.congr (hsized : m.WellSized) (hlength : m'.map.length = m.map.length)
    (hsize : m'.fileSize = m.fileSize) : m'.WellSized :=
  { fileSize_lt := hsize ▸ hsized.fileSize_lt
    length_map := by rw [hlength, hsize, hsized.length_map] }

/-- The cut of a chunk is untouched when the feeds of that chunk are. -/
theorem CutAt.congr {n cut : Nat} (hcut : m.CutAt n cut)
    (hlength : m'.map.length = m.map.length) (hsize : m'.fileSize = m.fileSize)
    (hfeed : ∀ (peerId : PeerId) (feed : Chunk), feed.start = chunkmapFixedChunkSize * n →
      (m'.activeChunksFeed[peerId]? = some feed ↔ m.activeChunksFeed[peerId]? = some feed)) :
    m'.CutAt n cut := by
  rcases hcut with ⟨peerId, feed, hmem, hstart, hoffset⟩ | ⟨hnone, hend⟩
  · exact Or.inl ⟨peerId, feed, (hfeed peerId feed hstart).mpr hmem, hstart, hoffset⟩
  · refine Or.inr ⟨?_, by rw [hend, chunkEnd_congr hlength hsize]⟩
    intro peerId feed hmem hstart
    exact hnone peerId feed ((hfeed peerId feed hstart).mp hmem) hstart

theorem Sliced.congr {n cut : Nat} {info : ChunkDownloadInfo PeerId} (hsliced : m.Sliced n info cut)
    (hlength : m'.map.length = m.map.length) (hsize : m'.fileSize = m.fileSize)
    (hfeed : ∀ (peerId : PeerId) (feed : Chunk), feed.start = chunkmapFixedChunkSize * n →
      (m'.activeChunksFeed[peerId]? = some feed ↔ m.activeChunksFeed[peerId]? = some feed)) :
    m'.Sliced n info cut :=
  { cutAt := hsliced.cutAt.congr hlength hsize hfeed
    start_le := hsliced.start_le
    le_end := by rw [chunkEnd_congr hlength hsize]; exact hsliced.le_end
    packed := hsliced.packed
    accounted := by rw [chunkEnd_congr hlength hsize]; exact hsliced.accounted }

theorem Entered.congr {n : Nat} {info : ChunkDownloadInfo PeerId} (hentered : m.Entered n info)
    (hlength : m'.map.length = m.map.length) (hsize : m'.fileSize = m.fileSize)
    (hmap : m'.map[n]? = m.map[n]?)
    (hfeed : ∀ (peerId : PeerId) (feed : Chunk), feed.start = chunkmapFixedChunkSize * n →
      (m'.activeChunksFeed[peerId]? = some feed ↔ m.activeChunksFeed[peerId]? = some feed)) :
    m'.Entered n info := by
  obtain ⟨cut, hsliced⟩ := hentered.sliced
  exact {
    active := by rw [hmap]; exact hentered.active
    number_lt := hentered.number_lt
    sliced := ⟨cut, hsliced.congr hlength hsize hfeed⟩
    remains_pos := hentered.remains_pos
    remains_le := by rw [sizeOfChunk_congr hlength hsize]; exact hentered.remains_le }

theorem Feeds.congr {feed : Chunk} {n : Nat} (hfeeds : m.Feeds feed n)
    (hlength : m'.map.length = m.map.length) (hsize : m'.fileSize = m.fileSize)
    (htable : ∃ info, m'.slicesToDownload[n]? = some info) : m'.Feeds feed n :=
  { start_eq := hfeeds.start_eq
    end_eq := by rw [chunkEnd_congr hlength hsize]; exact hfeeds.end_eq
    start_le := hfeeds.start_le
    lt_end := hfeeds.lt_end
    entered := htable }

/-- Fields that the table, the feed and the map do not depend on may change freely. -/
theorem Consistent.congr (hcons : m.Consistent) (hmap : m'.map = m.map)
    (hsize : m'.fileSize = m.fileSize) (hfeed : m'.activeChunksFeed = m.activeChunksFeed)
    (htable : m'.slicesToDownload = m.slicesToDownload) : m'.Consistent := by
  have hlength : m'.map.length = m.map.length := by rw [hmap]
  constructor
  · exact hcons.sized.congr hlength hsize
  · intro n info hmem
    rw [htable] at hmem
    exact (hcons.entered hmem).congr hlength hsize (by rw [hmap]) fun _ _ _ => by rw [hfeed]
  · intro peerId feed hmem
    rw [hfeed] at hmem
    obtain ⟨n, hfeeds⟩ := hcons.feeds hmem
    exact ⟨n, hfeeds.congr hlength hsize (htable ▸ hfeeds.entered)⟩
  · intro p q feed feed' hp hq
    rw [hfeed] at hp hq
    exact hcons.feed_unique hp hq
  · intro n hactive
    rw [hmap] at hactive
    rw [htable]
    exact hcons.tabled hactive

end Transfer

theorem consistent_new {fileSize : Nat} (hsize : fileSize < 2 ^ 64) (availability : Bool) :
    (new fileSize availability : ChunkMap PeerId).Consistent := by
  constructor
  · exact wellSized_new hsize availability
  · intro n info hmem
    simp [new] at hmem
  · intro peerId feed hmem
    simp [new] at hmem
  · intro p q feed feed' hmem
    simp [new] at hmem
  · intro n hactive
    simp [new, List.getElem?_replicate] at hactive

variable {m : ChunkMap PeerId}

/-! ### Opening a chunk -/

theorem Consistent.not_entered (hcons : m.Consistent) {c : Nat} {state : ChunkState}
    (hstate : m.map[c]? = some state) (hne : state ≠ .active) : m.slicesToDownload[c]? = none := by
  rw [Option.eq_none_iff_forall_ne_some]
  intro info hmem
  have := (hcons.entered hmem).active
  rw [hstate] at this
  exact hne (Option.some.inj this)

theorem Consistent.no_feed (hcons : m.Consistent) {c : Nat} (habsent : m.slicesToDownload[c]? = none)
    {peerId : PeerId} {feed : Chunk} (hmem : m.activeChunksFeed[peerId]? = some feed) :
    feed.start ≠ chunkmapFixedChunkSize * c := by
  intro hstart
  obtain ⟨n, hfeeds⟩ := hcons.feeds hmem
  obtain ⟨info, hinfo⟩ := hfeeds.entered
  have : n = c := chunkStart_inj (hfeeds.start_eq ▸ hstart)
  rw [this, habsent] at hinfo
  exact absurd hinfo nofun

theorem openChunk_map (m : ChunkMap PeerId) (peerId : PeerId) (c : Nat) :
    (m.openChunk peerId c).map = m.map.set c .active := rfl

/-- The feed of a chunk just opened covers the whole of it. -/
theorem openChunk_feed (hsized : m.WellSized) (peerId : PeerId) {c : Nat} (hc : c < m.map.length) :
    (m.openChunk peerId c).activeChunksFeed =
      m.activeChunksFeed.insert peerId
        { start := chunkmapFixedChunkSize * c
          offset := chunkmapFixedChunkSize * c
          «end» := m.chunkEnd c } := by
  have hend := hsized.chunkEnd_le hc
  have hlt := hsized.fileSize_lt
  have hadd : add 64 (m.sizeOfChunk c) (chunkmapFixedChunkSize * c) = m.chunkEnd c := by
    rw [chunkEnd] at hend ⊢
    rw [add_of_lt (by omega)]
    omega
  simp only [openChunk, Chunk.new, Nat.mul_comm c, hadd]

theorem openChunk_table (hcons : m.Consistent) (peerId : PeerId) {c : Nat}
    (hc : m.map[c]? = some .outstanding) :
    (m.openChunk peerId c).slicesToDownload =
      m.slicesToDownload.insert c { ChunkDownloadInfo.fresh PeerId with
        remains := m.sizeOfChunk c } := by
  have habsent := hcons.not_entered hc nofun
  simp [openChunk, Std.ExtTreeMap.getD_eq_getD_getElem?, habsent]

theorem Consistent.openChunk (hcons : m.Consistent) {peerId : PeerId} {c : Nat}
    (hc : m.map[c]? = some .outstanding) (hnumber : c < 2 ^ 32)
    (hidle : m.activeChunksFeed[peerId]? = none) : (m.openChunk peerId c).Consistent := by
  have hbound : c < m.map.length := lt_length_of_getElem? hc
  have habsent := hcons.not_entered hc nofun
  have hpos := hcons.sized.sizeOfChunk_pos hbound
  have hlength : (m.openChunk peerId c).map.length = m.map.length := by
    rw [openChunk_map, List.length_set]
  have hsize : (m.openChunk peerId c).fileSize = m.fileSize := rfl
  have hend := chunkEnd_congr hlength hsize c
  have hfeedSelf : (m.openChunk peerId c).activeChunksFeed[peerId]? =
      some { start := chunkmapFixedChunkSize * c
             offset := chunkmapFixedChunkSize * c
             «end» := m.chunkEnd c } := by
    rw [openChunk_feed hcons.sized peerId hbound, OrderedMap.lookup_insert_self]
  have hfeedOther : ∀ q, peerId ≠ q →
      (m.openChunk peerId c).activeChunksFeed[q]? = m.activeChunksFeed[q]? := by
    intro q hne
    rw [openChunk_feed hcons.sized peerId hbound, OrderedMap.lookup_insert_ne _ _ hne]
  have htableSelf : (m.openChunk peerId c).slicesToDownload[c]? =
      some { ChunkDownloadInfo.fresh PeerId with remains := m.sizeOfChunk c } := by
    rw [openChunk_table hcons peerId hc, OrderedMap.lookup_insert_self]
  have htableOther : ∀ n, c ≠ n →
      (m.openChunk peerId c).slicesToDownload[n]? = m.slicesToDownload[n]? := by
    intro n hne
    rw [openChunk_table hcons peerId hc, OrderedMap.lookup_insert_ne _ _ hne]
  constructor
  · exact hcons.sized.congr hlength hsize
  · intro n info hmem
    by_cases hcn : c = n
    · subst hcn
      rw [htableSelf] at hmem
      cases hmem
      refine
        { active := by rw [openChunk_map, List.getElem?_set_self hbound]
          number_lt := hnumber
          sliced := ⟨chunkmapFixedChunkSize * c, ?_⟩
          remains_pos := hpos
          remains_le := by rw [sizeOfChunk_congr hlength hsize] }
      exact {
        cutAt := Or.inl ⟨peerId, _, hfeedSelf, rfl, rfl⟩
        start_le := le_rfl
        le_end := Nat.le_add_right _ _
        packed := Packed.empty
        accounted := by
          rw [hend, chunkEnd, Nat.add_sub_cancel_left, pendingBytes]
          simp [ChunkDownloadInfo.fresh] }
    · rw [htableOther n hcn] at hmem
      refine (hcons.entered hmem).congr hlength hsize ?_ ?_
      · rw [openChunk_map, List.getElem?_set_ne hcn]
      · intro q feed hstart
        by_cases hq : peerId = q
        · subst hq
          rw [hfeedSelf, hidle]
          simp only [Option.some.injEq, reduceCtorEq, iff_false]
          rintro rfl
          exact hcn (chunkStart_inj hstart)
        · rw [hfeedOther q hq]
  · intro q feed hmem
    by_cases hq : peerId = q
    · subst hq
      rw [hfeedSelf] at hmem
      cases hmem
      exact ⟨c, rfl, hend.symm, le_rfl, Nat.lt_add_of_pos_right hpos, _, htableSelf⟩
    · rw [hfeedOther q hq] at hmem
      obtain ⟨n, hfeeds⟩ := hcons.feeds hmem
      refine ⟨n, hfeeds.congr hlength hsize ?_⟩
      by_cases hcn : c = n
      · rw [← hcn]
        exact ⟨_, htableSelf⟩
      · rw [htableOther n hcn]
        exact hfeeds.entered
  · intro p q feed feed' hp hq hstart
    by_cases hpp : peerId = p <;> by_cases hqq : peerId = q
    · exact hpp.symm.trans hqq
    · subst hpp
      rw [hfeedSelf] at hp
      cases hp
      rw [hfeedOther q hqq] at hq
      exact absurd hstart.symm (hcons.no_feed habsent hq)
    · subst hqq
      rw [hfeedSelf] at hq
      cases hq
      rw [hfeedOther p hpp] at hp
      exact absurd hstart (hcons.no_feed habsent hp)
    · rw [hfeedOther p hpp] at hp
      rw [hfeedOther q hqq] at hq
      exact hcons.feed_unique hp hq hstart
  · intro n hactive
    by_cases hcn : c = n
    · rw [← hcn]
      exact ⟨_, htableSelf⟩
    · rw [openChunk_map, List.getElem?_set_ne hcn] at hactive
      rw [htableOther n hcn]
      exact hcons.tabled hactive

/-! ### Cutting a slice -/

/-- What `cutSlice` does to a consistent map: it hands out `size` bytes at the cut of chunk `n`. -/
structure Cuts (m m' : ChunkMap PeerId) (feeder : PeerId) (chunk : FtChunk PeerId)
    (feed : Chunk) (n : Nat) (info : ChunkDownloadInfo PeerId)
    (slice : SliceRequestInfo PeerId) (now : Int) : Prop where
  fed : m.activeChunksFeed[feeder]? = some feed
  feeds : m.Feeds feed n
  entry : m.slicesToDownload[n]? = some info
  offset_eq : chunk.offset = feed.offset
  id_eq : chunk.id = feed.offset
  size_eq : slice.size = chunk.size
  size_pos : 0 < chunk.size
  fits : feed.offset + chunk.size ≤ m.chunkEnd n
  after : m' = { m with
    slicesToDownload := m.slicesToDownload.insert n { info with
      lastDataReceived := now
      slices := info.slices.insert feed.offset slice }
    activeChunksFeed :=
      if feed.offset + chunk.size = m.chunkEnd n then m.activeChunksFeed.erase feeder
      else m.activeChunksFeed.insert feeder { feed with offset := feed.offset + chunk.size } }

theorem CutAt.eq_offset (hcons : m.Consistent) {n cut : Nat} {feeder : PeerId} {feed : Chunk}
    (hfed : m.activeChunksFeed[feeder]? = some feed) (hfeeds : m.Feeds feed n)
    (hcut : m.CutAt n cut) : cut = feed.offset := by
  rcases hcut with ⟨peerId, feed', hmem, hstart, hoffset⟩ | ⟨hnone, _⟩
  · have heq : feeder = peerId :=
      hcons.feed_unique hfed hmem (hfeeds.start_eq.trans hstart.symm)
    subst heq
    rw [hfed] at hmem
    cases hmem
    exact hoffset.symm
  · exact absurd hfeeds.start_eq (hnone feeder feed hfed)

theorem Consistent.cutSlice_spec (hcons : m.Consistent) {feeder peerId : PeerId}
    (sizeHint : Nat) (hhint : 0 < sizeHint) {now : Int} {m' : ChunkMap PeerId}
    {chunk : FtChunk PeerId}
    (hcut : m.cutSlice feeder peerId sizeHint now = some (m', chunk)) :
    ∃ feed n info slice, Cuts m m' feeder chunk feed n info slice now := by
  cases hfed : m.activeChunksFeed[feeder]? with
  | none => simp [cutSlice, hfed] at hcut
  | some feed =>
      obtain ⟨n, hfeeds⟩ := hcons.feeds hfed
      obtain ⟨info, hentry⟩ := hfeeds.entered
      have hentered := hcons.entered hentry
      have hbound := lt_length_of_getElem? hentered.active
      obtain ⟨cut, hsliced⟩ := hentered.sliced
      obtain rfl := CutAt.eq_offset hcons hfed hfeeds hsliced.cutAt
      have hend := hfeeds.end_eq
      have hlt := hfeeds.lt_end
      have hle := hcons.sized.chunkEnd_le hbound
      have hfile := hcons.sized.fileSize_lt
      have hsmall := hcons.sized.sizeOfChunk_le hbound
      have hspan : m.chunkEnd n = chunkmapFixedChunkSize * n + m.sizeOfChunk n := rfl
      have hstart := hfeeds.start_le
      have hnumber : wrap 32 (feed.offset / chunkmapFixedChunkSize) = n := by
        rw [hcons.sized.div_eq_of_mem hbound hstart (hend ▸ hlt), wrap_of_lt hentered.number_lt]
      have hleft : wrap 32 (sub 64 feed.end feed.offset) = m.chunkEnd n - feed.offset := by
        rw [chunkmapFixedChunkSize_eq] at hsmall hspan hstart
        rw [hend, sub_of_le (by omega) (by omega), wrap_of_lt (by omega)]
      have hnew : info.slices[feed.offset]? = none := hsliced.packed.absent_of_le le_rfl
      have hsum : ∀ k, k ≤ m.chunkEnd n - feed.offset →
          add 64 feed.offset k = feed.offset + k := by
        intro k hk
        exact add_of_lt (by omega)
      simp only [cutSlice, hfed, Chunk.getSlice, Chunk.empty, hleft, hnumber, hsum _
        (Nat.min_le_right _ _), Option.bind_eq_bind, Option.bind_some,
        Std.ExtTreeMap.getD_eq_getD_getElem?, hentry, Option.getD_some, hnew, Option.getD_none,
        Option.some.injEq, Prod.mk.injEq, beq_iff_eq] at hcut
      obtain ⟨rfl, rfl⟩ := hcut
      refine ⟨feed, n, info, { SliceRequestInfo.fresh PeerId with
        size := min sizeHint (m.chunkEnd n - feed.offset)
        requestTime := now
        peers := insert peerId ∅ }, ?_⟩
      exact {
        fed := hfed
        feeds := hfeeds
        entry := hentry
        offset_eq := rfl
        id_eq := rfl
        size_eq := rfl
        size_pos := by
          simp only [lt_min_iff]
          omega
        fits := by
          have := Nat.min_le_right sizeHint (m.chunkEnd n - feed.offset)
          simp only
          omega
        after := by
          rw [hend]
          rfl }

section Cut

variable {m' : ChunkMap PeerId} {feeder : PeerId} {chunk : FtChunk PeerId} {feed : Chunk} {n : Nat}
  {info : ChunkDownloadInfo PeerId} {slice : SliceRequestInfo PeerId} {now : Int}

theorem Cuts.sliced (hcuts : Cuts m m' feeder chunk feed n info slice now) (hcons : m.Consistent) :
    m.Sliced n info feed.offset := by
  obtain ⟨cut, hsliced⟩ := (hcons.entered hcuts.entry).sliced
  obtain rfl := CutAt.eq_offset hcons hcuts.fed hcuts.feeds hsliced.cutAt
  exact hsliced

/-- After the cut the feeds of the other chunks are what they were. -/
theorem Cuts.feed_other (hcuts : Cuts m m' feeder chunk feed n info slice now)
    {k : Nat} (hne : n ≠ k) (peerId : PeerId) (other : Chunk)
    (hstart : other.start = chunkmapFixedChunkSize * k) :
    m'.activeChunksFeed[peerId]? = some other ↔ m.activeChunksFeed[peerId]? = some other := by
  have hdiff : feed.start ≠ other.start := by
    rw [hcuts.feeds.start_eq, hstart]
    exact fun heq => hne (chunkStart_inj heq)
  rw [hcuts.after]
  by_cases hpeer : feeder = peerId
  · subst hpeer
    have hold : m.activeChunksFeed[feeder]? ≠ some other := by
      rw [hcuts.fed]
      rintro ⟨⟩
      exact hdiff rfl
    simp only [hold, iff_false]
    split
    · simp
    · rw [OrderedMap.lookup_insert_self]
      rintro ⟨⟩
      exact hdiff rfl
  · simp only
    split
    · rw [OrderedMap.lookup_erase_ne _ hpeer]
    · rw [OrderedMap.lookup_insert_ne _ _ hpeer]

theorem Cuts.cutAt (hcuts : Cuts m m' feeder chunk feed n info slice now) (hcons : m.Consistent) :
    m'.CutAt n (feed.offset + chunk.size) := by
  have hend : m'.chunkEnd n = m.chunkEnd n := by rw [hcuts.after]; rfl
  by_cases hdone : feed.offset + chunk.size = m.chunkEnd n
  · refine Or.inr ⟨?_, hdone.trans hend.symm⟩
    intro peerId other hmem hstart
    rw [hcuts.after] at hmem
    simp only [hdone, if_true, OrderedMap.lookup_erase] at hmem
    split at hmem
    · exact absurd hmem nofun
    · next hpeer =>
        exact hpeer (hcons.feed_unique hcuts.fed hmem (hcuts.feeds.start_eq.trans hstart.symm))
  · refine Or.inl ⟨feeder, { feed with offset := feed.offset + chunk.size }, ?_,
      hcuts.feeds.start_eq, rfl⟩
    rw [hcuts.after]
    simp only [hdone, if_false, OrderedMap.lookup_insert_self]

theorem Cuts.entered (hcuts : Cuts m m' feeder chunk feed n info slice now)
    (hcons : m.Consistent) :
    m'.Entered n { info with
      lastDataReceived := now
      slices := info.slices.insert feed.offset slice } := by
  have hentered := hcons.entered hcuts.entry
  have hsliced := hcuts.sliced hcons
  have hend : m'.chunkEnd n = m.chunkEnd n := by rw [hcuts.after]; rfl
  have hfits := hcuts.fits
  have hslice : slice.size = chunk.size := hcuts.size_eq
  refine
    { active := by rw [hcuts.after]; exact hentered.active
      number_lt := hentered.number_lt
      sliced := ⟨feed.offset + chunk.size, ?_⟩
      remains_pos := hentered.remains_pos
      remains_le := by rw [hcuts.after]; exact hentered.remains_le }
  have haccounted := hsliced.accounted
  exact {
    cutAt := hcuts.cutAt hcons
    start_le := hsliced.start_le.trans (Nat.le_add_right _ _)
    le_end := by rw [hend]; exact hfits
    packed := by
      have := hsliced.packed.append hsliced.start_le
        (show 0 < SliceRequestInfo.size slice by rw [hslice]; exact hcuts.size_pos)
      rwa [hslice] at this
    accounted := by
      rw [hend]
      simp only [pendingBytes] at haccounted ⊢
      rw [OrderedMap.sumOver_insert_of_absent _ _ _ (hsliced.packed.absent_of_le le_rfl), hslice]
      omega }

theorem Cuts.consistent (hcuts : Cuts m m' feeder chunk feed n info slice now)
    (hcons : m.Consistent) : m'.Consistent := by
  have hmap : m'.map = m.map := by rw [hcuts.after]
  have hlength : m'.map.length = m.map.length := by rw [hmap]
  have hsize : m'.fileSize = m.fileSize := by rw [hcuts.after]
  have htable : ∀ k, m'.slicesToDownload[k]? = if n = k then some { info with
      lastDataReceived := now
      slices := info.slices.insert feed.offset slice } else m.slicesToDownload[k]? := by
    intro k
    rw [hcuts.after, OrderedMap.lookup_insert]
  have htabled : ∀ k : Nat, (∃ old : ChunkDownloadInfo PeerId, m.slicesToDownload[k]? = some old) →
      ∃ new : ChunkDownloadInfo PeerId, m'.slicesToDownload[k]? = some new := by
    rintro k ⟨old, hold⟩
    rw [htable]
    split
    · exact ⟨_, rfl⟩
    · exact ⟨old, hold⟩
  -- A feed after the cut is a feed before it, except that the offset of one has moved.
  have hfeed : ∀ (peerId : PeerId) (other : Chunk), m'.activeChunksFeed[peerId]? = some other →
      (feeder ≠ peerId ∧ m.activeChunksFeed[peerId]? = some other) ∨
      (feeder = peerId ∧ other = { feed with offset := feed.offset + chunk.size } ∧
        feed.offset + chunk.size ≠ m.chunkEnd n) := by
    intro peerId other hmem
    rw [hcuts.after] at hmem
    simp only at hmem
    split at hmem
    · rw [OrderedMap.lookup_erase] at hmem
      split at hmem
      · exact absurd hmem nofun
      · next hne => exact Or.inl ⟨hne, hmem⟩
    · next hmore =>
        rw [OrderedMap.lookup_insert] at hmem
        split at hmem
        · next heq =>
            cases hmem
            exact Or.inr ⟨heq, rfl, hmore⟩
        · next hne => exact Or.inl ⟨hne, hmem⟩
  constructor
  · exact hcons.sized.congr hlength hsize
  · intro k other hmem
    rw [htable] at hmem
    split at hmem
    · next heq =>
        subst heq
        cases hmem
        exact hcuts.entered hcons
    · next hne =>
        exact (hcons.entered hmem).congr hlength hsize (by rw [hmap])
          (hcuts.feed_other hne)
  · intro peerId other hmem
    rcases hfeed peerId other hmem with ⟨_, hold⟩ | ⟨_, rfl, hmore⟩
    · obtain ⟨k, hfeeds⟩ := hcons.feeds hold
      exact ⟨k, hfeeds.congr hlength hsize (htabled k hfeeds.entered)⟩
    · have hfits := hcuts.fits
      have hend := hcuts.feeds.end_eq
      refine ⟨n, hcuts.feeds.start_eq, ?_, ?_, ?_, htabled n hcuts.feeds.entered⟩
      · rw [chunkEnd_congr hlength hsize]
        exact hend
      · exact hcuts.feeds.start_le.trans (Nat.le_add_right _ _)
      · simp only
        omega
  · intro p q first second hp hq hstart
    rcases hfeed p first hp with ⟨_, hpold⟩ | ⟨rfl, rfl, _⟩ <;>
      rcases hfeed q second hq with ⟨_, hqold⟩ | ⟨rfl, rfl, _⟩
    · exact hcons.feed_unique hpold hqold hstart
    · exact hcons.feed_unique hpold hcuts.fed hstart
    · exact hcons.feed_unique hcuts.fed hqold hstart
    · rfl
  · intro k hactive
    rw [hmap] at hactive
    exact htabled k (hcons.tabled hactive)

end Cut

end RetroShare.Ft.ChunkMap
