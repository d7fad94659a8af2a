import RetroShare.Ft.ChunkMapRun
import RetroShare.Ft.Proof.ChunkMapSlices

/-!
# Steps of a consistent chunk map

Each operation is inverted once, into the few changes of state it can make; every invariant of the
chunk map is then checked against those changes.
-/

namespace RetroShare.Ft.ChunkMap

open RetroShare.Word RetroShare.Extent RetroShare.Transition

variable {PeerId : Type} [LinearOrder PeerId] {m m' : ChunkMap PeerId}

/-! ### Receiving a slice -/

/-- The entry of a chunk after its slice `cid` arrived. -/
def received (info : ChunkDownloadInfo PeerId) (cid : Nat) (slice : SliceRequestInfo PeerId)
    (now : Int) : ChunkDownloadInfo PeerId :=
  { info with
    remains := info.remains - slice.size
    slices := info.slices.erase cid
    lastDataReceived := now }

omit [LinearOrder PeerId] in
theorem size_le_pendingBytes {info : ChunkDownloadInfo PeerId} {cid : Nat}
    {slice : SliceRequestInfo PeerId} (hslice : info.slices[cid]? = some slice) :
    slice.size ≤ pendingBytes info :=
  OrderedMap.le_sumOver (fun _ slice => slice.size) info.slices hslice

omit [LinearOrder PeerId] in
theorem pendingBytes_received {info : ChunkDownloadInfo PeerId} {cid : Nat}
    {slice : SliceRequestInfo PeerId} (hslice : info.slices[cid]? = some slice) (now : Int) :
    pendingBytes (received info cid slice now) + slice.size = pendingBytes info := by
  have := OrderedMap.sumOver_eq_add_erase (fun _ slice => slice.size) info.slices hslice
  simp only [pendingBytes, received]
  omega

theorem Sliced.size_le_remains {n cut cid : Nat} {info : ChunkDownloadInfo PeerId}
    {slice : SliceRequestInfo PeerId} (hsliced : m.Sliced n info cut)
    (hslice : info.slices[cid]? = some slice) : slice.size ≤ info.remains := by
  have := hsliced.accounted
  have := size_le_pendingBytes hslice
  omega

theorem Sliced.received {n cut cid : Nat} {info : ChunkDownloadInfo PeerId}
    {slice : SliceRequestInfo PeerId} (hsliced : m.Sliced n info cut)
    (hslice : info.slices[cid]? = some slice) (now : Int) :
    m.Sliced n (received info cid slice now) cut := by
  have hle := hsliced.size_le_remains hslice
  have hpending := pendingBytes_received hslice now
  have haccounted := hsliced.accounted
  exact {
    cutAt := hsliced.cutAt
    start_le := hsliced.start_le
    le_end := hsliced.le_end
    packed := hsliced.packed.erase cid
    accounted := by
      simp only [ChunkMap.received] at hpending ⊢
      omega }

/-- The position of a pending slice names its chunk. -/
theorem Consistent.chunkOf_slice (hcons : m.Consistent) {n cid : Nat}
    {info : ChunkDownloadInfo PeerId} {slice : SliceRequestInfo PeerId}
    (hentry : m.slicesToDownload[n]? = some info) (hslice : info.slices[cid]? = some slice) :
    chunkOf cid = n := by
  have hentered := hcons.entered hentry
  obtain ⟨cut, hsliced⟩ := hentered.sliced
  have hlow := hsliced.packed.lower hslice
  have hhigh := hsliced.packed.upper hslice
  have hpos := hsliced.packed.positive hslice
  have hend := hsliced.le_end
  exact hcons.sized.div_eq_of_mem (lt_length_of_getElem? hentered.active) hlow (by omega)

/-- The change made by receiving a slice that is not the last of its chunk. -/
structure Receives (m m' : ChunkMap PeerId) (n cid : Nat) (info : ChunkDownloadInfo PeerId)
    (slice : SliceRequestInfo PeerId) (now : Int) : Prop where
  entry : m.slicesToDownload[n]? = some info
  pending : info.slices[cid]? = some slice
  unfinished : slice.size < info.remains
  after : m' = { m with
    totalDownloaded := add 64 m.totalDownloaded slice.size
    slicesToDownload := m.slicesToDownload.insert n (received info cid slice now) }

/-- Replacing an entry of the table by another one that is sliced at the same cut. -/
theorem Consistent.replaceEntry (hcons : m.Consistent) {n : Nat}
    {info : ChunkDownloadInfo PeerId} (info' : ChunkDownloadInfo PeerId) (hentry : m.slicesToDownload[n]? = some info)
    (hsliced : ∀ cut, m.Sliced n info cut → m.Sliced n info' cut)
    (hpos : 0 < info'.remains) (hle : info'.remains ≤ info.remains)
    (hmap : m'.map = m.map) (hsize : m'.fileSize = m.fileSize)
    (hfeed : m'.activeChunksFeed = m.activeChunksFeed)
    (htable : m'.slicesToDownload = m.slicesToDownload.insert n info') : m'.Consistent := by
  have hlength : m'.map.length = m.map.length := by rw [hmap]
  have hentered := hcons.entered hentry
  have htabled : ∀ k : Nat, (∃ old : ChunkDownloadInfo PeerId, m.slicesToDownload[k]? = some old) →
      ∃ new : ChunkDownloadInfo PeerId, m'.slicesToDownload[k]? = some new := by
    rintro k ⟨old, hold⟩
    rw [htable, OrderedMap.lookup_insert]
    split
    · exact ⟨_, rfl⟩
    · exact ⟨old, hold⟩
  constructor
  · exact hcons.sized.congr hlength hsize
  · intro k other hmem
    rw [htable, OrderedMap.lookup_insert] at hmem
    split at hmem
    · next heq =>
        subst heq
        cases hmem
        obtain ⟨cut, hcut⟩ := hentered.sliced
        have hnew : m.Entered n info' :=
          { active := hentered.active
            number_lt := hentered.number_lt
            sliced := ⟨cut, hsliced cut hcut⟩
            remains_pos := hpos
            remains_le := hle.trans hentered.remains_le }
        exact hnew.congr hlength hsize (by rw [hmap]) fun _ _ _ => by rw [hfeed]
    · exact (hcons.entered hmem).congr hlength hsize (by rw [hmap]) fun _ _ _ => by rw [hfeed]
  · intro peerId feed hmem
    rw [hfeed] at hmem
    obtain ⟨k, hfeeds⟩ := hcons.feeds hmem
    exact ⟨k, hfeeds.congr hlength hsize (htabled k hfeeds.entered)⟩
  · intro p q feed feed' hp hq
    rw [hfeed] at hp hq
    exact hcons.feed_unique hp hq
  · intro k hactive
    rw [hmap] at hactive
    exact htabled k (hcons.tabled hactive)

theorem Receives.consistent {n cid : Nat} {info : ChunkDownloadInfo PeerId}
    {slice : SliceRequestInfo PeerId} {now : Int}
    (hreceives : Receives m m' n cid info slice now) (hcons : m.Consistent) : m'.Consistent := by
  have hunfinished := hreceives.unfinished
  refine hcons.replaceEntry _ hreceives.entry
    (fun cut hsliced => hsliced.received hreceives.pending now) ?_ ?_ ?_ ?_ ?_
    (by rw [hreceives.after])
  · simp only [received]
    omega
  · simp only [received]
    omega
  all_goals rw [hreceives.after]

/-! ### Retiring a chunk -/

/-- Chunk `n` leaves the active state: neither the table nor the feed knows it any more. -/
structure Retires (m m' : ChunkMap PeerId) (n : Nat) (state : ChunkState) : Prop where
  inactive : state ≠ .active
  map_eq : m'.map = m.map.set n state
  fileSize_eq : m'.fileSize = m.fileSize
  table_eq : m'.slicesToDownload = m.slicesToDownload.erase n
  feed_iff : ∀ (peerId : PeerId) (feed : Chunk), m'.activeChunksFeed[peerId]? = some feed ↔
    m.activeChunksFeed[peerId]? = some feed ∧ feed.start ≠ chunkmapFixedChunkSize * n

theorem Retires.length_map {n : Nat} {state : ChunkState} (hretires : Retires m m' n state) :
    m'.map.length = m.map.length := by
  rw [hretires.map_eq, List.length_set]

theorem Retires.consistent {n : Nat} {state : ChunkState} (hretires : Retires m m' n state)
    (hcons : m.Consistent) : m'.Consistent := by
  have hlength := hretires.length_map
  have hsize := hretires.fileSize_eq
  have hother : ∀ k : Nat, n ≠ k → m'.slicesToDownload[k]? = m.slicesToDownload[k]? := by
    intro k hne
    rw [hretires.table_eq, OrderedMap.lookup_erase_ne _ hne]
  constructor
  · exact hcons.sized.congr hlength hsize
  · intro k info hmem
    have hne : n ≠ k := by
      rintro rfl
      rw [hretires.table_eq, OrderedMap.lookup_erase, if_pos rfl] at hmem
      exact absurd hmem nofun
    rw [hother k hne] at hmem
    refine (hcons.entered hmem).congr hlength hsize ?_ ?_
    · rw [hretires.map_eq, List.getElem?_set_ne hne]
    · intro peerId feed hstart
      rw [hretires.feed_iff]
      refine and_iff_left ?_
      rw [hstart]
      exact fun heq => hne (chunkStart_inj heq).symm
  · intro peerId feed hmem
    obtain ⟨hold, hstart⟩ := (hretires.feed_iff peerId feed).mp hmem
    obtain ⟨k, hfeeds⟩ := hcons.feeds hold
    have hne : n ≠ k := by
      rintro rfl
      exact hstart hfeeds.start_eq
    refine ⟨k, hfeeds.congr hlength hsize ?_⟩
    rw [hother k hne]
    exact hfeeds.entered
  · intro p q feed feed' hp hq
    exact hcons.feed_unique ((hretires.feed_iff p feed).mp hp).1
      ((hretires.feed_iff q feed').mp hq).1
  · intro k hactive
    have hne : n ≠ k := by
      rintro rfl
      rw [hretires.map_eq] at hactive
      have hbound := lt_length_of_getElem? (m := { m with map := m.map.set n state }) hactive
      rw [List.length_set] at hbound
      rw [List.getElem?_set_self hbound] at hactive
      exact hretires.inactive (Option.some.inj hactive)
    rw [hretires.map_eq, List.getElem?_set_ne hne] at hactive
    rw [hother k hne]
    exact hcons.tabled hactive

/-- A chunk that is not in the table retires without touching the table or the feed. -/
theorem Consistent.retires_of_not_active (hcons : m.Consistent) {n : Nat}
    {state state' : ChunkState} (hstate : m.map[n]? = some state) (hne : state ≠ .active)
    (hne' : state' ≠ .active) (hmap : m'.map = m.map.set n state')
    (hsize : m'.fileSize = m.fileSize) (hfeed : m'.activeChunksFeed = m.activeChunksFeed)
    (htable : m'.slicesToDownload = m.slicesToDownload) : Retires m m' n state' := by
  have habsent := hcons.not_entered hstate hne
  refine ⟨hne', hmap, hsize, ?_, ?_⟩
  · rw [htable]
    apply Std.ExtTreeMap.ext_getElem?
    intro k
    rw [OrderedMap.lookup_erase]
    split
    · next heq => rw [← heq, habsent]
    · rfl
  · intro peerId feed
    rw [hfeed]
    exact ⟨fun hmem => ⟨hmem, hcons.no_feed habsent hmem⟩, And.left⟩

/-! ### The slice finder -/

/-- The two states differ in the availability maps of the peers at most. -/
def SameDownload (m m' : ChunkMap PeerId) : Prop :=
  ∃ availability, m' = { m with peersChunksAvailability := availability }

theorem SameDownload.refl (m : ChunkMap PeerId) : SameDownload m m :=
  ⟨m.peersChunksAvailability, rfl⟩

theorem SameDownload.trans {m'' : ChunkMap PeerId} (hfirst : SameDownload m m')
    (hsecond : SameDownload m' m'') : SameDownload m m'' := by
  obtain ⟨_, rfl⟩ := hfirst
  obtain ⟨availability, rfl⟩ := hsecond
  exact ⟨availability, rfl⟩

theorem SameDownload.consistent (hsame : SameDownload m m') (hcons : m.Consistent) :
    m'.Consistent := by
  obtain ⟨availability, rfl⟩ := hsame
  exact hcons.congr rfl rfl rfl rfl

theorem getSourceChunksInfo_same (m : ChunkMap PeerId) (peerId : PeerId) :
    SameDownload m (m.getSourceChunksInfo peerId).1 := by
  rw [getSourceChunksInfo]
  split
  · exact SameDownload.refl m
  · exact ⟨_, rfl⟩

theorem refreshRecord_same (m : ChunkMap PeerId) (peerId : PeerId) (info : SourceChunksInfo)
    (now : Int) : SameDownload m (m.refreshRecord peerId info now) := by
  rw [refreshRecord]
  split
  · exact ⟨_, rfl⟩
  · exact SameDownload.refl m

theorem nthAvailable_outstanding (info : SourceChunksInfo) (map : List ChunkState) :
    ∀ (i chosen c : Nat), nthAvailable info i chosen map = some (some c) →
      i ≤ c ∧ map[c - i]? = some .outstanding := by
  induction map with
  | nil =>
      intro i chosen c hfound
      simp [nthAvailable] at hfound
  | cons state rest ih =>
      intro i chosen c hfound
      have hskip : ∀ chosen', nthAvailable info (i + 1) chosen' rest = some (some c) →
          i ≤ c ∧ (state :: rest)[c - i]? = some .outstanding := by
        intro chosen' hrest
        obtain ⟨hle, hstate⟩ := ih (i + 1) chosen' c hrest
        refine ⟨by omega, ?_⟩
        rw [show c - i = c - (i + 1) + 1 by omega, List.getElem?_cons_succ]
        exact hstate
      cases state with
      | outstanding =>
          simp only [nthAvailable, Option.bind_eq_bind, Option.bind_eq_some_iff] at hfound
          obtain ⟨has, _, hfound⟩ := hfound
          cases has with
          | false => exact hskip chosen hfound
          | true =>
              cases chosen with
              | zero =>
                  cases hfound
                  simp
              | succ chosen => exact hskip chosen hfound
      | active => exact hskip chosen hfound
      | done => exact hskip chosen hfound
      | checking => exact hskip chosen hfound

theorem getAvailableChunk_spec {peerId : PeerId} {now : Int} {rand c : Nat} {old : Bool}
    (hchoose : m.getAvailableChunk peerId now rand = some (m', c, old)) :
    SameDownload m m' ∧ m.Loopable ∧
      (c < m.map.length → m.map[c]? = some .outstanding) := by
  simp only [getAvailableChunk] at hchoose
  have hrefresh := refreshRecord_same (m.getSourceChunksInfo peerId).1 peerId
    (m.getSourceChunksInfo peerId).2 now
  obtain ⟨availability, hstored⟩ := (getSourceChunksInfo_same m peerId).trans hrefresh
  generalize m.getSourceChunksInfo peerId = source at hchoose hstored
  rw [hstored] at hchoose
  split at hchoose
  · exact absurd hchoose nofun
  · next hloop =>
      have hloop : m.Loopable := not_not.mp hloop
      obtain ⟨⟨available, before⟩, _, hchoose⟩ := Option.bind_eq_some_iff.mp hchoose
      simp only at hchoose
      split at hchoose
      · simp only [Option.some.injEq, Prod.mk.injEq] at hchoose
        obtain ⟨rfl, rfl, rfl⟩ := hchoose
        exact ⟨⟨_, rfl⟩, hloop, fun hlt => absurd hlt (lt_irrefl _)⟩
      · obtain ⟨chosen, _, hchoose⟩ := Option.bind_eq_some_iff.mp hchoose
        obtain ⟨found, hfound, hchoose⟩ := Option.bind_eq_some_iff.mp hchoose
        simp only [Option.some.injEq, Prod.mk.injEq] at hchoose
        obtain ⟨rfl, rfl, rfl⟩ := hchoose
        refine ⟨⟨_, rfl⟩, hloop, fun hlt => ?_⟩
        cases found with
        | none => exact absurd hlt (lt_irrefl _)
        | some c =>
            obtain ⟨_, hstate⟩ := nthAvailable_outstanding _ m.map 0 chosen c hfound
            simpa using hstate

/-- The search for a feed to share reads the table only: each chunk with a feed is in it. -/
theorem shareFeed_spec (hcons : m.Consistent) (info : SourceChunksInfo) (sizeHint : Nat)
    (feeds : List (PeerId × Chunk))
    (hfeeds : ∀ feed ∈ feeds, m.activeChunksFeed[feed.1]? = some feed.2) :
    ∀ (failsafe shared failsafe' : Option PeerId),
      shareFeed info sizeHint feeds m failsafe = some (m', shared, failsafe') → m' = m := by
  induction feeds with
  | nil =>
      intro failsafe shared failsafe' hshare
      simp only [shareFeed, Option.some.injEq, Prod.mk.injEq] at hshare
      exact hshare.1.symm
  | cons feed rest ih =>
      obtain ⟨peerId, chunk⟩ := feed
      intro failsafe shared failsafe' hshare
      have hmem := hfeeds _ List.mem_cons_self
      have hrest := ih fun feed hfeed => hfeeds feed (List.mem_cons_of_mem _ hfeed)
      obtain ⟨n, hfeed⟩ := hcons.feeds hmem
      obtain ⟨entry, hentry⟩ := hfeed.entered
      have hnumber : wrap 32 (chunk.start / chunkmapFixedChunkSize) = n := by
        have hdiv : chunk.start / chunkmapFixedChunkSize = n := by
          rw [hfeed.start_eq, chunkmapFixedChunkSize_eq]
          omega
        rw [hdiv, wrap_of_lt (hcons.entered hentry).number_lt]
      have hkeep : m.slicesToDownload.insert n
          (m.slicesToDownload.getD n (.fresh PeerId)) = m.slicesToDownload := by
        rw [Std.ExtTreeMap.getD_eq_getD_getElem?, hentry, Option.getD_some]
        exact OrderedMap.insert_lookup _ hentry
      simp only [shareFeed, hnumber, hkeep, Option.bind_eq_bind,
        Option.bind_eq_some_iff] at hshare
      obtain ⟨has, _, hshare⟩ := hshare
      cases has with
      | false => exact hrest failsafe shared failsafe' hshare
      | true =>
          simp only [if_true] at hshare
          split at hshare
          · simp only [Option.some.injEq, Prod.mk.injEq] at hshare
            exact hshare.1.symm
          · exact hrest (some peerId) shared failsafe' hshare

/-- **What `getDataChunk` can do.** It hands out nothing and leaves the download alone, or it cuts a
slice from a feed that exists, or it opens an outstanding chunk and cuts the slice from that. -/
theorem Consistent.getDataChunk_cases (hcons : m.Consistent) {peerId : PeerId} {sizeHint : SizeHint}
    {now : Int} {rand : Nat} {chunk : Option (FtChunk PeerId)} {mapNeeded : Option Bool}
    (hget : m.getDataChunk peerId sizeHint now rand = some (m', chunk, mapNeeded)) :
    (SameDownload m m' ∧ chunk = none) ∨
    (∃ middle feeder slice, SameDownload m middle ∧ chunk = some slice ∧
      middle.cutSlice feeder peerId sizeHint now = some (m', slice)) ∨
    (∃ middle c slice, SameDownload m middle ∧ chunk = some slice ∧
      middle.map[c]? = some .outstanding ∧ c < 2 ^ 32 ∧ middle.activeChunksFeed[peerId]? = none ∧
      (middle.openChunk peerId c).cutSlice peerId peerId sizeHint now = some (m', slice)) := by
  simp only [getDataChunk] at hget
  split at hget
  · simp only [Option.bind_eq_bind, Option.bind_eq_some_iff, Option.some.injEq,
      Prod.mk.injEq] at hget
    obtain ⟨⟨after, slice⟩, hcut, rfl, rfl, rfl⟩ := hget
    exact Or.inr (Or.inl ⟨m, peerId, slice, SameDownload.refl m, rfl, hcut⟩)
  · next hidle =>
      have hsame := getSourceChunksInfo_same m peerId
      generalize m.getSourceChunksInfo peerId = source at hget hsame
      obtain ⟨middle, info⟩ := source
      simp only at hsame hget
      have hmiddle := hsame.consistent hcons
      have hidle : middle.activeChunksFeed[peerId]? = none := by
        obtain ⟨availability, rfl⟩ := hsame
        simpa using hidle
      obtain ⟨⟨after, shared, failsafe⟩, hshare, hget⟩ := Option.bind_eq_some_iff.mp hget
      obtain rfl := shareFeed_spec hmiddle info sizeHint middle.activeChunksFeed.toList
        (fun feed hfeed => (OrderedMap.mem_toList _).mp hfeed) none shared failsafe hshare
      cases shared with
      | some feeder =>
          simp only [Option.bind_eq_bind, Option.bind_eq_some_iff, Option.some.injEq,
            Prod.mk.injEq] at hget
          obtain ⟨⟨after', slice⟩, hcut, rfl, rfl, rfl⟩ := hget
          exact Or.inr (Or.inl ⟨after, feeder, slice, hsame, rfl, hcut⟩)
      | none =>
          obtain ⟨⟨chosen, c, old⟩, hchoose, hget⟩ := Option.bind_eq_some_iff.mp hget
          obtain ⟨hchosen, hloop, houtstanding⟩ := getAvailableChunk_spec hchoose
          have hsame := hsame.trans hchosen
          obtain ⟨availability, rfl⟩ := hchosen
          simp only at hget
          split at hget
          · next hlt =>
              simp only [Option.bind_eq_bind, Option.bind_eq_some_iff, Option.some.injEq,
                Prod.mk.injEq] at hget
              obtain ⟨⟨after', slice⟩, hcut, rfl, rfl, rfl⟩ := hget
              exact Or.inr (Or.inr ⟨_, c, slice, hsame, rfl, houtstanding hlt,
                lt_trans hlt hloop, hidle, hcut⟩)
          · cases failsafe with
            | some feeder =>
                simp only [Option.bind_eq_bind, Option.bind_eq_some_iff, Option.some.injEq,
                  Prod.mk.injEq] at hget
                obtain ⟨⟨after', slice⟩, hcut, rfl, rfl, rfl⟩ := hget
                exact Or.inr (Or.inl ⟨_, feeder, slice, hsame, rfl, hcut⟩)
            | none =>
                simp only [Option.some.injEq, Prod.mk.injEq] at hget
                obtain ⟨rfl, rfl, rfl⟩ := hget
                exact Or.inl ⟨hsame, rfl⟩

/-! ### The other operations -/

theorem updateTotalDownloaded_eq (hrecount : m.updateTotalDownloaded = some m') :
    m' = { m with
      totalDownloaded := m'.totalDownloaded
      fileIsComplete := m.map.all (· == .done) } := by
  rw [updateTotalDownloaded] at hrecount
  split at hrecount
  · simp only [Option.bind_eq_bind, Option.bind_eq_some_iff, Option.some.injEq] at hrecount
    obtain ⟨total, _, rfl⟩ := hrecount
    rfl
  · exact absurd hrecount nofun

/-- The last slice of chunk `n` arrived: the chunk goes to `state` and the total is recounted. -/
structure Finishes (m m' : ChunkMap PeerId) (n cid : Nat) (info : ChunkDownloadInfo PeerId)
    (slice : SliceRequestInfo PeerId) : Prop where
  entry : m.slicesToDownload[n]? = some info
  pending : info.slices[cid]? = some slice
  finished : slice.size = info.remains
  retired : ∃ retired state, Retires m retired n state ∧ (state = .checking ∨ state = .done) ∧
    retired.updateTotalDownloaded = some m'

theorem Finishes.consistent {n cid : Nat} {info : ChunkDownloadInfo PeerId}
    {slice : SliceRequestInfo PeerId} (hfinishes : Finishes m m' n cid info slice)
    (hcons : m.Consistent) : m'.Consistent := by
  obtain ⟨retired, state, hretires, _, hrecount⟩ := hfinishes.retired
  rw [updateTotalDownloaded_eq hrecount]
  exact (hretires.consistent hcons).congr rfl rfl rfl rfl

/-- **What `dataReceived` can do.** -/
theorem Consistent.dataReceived_cases (hcons : m.Consistent) {cid : Nat} {now : Int}
    (hreceive : m.dataReceived cid now = some m') :
    (m.pendingSize cid = none ∧ m' = m) ∨
    ∃ n info slice, chunkOf cid = n ∧
      (Receives m m' n cid info slice now ∨ Finishes m m' n cid info slice) := by
  have hsmall : ∀ {info : ChunkDownloadInfo PeerId}, m.slicesToDownload[chunkOf cid]? = some info →
      wrap 32 (cid / chunkmapFixedChunkSize) = chunkOf cid :=
    fun hentry => wrap_of_lt (hcons.entered hentry).number_lt
  simp only [dataReceived] at hreceive
  split at hreceive
  · next hentry =>
      refine Or.inl ⟨?_, (Option.some.inj hreceive).symm⟩
      cases hown : m.slicesToDownload[chunkOf cid]? with
      | none => simp [pendingSize, hown]
      | some info =>
          rw [hsmall hown, hown] at hentry
          exact absurd hentry nofun
  · next info hentry =>
      generalize hn : wrap 32 (cid / chunkmapFixedChunkSize) = n at hreceive hentry
      split at hreceive
      · next hslice =>
          refine Or.inl ⟨?_, (Option.some.inj hreceive).symm⟩
          cases hown : m.slicesToDownload[chunkOf cid]? with
          | none => simp [pendingSize, hown]
          | some info' =>
              rw [hsmall hown] at hn
              rw [hn, hentry] at hown
              cases hown
              simp [pendingSize, hn, hentry, hslice]
      · next slice hslice =>
          have hentered := hcons.entered hentry
          obtain ⟨cut, hsliced⟩ := hentered.sliced
          have hle := hsliced.size_le_remains hslice
          have hbound := lt_length_of_getElem? hentered.active
          have hremains : info.remains < 2 ^ 32 := by
            have hmax := hcons.sized.sizeOfChunk_le hbound
            have := hentered.remains_le
            rw [chunkmapFixedChunkSize_eq] at hmax
            omega
          have hchunk := hcons.chunkOf_slice hentry hslice
          refine Or.inr ⟨n, info, slice, hchunk, ?_⟩
          simp only [sub_of_le hle hremains] at hreceive
          split at hreceive
          · next hzero =>
              right
              split at hreceive
              · have hdone := (hsliced.received hslice now).accounted
                simp only [received, hzero] at hdone
                have hfeed : ∀ (peerId : PeerId) (feed : Chunk),
                    m.activeChunksFeed[peerId]? = some feed →
                    feed.start ≠ chunkmapFixedChunkSize * n := by
                  rcases hsliced.cutAt with ⟨peerId, feed, hmem, hstart, hoffset⟩ | ⟨hnone, _⟩
                  · obtain ⟨k, hfeeds⟩ := hcons.feeds hmem
                    obtain rfl : k = n := chunkStart_inj (hfeeds.start_eq.symm.trans hstart)
                    have := hfeeds.lt_end
                    rw [hfeeds.end_eq] at this
                    omega
                  · exact hnone
                refine ⟨hentry, hslice, by omega, _, if 0 < n ∨ chunkmapFixedChunkSize <
                  m.fileSize then .checking else .done, ⟨?_, ?_, ?_, ?_, ?_⟩, ?_, hreceive⟩
                · split <;> exact nofun
                · split <;> rfl
                · split <;> rfl
                · split <;> rfl
                · intro peerId feed
                  split <;> exact ⟨fun hmem => ⟨hmem, hfeed peerId feed hmem⟩, And.left⟩
                · split
                  · exact Or.inl rfl
                  · exact Or.inr rfl
              · exact absurd hreceive nofun
          · next hmore =>
              left
              exact ⟨hentry, hslice, by omega, (Option.some.inj hreceive).symm⟩

/-- The change made by dropping a chunk nobody sent data for. -/
structure Drops (m m' : ChunkMap PeerId) (n : Nat) (info : ChunkDownloadInfo PeerId) : Prop where
  entry : m.slicesToDownload[n]? = some info
  after : m' = { m with
    map := m.map.set n .outstanding
    totalDownloaded := sub 64 m.totalDownloaded (sub 32 (m.sizeOfChunk n) info.remains)
    activeChunksFeed := m.activeChunksFeed.filter fun _ chunk =>
      chunk.start != chunkmapFixedChunkSize * n
    slicesToDownload := m.slicesToDownload.erase n }

theorem Drops.retires {n : Nat} {info : ChunkDownloadInfo PeerId} (hdrops : Drops m m' n info) :
    Retires m m' n .outstanding := by
  rw [hdrops.after]
  refine ⟨nofun, rfl, rfl, rfl, ?_⟩
  intro peerId feed
  simp only
  rw [OrderedMap.lookup_filter, Option.filter_eq_some_iff]
  simp

theorem dropChunk_spec {n : Nat} {info : ChunkDownloadInfo PeerId}
    (hentry : m.slicesToDownload[n]? = some info) (hdrop : m.dropChunk n info = some m') :
    Drops m m' n info := by
  rw [dropChunk] at hdrop
  split at hdrop
  · exact ⟨hentry, (Option.some.inj hdrop).symm⟩
  · exact absurd hdrop nofun

/-- The loop of `removeInactiveChunks` drops the inactive chunks of the list one after the other,
so what each drop preserves holds at the end. -/
theorem dropInactive_induction {now : Int} {P : ChunkMap PeerId → Prop}
    (hdrop : ∀ before n info after, P before → Drops before after n info → inactive info now →
      P after)
    (entries : List (Nat × ChunkDownloadInfo PeerId)) :
    ∀ (m : ChunkMap PeerId) (toRemove : List Nat) (result : ChunkMap PeerId × List Nat),
      (entries.map Prod.fst).Nodup →
      (∀ entry ∈ entries, m.slicesToDownload[entry.1]? = some entry.2) → P m →
      dropInactive now entries m toRemove = some result → P result.1 := by
  induction entries with
  | nil =>
      intro m toRemove result _ _ hm hloop
      cases hloop
      exact hm
  | cons entry rest ih =>
      obtain ⟨n, info⟩ := entry
      intro m toRemove result hnodup hentries hm hloop
      obtain ⟨hfresh, hnodup⟩ := List.nodup_cons.mp hnodup
      have hrest : ∀ entry ∈ rest, m.slicesToDownload[entry.1]? = some entry.2 :=
        fun entry hentry => hentries entry (List.mem_cons_of_mem _ hentry)
      simp only [dropInactive] at hloop
      split at hloop
      · next hinactive =>
          obtain ⟨after, hafter, hloop⟩ := Option.bind_eq_some_iff.mp hloop
          have hdrops := dropChunk_spec (hentries _ List.mem_cons_self) hafter
          refine ih after _ result hnodup ?_ (hdrop m n info after hm hdrops hinactive) hloop
          intro entry hentry
          have hne : n ≠ entry.1 := by
            rintro rfl
            exact hfresh (List.mem_map.mpr ⟨entry, hentry, rfl⟩)
          rw [hdrops.retires.table_eq, OrderedMap.lookup_erase_ne _ hne]
          exact hrest entry hentry
      · exact ih m _ result hnodup hrest hm hloop

theorem removeInactiveChunks_induction {now : Int} {P : ChunkMap PeerId → Prop}
    (hdrop : ∀ before n info after, P before → Drops before after n info → inactive info now →
      P after)
    {result : ChunkMap PeerId × List Nat} (hm : P m)
    (hremove : m.removeInactiveChunks now = some result) : P result.1 :=
  dropInactive_induction hdrop _ m [] result (OrderedMap.nodup_keys_toList _)
    (fun _ hentry => (OrderedMap.mem_toList _).mp hentry) hm hremove

/-- **What `setChunkCheckingResult` can do.** -/
theorem setChunkCheckingResult_cases {chunkNumber : Nat} {checkSucceeded : Bool}
    (hcheck : m.setChunkCheckingResult chunkNumber checkSucceeded = some m') :
    (m' = m ∧ m.map[chunkNumber]? ≠ some .checking) ∨
    (m.map[chunkNumber]? = some .checking ∧ checkSucceeded = true ∧ ∃ unfinished,
      ({ m with map := m.map.set chunkNumber .done } : ChunkMap PeerId).scan
        (· != ChunkState.done) = some unfinished ∧
      m' = { m with
        map := m.map.set chunkNumber .done
        fileIsComplete := !unfinished }) ∨
    (m.map[chunkNumber]? = some .checking ∧ checkSucceeded = false ∧ m' = { m with
      totalDownloaded := sub 64 m.totalDownloaded (m.sizeOfChunk chunkNumber)
      map := m.map.set chunkNumber .outstanding }) := by
  simp only [setChunkCheckingResult] at hcheck
  obtain ⟨state, hstate, hcheck⟩ := Option.bind_eq_some_iff.mp hcheck
  split at hcheck
  · next hne =>
      refine Or.inl ⟨(Option.some.inj hcheck).symm, ?_⟩
      rw [hstate]
      exact fun heq => hne (Option.some.inj heq)
  · next hchecking =>
      obtain rfl : state = .checking := not_not.mp hchecking
      cases checkSucceeded with
      | true =>
          obtain ⟨unfinished, hscan, hafter⟩ := Option.bind_eq_some_iff.mp hcheck
          exact Or.inr (Or.inl ⟨hstate, rfl, unfinished, hscan, (Option.some.inj hafter).symm⟩)
      | false => exact Or.inr (Or.inr ⟨hstate, rfl, (Option.some.inj hcheck).symm⟩)

/-- The change made by asking for a pending slice again. -/
structure ReAsks (m m' : ChunkMap PeerId) (n offset : Nat) (info : ChunkDownloadInfo PeerId)
    (slice slice' : SliceRequestInfo PeerId) : Prop where
  entry : m.slicesToDownload[n]? = some info
  pending : info.slices[offset]? = some slice
  size_eq : slice'.size = slice.size
  after : m' = { m with slicesToDownload := m.slicesToDownload.insert n { info with
    slices := info.slices.insert offset slice' } }

theorem reAskPendingChunk_cases {peerId : PeerId} {now : Int} {asked : Option (Nat × Nat)}
    (hask : m.reAskPendingChunk peerId now = some (m', asked)) :
    (m' = m ∧ asked = none) ∨
    ∃ n offset info slice slice', ReAsks m m' n offset info slice slice' ∧
      asked = some (offset, slice.size) := by
  simp only [reAskPendingChunk] at hask
  obtain ⟨outstanding, _, hask⟩ := Option.bind_eq_some_iff.mp hask
  split at hask
  · simp only [Option.some.injEq, Prod.mk.injEq] at hask
    exact Or.inl ⟨hask.1.symm, hask.2.symm⟩
  · split at hask
    · simp only [Option.some.injEq, Prod.mk.injEq] at hask
      exact Or.inl ⟨hask.1.symm, hask.2.symm⟩
    · next n info offset slice hfound =>
        obtain ⟨⟨n', info'⟩, hmem, hfound⟩ := List.exists_of_findSome?_eq_some hfound
        simp only [Option.map_eq_some_iff, Prod.mk.injEq, Prod.exists] at hfound
        obtain ⟨offset', slice', hreask, rfl, rfl, rfl, rfl⟩ := hfound
        simp only [Option.some.injEq, Prod.mk.injEq] at hask
        obtain ⟨rfl, rfl⟩ := hask
        exact Or.inr ⟨n', offset', info', slice',
          { slice' with requestTime := now, peers := insert peerId slice'.peers },
          ⟨(OrderedMap.mem_toList _).mp hmem,
            (OrderedMap.mem_toList _).mp (List.mem_of_find?_eq_some hreask), rfl, rfl⟩, rfl⟩

omit [LinearOrder PeerId] in
theorem pendingBytes_insert {info : ChunkDownloadInfo PeerId} {offset : Nat}
    {slice slice' : SliceRequestInfo PeerId} (hslice : info.slices[offset]? = some slice)
    (hsize : slice'.size = slice.size) :
    pendingBytes { info with slices := info.slices.insert offset slice' } = pendingBytes info := by
  have := OrderedMap.sumOver_insert_of_present (fun _ slice => slice.size) info.slices slice' hslice
  simp only [pendingBytes]
  omega

/-- Resizing nothing, the replacement of a pending slice keeps the others where they were. -/
theorem Sliced.replaceSlice {n cut offset : Nat} {info : ChunkDownloadInfo PeerId}
    {slice slice' : SliceRequestInfo PeerId} (hsliced : m.Sliced n info cut)
    (hslice : info.slices[offset]? = some slice) (hsize : slice'.size = slice.size) :
    m.Sliced n { info with slices := info.slices.insert offset slice' } cut :=
  { cutAt := hsliced.cutAt
    start_le := hsliced.start_le
    le_end := hsliced.le_end
    packed := hsliced.packed.replace hslice hsize
    accounted := by rw [pendingBytes_insert hslice hsize]; exact hsliced.accounted }

theorem ReAsks.consistent {n offset : Nat} {info : ChunkDownloadInfo PeerId}
    {slice slice' : SliceRequestInfo PeerId} (hreasks : ReAsks m m' n offset info slice slice')
    (hcons : m.Consistent) : m'.Consistent := by
  have hremains := (hcons.entered hreasks.entry).remains_pos
  refine hcons.replaceEntry { info with slices := info.slices.insert offset slice' }
    hreasks.entry (fun cut hsliced => hsliced.replaceSlice hreasks.pending hreasks.size_eq)
    hremains le_rfl ?_ ?_ ?_ (by rw [hreasks.after])
  all_goals rw [hreasks.after]

/-! ### Every step -/

theorem Idle.lookup (hidle : m.Idle) (n : Nat) : m.slicesToDownload[n]? = none := by
  rw [Std.ExtTreeMap.isEmpty_iff.mp hidle, Std.ExtTreeMap.getElem?_empty]

/-- Overwriting the map of a consistent state in which nothing is being downloaded. -/
theorem Consistent.overwrite (hcons : m.Consistent) (hidle : m.Idle)
    (hlength : m'.map.length = m.map.length) (hactive : ChunkState.active ∉ m'.map)
    (hsize : m'.fileSize = m.fileSize) (hfeed : m'.activeChunksFeed = m.activeChunksFeed)
    (htable : m'.slicesToDownload = m.slicesToDownload) : m'.Consistent := by
  have hnofeed : ∀ (peerId : PeerId) (feed : Chunk),
      m'.activeChunksFeed[peerId]? ≠ some feed := by
    intro peerId feed hmem
    rw [hfeed] at hmem
    obtain ⟨n, hfeeds⟩ := hcons.feeds hmem
    obtain ⟨info, hinfo⟩ := hfeeds.entered
    rw [hidle.lookup] at hinfo
    exact absurd hinfo nofun
  constructor
  · exact hcons.sized.congr hlength hsize
  · intro n info hmem
    rw [htable, hidle.lookup] at hmem
    exact absurd hmem nofun
  · intro peerId feed hmem
    exact absurd hmem (hnofeed peerId feed)
  · intro p q feed feed' hp
    exact absurd hp (hnofeed p feed)
  · intro n hn
    exact absurd (List.mem_of_getElem? hn) hactive

theorem setPeerAvailabilityMap_same {peerId : PeerId} {cmap : CompressedChunkMap} {now : Int}
    (hset : m.setPeerAvailabilityMap peerId cmap now = some m') : SameDownload m m' := by
  simp only [setPeerAvailabilityMap] at hset
  split at hset
  · cases hset
    exact SameDownload.refl m
  · split at hset
    · exact absurd hset nofun
    · cases hset
      exact ⟨_, rfl⟩

/-- What `setAvailabilityMap` can do: the map it stores has chunks done or outstanding only. -/
theorem setAvailabilityMap_cases {cmap : CompressedChunkMap}
    (hset : m.setAvailabilityMap cmap = some m') :
    (m' = m ∧ m.RefusesMap cmap) ∨ (¬ m.RefusesMap cmap ∧ ∃ bits : List Bool,
      bits.length = m.map.length ∧
      m'.map = bits.map (fun (bit : Bool) => if bit then .done else .outstanding) ∧
      m' = { m with
        map := m'.map
        fileIsComplete := bits.all id
        totalDownloaded := (m'.map.mapIdx m'.rawContribution).foldl (add 64) 0 }) := by
  simp only [setAvailabilityMap] at hset
  split at hset
  · exact absurd hset nofun
  · split at hset
    · next hrefuses => exact Or.inl ⟨(Option.some.inj hset).symm, hrefuses⟩
    · next haccepts =>
        split at hset
        · cases hset
          exact Or.inr ⟨haccepts, _, by simp, rfl, rfl⟩
        · exact absurd hset nofun

theorem permits_of_not_overwritesMap {op : ChunkMapOp PeerId} (hop : ¬ op.OverwritesMap) :
    m.Permits op := by
  cases op with
  | forceCheck => exact absurd trivial hop
  | setAvailabilityMap cmap => exact absurd trivial hop
  | _ => trivial

theorem Consistent.step (hcons : m.Consistent) {op : ChunkMapOp PeerId} (hpermits : m.Permits op)
    (hstep : m.step op = some m') : m'.Consistent := by
  cases op with
  | getDataChunk peerId sizeHint now rand =>
      obtain ⟨⟨after, chunk, mapNeeded⟩, hget, rfl⟩ := Option.map_eq_some_iff.mp hstep
      rcases hcons.getDataChunk_cases hget with ⟨hsame, _⟩ |
        ⟨middle, feeder, slice, hsame, _, hcut⟩ |
        ⟨middle, c, slice, hsame, _, hc, hnumber, hidle, hcut⟩
      · exact hsame.consistent hcons
      · have hmiddle := hsame.consistent hcons
        obtain ⟨_, _, _, _, hcuts⟩ := hmiddle.cutSlice_spec _ sizeHint.2.1 hcut
        exact hcuts.consistent hmiddle
      · have hopened := (hsame.consistent hcons).openChunk hc hnumber hidle
        obtain ⟨_, _, _, _, hcuts⟩ := hopened.cutSlice_spec _ sizeHint.2.1 hcut
        exact hcuts.consistent hopened
  | reAskPendingChunk peerId now =>
      obtain ⟨⟨after, asked⟩, hask, rfl⟩ := Option.map_eq_some_iff.mp hstep
      rcases reAskPendingChunk_cases hask with ⟨rfl, _⟩ | ⟨_, _, _, _, _, hreasks, _⟩
      · exact hcons
      · exact hreasks.consistent hcons
  | dataReceived cid now =>
      rcases hcons.dataReceived_cases hstep with ⟨_, rfl⟩ |
        ⟨_, _, _, _, hreceives | hfinishes⟩
      · exact hcons
      · exact hreceives.consistent hcons
      · exact hfinishes.consistent hcons
  | removeInactiveChunks now =>
      obtain ⟨result, hremove, rfl⟩ := Option.map_eq_some_iff.mp hstep
      refine removeInactiveChunks_induction ?_ hcons hremove
      intro before n info after hbefore hdrops _
      exact hdrops.retires.consistent hbefore
  | setChunkCheckingResult chunkNumber checkSucceeded =>
      rcases setChunkCheckingResult_cases hstep with ⟨rfl, _⟩ | ⟨hstate, _, _, _, rfl⟩ |
        ⟨hstate, _, rfl⟩
      · exact hcons
      · refine Retires.consistent (hcons.retires_of_not_active hstate nofun
          (show ChunkState.done ≠ .active from nofun) ?_ ?_ ?_ ?_) hcons
        all_goals rfl
      · refine Retires.consistent (hcons.retires_of_not_active hstate nofun
          (show ChunkState.outstanding ≠ .active from nofun) ?_ ?_ ?_ ?_) hcons
        all_goals rfl
  | getChunksToCheck =>
      cases hstep
      exact hcons.congr rfl rfl rfl rfl
  | setPeerAvailabilityMap peerId cmap now =>
      exact (setPeerAvailabilityMap_same hstep).consistent hcons
  | removeFileSource peerId =>
      cases hstep
      exact hcons.congr rfl rfl rfl rfl
  | setStrategy strategy =>
      cases hstep
      exact hcons.congr rfl rfl rfl rfl
  | setAvailabilityMap cmap =>
      rcases setAvailabilityMap_cases hstep with ⟨rfl, _⟩ | ⟨haccepts, bits, hlength, hmap, hafter⟩
      · exact hcons
      · refine hcons.overwrite (hpermits.resolve_left haccepts) ?_ ?_ ?_ ?_ ?_
        · rw [hmap, List.length_map, hlength]
        · rw [hmap, List.mem_map]
          rintro ⟨bit, _, hbit⟩
          cases bit <;> exact absurd hbit nofun
        all_goals rw [hafter]
  | forceCheck =>
      simp only [ChunkMap.step, forceCheck] at hstep
      split at hstep
      · rw [updateTotalDownloaded_eq hstep]
        refine hcons.overwrite hpermits ?_ ?_ rfl rfl rfl
        · simp only [List.length_map]
        · simp
      · exact absurd hstep nofun

end RetroShare.Ft.ChunkMap
