import RetroShare.Ft.Proof.ChunkMapSteps

/-!
# Slices and what their peer has

A slice comes from the peer's own feed, from the feed of another peer, or from a chunk that is opened for
it. The second and the third way look at what the peer has; the first does not, and the peer may have
told something else since its feed was opened.
-/

namespace RetroShare.Ft.ChunkMap

open RetroShare.Word RetroShare.Transition

variable {PeerId : Type} [LinearOrder PeerId] {m m' : ChunkMap PeerId}

/-- The availability record of a peer; a peer without one gets the default when it is looked up. -/
def record (m : ChunkMap PeerId) (peerId : PeerId) : SourceChunksInfo :=
  (m.getSourceChunksInfo peerId).2

/-- The record marks the chunk as present, or is full. -/
def Available (m : ChunkMap PeerId) (peerId : PeerId) (c : Nat) : Prop :=
  (m.record peerId).has? c = some true

/-- A slice lies in one active chunk that its peer has. Where there is none, the peer has no outstanding
chunk. -/
def Respects (m : ChunkMap PeerId) (peerId : PeerId) : Option (FtChunk PeerId) → Prop
  | some slice =>
      slice.offset + slice.size ≤ chunkmapFixedChunkSize * (chunkOf slice.offset + 1) ∧
        m.Available peerId (chunkOf slice.offset) ∧
        m.map[chunkOf slice.offset]? = some .active
  | none => ∀ c, m.map[c]? = some .outstanding → ¬ m.Available peerId c

/-- Where the peer has a feed of its own, it has the chunk of that feed. -/
def OwnFeedAvailable (m : ChunkMap PeerId) (peerId : PeerId) : Prop :=
  ∀ feed, m.activeChunksFeed[peerId]? = some feed → m.Available peerId (chunkOf feed.start)

/-! ### Records -/

theorem record_congr (hpeers : m'.peersChunksAvailability = m.peersChunksAvailability)
    (hlength : m'.map.length = m.map.length)
    (hassume : m'.assumeAvailability = m.assumeAvailability) (peerId : PeerId) :
    m'.record peerId = m.record peerId := by
  unfold record getSourceChunksInfo
  rw [hpeers, hlength, hassume]
  split <;> rfl

theorem record_of_lookup {peerId : PeerId} {info : SourceChunksInfo}
    (hlookup : m.peersChunksAvailability[peerId]? = some info) : m.record peerId = info := by
  unfold record getSourceChunksInfo
  rw [hlookup]

/-- Looking a record up stores it. -/
theorem lookup_getSourceChunksInfo (m : ChunkMap PeerId) (peerId : PeerId) :
    (m.getSourceChunksInfo peerId).1.peersChunksAvailability[peerId]? = some (m.record peerId) := by
  unfold record getSourceChunksInfo
  split
  · next info hlookup => exact hlookup
  · exact OrderedMap.lookup_insert_self _ _ _

theorem record_getSourceChunksInfo (m : ChunkMap PeerId) (peerId : PeerId) :
    (m.getSourceChunksInfo peerId).1.record peerId = m.record peerId :=
  record_of_lookup (lookup_getSourceChunksInfo m peerId)

theorem has?_refreshRecord {peerId : PeerId} (now : Int) (c : Nat) :
    ((m.refreshRecord peerId (m.record peerId) now).record peerId).has? c =
      (m.record peerId).has? c := by
  unfold refreshRecord
  split
  · rw [record_of_lookup (OrderedMap.lookup_insert_self _ _ _)]
    rfl
  · rfl

/-! ### The three ways -/

theorem nthAvailable_has? (info : SourceChunksInfo) (map : List ChunkState) :
    ∀ (i chosen c : Nat), nthAvailable info i chosen map = some (some c) →
      info.has? c = some true := by
  induction map with
  | nil => exact fun i chosen c hfound => nomatch hfound
  | cons state rest ih =>
      intro i chosen c hfound
      cases state with
      | outstanding =>
          obtain ⟨has, hhas, hfound⟩ := Option.bind_eq_some_iff.mp hfound
          cases has with
          | false => exact ih _ _ _ hfound
          | true =>
              cases chosen with
              | zero =>
                  cases hfound
                  exact hhas
              | succ chosen => exact ih _ _ _ hfound
      | active => exact ih _ _ _ hfound
      | done => exact ih _ _ _ hfound
      | checking => exact ih _ _ _ hfound

/-- The second loop of `getAvailableChunk` finds one of the chunks that the first has counted. -/
theorem countAvailable_le (info : SourceChunksInfo) (map : List ChunkState) :
    ∀ (i chosen available before available' before' : Nat),
      countAvailable info i available before map = some (available', before') →
      nthAvailable info i chosen map = some none → available' ≤ available + chosen := by
  induction map with
  | nil =>
      intro i chosen available before available' before' hcount _
      cases hcount
      exact Nat.le_add_right _ _
  | cons state rest ih =>
      intro i chosen available before available' before' hcount hfound
      cases state with
      | outstanding =>
          obtain ⟨has, hhas, hcount⟩ := Option.bind_eq_some_iff.mp hcount
          obtain ⟨has', hhas', hfound⟩ := Option.bind_eq_some_iff.mp hfound
          obtain rfl : has = has' := Option.some.inj (hhas.symm.trans hhas')
          cases has with
          | false => exact ih _ _ _ _ _ _ hcount hfound
          | true =>
              cases chosen with
              | zero => cases hfound
              | succ chosen =>
                  have hrest := ih _ _ _ _ _ _ hcount hfound
                  omega
      | active => exact ih _ _ _ _ _ _ hcount hfound
      | done => exact ih _ _ _ _ _ _ hcount hfound
      | checking => exact ih _ _ _ _ _ _ hcount hfound

/-- Every outstanding chunk that the peer has is counted. -/
theorem countAvailable_lt (info : SourceChunksInfo) (map : List ChunkState) :
    ∀ (i available before available' before' : Nat),
      countAvailable info i available before map = some (available', before') →
      available ≤ available' ∧ ∀ c, map[c]? = some .outstanding → info.has? (i + c) = some true →
        available < available' := by
  induction map with
  | nil =>
      intro i available before available' before' hcount
      cases hcount
      exact ⟨le_rfl, fun c hstate => nomatch hstate⟩
  | cons state rest ih =>
      intro i available before available' before' hcount
      have hskip : ∀ before'', countAvailable info (i + 1) available before'' rest =
            some (available', before') → (info.has? i = some true → state ≠ .outstanding) →
          available ≤ available' ∧ ∀ c, (state :: rest)[c]? = some .outstanding →
            info.has? (i + c) = some true → available < available' := by
        intro before'' hrest hfirst
        obtain ⟨hle, hothers⟩ := ih _ _ _ _ _ hrest
        refine ⟨hle, fun c hstate hhas => ?_⟩
        cases c with
        | zero => exact absurd (Option.some.inj hstate) (hfirst hhas)
        | succ c =>
            rw [← Nat.add_assoc, Nat.add_right_comm] at hhas
            exact hothers c hstate hhas
      cases state with
      | outstanding =>
          obtain ⟨has, hhas, hcount⟩ := Option.bind_eq_some_iff.mp hcount
          cases has with
          | false =>
              refine hskip _ hcount fun htrue => ?_
              rw [hhas] at htrue
              cases htrue
          | true =>
              obtain ⟨hle, _⟩ := ih _ _ _ _ _ hcount
              exact ⟨by omega, fun _ _ _ => hle⟩
      | active => exact hskip _ hcount fun _ => nofun
      | done => exact hskip _ hcount fun _ => nofun
      | checking => exact hskip _ hcount fun _ => nofun

theorem chosenChunkNumber_lt {available before rand chosen : Nat} (havailable : available ≠ 0)
    (hchosen : m.chosenChunkNumber available before rand = some chosen) : chosen < available := by
  have hrand : ∀ bound, bound ≤ available → randBelow rand bound = some chosen →
      chosen < available := by
    intro bound hbound hchosen
    unfold randBelow at hchosen
    split at hchosen
    · cases hchosen
    · next hpos =>
      cases hchosen
      exact lt_of_lt_of_le (Nat.mod_lt _ (Nat.pos_of_ne_zero hpos)) hbound
  unfold chosenChunkNumber at hchosen
  split at hchosen
  · cases hchosen
    exact Nat.pos_of_ne_zero havailable
  · exact hrand _ le_rfl hchosen
  · exact hrand _ (Nat.min_le_left _ _) hchosen

/-- **What `getAvailableChunk` chooses**: an outstanding chunk that the peer has, when there is one. -/
theorem getAvailableChunk_has? {peerId : PeerId} {now : Int} {rand c : Nat} {old : Bool}
    (hchoose : m.getAvailableChunk peerId now rand = some (m', c, old)) :
    (∀ c, (m'.record peerId).has? c = (m.record peerId).has? c) ∧
      (c < m.map.length → m.Available peerId c) ∧
      (¬ c < m.map.length → ∀ c', m.map[c']? = some .outstanding → ¬ m.Available peerId c') := by
  have hhas := @has?_refreshRecord _ _ (m.getSourceChunksInfo peerId).1 peerId now
  obtain ⟨availability, hstored⟩ := (getSourceChunksInfo_same m peerId).trans
    (refreshRecord_same (m.getSourceChunksInfo peerId).1 peerId (m.record peerId) now)
  rw [record_getSourceChunksInfo] at hhas
  have hmap : ((m.getSourceChunksInfo peerId).1.refreshRecord peerId
      (m.getSourceChunksInfo peerId).2 now).map = m.map :=
    (congrArg (·.map) hstored).trans rfl
  simp only [getAvailableChunk] at hchoose
  change (if ¬ ((m.getSourceChunksInfo peerId).1.refreshRecord peerId (m.record peerId) now).Loopable
    then _ else _) = _ at hchoose
  split at hchoose
  · cases hchoose
  · obtain ⟨⟨available, before⟩, hcount, hchoose⟩ := Option.bind_eq_some_iff.mp hchoose
    rw [hmap] at hcount hchoose
    obtain ⟨_, hnone⟩ := countAvailable_lt _ _ _ _ _ _ _ hcount
    dsimp only at hchoose
    split at hchoose
    · next hzero =>
      cases hchoose
      refine ⟨hhas, fun hlt => absurd hlt (lt_irrefl _), fun _ c' hstate hc' => ?_⟩
      have hpos := hnone c' hstate (by rw [Nat.zero_add]; exact hc')
      omega
    · next hsome =>
      obtain ⟨chosen, hchosen, hchoose⟩ := Option.bind_eq_some_iff.mp hchoose
      obtain ⟨found, hfound, hchoose⟩ := Option.bind_eq_some_iff.mp hchoose
      have hlt := chosenChunkNumber_lt hsome hchosen
      cases found with
      | none =>
          have hle := countAvailable_le _ _ _ _ _ _ _ _ hcount hfound
          omega
      | some c =>
          cases hchoose
          refine ⟨hhas, fun _ => nthAvailable_has? _ _ _ _ _ hfound, fun hout => ?_⟩
          have hstate := (nthAvailable_outstanding _ m.map 0 chosen _ hfound).2
          exact absurd (lt_length_of_getElem? hstate) hout

/-- The feeder has a feed, and the record has the chunk of that feed. -/
def Shares (feeds : OrderedMap PeerId Chunk) (info : SourceChunksInfo) (feeder : PeerId) : Prop :=
  ∃ feed, feeds[feeder]? = some feed ∧
    info.has? (wrap 32 (feed.start / chunkmapFixedChunkSize)) = some true

theorem shareFeed_shares (feeds : OrderedMap PeerId Chunk) (info : SourceChunksInfo)
    (sizeHint : Nat) (list : List (PeerId × Chunk)) :
    ∀ (m m' : ChunkMap PeerId) (failsafe shared failsafe' : Option PeerId),
      (∀ feed ∈ list, feeds[feed.1]? = some feed.2) →
      (∀ feeder, failsafe = some feeder → Shares feeds info feeder) →
      shareFeed info sizeHint list m failsafe = some (m', shared, failsafe') →
      (∀ feeder, shared = some feeder → Shares feeds info feeder) ∧
        ∀ feeder, failsafe' = some feeder → Shares feeds info feeder := by
  induction list with
  | nil =>
      intro m m' failsafe shared failsafe' _ hfailsafe hshare
      cases hshare
      exact ⟨nofun, hfailsafe⟩
  | cons feed rest ih =>
      obtain ⟨peerId, chunk⟩ := feed
      intro m m' failsafe shared failsafe' hfeeds hfailsafe hshare
      have hmem := hfeeds _ List.mem_cons_self
      have hrest : ∀ feed ∈ rest, feeds[feed.1]? = some feed.2 :=
        fun feed hfeed => hfeeds feed (List.mem_cons_of_mem _ hfeed)
      obtain ⟨has, hhas, hshare⟩ := Option.bind_eq_some_iff.mp hshare
      cases has with
      | false => exact ih _ _ _ _ _ hrest hfailsafe hshare
      | true =>
          have hshares : ∀ feeder, some peerId = some feeder → Shares feeds info feeder := by
            intro feeder hfeeder
            cases hfeeder
            exact ⟨chunk, hmem, hhas⟩
          rw [if_pos rfl] at hshare
          dsimp only at hshare
          split at hshare
          · cases hshare
            exact ⟨hshares, hshares⟩
          · exact ih _ _ _ _ _ hrest hshares hshare

/-! ### The slice that is handed out -/

/-- A slice that is cut from a feed lies in the chunk of the feed, which is active. -/
theorem Cuts.respects_iff {feeder peerId : PeerId} {slice : FtChunk PeerId} {feed : Chunk} {n : Nat}
    {info : ChunkDownloadInfo PeerId} {request : SliceRequestInfo PeerId} {now : Int}
    (hcons : m.Consistent) (hcuts : Cuts m m' feeder slice feed n info request now) :
    chunkOf feed.start = n ∧ (m'.Respects peerId (some slice) ↔ m.Available peerId n) := by
  have hentered := hcons.entered hcuts.entry
  have hbound := lt_length_of_getElem? hentered.active
  have hstart : chunkOf feed.start = n := by
    rw [chunkOf, hcuts.feeds.start_eq]
    exact Nat.mul_div_cancel_left n (by decide)
  have hchunk : chunkOf slice.offset = n := by
    rw [hcuts.offset_eq]
    exact hcons.sized.div_eq_of_mem hbound hcuts.feeds.start_le
      (hcuts.feeds.end_eq ▸ hcuts.feeds.lt_end)
  have hend : slice.offset + slice.size ≤ chunkmapFixedChunkSize * (n + 1) := by
    have hfits := hcuts.fits
    have hsmall := hcons.sized.sizeOfChunk_le hbound
    rw [chunkEnd] at hfits
    rw [hcuts.offset_eq, Nat.mul_succ]
    omega
  have hrecord : m'.record peerId = m.record peerId := by
    apply record_congr
    all_goals rw [hcuts.after]
  have hmap : m'.map = m.map := by rw [hcuts.after]
  refine ⟨hstart, ?_⟩
  rw [Respects, hchunk, hmap, and_iff_right hend, and_iff_left hentered.active, Available, hrecord]
  rfl

/-- A slice of a feed whose chunk the peer has. -/
theorem Cuts.respects_of_shares {feeder peerId : PeerId} {slice : FtChunk PeerId} {feed : Chunk}
    {n : Nat} {info : ChunkDownloadInfo PeerId} {request : SliceRequestInfo PeerId} {now : Int}
    {known : SourceChunksInfo} (hcons : m.Consistent)
    (hcuts : Cuts m m' feeder slice feed n info request now)
    (hshares : Shares m.activeChunksFeed known feeder)
    (hknown : ∀ c, (m.record peerId).has? c = known.has? c) :
    m'.Respects peerId (some slice) := by
  obtain ⟨shared, hshared, hhas⟩ := hshares
  obtain rfl : feed = shared := Option.some.inj (hcuts.fed.symm.trans hshared)
  obtain ⟨hstart, hiff⟩ := @Cuts.respects_iff _ _ m m' feeder peerId slice feed n _ _ _ hcons hcuts
  have hnumber : wrap 32 (feed.start / chunkmapFixedChunkSize) = n := by
    rw [← chunkOf, hstart]
    exact wrap_of_lt (hcons.entered hcuts.entry).number_lt
  rw [hnumber] at hhas
  exact hiff.mpr ((hknown n).trans hhas)

/-- **Where the slice of `getDataChunk` comes from**: the peer's own feed, which is used as it is, or
else a shared feed or a new chunk, which the peer has. -/
theorem Consistent.getDataChunk_available (hcons : m.Consistent) {peerId : PeerId}
    {sizeHint : SizeHint} {now : Int} {rand : Nat} {chunk : Option (FtChunk PeerId)}
    {mapNeeded : Option Bool}
    (hget : m.getDataChunk peerId sizeHint now rand = some (m', chunk, mapNeeded)) :
    (∃ slice, chunk = some slice ∧ m.cutSlice peerId peerId sizeHint now = some (m', slice)) ∨
    (m.activeChunksFeed[peerId]? = none ∧ ∃ middle, SameDownload m middle ∧
      (∀ c, (middle.record peerId).has? c = (m.record peerId).has? c) ∧
      ((chunk = none ∧ m' = middle ∧
          ∀ c, m.map[c]? = some .outstanding → ¬ m.Available peerId c) ∨
        (∃ feeder slice, chunk = some slice ∧
          Shares middle.activeChunksFeed (m.record peerId) feeder ∧
          middle.cutSlice feeder peerId sizeHint now = some (m', slice)) ∨
        ∃ c slice, chunk = some slice ∧ m.Available peerId c ∧
          middle.map[c]? = some .outstanding ∧ c < 2 ^ 32 ∧
          (middle.openChunk peerId c).cutSlice peerId peerId sizeHint now = some (m', slice))) := by
  simp only [getDataChunk] at hget
  split at hget
  · obtain ⟨⟨after, slice⟩, hcut, hget⟩ := Option.bind_eq_some_iff.mp hget
    cases hget
    exact Or.inl ⟨slice, rfl, hcut⟩
  · next hidle =>
      right
      have hidle : m.activeChunksFeed[peerId]? = none := by simpa using hidle
      refine ⟨hidle, ?_⟩
      have hsame := getSourceChunksInfo_same m peerId
      have hrecord := record_getSourceChunksInfo m peerId
      have hinfo : (m.getSourceChunksInfo peerId).2 = m.record peerId := rfl
      generalize m.getSourceChunksInfo peerId = source at hget hsame hrecord hinfo
      obtain ⟨middle, info⟩ := source
      simp only at hsame hget hrecord hinfo
      subst hinfo
      have hmiddle := hsame.consistent hcons
      obtain ⟨⟨after, shared, failsafe⟩, hshare, hget⟩ := Option.bind_eq_some_iff.mp hget
      have hlist : ∀ feed ∈ middle.activeChunksFeed.toList,
          middle.activeChunksFeed[feed.1]? = some feed.2 :=
        fun feed hfeed => (OrderedMap.mem_toList _).mp hfeed
      obtain ⟨hshared, hfailsafe⟩ := shareFeed_shares middle.activeChunksFeed _ sizeHint _ middle
        after none shared failsafe hlist (by simp) hshare
      obtain rfl := shareFeed_spec hmiddle _ sizeHint _ hlist none shared failsafe hshare
      cases shared with
      | some feeder =>
          obtain ⟨⟨after', slice⟩, hcut, hget⟩ := Option.bind_eq_some_iff.mp hget
          cases hget
          exact ⟨after, hsame, fun c => by rw [hrecord],
            Or.inr (Or.inl ⟨feeder, slice, rfl, hshared feeder rfl, hcut⟩)⟩
      | none =>
          obtain ⟨⟨chosen, c, old⟩, hchoose, hget⟩ := Option.bind_eq_some_iff.mp hget
          obtain ⟨hchosen, hloop, houtstanding⟩ := getAvailableChunk_spec hchoose
          obtain ⟨hhas, havailable, hnone⟩ := getAvailableChunk_has? hchoose
          simp only [Available, hrecord] at hhas havailable hnone
          have hmap : after.map = m.map := by
            obtain ⟨availability, hafter⟩ := hsame
            rw [hafter]
          refine ⟨chosen, hsame.trans hchosen, hhas, ?_⟩
          obtain ⟨availability, rfl⟩ := hchosen
          simp only at hget
          split at hget
          · next hlt =>
              obtain ⟨⟨after', slice⟩, hcut, hget⟩ := Option.bind_eq_some_iff.mp hget
              cases hget
              exact Or.inr (Or.inr ⟨c, slice, rfl, havailable hlt, houtstanding hlt,
                lt_trans hlt hloop, hcut⟩)
          · next hout =>
              cases failsafe with
              | some feeder =>
                  obtain ⟨⟨after', slice⟩, hcut, hget⟩ := Option.bind_eq_some_iff.mp hget
                  cases hget
                  exact Or.inr (Or.inl ⟨feeder, slice, rfl, hfailsafe feeder rfl, hcut⟩)
              | none =>
                  cases hget
                  refine Or.inl ⟨rfl, rfl, ?_⟩
                  rw [← hmap]
                  exact hnone hout

theorem Consistent.getDataChunk_respects_iff (hcons : m.Consistent) {peerId : PeerId}
    {sizeHint : SizeHint} {now : Int} {rand : Nat} {chunk : Option (FtChunk PeerId)}
    {mapNeeded : Option Bool}
    (hget : m.getDataChunk peerId sizeHint now rand = some (m', chunk, mapNeeded)) :
    m'.Respects peerId chunk ↔ m.OwnFeedAvailable peerId := by
  rcases hcons.getDataChunk_available hget with ⟨slice, rfl, hcut⟩ |
    ⟨hidle, middle, hsame, hhas, hways⟩
  · obtain ⟨feed, n, info, request, hcuts⟩ := hcons.cutSlice_spec _ sizeHint.2.1 hcut
    obtain ⟨hstart, hiff⟩ := @Cuts.respects_iff _ _ m m' peerId peerId slice feed n _ _ _ hcons hcuts
    rw [hiff, ← hstart]
    refine ⟨fun havailable feed' hfeed' => ?_, fun hown => hown feed hcuts.fed⟩
    obtain rfl : feed = feed' := Option.some.inj (hcuts.fed.symm.trans hfeed')
    exact havailable
  · have hown : m.OwnFeedAvailable peerId := by
      intro feed hfeed
      cases hidle.symm.trans hfeed
    refine iff_of_true ?_ hown
    have hmiddle := hsame.consistent hcons
    rcases hways with ⟨rfl, rfl, hnone⟩ | ⟨feeder, slice, rfl, hshares, hcut⟩ |
      ⟨c, slice, rfl, havailable, hstate, hnumber, hcut⟩
    · intro c hstate havailable
      obtain ⟨availability, rfl⟩ := hsame
      exact hnone c hstate ((hhas c).symm.trans havailable)
    · obtain ⟨feed, n, info, request, hcuts⟩ := hmiddle.cutSlice_spec _ sizeHint.2.1 hcut
      exact hcuts.respects_of_shares hmiddle hshares hhas
    · have hfeed : middle.activeChunksFeed[peerId]? = none := by
        obtain ⟨availability, rfl⟩ := hsame
        exact hidle
      have hopened := hmiddle.openChunk hstate hnumber hfeed
      obtain ⟨feed, n, info, request, hcuts⟩ := hopened.cutSlice_spec _ sizeHint.2.1 hcut
      obtain ⟨hstart, hiff⟩ := @Cuts.respects_iff _ _ _ m' peerId peerId _ _ _ _ _ _ hopened hcuts
      have hfed : (middle.openChunk peerId c).activeChunksFeed[peerId]? =
          some (Chunk.new (c * chunkmapFixedChunkSize) (middle.sizeOfChunk c)) :=
        OrderedMap.lookup_insert_self _ _ _
      obtain rfl : feed = _ := Option.some.inj (hcuts.fed.symm.trans hfed)
      have hc : c = n := (Nat.mul_div_cancel c (by decide)).symm.trans hstart
      have hrecord : (middle.openChunk peerId c).record peerId = middle.record peerId := by
        apply record_congr
        case hlength => exact List.length_set
        all_goals rfl
      rw [hiff, ← hc, Available, hrecord, hhas]
      exact havailable

/-- **Slices and availability.** In every reachable state, `getDataChunk` hands out a slice of an
active chunk that the peer has, or finds nothing because the peer has no outstanding chunk, if and only
if the peer has the chunk of its own feed, where it has a feed. -/
theorem reachable_respects_iff {fileSize : Nat} (hsize : fileSize < 2 ^ 64) {availability : Bool}
    (hreach : Reaches step Permits (new fileSize availability) m) {peerId : PeerId}
    {sizeHint : SizeHint} {now : Int} {rand : Nat} {chunk : Option (FtChunk PeerId)}
    {mapNeeded : Option Bool}
    (hget : m.getDataChunk peerId sizeHint now rand = some (m', chunk, mapNeeded)) :
    m'.Respects peerId chunk ↔ m.OwnFeedAvailable peerId :=
  have hcons := hreach.invariant Consistent (fun _ _ _ hbefore => hbefore.step)
    (consistent_new hsize availability)
  hcons.getDataChunk_respects_iff hget

/-- A peer that has the only chunk of a file is asked for a first slice of it. -/
theorem hundred_isHint : 0 < 100 ∧ 100 < 2 ^ 32 := by decide

def firstSlice : Option (ChunkMap Nat) :=
  ((new 1000 false).step (.setPeerAvailabilityMap 7 ⟨[1]⟩ 0)).bind
    (·.step (.getDataChunk 7 ⟨100, hundred_isHint⟩ 0 0))

theorem reaches_firstSlice {m : ChunkMap Nat} (hfirst : firstSlice = some m) :
    Reaches step Permits (new 1000 false) m := by
  obtain ⟨told, htold, hget⟩ := Option.bind_eq_some_iff.mp hfirst
  have hreach : Reaches step Permits (new 1000 false) told :=
    (Reaches.refl _).next (.setPeerAvailabilityMap 7 ⟨[1]⟩ 0) trivial htold
  exact hreach.next (.getDataChunk 7 ⟨100, by decide⟩ 0 0) trivial hget

/-- The second slice comes from the feed of the peer. -/
def secondSlice (m : ChunkMap Nat) : Option (ChunkMap Nat × Option (FtChunk Nat) × Option Bool) :=
  m.getDataChunk 7 (⟨100, hundred_isHint⟩ : SizeHint) 0 0

theorem reachable_respects_iff_secondSlice :
    ∃ m m' chunk mapNeeded, firstSlice = some m ∧ m.secondSlice = some (m', chunk, mapNeeded) ∧
      (m'.Respects 7 chunk ↔ m.OwnFeedAvailable 7) := by
  have hfirst : firstSlice = some (firstSlice.get (by decide)) := (Option.some_get _).symm
  have hsecond : (firstSlice.get (by decide)).secondSlice =
      some ((firstSlice.get (by decide)).secondSlice.get (by decide)) := (Option.some_get _).symm
  exact ⟨_, _, _, _, hfirst, hsecond,
    reachable_respects_iff (by decide) (reaches_firstSlice hfirst) hsecond⟩

/-- The peer tells that it has the chunk no more, and is asked for the next slice of it. -/
def withdrawn : Option (ChunkMap Nat) :=
  firstSlice.bind (·.step (.setPeerAvailabilityMap 7 ⟨[0]⟩ 0))

/-- The position of the slice, and whether the record of the peer has the chunk of it. -/
def handedOut (result : ChunkMap Nat × Option (FtChunk Nat) × Option Bool) :
    Option (Nat × Option Bool) :=
  result.2.1.map fun slice => (slice.offset, (result.1.record 7).has? (chunkOf slice.offset))

theorem respects_counterexample :
    ¬ ∀ (m m' : ChunkMap Nat) (peerId : Nat) (sizeHint : SizeHint) (now : Int) (rand : Nat)
        (chunk : Option (FtChunk Nat)) (mapNeeded : Option Bool),
      Reaches step (fun _ _ => True) (new 1000 false) m →
      m.getDataChunk peerId sizeHint now rand = some (m', chunk, mapNeeded) →
      m'.Respects peerId chunk := by
  intro hclaim
  have hrun : (withdrawn.bind secondSlice).bind handedOut = some (100, some false) := by decide
  obtain ⟨result, hslice, hhanded⟩ := Option.bind_eq_some_iff.mp hrun
  obtain ⟨m, hwithdrawn, hslice⟩ := Option.bind_eq_some_iff.mp hslice
  obtain ⟨before, hfirst, htold⟩ := Option.bind_eq_some_iff.mp hwithdrawn
  have hreach : Reaches step (fun _ _ => True) (new 1000 false) m :=
    ((reaches_firstSlice hfirst).mono fun _ _ _ => trivial).next
      (.setPeerAvailabilityMap 7 ⟨[0]⟩ 0) trivial htold
  obtain ⟨m', chunk, mapNeeded⟩ := result
  obtain ⟨slice, rfl, hhas⟩ := Option.map_eq_some_iff.mp hhanded
  obtain ⟨_, havailable, _⟩ := hclaim _ _ _ _ _ _ _ _ hreach hslice
  cases havailable.symm.trans (congrArg Prod.snd hhas)

end RetroShare.Ft.ChunkMap
