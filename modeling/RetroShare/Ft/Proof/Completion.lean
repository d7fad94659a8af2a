import RetroShare.Ft.Proof.ChunkMapSteps

/-!
# Completion accounting

`_total_downloaded` is kept by increments and, each time a chunk is finished, recomputed from
scratch. Both agree with one sum over the chunks: a chunk that is done or being checked counts in
full, an active one for what no longer remains of it. The sum is bounded by the file size, so none of
the 64-bit operations on the counter wraps.

`forceCheck` and `setAvailabilityMap` overwrite the state of every chunk and leave the table as it
is. They keep the books only while the table is empty.
-/

namespace RetroShare.Ft.ChunkMap

open RetroShare.Word RetroShare.Transition Finset

variable {PeerId : Type} [LinearOrder PeerId]

/-- What chunk `i` contributes to the completion of the file. -/
def downloadedOf (m : ChunkMap PeerId) (i : Nat) : Nat :=
  match m.map[i]? with
  | some .done | some .checking => m.sizeOfChunk i
  | some .active => m.sizeOfChunk i - (m.slicesToDownload[i]?).elim 0 (·.remains)
  | _ => 0

/-- The counter and the flag say what the chunks say. -/
structure Counted (m : ChunkMap PeerId) : Prop where
  total : m.totalDownloaded = ∑ i ∈ range m.map.length, m.downloadedOf i
  complete : m.fileIsComplete = m.map.all (· == .done)

variable {m m' : ChunkMap PeerId}

theorem downloadedOf_le (m : ChunkMap PeerId) (i : Nat) : m.downloadedOf i ≤ m.sizeOfChunk i := by
  rw [downloadedOf]
  split
  · exact le_rfl
  · exact le_rfl
  · exact Nat.sub_le _ _
  · exact Nat.zero_le _

theorem WellSized.sum_downloadedOf_le (hsized : m.WellSized) :
    ∑ i ∈ range m.map.length, m.downloadedOf i ≤ m.fileSize := by
  rw [← hsized.sum_sizeOfChunk]
  exact sum_le_sum fun i _ => downloadedOf_le m i

/-- Chunk `i` counts the same in two states that agree on it. -/
theorem downloadedOf_congr {i : Nat} (hlength : m'.map.length = m.map.length)
    (hsize : m'.fileSize = m.fileSize) (hmap : m'.map[i]? = m.map[i]?)
    (htable : m'.slicesToDownload[i]? = m.slicesToDownload[i]?) :
    m'.downloadedOf i = m.downloadedOf i := by
  rw [downloadedOf, downloadedOf, hmap, htable, sizeOfChunk_congr hlength hsize]

/-- A change that touches chunk `n` only moves the sum by what that chunk counts. -/
theorem sum_downloadedOf_update (m' : ChunkMap PeerId) {n : Nat} (hn : n < m.map.length)
    (hlength : m'.map.length = m.map.length)
    (hother : ∀ i, n ≠ i → m'.downloadedOf i = m.downloadedOf i) :
    ∑ i ∈ range m'.map.length, m'.downloadedOf i + m.downloadedOf n =
      ∑ i ∈ range m.map.length, m.downloadedOf i + m'.downloadedOf n := by
  have hmem : n ∈ range m.map.length := mem_range.mpr hn
  have hrest : ∑ i ∈ (range m.map.length).erase n, m'.downloadedOf i =
      ∑ i ∈ (range m.map.length).erase n, m.downloadedOf i :=
    sum_congr rfl fun i hi => hother i (ne_of_mem_erase hi).symm
  rw [hlength, ← sum_erase_add _ _ hmem, ← sum_erase_add _ m.downloadedOf hmem, hrest]
  omega

/-! ### Recounting from scratch -/

theorem foldl_add_eq (values : List Nat) :
    ∀ start, start + values.sum < 2 ^ 64 → values.foldl (add 64) start = start + values.sum := by
  induction values with
  | nil => simp
  | cons value rest ih =>
      intro start hsum
      rw [List.sum_cons] at hsum
      rw [List.foldl_cons, add_of_lt (by omega), ih _ (by omega), List.sum_cons]
      omega

theorem sum_mapIdx {α : Type} (values : List α) :
    ∀ f : Nat → α → Nat,
      (values.mapIdx f).sum = ∑ i ∈ range values.length, (values[i]?).elim 0 (f i) := by
  induction values with
  | nil => simp
  | cons value rest ih =>
      intro f
      rw [List.mapIdx_cons, List.sum_cons, ih, List.length_cons, sum_range_succ']
      simp [Nat.add_comm]

/-- The table part of the recount, when no chunk of the table is marked as being checked. -/
theorem pendingContribution_eq (entries : List (Nat × ChunkDownloadInfo PeerId)) :
    ∀ total : Nat,
      (∀ entry ∈ entries, m.map[entry.1]? = some .active ∧
        entry.2.remains ≤ m.sizeOfChunk entry.1 ∧ m.sizeOfChunk entry.1 < 2 ^ 32) →
      total + (entries.map fun entry => m.sizeOfChunk entry.1 - entry.2.remains).sum < 2 ^ 64 →
      m.pendingContribution total entries =
        some (total + (entries.map fun entry => m.sizeOfChunk entry.1 - entry.2.remains).sum) := by
  induction entries with
  | nil => simp [pendingContribution]
  | cons entry rest ih =>
      obtain ⟨n, info⟩ := entry
      intro total hentries hsum
      obtain ⟨hactive, hle, hlt⟩ := hentries _ List.mem_cons_self
      have hrest := fun entry hentry => hentries entry (List.mem_cons_of_mem _ hentry)
      rw [List.map_cons, List.sum_cons] at hsum ⊢
      simp only at hactive hle hlt hsum
      have hne : ¬ ChunkState.active = .checking := nofun
      simp only [pendingContribution, hactive, Option.bind_eq_bind, Option.bind_some, hne, if_false,
        sub_of_le hle hlt]
      rw [add_of_lt (by omega), ih _ hrest (by omega)]
      congr 1
      omega

/-- The two halves of the recount add up to the sum over the chunks. -/
theorem Consistent.raw_add_pending (hcons : m.Consistent) :
    (m.map.mapIdx m.rawContribution).sum +
        OrderedMap.sumOver (fun n info => m.sizeOfChunk n - info.remains) m.slicesToDownload =
      ∑ i ∈ range m.map.length, m.downloadedOf i := by
  have hkeys : ∀ (n : Nat) (info : ChunkDownloadInfo PeerId),
      m.slicesToDownload[n]? = some info → n < m.map.length :=
    fun n info hentry => lt_length_of_getElem? (hcons.entered hentry).active
  rw [sum_mapIdx, OrderedMap.sumOver_eq_sum_range _ m.map.length _ hkeys, ← sum_add_distrib]
  refine sum_congr rfl fun i hi => ?_
  have hi := mem_range.mp hi
  rw [downloadedOf]
  obtain ⟨state, hstate⟩ : ∃ state, m.map[i]? = some state :=
    ⟨m.map[i], List.getElem?_eq_getElem hi⟩
  rw [hstate]
  cases state with
  | active =>
      obtain ⟨info, hinfo⟩ := hcons.tabled hstate
      simp [rawContribution, hinfo]
  | outstanding => simp [rawContribution, hcons.not_entered hstate nofun]
  | done => simp [rawContribution, hcons.not_entered hstate nofun]
  | checking => simp [rawContribution, hcons.not_entered hstate nofun]

/-- **The recount.** In a consistent state `updateTotalDownloaded` computes the sum over the
chunks. -/
theorem Consistent.recount (hcons : m.Consistent) (hrecount : m.updateTotalDownloaded = some m') :
    m'.Counted := by
  have hsum := hcons.raw_add_pending
  have hle := hcons.sized.sum_downloadedOf_le
  have hlt := hcons.sized.fileSize_lt
  rw [OrderedMap.sumOver] at hsum
  have hraw : (m.map.mapIdx m.rawContribution).foldl (add 64) 0 =
      (m.map.mapIdx m.rawContribution).sum := by
    rw [foldl_add_eq _ _ (by omega), Nat.zero_add]
  have hpending := pendingContribution_eq (m := m) m.slicesToDownload.toList
    (m.map.mapIdx m.rawContribution).sum ?_ (by omega)
  · rw [updateTotalDownloaded] at hrecount
    split at hrecount
    · simp only [hraw, hpending, hsum, Option.bind_eq_bind, Option.bind_some,
        Option.some.injEq] at hrecount
      subst hrecount
      exact ⟨rfl, rfl⟩
    · cases hrecount
  · rintro ⟨n, info⟩ hmem
    have hentered := hcons.entered ((OrderedMap.mem_toList _).mp hmem)
    have hsmall := hcons.sized.sizeOfChunk_le (lt_length_of_getElem? hentered.active)
    rw [chunkmapFixedChunkSize_eq] at hsmall
    exact ⟨hentered.active, hentered.remains_le, by simp only; omega⟩

/-! ### Every step -/

theorem all_done_eq_false {map : List ChunkState} {n : Nat} {state : ChunkState}
    (hstate : map[n]? = some state) (hne : state ≠ .done) : map.all (· == .done) = false := by
  rw [List.all_eq_false]
  exact ⟨state, List.mem_of_getElem? hstate, by simpa using hne⟩

theorem scan_eq {stop : ChunkState → Bool} {found : Bool} (hscan : m.scan stop = some found) :
    found = m.map.any stop := by
  rw [scan] at hscan
  split at hscan
  · exact (Option.some.inj hscan).symm
  · split at hscan
    · next hearly =>
        cases hscan
        obtain ⟨state, hmem, hstop⟩ := List.any_eq_true.mp hearly
        exact (List.any_eq_true.mpr ⟨state, List.mem_of_mem_take hmem, hstop⟩).symm
    · exact absurd hscan nofun

/-- Nothing that the counter depends on changed. -/
theorem Counted.same (hcounted : m.Counted) (hmap : m'.map = m.map)
    (hsize : m'.fileSize = m.fileSize)
    (hremains : ∀ n : Nat, (m'.slicesToDownload[n]?).elim 0 (·.remains) =
      (m.slicesToDownload[n]?).elim 0 (·.remains))
    (htotal : m'.totalDownloaded = m.totalDownloaded)
    (hcomplete : m'.fileIsComplete = m.fileIsComplete) : m'.Counted := by
  constructor
  · rw [htotal, hcounted.total, hmap]
    refine sum_congr rfl fun i _ => ?_
    rw [downloadedOf, downloadedOf, hmap, hremains, sizeOfChunk_congr (by rw [hmap]) hsize]
  · rw [hcomplete, hcounted.complete, hmap]

theorem SameDownload.counted (hsame : SameDownload m m') (hcounted : m.Counted) : m'.Counted := by
  obtain ⟨availability, rfl⟩ := hsame
  exact hcounted.same rfl rfl (fun _ => rfl) rfl rfl

theorem Counted.openChunk (hcounted : m.Counted) (hcons : m.Consistent) {peerId : PeerId} {c : Nat}
    (hc : m.map[c]? = some .outstanding) : (m.openChunk peerId c).Counted := by
  have hbound := lt_length_of_getElem? hc
  have hlength : (m.openChunk peerId c).map.length = m.map.length := by
    rw [openChunk_map, List.length_set]
  have hself : (m.openChunk peerId c).map[c]? = some .active := by
    rw [openChunk_map, List.getElem?_set_self hbound]
  constructor
  · have hsum := sum_downloadedOf_update (m.openChunk peerId c) hbound hlength ?_
    · have hbefore : m.downloadedOf c = 0 := by simp [downloadedOf, hc]
      have hafter : (m.openChunk peerId c).downloadedOf c = 0 := by
        rw [downloadedOf, hself, openChunk_table hcons peerId hc, OrderedMap.lookup_insert_self,
          sizeOfChunk_congr hlength rfl]
        simp
      have htotal : (m.openChunk peerId c).totalDownloaded = m.totalDownloaded := rfl
      rw [htotal, hcounted.total]
      omega
    · intro i hne
      refine downloadedOf_congr hlength rfl ?_ ?_
      · rw [openChunk_map, List.getElem?_set_ne hne]
      · rw [openChunk_table hcons peerId hc, OrderedMap.lookup_insert_ne _ _ hne]
  · have hflag : (m.openChunk peerId c).fileIsComplete = m.fileIsComplete := rfl
    rw [hflag, hcounted.complete, all_done_eq_false hc nofun, all_done_eq_false hself nofun]

theorem Counted.cuts {feeder : PeerId} {chunk : FtChunk PeerId} {feed : Chunk} {n : Nat}
    {info : ChunkDownloadInfo PeerId} {slice : SliceRequestInfo PeerId} {now : Int}
    (hcounted : m.Counted) (hcuts : Cuts m m' feeder chunk feed n info slice now) :
    m'.Counted := by
  rw [hcuts.after]
  refine hcounted.same rfl rfl (fun k => ?_) rfl rfl
  simp only [OrderedMap.lookup_insert]
  split
  · next heq => rw [← heq, hcuts.entry, Option.elim_some, Option.elim_some]
  · rfl

theorem Counted.receives {n cid : Nat} {info : ChunkDownloadInfo PeerId}
    {slice : SliceRequestInfo PeerId} {now : Int} (hcounted : m.Counted) (hcons : m.Consistent)
    (hreceives : Receives m m' n cid info slice now) : m'.Counted := by
  have hcons' := hreceives.consistent hcons
  have hentered := hcons.entered hreceives.entry
  have hbound := lt_length_of_getElem? hentered.active
  have hmap : m'.map = m.map := by rw [hreceives.after]
  have hlength : m'.map.length = m.map.length := by rw [hmap]
  have hsize : m'.fileSize = m.fileSize := by rw [hreceives.after]
  have hsum := sum_downloadedOf_update m' hbound hlength ?_
  · have hbefore : m.downloadedOf n = m.sizeOfChunk n - info.remains := by
      rw [downloadedOf, hentered.active, hreceives.entry, Option.elim_some]
    have hafter : m'.downloadedOf n = m.sizeOfChunk n - (info.remains - slice.size) := by
      rw [downloadedOf, hmap, hentered.active, hreceives.after,
        OrderedMap.lookup_insert_self, Option.elim_some]
      rfl
    have hunfinished := hreceives.unfinished
    have hremains := hentered.remains_le
    have hle := hcons'.sized.sum_downloadedOf_le
    have hlt := hcons'.sized.fileSize_lt
    have htotal : m'.totalDownloaded = add 64 m.totalDownloaded slice.size := by
      rw [hreceives.after]
    constructor
    · rw [htotal, hcounted.total, add_of_lt (by omega)]
      omega
    · rw [hmap, ← hcounted.complete, hreceives.after]
  · intro i hne
    refine downloadedOf_congr hlength hsize (by rw [hmap]) ?_
    rw [hreceives.after, OrderedMap.lookup_insert_ne _ _ hne]

/-- A chunk that goes back to outstanding takes what it counted with it. -/
theorem Counted.retires_outstanding {n : Nat} {state : ChunkState} (hcounted : m.Counted)
    (hcons : m.Consistent) (hretires : Retires m m' n .outstanding)
    (hstate : m.map[n]? = some state) (hne : state ≠ .done)
    (htotal : m'.totalDownloaded = sub 64 m.totalDownloaded (m.downloadedOf n))
    (hcomplete : m'.fileIsComplete = m.fileIsComplete) : m'.Counted := by
  have hbound := lt_length_of_getElem? hstate
  have hself : m'.map[n]? = some .outstanding := by
    rw [hretires.map_eq, List.getElem?_set_self hbound]
  have hlength := hretires.length_map
  have hle := hcons.sized.sum_downloadedOf_le
  have hlt := hcons.sized.fileSize_lt
  have hpart : m.downloadedOf n ≤ ∑ i ∈ range m.map.length, m.downloadedOf i :=
    single_le_sum (fun _ _ => Nat.zero_le _) (mem_range.mpr hbound)
  have hsum := sum_downloadedOf_update m' hbound hlength ?_
  · have hafter : m'.downloadedOf n = 0 := by simp [downloadedOf, hself]
    constructor
    · rw [htotal, hcounted.total, sub_of_le hpart (by omega)]
      omega
    · rw [hcomplete, hcounted.complete, all_done_eq_false hstate hne,
        all_done_eq_false hself nofun]
  · intro i hi
    refine downloadedOf_congr hlength hretires.fileSize_eq ?_ ?_
    · rw [hretires.map_eq, List.getElem?_set_ne hi]
    · rw [hretires.table_eq, OrderedMap.lookup_erase_ne _ hi]

theorem Counted.drops {n : Nat} {info : ChunkDownloadInfo PeerId} (hcounted : m.Counted)
    (hcons : m.Consistent) (hdrops : Drops m m' n info) : m'.Counted := by
  have hentered := hcons.entered hdrops.entry
  have hsmall := hcons.sized.sizeOfChunk_le (lt_length_of_getElem? hentered.active)
  rw [chunkmapFixedChunkSize_eq] at hsmall
  have hpart : m.downloadedOf n = sub 32 (m.sizeOfChunk n) info.remains := by
    rw [downloadedOf, hentered.active, hdrops.entry, Option.elim_some,
      sub_of_le hentered.remains_le (by omega)]
  refine hcounted.retires_outstanding hcons hdrops.retires hentered.active nofun ?_ ?_
  · rw [hpart, hdrops.after]
  · rw [hdrops.after]

theorem Counted.checked {n : Nat} {unfinished : Bool} (hcounted : m.Counted)
    (hstate : m.map[n]? = some .checking)
    (hscan : ({ m with map := m.map.set n .done } : ChunkMap PeerId).scan (· != .done) =
      some unfinished)
    (hafter : m' = { m with map := m.map.set n .done, fileIsComplete := !unfinished }) :
    m'.Counted := by
  have hbound := lt_length_of_getElem? hstate
  have hlength : m'.map.length = m.map.length := by rw [hafter, List.length_set]
  have hsize : m'.fileSize = m.fileSize := by rw [hafter]
  have hself : m'.map[n]? = some .done := by
    rw [hafter]
    exact List.getElem?_set_self hbound
  have hsum := sum_downloadedOf_update m' hbound hlength ?_
  · have hcount : m'.downloadedOf n = m.downloadedOf n := by
      rw [downloadedOf, downloadedOf, hself, hstate]
      exact sizeOfChunk_congr hlength hsize n
    constructor
    · have htotal : m'.totalDownloaded = m.totalDownloaded := by rw [hafter]
      rw [htotal, hcounted.total]
      omega
    · rw [hafter, scan_eq hscan]
      simp only [List.not_any_eq_all_not]
      congr 1
      funext state
      cases state <;> rfl
  · intro i hne
    refine downloadedOf_congr hlength hsize ?_ (by rw [hafter])
    rw [hafter, List.getElem?_set_ne hne]

theorem Counted.step (hcounted : m.Counted) (hcons : m.Consistent) {op : ChunkMapOp PeerId}
    (hpermits : m.Permits op) (hstep : m.step op = some m') : m'.Counted := by
  cases op with
  | getDataChunk peerId sizeHint now rand =>
      obtain ⟨⟨after, chunk, mapNeeded⟩, hget, rfl⟩ := Option.map_eq_some_iff.mp hstep
      rcases hcons.getDataChunk_cases hget with ⟨hsame, _⟩ |
        ⟨middle, feeder, slice, hsame, _, hcut⟩ |
        ⟨middle, c, slice, hsame, _, hc, hnumber, hidle, hcut⟩
      · exact hsame.counted hcounted
      · obtain ⟨_, _, _, _, hcuts⟩ := (hsame.consistent hcons).cutSlice_spec _ sizeHint.2.1 hcut
        exact (hsame.counted hcounted).cuts hcuts
      · have hmiddle := hsame.consistent hcons
        obtain ⟨_, _, _, _, hcuts⟩ := (hmiddle.openChunk hc hnumber hidle).cutSlice_spec _
          sizeHint.2.1 hcut
        exact ((hsame.counted hcounted).openChunk hmiddle hc).cuts hcuts
  | reAskPendingChunk peerId now =>
      obtain ⟨⟨after, asked⟩, hask, rfl⟩ := Option.map_eq_some_iff.mp hstep
      rcases reAskPendingChunk_cases hask with ⟨rfl, _⟩ | ⟨_, _, _, _, _, hreasks, _⟩
      · exact hcounted
      · rw [hreasks.after]
        refine hcounted.same rfl rfl (fun k => ?_) rfl rfl
        simp only [OrderedMap.lookup_insert]
        split
        · next heq => rw [← heq, hreasks.entry, Option.elim_some, Option.elim_some]
        · rfl
  | dataReceived cid now =>
      rcases hcons.dataReceived_cases hstep with ⟨_, rfl⟩ | ⟨_, _, _, _, hreceives | hfinishes⟩
      · exact hcounted
      · exact hcounted.receives hcons hreceives
      · obtain ⟨retired, state, hretires, _, hrecount⟩ := hfinishes.retired
        exact (hretires.consistent hcons).recount hrecount
  | removeInactiveChunks now =>
      obtain ⟨result, hremove, rfl⟩ := Option.map_eq_some_iff.mp hstep
      refine (removeInactiveChunks_induction (P := fun m => m.Consistent ∧ m.Counted) ?_
        ⟨hcons, hcounted⟩ hremove).2
      rintro before n info after ⟨hbefore, hcount⟩ hdrops _
      exact ⟨hdrops.retires.consistent hbefore, hcount.drops hbefore hdrops⟩
  | setChunkCheckingResult chunkNumber checkSucceeded =>
      rcases setChunkCheckingResult_cases hstep with ⟨rfl, _⟩ |
        ⟨hstate, _, unfinished, hscan, hafter⟩ | ⟨hstate, _, hafter⟩
      · exact hcounted
      · exact hcounted.checked hstate hscan hafter
      · refine hcounted.retires_outstanding hcons (hcons.retires_of_not_active hstate (by decide) (by decide)
          ?_ ?_ ?_ ?_) hstate (by decide) ?_ ?_ <;> rw [hafter]
        simp [downloadedOf, hstate]
  | getChunksToCheck =>
      cases hstep
      exact hcounted.same rfl rfl (fun _ => rfl) rfl rfl
  | setPeerAvailabilityMap peerId cmap now =>
      exact (setPeerAvailabilityMap_same hstep).counted hcounted
  | removeFileSource peerId =>
      cases hstep
      exact hcounted.same rfl rfl (fun _ => rfl) rfl rfl
  | setStrategy strategy =>
      cases hstep
      exact hcounted.same rfl rfl (fun _ => rfl) rfl rfl
  | setAvailabilityMap cmap =>
      have hcons' := hcons.step hpermits hstep
      rcases setAvailabilityMap_cases hstep with ⟨rfl, _⟩ | ⟨haccepts, bits, hlength, hmap, hafter⟩
      · exact hcounted
      · have htable : m'.slicesToDownload = m.slicesToDownload := by rw [hafter]
        have hempty : OrderedMap.sumOver (fun n (info : ChunkDownloadInfo PeerId) =>
            m'.sizeOfChunk n - info.remains) m'.slicesToDownload = 0 := by
          rw [OrderedMap.sumOver_eq_zero]
          intro k info hinfo
          rw [htable, (hpermits.resolve_left haccepts).lookup] at hinfo
          cases hinfo
        have hsum := hcons'.raw_add_pending
        rw [hempty, Nat.add_zero] at hsum
        have hle := hcons'.sized.sum_downloadedOf_le
        have hlt := hcons'.sized.fileSize_lt
        constructor
        · have htotal : m'.totalDownloaded =
              (m'.map.mapIdx m'.rawContribution).foldl (add 64) 0 :=
            congrArg ChunkMap.totalDownloaded hafter
          rw [htotal, foldl_add_eq _ _ (by omega), Nat.zero_add, hsum]
        · have hflag : m'.fileIsComplete = bits.all id := by rw [hafter]
          rw [hflag, hmap, List.all_map]
          congr 1
          funext bit
          cases bit <;> rfl
  | forceCheck =>
      simp only [ChunkMap.step, forceCheck] at hstep
      split at hstep
      · refine Consistent.recount ?_ hstep
        refine hcons.overwrite hpermits ?_ ?_ rfl rfl rfl
        · simp only [List.length_map]
        · simp
      · cases hstep

theorem counted_new {fileSize : Nat} (hpos : 0 < fileSize) (availability : Bool) :
    (new fileSize availability : ChunkMap PeerId).Counted := by
  have hchunks := numberOfChunks_pos hpos
  constructor
  · symm
    apply sum_eq_zero
    intro i _
    rw [downloadedOf]
    split
    · next hstate => simp [new, List.getElem?_replicate] at hstate
    · next hstate => simp [new, List.getElem?_replicate] at hstate
    · next hstate => simp [new, List.getElem?_replicate] at hstate
    · rfl
  · have hfirst : (new fileSize availability : ChunkMap PeerId).map[0]? = some .outstanding := by
      simp [new, hchunks]
    rw [all_done_eq_false hfirst (by decide)]
    rfl

/-- **Completion accounting.** As long as `forceCheck` and `setAvailabilityMap` are only called while
no chunk is in the table, the counter is the sum over the chunks and at most the file size, the table
holds the active chunks, and the file is complete exactly when all its chunks are done. -/
theorem completion_accounting {fileSize : Nat} (hpos : 0 < fileSize) (hsize : fileSize < 2 ^ 64)
    {availability : Bool} (hreach : Reaches step Permits (new fileSize availability) m) :
    m.totalDownloaded = ∑ i ∈ range m.map.length, m.downloadedOf i ∧
    m.totalDownloaded ≤ m.fileSize ∧
    (∀ n : Nat, m.slicesToDownload[n]?.isSome = true ↔ m.map[n]? = some .active) ∧
    (m.isComplete = true ↔ ∀ state ∈ m.map, state = .done) := by
  obtain ⟨hcons, hcounted⟩ := hreach.invariant
    (fun m => m.Consistent ∧ m.Counted)
    (fun before op after hbefore hpermits hstep =>
      ⟨hbefore.1.step hpermits hstep, hbefore.2.step hbefore.1 hpermits hstep⟩)
    ⟨consistent_new hsize availability, counted_new hpos availability⟩
  refine ⟨hcounted.total, ?_, ?_, ?_⟩
  · rw [hcounted.total]
    exact hcons.sized.sum_downloadedOf_le
  · intro n
    rw [Option.isSome_iff_exists]
    exact ⟨fun ⟨info, hinfo⟩ => (hcons.entered hinfo).active, hcons.tabled⟩
  · rw [isComplete, hcounted.complete]
    simp

theorem completion_accounting_forced_check :
    ∃ m : ChunkMap Nat, (new 1000 true : ChunkMap Nat).step .forceCheck = some m ∧
      m.totalDownloaded ≤ m.fileSize := by
  refine ⟨((new 1000 true : ChunkMap Nat).step .forceCheck).get (by decide),
    (Option.some_get _).symm, ?_⟩
  refine (completion_accounting (by decide) (by decide)
    (Reaches.tail (Reaches.refl _) ?_ (Option.some_get _).symm)).2.1
  exact rfl

/-- A check forced during a download: the chunk stays in the table while it is marked as being
checked, and a failed check takes its whole size from a counter that had counted none of it. -/
theorem forced_check_wraps_total :
    ∃ opened forced failed : ChunkMap Nat,
      (new 1000 true : ChunkMap Nat).step (.getDataChunk 7 ⟨100, by decide⟩ 0 0) = some opened ∧
      opened.step .forceCheck = some forced ∧
      forced.slicesToDownload[0]?.isSome = true ∧ forced.map[0]? ≠ some .active ∧
      forced.step (.setChunkCheckingResult 0 false) = some failed ∧
      failed.totalDownloaded = 2 ^ 64 - 1000 ∧ failed.fileSize < failed.totalDownloaded := by
  let opened := ((new 1000 true : ChunkMap Nat).step (.getDataChunk 7 ⟨100, by decide⟩ 0 0)).get
    (by decide)
  let forced := (opened.step .forceCheck).get (by decide)
  let failed := (forced.step (.setChunkCheckingResult 0 false)).get (by decide)
  exact ⟨opened, forced, failed, (Option.some_get _).symm, (Option.some_get _).symm, by decide,
    by decide, (Option.some_get _).symm, by decide, by decide⟩

end RetroShare.Ft.ChunkMap
