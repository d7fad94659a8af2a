import RetroShare.Ft.Proof.CreatorFrame
import RetroShare.Ft.Proof.ChunkSizes

/-!
# Which bytes a file creator serves

A request is answered when every chunk that its 32-bit chunk numbers name is done. Failing that,
and if unverified data may go out, the request is cut where the first pending piece inside it begins
and answered unless a piece ends inside it or all its chunks are outstanding. Neither test asks
whether a byte was received, and neither stays inside the map of chunks for every request.
-/

namespace RetroShare.Ft

open RetroShare.Transition RetroShare.Word

namespace ChunkMap

variable {PeerId : Type} [LinearOrder PeerId] {m : ChunkMap PeerId}

def firstChunk (offset : Nat) : Nat := wrap 32 (offset / chunkmapFixedChunkSize)

/-- The number after the last chunk of a request. -/
def stopChunk (offset size : Nat) : Nat :=
  let stop := add 64 offset size
  let last := wrap 32 (stop / chunkmapFixedChunkSize)
  if stop % chunkmapFixedChunkSize ≠ 0 then add 32 last 1 else last

/-- The chunks that the numbers of a request name are all in one state. -/
def ChunksAre (m : ChunkMap PeerId) (offset size : Nat) (state : ChunkState) : Prop :=
  ∀ n, firstChunk offset ≤ n → n < stopChunk offset size → m.map[n]? = some state

/-- The numbers of a request name no chunk, or end with the map, or come across a chunk in another
state before. -/
def LooksInside (m : ChunkMap PeerId) (offset size : Nat) (state : ChunkState) : Prop :=
  stopChunk offset size ≤ firstChunk offset ∨ stopChunk offset size ≤ m.map.length ∨
    ∃ n other, firstChunk offset ≤ n ∧ n < stopChunk offset size ∧
      m.map[n]? = some other ∧ other ≠ state

theorem hasChunkState_go_spec (m : ChunkMap PeerId) (state : ChunkState) (fuel : Nat) :
    ∀ i,
      (hasChunkState.go m state i fuel = some true ↔
        ∀ n, i ≤ n → n < i + fuel → m.map[n]? = some state) ∧
      (hasChunkState.go m state i fuel = none ↔
        ∃ k, i ≤ k ∧ k < i + fuel ∧ m.map[k]? = none ∧
          ∀ n, i ≤ n → n < k → m.map[n]? = some state) := by
  induction fuel with
  | zero =>
      intro i
      constructor
      · exact ⟨fun _ n hlow hhigh => by omega, fun _ => rfl⟩
      · exact ⟨fun hnone => absurd hnone nofun, fun ⟨k, hlow, hhigh, _⟩ => by omega⟩
  | succ fuel ih =>
      intro i
      obtain ⟨ihTrue, ihNone⟩ := ih (i + 1)
      unfold hasChunkState.go
      cases hfound : m.map[i]? with
      | none =>
          constructor
          · refine ⟨fun htrue => absurd htrue nofun, fun hall => ?_⟩
            have := hall i le_rfl (by omega)
            rw [hfound] at this
            exact absurd this nofun
          · exact ⟨fun _ => ⟨i, le_rfl, by omega, hfound, fun n hlow hhigh => by omega⟩,
              fun _ => rfl⟩
      | some found =>
          by_cases hsame : found = state
          · subst hsame
            have hhead : ∀ n, i ≤ n → n ≤ i → m.map[n]? = some found := by
              intro n hlow hhigh
              rw [Nat.le_antisymm hhigh hlow, hfound]
            simp only [ne_eq, not_true_eq_false, if_false]
            constructor
            · rw [ihTrue]
              refine ⟨fun hall n hlow hhigh => ?_, fun hall n hlow hhigh =>
                hall n (by omega) (by omega)⟩
              rcases Nat.eq_or_lt_of_le hlow with heq | hlt
              · exact hhead n hlow heq.ge
              · exact hall n hlt (by omega)
            · rw [ihNone]
              constructor
              · rintro ⟨k, hlow, hhigh, hnone, hall⟩
                refine ⟨k, by omega, by omega, hnone, fun n hn hk => ?_⟩
                rcases Nat.eq_or_lt_of_le hn with heq | hlt
                · exact hhead n hn heq.ge
                · exact hall n hlt hk
              · rintro ⟨k, hlow, hhigh, hnone, hall⟩
                rcases Nat.eq_or_lt_of_le hlow with heq | hlt
                · rw [← heq, hfound] at hnone
                  exact absurd hnone nofun
                · exact ⟨k, hlt, by omega, hnone, fun n hn hk => hall n (by omega) hk⟩
          · simp only [ne_eq, hsame, not_false_eq_true, if_true]
            constructor
            · refine ⟨fun htrue => absurd htrue nofun, fun hall => ?_⟩
              have := hall i le_rfl (by omega)
              rw [hfound] at this
              exact absurd (Option.some.inj this) hsame
            · refine ⟨fun hnone => absurd hnone nofun, ?_⟩
              rintro ⟨k, hlow, hhigh, hnone, hall⟩
              rcases Nat.eq_or_lt_of_le hlow with heq | hlt
              · rw [← heq, hfound] at hnone
                exact absurd hnone nofun
              · have := hall i le_rfl hlt
                rw [hfound] at this
                exact absurd (Option.some.inj this) hsame

theorem hasChunkState_eq_true_iff {offset size : Nat} {state : ChunkState} :
    m.hasChunkState offset size state = some true ↔ m.ChunksAre offset size state := by
  have hgo := (hasChunkState_go_spec m state
    (stopChunk offset size - firstChunk offset) (firstChunk offset)).1
  change m.hasChunkState offset size state = some true ↔ _ at hgo
  rw [hgo, ChunksAre]
  refine forall_congr' fun n => imp_congr_right fun hlow => imp_congr ?_ Iff.rfl
  omega

/-- **The lookup leaves the map** exactly when the request reaches past its end and every chunk
before is in the state asked for. -/
theorem hasChunkState_ne_none_iff {offset size : Nat} {state : ChunkState} :
    m.hasChunkState offset size state ≠ none ↔ m.LooksInside offset size state := by
  have hgo := (hasChunkState_go_spec m state
    (stopChunk offset size - firstChunk offset) (firstChunk offset)).2
  change m.hasChunkState offset size state = none ↔ _ at hgo
  rw [ne_eq, hgo]
  unfold LooksInside
  constructor
  · intro hstays
    by_contra hout
    push Not at hout
    obtain ⟨hfirst, hlength, hstates⟩ := hout
    refine hstays ⟨max (firstChunk offset) m.map.length, by omega, by omega,
      List.getElem?_eq_none (by omega), fun n hlow hhigh => ?_⟩
    have hn : n < m.map.length := by omega
    rw [List.getElem?_eq_getElem hn]
    exact congrArg some (hstates n _ hlow (by omega) (List.getElem?_eq_getElem hn))
  · rintro (hfirst | hlength | ⟨n, other, hlow, hhigh, hstate, hne⟩) ⟨k, hk, hkstop, hnone, hall⟩
    · omega
    · have := List.getElem?_eq_none_iff.mp hnone
      omega
    · rcases lt_or_ge n k with hlt | hge
      · have := hall n hlow hlt
        rw [hstate] at this
        exact hne (Option.some.inj this)
      · have hn := lt_length_of_getElem? hstate
        have := List.getElem?_eq_none_iff.mp hnone
        omega

/-- Where the chunk numbers do not wrap, they name the chunk of every byte of the request. -/
theorem ChunksAre.map_eq {offset size x : Nat} {state : ChunkState}
    (hchunks : m.ChunksAre offset size state)
    (hsmall : offset + size ≤ chunkmapFixedChunkSize * (2 ^ 32 - 1)) (hlow : offset ≤ x)
    (hhigh : x < offset + size) : m.map[chunkOf x]? = some state := by
  have hfirst : firstChunk offset ≤ chunkOf x := by
    rw [firstChunk, chunkOf]
    exact (Nat.mod_le _ _).trans (Nat.div_le_div_right hlow)
  refine hchunks (chunkOf x) hfirst ?_
  rw [chunkmapFixedChunkSize_eq] at hsmall
  rw [stopChunk, add_of_lt (by omega), chunkOf, chunkmapFixedChunkSize_eq,
    wrap_of_lt (by omega)]
  split
  · rw [add_of_lt (by omega)]
    omega
  · omega

end ChunkMap

namespace FileCreator

variable {PeerId : Type} [LinearOrder PeerId] {s s' : FileCreator PeerId}

/-! ### The loop over the pending pieces -/

/-- The piece begins inside the request. -/
def begins (offset size : Nat) (chunk : FtChunk PeerId) : Bool :=
  decide (offset ≤ chunk.offset) && decide (chunk.offset < add 64 offset size)

/-- The request up to the first pending piece that begins inside it. -/
def cutSize (offset size : Nat) (chunks : List (FtChunk PeerId)) : Nat :=
  match chunks.find? (begins offset size) with
  | some chunk => chunk.offset - offset
  | none => size

/-- The end of the piece, computed in 64 bits, lies inside the request: for a piece that begins
before the request, in its full length, otherwise in what the cut leaves of it. -/
def EndsInside (offset size cut : Nat) (chunk : FtChunk PeerId) : Prop :=
  offset ≤ add 64 chunk.offset chunk.size ∧
    add 64 chunk.offset chunk.size < add 64 offset (if chunk.offset < offset then size else cut)

omit [LinearOrder PeerId] in
theorem begins_iff {offset size : Nat} {chunk : FtChunk PeerId} :
    begins offset size chunk = true ↔ offset ≤ chunk.offset ∧ chunk.offset < add 64 offset size := by
  simp [begins]

omit [LinearOrder PeerId] in
theorem cutSize_of_none {offset size : Nat} {chunks : List (FtChunk PeerId)}
    (hnone : ∀ chunk ∈ chunks, ¬ begins offset size chunk = true) :
    cutSize offset size chunks = size := by
  rw [cutSize, List.find?_eq_none.mpr hnone]

theorem keeps_iff {haveIt : Bool} {p q : Prop} [Decidable p] [Decidable q] :
    (haveIt && !(decide p && decide q)) = true ↔ haveIt = true ∧ ¬ (p ∧ q) := by
  rw [Bool.and_eq_true, Bool.not_eq_true', ← Bool.not_eq_true, Bool.and_eq_true,
    decide_eq_true_iff, decide_eq_true_iff]

omit [LinearOrder PeerId] in
/-- **One pass over the pieces in order** cuts the request at the first piece inside it. -/
theorem trimRequest_spec {offset : Nat} (chunks : List (FtChunk PeerId)) :
    ∀ (size : Nat) (haveIt : Bool), size < 2 ^ 32 →
      chunks.Pairwise (fun a b => a.offset < b.offset) →
      (trimRequest offset chunks size haveIt).1 = cutSize offset size chunks ∧
      ((trimRequest offset chunks size haveIt).2 = true ↔ haveIt = true ∧
        ∀ chunk ∈ chunks, ¬ EndsInside offset size (cutSize offset size chunks) chunk) := by
  induction chunks with
  | nil =>
      intro size haveIt _ _
      exact ⟨rfl, by simp [trimRequest]⟩
  | cons chunk rest ih =>
      intro size haveIt hsize hsorted
      obtain ⟨hfirst, hsorted⟩ := List.pairwise_cons.mp hsorted
      unfold trimRequest
      by_cases hbegins : begins offset size chunk = true
      · obtain ⟨hlow, hhigh⟩ := begins_iff.mp hbegins
        have hend : add 64 offset size ≤ offset + size := Nat.mod_le _ _
        have hword : add 64 offset size < 2 ^ 64 := add_lt
        have hcut : cutSize offset size (chunk :: rest) = chunk.offset - offset := by
          rw [cutSize, List.find?_cons_of_pos hbegins]
        have hleft : wrap 32 (sub 64 chunk.offset offset) = chunk.offset - offset := by
          rw [sub_of_le hlow (by omega), wrap_of_lt (by omega)]
        have hnext : ∀ other ∈ rest, ¬ begins offset (chunk.offset - offset) other = true := by
          intro other hother hbegin
          have hlater := hfirst other hother
          have := (begins_iff.mp hbegin).2
          rw [add_of_lt (by omega)] at this
          omega
        have hrest := cutSize_of_none hnext
        rw [if_pos ⟨hlow, hhigh⟩, hleft]
        obtain ⟨ihSize, ihHave⟩ := ih (chunk.offset - offset)
          (haveIt && !(decide (offset ≤ add 64 chunk.offset chunk.size) &&
            decide (add 64 chunk.offset chunk.size < add 64 offset (chunk.offset - offset))))
          (by omega) hsorted
        refine ⟨ihSize.trans (hrest.trans hcut.symm), ?_⟩
        simp only
        rw [ihHave, hcut, hrest, List.forall_mem_cons]
        have hself : EndsInside offset size (chunk.offset - offset) chunk ↔
            offset ≤ add 64 chunk.offset chunk.size ∧
              add 64 chunk.offset chunk.size < add 64 offset (chunk.offset - offset) := by
          rw [EndsInside, if_neg (by omega)]
        have hothers : (∀ other ∈ rest,
            ¬ EndsInside offset (chunk.offset - offset) (chunk.offset - offset) other) ↔
            ∀ other ∈ rest, ¬ EndsInside offset size (chunk.offset - offset) other := by
          refine forall₂_congr fun other hother => not_congr ?_
          have := hfirst other hother
          rw [EndsInside, EndsInside, if_neg (by omega), if_neg (by omega)]
        rw [hothers, hself, keeps_iff, and_assoc]
      · have hout : ¬ (offset ≤ chunk.offset ∧ chunk.offset < add 64 offset size) :=
          fun hin => hbegins (begins_iff.mpr hin)
        have hcut : cutSize offset size (chunk :: rest) = cutSize offset size rest := by
          rw [cutSize, cutSize, List.find?_cons_of_neg hbegins]
        rw [if_neg hout]
        obtain ⟨ihSize, ihHave⟩ := ih size
          (haveIt && !(decide (offset ≤ add 64 chunk.offset chunk.size) &&
            decide (add 64 chunk.offset chunk.size < add 64 offset size))) hsize hsorted
        refine ⟨ihSize.trans hcut.symm, ?_⟩
        simp only
        rw [ihHave, hcut, List.forall_mem_cons]
        have hself : EndsInside offset size (cutSize offset size rest) chunk ↔
            offset ≤ add 64 chunk.offset chunk.size ∧
              add 64 chunk.offset chunk.size < add 64 offset size := by
          unfold EndsInside
          by_cases hbefore : chunk.offset < offset
          · rw [if_pos hbefore]
          · -- The piece begins behind the request, and so do all that follow.
            have hnone : ∀ other ∈ rest, ¬ begins offset size other = true := by
              intro other hother hbegin
              have hlater := hfirst other hother
              have := (begins_iff.mp hbegin).2
              omega
            rw [if_neg hbefore, cutSize_of_none hnone]
        rw [hself, keeps_iff, and_assoc]

/-! ### What is read from the file -/

/-- The provider can read the part of the request that lies in the file. -/
def Readable (s : FileCreator PeerId) (env : ReadEnv) (offset size : Nat) : Prop :=
  (s.fd = true ∨ env.opening = true) ∧ offset < s.mSize ∧ offset < 2 ^ 63 ∧ 0 < size ∧
    offset + min size (s.mSize - offset) ≤ s.file.length ∧ env.readable = true

theorem provide_spec (hmSize : s.mSize < 2 ^ 64) (env : ReadEnv) (offset : Nat) {size : Nat}
    (hsize : size < 2 ^ 32) (count : Nat) :
    (s.provide env offset size).2 = some count ↔
      s.Readable env offset size ∧ count = min size (s.mSize - offset) := by
  unfold provide Readable
  by_cases hopen : s.fd = true ∨ env.opening = true
  · rw [if_neg (by tauto)]
    simp only
    by_cases hbelow : offset < s.mSize
    · rw [if_neg (by omega)]
      by_cases hseek : 2 ^ 63 ≤ offset
      · rw [if_pos (Or.inr hseek)]
        exact ⟨fun h => absurd h nofun, fun h => by omega⟩
      · have hclamp : (if s.mSize < add 64 offset size then wrap 32 (sub 64 s.mSize offset)
            else size) = min size (s.mSize - offset) := by
          rw [add_of_lt (by omega), sub_of_le hbelow.le hmSize]
          split
          · rw [wrap_of_lt (by omega)]
            omega
          · omega
        rw [hclamp]
        by_cases hzero : size = 0
        · rw [if_pos (by omega)]
          exact ⟨fun h => absurd h nofun, fun h => by omega⟩
        · rw [if_neg (by omega)]
          by_cases hread : offset + min size (s.mSize - offset) ≤ s.file.length ∧
              env.readable = true
          · rw [if_pos hread, Option.some.injEq]
            exact ⟨fun h => ⟨⟨hopen, hbelow, by omega, by omega, hread⟩, h.symm⟩, fun h => h.2.symm⟩
          · rw [if_neg hread]
            exact ⟨fun h => absurd h nofun, fun h => absurd h.1.2.2.2.2 hread⟩
    · rw [if_pos (by omega)]
      exact ⟨fun h => absurd h nofun, fun h => absurd h.1.2.1 hbelow⟩
  · rw [if_pos (by tauto)]
    exact ⟨fun h => absurd h nofun, fun h => absurd h.1.1 hopen⟩

/-- The pending pieces in the order of the table. -/
def pieces (s : FileCreator PeerId) : List (FtChunk PeerId) := s.mChunks.toList.map Prod.snd

theorem Keyed.pieces_sorted (hkeyed : s.Keyed) :
    s.pieces.Pairwise (fun a b => a.offset < b.offset) := by
  rw [pieces, List.pairwise_map]
  refine (OrderedMap.sorted_toList s.mChunks).imp_of_mem ?_
  intro a b ha hb hlt
  rw [hkeyed a.1 a.2 ((OrderedMap.mem_toList _).mp ha),
    hkeyed b.1 b.2 ((OrderedMap.mem_toList _).mp hb)]
  exact hlt

theorem looksInside_of_ne_none {env : ReadEnv} {offset size : Nat} {allowUnverified : Bool}
    (hdefined : s.getFileData env offset size allowUnverified ≠ none) :
    s.chunkMap.LooksInside offset size .done := by
  refine ChunkMap.hasChunkState_ne_none_iff.mp fun hlookup => hdefined ?_
  unfold getFileData ChunkMap.isChunkAvailable
  rw [hlookup]
  rfl

theorem getFileData_of_done {env : ReadEnv} {offset size : Nat} {allowUnverified : Bool}
    (hdone : s.chunkMap.ChunksAre offset size .done) :
    s.getFileData env offset size allowUnverified = some (s.provide env offset size) := by
  have hlookup := ChunkMap.hasChunkState_eq_true_iff.mpr hdone
  unfold getFileData ChunkMap.isChunkAvailable
  rw [hlookup]
  rfl

theorem getFileData_of_not_done {env : ReadEnv} {offset size : Nat}
    (hinside : s.chunkMap.LooksInside offset size .done)
    (hdone : ¬ s.chunkMap.ChunksAre offset size .done) :
    s.getFileData env offset size false = some (s, none) := by
  have hlookup : s.chunkMap.hasChunkState offset size .done = some false := by
    obtain ⟨answer, hanswer⟩ := Option.ne_none_iff_exists'.mp
      (ChunkMap.hasChunkState_ne_none_iff.mpr hinside)
    cases answer with
    | false => exact hanswer
    | true => exact absurd (ChunkMap.hasChunkState_eq_true_iff.mp hanswer) hdone
  unfold getFileData ChunkMap.isChunkAvailable
  rw [hlookup]
  rfl

/-- What the path for unverified data does once the first lookup has failed. -/
theorem getFileData_unverified (hkeyed : s.Keyed) (env : ReadEnv) {offset size : Nat}
    (hsize : size < 2 ^ 32) (hinside : s.chunkMap.LooksInside offset size .done)
    (hdone : ¬ s.chunkMap.ChunksAre offset size .done) :
    (s.getFileData env offset size true ≠ none ↔
      s.chunkMap.LooksInside offset (cutSize offset size s.pieces) .outstanding) ∧
    ∀ after count, s.getFileData env offset size true = some (after, some count) ↔
      s.chunkMap.LooksInside offset (cutSize offset size s.pieces) .outstanding ∧
      ¬ s.chunkMap.ChunksAre offset (cutSize offset size s.pieces) .outstanding ∧
      (∀ chunk ∈ s.pieces, ¬ EndsInside offset size (cutSize offset size s.pieces) chunk) ∧
      s.provide env offset (cutSize offset size s.pieces) = (after, some count) := by
  have hlookup : s.chunkMap.hasChunkState offset size .done = some false := by
    obtain ⟨answer, hanswer⟩ := Option.ne_none_iff_exists'.mp
      (ChunkMap.hasChunkState_ne_none_iff.mpr hinside)
    cases answer with
    | false => exact hanswer
    | true => exact absurd (ChunkMap.hasChunkState_eq_true_iff.mp hanswer) hdone
  obtain ⟨htrimSize, htrimHave⟩ := trimRequest_spec s.pieces size true hsize hkeyed.pieces_sorted
  have hget : s.getFileData env offset size true =
      (s.chunkMap.hasChunkState offset (cutSize offset size s.pieces) .outstanding).bind
        fun outstanding => some (if (trimRequest offset s.pieces size true).2 && !outstanding then
          s.provide env offset (cutSize offset size s.pieces) else (s, none)) := by
    rw [← htrimSize]
    unfold getFileData ChunkMap.isChunkAvailable
    rw [hlookup]
    rfl
  rw [hget, ← ChunkMap.hasChunkState_ne_none_iff, ← ChunkMap.hasChunkState_eq_true_iff]
  cases houtstanding : s.chunkMap.hasChunkState offset (cutSize offset size s.pieces)
      .outstanding with
  | none => exact ⟨by simp, fun after count => by simp⟩
  | some outstanding =>
      refine ⟨by simp, fun after count => ?_⟩
      simp only [true_and] at htrimHave
      rw [Option.bind_some, Option.some.injEq, ← htrimHave]
      cases outstanding with
      | true => simp
      | false => cases (trimRequest offset s.pieces size true).2 <;> simp

end FileCreator

namespace LedgeredCreator

variable {PeerId : Type} [LinearOrder PeerId] {s : LedgeredCreator PeerId}

/-! ### Only received bytes -/

/-- The byte lies in a chunk that is done or, where unverified data may go out, was written by some
packet. -/
def MayServe (s : LedgeredCreator PeerId) (allowUnverified : Bool) (x : Nat) : Prop :=
  s.creator.chunkMap.map[ChunkMap.chunkOf x]? = some .done ∨
    (allowUnverified = true ∧ s.stored x = true)

/-- A request never reads the map of chunks outside its bounds, and what it is answered with may be
served. -/
structure ServesReceived (s : LedgeredCreator PeerId) (env : ReadEnv) (offset size : Nat)
    (allowUnverified : Bool) : Prop where
  inside : s.creator.getFileData env offset size allowUnverified ≠ none
  received : ∀ after count,
    s.creator.getFileData env offset size allowUnverified = some (after, some count) →
      ∀ x, offset ≤ x → x < offset + count → s.MayServe allowUnverified x

/-- Each byte of the range that lies in the file may be served. -/
def Holds (s : LedgeredCreator PeerId) (allowUnverified : Bool) (offset size : Nat) : Prop :=
  ∀ x, offset ≤ x → x < offset + size → x < s.creator.mSize → s.MayServe allowUnverified x

theorem holds_of_read {offset size count : Nat} {allowUnverified : Bool}
    (hcount : count = min size (s.creator.mSize - offset))
    (hread : ∀ x, offset ≤ x → x < offset + count → s.MayServe allowUnverified x) :
    s.Holds allowUnverified offset size :=
  fun x hlow hhigh hx => hread x hlow (by omega)

theorem Holds.read {offset size count : Nat} {allowUnverified : Bool}
    (hholds : s.Holds allowUnverified offset size) (hoffset : offset < s.creator.mSize)
    (hcount : count = min size (s.creator.mSize - offset)) {x : Nat} (hlow : offset ≤ x)
    (hhigh : x < offset + count) : s.MayServe allowUnverified x :=
  hholds x hlow (by omega) (by omega)

/-- Nothing is wrong with the request: the chunk numbers do not wrap, both lookups stay in the map,
and no byte is missing before the first pending piece that begins inside the request (or a test
refuses the request). -/
structure Sound (s : LedgeredCreator PeerId) (env : ReadEnv) (offset size : Nat)
    (allowUnverified : Bool) : Prop where
  done_inside : s.creator.chunkMap.LooksInside offset size .done
  numbers : s.creator.chunkMap.ChunksAre offset size .done →
    offset + size ≤ chunkmapFixedChunkSize * (2 ^ 32 - 1) ∨
      ¬ s.creator.Readable env offset size ∨ s.Holds allowUnverified offset size
  outstanding_inside : allowUnverified = true → ¬ s.creator.chunkMap.ChunksAre offset size .done →
    s.creator.chunkMap.LooksInside offset
      (FileCreator.cutSize offset size s.creator.pieces) .outstanding
  complete : allowUnverified = true → ¬ s.creator.chunkMap.ChunksAre offset size .done →
    s.creator.chunkMap.ChunksAre offset
        (FileCreator.cutSize offset size s.creator.pieces) .outstanding ∨
      (∃ chunk ∈ s.creator.pieces, FileCreator.EndsInside offset size
        (FileCreator.cutSize offset size s.creator.pieces) chunk) ∨
      ¬ s.creator.Readable env offset (FileCreator.cutSize offset size s.creator.pieces) ∨
      s.Holds true offset (FileCreator.cutSize offset size s.creator.pieces)

omit [LinearOrder PeerId] in
theorem cutSize_lt (offset : Nat) {size : Nat} (hsize : size < 2 ^ 32) (chunks : List (FtChunk PeerId)) :
    FileCreator.cutSize offset size chunks < 2 ^ 32 := by
  unfold FileCreator.cutSize
  split
  · next chunk hfound =>
      have hbegins := FileCreator.begins_iff.mp (List.find?_some hfound)
      have : add 64 offset size ≤ offset + size := Nat.mod_le _ _
      omega
  · exact hsize

end LedgeredCreator

end RetroShare.Ft
