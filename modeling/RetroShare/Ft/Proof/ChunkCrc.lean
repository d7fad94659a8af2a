import RetroShare.Ft.ChunkCrc

/-!
# Sums of chunks outside the file

No call checks the number of a chunk that a peer sends. All accesses stay inside the file in every run
whose messages name chunks of it, or arrive when there is nothing to look at; beyond that the sums of
chunks from `2 ^ 31` on are looked up at another index than they are stored at.
-/

namespace RetroShare.Ft

open RetroShare.Word Transition

variable {PeerId : Type} [LinearOrder PeerId] {Sum : Type}

/-! ### Verifying -/

/-- Only chunks that were being checked, and that a sum was received for, have another state. -/
structure SettledBy (received : List Nat) (map map' : List ChunkState) : Prop where
  length_eq : map'.length = map.length
  settled : ∀ i : Nat, map'[i]? ≠ map[i]? → map[i]? = some .checking ∧ i ∈ received

theorem SettledBy.refl (received : List Nat) (map : List ChunkState) : SettledBy received map map :=
  ⟨rfl, fun _ h => absurd rfl h⟩

theorem SettledBy.trans {received : List Nat} {map map' map'' : List ChunkState}
    (hfirst : SettledBy received map map') (hsecond : SettledBy received map' map'') :
    SettledBy received map map'' where
  length_eq := hsecond.length_eq.trans hfirst.length_eq
  settled i hne := by
    by_cases hsame : map'[i]? = map[i]?
    · rw [← hsame] at hne ⊢
      exact hsecond.settled i hne
    · exact hfirst.settled i hsame

theorem SettledBy.mono {received received' : List Nat} {map map' : List ChunkState}
    (hsettled : SettledBy received map map') (hsub : received ⊆ received') :
    SettledBy received' map map' where
  length_eq := hsettled.length_eq
  settled i hne := ⟨(hsettled.settled i hne).1, hsub (hsettled.settled i hne).2⟩

theorem ChunkMap.setChunkCheckingResult_settledBy {m m' : ChunkMap PeerId} {chunkNumber : Nat}
    {checkSucceeded : Bool} (hset : m.setChunkCheckingResult chunkNumber checkSucceeded = some m') :
    SettledBy [chunkNumber] m.map m'.map ∧ chunkNumber < m.map.length := by
  obtain ⟨state, hstate, hset⟩ := Option.bind_eq_some_iff.mp hset
  have hlt : chunkNumber < m.map.length := (List.getElem?_eq_some_iff.mp hstate).1
  refine ⟨?_, hlt⟩
  have hchanged : ∀ state', state = .checking →
      SettledBy [chunkNumber] m.map (m.map.set chunkNumber state') := by
    rintro state' rfl
    refine ⟨List.length_set, fun i hne => ?_⟩
    by_cases hi : chunkNumber = i
    · subst hi
      exact ⟨hstate, List.mem_singleton_self _⟩
    · exact absurd (List.getElem?_set_ne hi) hne
  split at hset
  case isTrue =>
    cases hset
    exact .refl _ _
  case isFalse hchecking =>
    rw [not_not] at hchecking
    split at hset
    case isTrue =>
      obtain ⟨unfinished, -, hset⟩ := Option.bind_eq_some_iff.mp hset
      cases hset
      exact hchanged .done hchecking
    case isFalse =>
      cases hset
      exact hchanged .outstanding hchecking

theorem FileCreator.initializeFileAttrs_frame {s t : FileCreator PeerId} {opening : OpenOutcome}
    (hopen : s.initializeFileAttrs opening = some t) :
    t.chunkMap = s.chunkMap ∧ t.mSize = s.mSize := by
  unfold FileCreator.initializeFileAttrs at hopen
  split at hopen
  · cases hopen
    exact ⟨rfl, rfl⟩
  · cases opening <;> cases hopen <;> exact ⟨rfl, rfl⟩

theorem FileCreator.verifyChunk_settledBy {s t : FileCreator PeerId} {opening : OpenOutcome}
    {chunkNumber : Nat} {readable sumMatches : Bool}
    (hverify : s.verifyChunk opening chunkNumber readable sumMatches = some t) :
    SettledBy [chunkNumber] s.chunkMap.map t.chunkMap.map ∧ t.mSize = s.mSize := by
  unfold FileCreator.verifyChunk at hverify
  split at hverify
  case h_1 =>
    cases hverify
    exact ⟨.refl _ _, rfl⟩
  case h_2 u hopen =>
    obtain ⟨hmap, hsize⟩ := FileCreator.initializeFileAttrs_frame hopen
    obtain ⟨m, hset, hverify⟩ := Option.bind_eq_some_iff.mp hverify
    cases hverify
    rw [← hmap]
    exact ⟨(ChunkMap.setChunkCheckingResult_settledBy hset).1, hsize⟩

namespace CrcExchange

variable {zero : Sum} {sha1sum : List UInt8 → Sum} {fileSize : Nat}
  {s t : CrcExchange PeerId Sum} {chunkNumber : Nat}

def InRange (fileSize : Nat) (access : Access) : Prop := access.chunk < numberOfChunks fileSize

theorem intIndex_lt_iff (hsize : fileSize < 2 ^ 64) (hchunk : chunkNumber < 2 ^ 32)
    (hlt : chunkNumber < numberOfChunks fileSize) :
    intIndex chunkNumber < numberOfChunks fileSize ↔ chunkNumber < 2 ^ 31 := by
  unfold intIndex
  split
  case isTrue h => exact iff_of_true hlt h
  case isFalse h =>
    refine iff_of_false ?_ h
    unfold numberOfChunks chunkmapFixedChunkSize
    split <;> omega

theorem verifyReceived_settledBy [DecidableEq Sum] {env : VerifyEnv Sum} {map : Sha1Map Sum} {checks : Nat}
    {client client' : FileCreator PeerId} {received received' : List Nat}
    (hverify : (verifyReceived env map checks client received).outcome = some (client', received')) :
    SettledBy received client.chunkMap.map client'.chunkMap.map ∧ client'.mSize = client.mSize ∧
      received' ⊆ received := by
  induction checks generalizing client received with
  | zero =>
      cases hverify
      exact ⟨.refl _ _, rfl, List.Subset.refl _⟩
  | succ checks ih =>
      cases received with
      | nil =>
          cases hverify
          exact ⟨.refl _ _, rfl, List.Subset.refl _⟩
      | cons chunkNumber received =>
          rw [verifyReceived, Traced.outcome_bind] at hverify
          obtain ⟨isSet, -, hverify⟩ := hverify
          have hrest : received ⊆ chunkNumber :: received := List.subset_cons_self _ _
          split at hverify
          · rw [Traced.outcome_bind] at hverify
            obtain ⟨sum, -, hverify⟩ := hverify
            rw [Traced.outcome_bind] at hverify
            obtain ⟨mid, hmid, hverify⟩ := hverify
            obtain ⟨hfirst, hsize⟩ := FileCreator.verifyChunk_settledBy hmid
            obtain ⟨hsecond, hsize', hsub⟩ := ih hverify
            refine ⟨(hfirst.mono ?_).trans (hsecond.mono hrest), hsize'.trans hsize, List.Subset.trans hsub hrest⟩
            exact List.cons_subset_cons _ (List.nil_subset _)
          · obtain ⟨hsettled, hsize, hsub⟩ := ih hverify
            exact ⟨hsettled.mono hrest, hsize, List.Subset.trans hsub hrest⟩

theorem verifyReceived_inRange [DecidableEq Sum] {env : VerifyEnv Sum} {map : Sha1Map Sum} {checks : Nat}
    {client : FileCreator PeerId} {received : List Nat}
    (hreceived : ∀ c ∈ received, c < numberOfChunks fileSize)
    (hsmall : ∀ c ∈ received.take checks, c < 2 ^ 31) :
    (verifyReceived env map checks client received).All (InRange fileSize) := by
  induction checks generalizing client received with
  | zero => exact Traced.all_pure _
  | succ checks ih =>
      cases received with
      | nil => exact Traced.all_pure _
      | cons chunkNumber received =>
          have hlt := hreceived chunkNumber List.mem_cons_self
          have hindex : intIndex chunkNumber = chunkNumber :=
            if_pos (hsmall chunkNumber List.mem_cons_self)
          have hrest : ∀ client : FileCreator PeerId,
              (verifyReceived env map checks client received).All (InRange fileSize) := fun client =>
            ih (fun c hc => hreceived c (List.mem_cons_of_mem _ hc))
              fun c hc => hsmall c (List.mem_cons_of_mem _ hc)
          rw [verifyReceived, Traced.all_bind, Traced.all_emit]
          refine ⟨hlt, fun isSet _ => ?_⟩
          split
          · rw [Traced.all_bind, Traced.all_emit, hindex]
            refine ⟨hlt, fun sum _ => ?_⟩
            rw [Traced.all_bind]
            refine ⟨fun access hmem => ?_, fun client _ => hrest client⟩
            rw [verifyChunk] at hmem
            dsimp only at hmem
            split at hmem
            · obtain rfl | rfl : access = .file chunkNumber ∨ access = .chunkState chunkNumber := by
                simpa using hmem
              · exact hlt
              · exact hlt
            · exact absurd hmem List.not_mem_nil
          · exact hrest client

/-! ### One file -/

/-- The download, the provider and the sums in the cache are of a file of that size, and only chunks
of it have been received. -/
structure Fits (fileSize : Nat) (s : CrcExchange PeerId Sum) : Prop where
  client : ∀ client, s.client = some client →
    client.mSize = fileSize ∧ client.chunkMap.map.length = numberOfChunks fileSize
  server : ∀ size, s.server = some size → size = fileSize
  received : ∀ c ∈ s.entry.received, c < numberOfChunks fileSize

/-- What else the program does with the file, it does with a file of that size. -/
def OfFile (fileSize : Nat) : CrcOp PeerId Sum → Prop
  | .request _ searched _ => ∀ size, searched = some size → size = fileSize
  | .download client => ∀ c, client = some c →
      c.mSize = fileSize ∧ c.chunkMap.map.length = numberOfChunks fileSize
  | .share server => ∀ size, server = some size → size = fileSize
  | _ => True

/-- The chunk is one of the file, below `2 ^ 31` if its sum is looked up, or nothing is there to look
at. -/
def KeepsRange (fileSize : Nat) (s : CrcExchange PeerId Sum) : CrcOp PeerId Sum → Prop
  | .request chunkNumber searched disk =>
      (chunkNumber.1 < numberOfChunks fileSize ∧
        (s.entry.map.size > 0 → s.entry.map.isSet chunkNumber = some true →
          chunkNumber.1 < 2 ^ 31)) ∨
      s.entry.map.size = 0 ∧ (s.server = none ∧ searched = none ∨ disk = none)
  | .answer chunkNumber _ => chunkNumber.1 < numberOfChunks fileSize ∨ s.client = none
  | .dispatch _ => s.client ≠ none →
      ∀ c ∈ s.entry.received.take maxChecksumCheckPerFile, c < 2 ^ 31
  | _ => True

/-- A step accesses chunks of the file only, and only changes the state of a chunk that was being
checked and that an answer has come for. -/
structure Safe [DecidableEq Sum] (zero : Sum) (sha1sum : List UInt8 → Sum) (fileSize : Nat) (s : CrcExchange PeerId Sum)
    (op : CrcOp PeerId Sum) : Prop where
  inRange : (s.call zero sha1sum op).All (InRange fileSize)
  states : ∀ t client, s.step zero sha1sum op = some t → s.client = some client →
    (∀ other, op ≠ .download other) → ∃ client', t.client = some client' ∧
      SettledBy s.entry.received client.chunkMap.map client'.chunkMap.map

theorem cachedSum_inRange_iff (hsize : fileSize < 2 ^ 64) (map : Sha1Map Sum)
    (hchunk : chunkNumber < 2 ^ 32) :
    (cachedSum map chunkNumber).All (InRange fileSize) ↔ (map.size > 0 →
      chunkNumber < numberOfChunks fileSize ∧
        (map.isSet chunkNumber = some true → chunkNumber < 2 ^ 31)) := by
  unfold cachedSum
  split
  case isFalse hempty => simp [hempty]
  case isTrue hfilled =>
    rw [Traced.all_bind, Traced.all_emit, Traced.outcome_emit]
    simp only [hfilled, forall_const]
    refine and_congr_right fun hlt => ?_
    have hlt : chunkNumber < numberOfChunks fileSize := hlt
    rw [← intIndex_lt_iff hsize hchunk hlt]
    constructor
    · intro h hset
      have hlookup := h true hset
      rw [if_pos rfl, Traced.all_bind, Traced.all_emit] at hlookup
      exact hlookup.1
    · intro h isSet hset
      split
      case isTrue htrue =>
        rw [Traced.all_bind, Traced.all_emit]
        exact ⟨h (hset.trans (congrArg some htrue)), fun _ _ => Traced.all_pure _⟩
      case isFalse => exact Traced.all_pure _

theorem computedSum_inRange_iff (s : CrcExchange PeerId Sum) (size : Nat)
    (disk : Option (List UInt8)) :
    (computedSum zero sha1sum s size chunkNumber disk).All (InRange fileSize) ↔
      disk = none ∨ chunkNumber < numberOfChunks fileSize := by
  unfold computedSum
  split
  case h_1 => simp
  case h_2 content =>
    rw [Traced.all_bind, Traced.all_emit]
    simp only [reduceCtorEq, false_or]
    constructor
    · exact fun h => h.1
    · refine fun hlt => ⟨hlt, fun bytes _ => ?_⟩
      split
      · exact Traced.all_pure _
      · rw [Traced.all_bind, Traced.all_emit]
        exact ⟨hlt, fun _ _ => Traced.all_pure _⟩

theorem cachedSum_outcome_of_empty {map : Sha1Map Sum} (hempty : map.size = 0) :
    cachedSum map chunkNumber = pure none := by
  rw [cachedSum, if_neg (by omega)]

theorem request_inRange_iff (hsize : fileSize < 2 ^ 64) (chunkNumber : Word32)
    (searched : Option Nat) (disk : Option (List UInt8)) :
    (s.handleRecvChunkCrcRequest zero sha1sum chunkNumber searched disk).All (InRange fileSize) ↔
      KeepsRange fileSize s (.request chunkNumber searched disk) := by
  have hentry : ∀ entry, entry = s.entry →
      CrcExchange.entry { s with cached := some entry } = s.entry := fun entry h => h
  unfold handleRecvChunkCrcRequest
  dsimp only
  rw [hentry _ rfl, Traced.all_bind, cachedSum_inRange_iff hsize _ chunkNumber.2]
  unfold KeepsRange
  dsimp only
  by_cases hlt : chunkNumber.1 < numberOfChunks fileSize
  · constructor
    · exact fun h => .inl ⟨hlt, fun hfilled => (h.1 hfilled).2⟩
    · intro h
      refine ⟨fun hfilled => ⟨hlt, ?_⟩, fun found _ => ?_⟩
      · obtain h | h := h
        · exact h.2 hfilled
        · exact absurd hfilled (by omega)
      · cases found with
        | some crc => exact Traced.all_pure _
        | none =>
            dsimp only
            split
            · exact Traced.all_pure _
            · exact (computedSum_inRange_iff _ _ _).mpr (.inr hlt)
  · constructor
    · rintro ⟨hcached, hrest⟩
      have hempty : s.entry.map.size = 0 := by
        by_contra hfilled
        exact hlt (hcached (Nat.pos_of_ne_zero hfilled)).1
      refine .inr ⟨hempty, ?_⟩
      have hserved := hrest none (by rw [cachedSum_outcome_of_empty hempty]; rfl)
      dsimp only at hserved
      split at hserved
      case h_1 hnone => exact .inl (by simpa using hnone)
      case h_2 =>
        exact .inr (((computedSum_inRange_iff _ _ _).mp hserved).resolve_right hlt)
    · rintro (h | ⟨hempty, hnothing⟩)
      · exact absurd h.1 hlt
      · refine ⟨fun hfilled => absurd hfilled (by omega), fun found hfound => ?_⟩
        rw [cachedSum_outcome_of_empty hempty] at hfound
        cases hfound
        dsimp only
        split
        case h_1 => exact Traced.all_pure _
        case h_2 size hserved =>
          refine (computedSum_inRange_iff _ _ _).mpr (.inl ?_)
          obtain ⟨hserver, hsearched⟩ | hdisk := hnothing
          · simp [hserver, hsearched] at hserved
          · exact hdisk

theorem answer_inRange_iff (chunkNumber : Word32) (crc : Sum) :
    (s.recvSingleChunkCRC zero chunkNumber crc).All (InRange fileSize) ↔
      KeepsRange fileSize s (.answer chunkNumber crc) := by
  unfold recvSingleChunkCRC KeepsRange
  dsimp only
  split
  case h_1 hnone => simp [hnone]
  case h_2 client hclient =>
    rw [Traced.all_bind, Traced.all_emit]
    simp [hclient, InRange, Access.chunk]

theorem dispatch_inRange [DecidableEq Sum] (hfits : Fits fileSize s) {env : VerifyEnv Sum}
    (hkeeps : KeepsRange fileSize s (.dispatch env : CrcOp PeerId Sum)) :
    (s.dispatchReceivedChunkCheckSum env).All (InRange fileSize) := by
  unfold dispatchReceivedChunkCheckSum
  split
  case h_1 => exact Traced.all_pure _
  case h_2 => exact Traced.all_pure _
  case h_3 entry client hentry hclient =>
    have hsame : s.entry = entry := by rw [CrcExchange.entry, hentry, Option.getD_some]
    rw [Traced.all_bind]
    refine ⟨verifyReceived_inRange (hsame ▸ hfits.received) ?_, fun _ _ => Traced.all_pure _⟩
    exact hsame ▸ hkeeps (by rw [hclient]; exact Option.some_ne_none _)

theorem dispatch_states [DecidableEq Sum] {env : VerifyEnv Sum} {client : FileCreator PeerId}
    (hdispatch : (s.dispatchReceivedChunkCheckSum env).outcome = some t)
    (hclient : s.client = some client) :
    ∃ client', t.client = some client' ∧ t.server = s.server ∧ client'.mSize = client.mSize ∧
      SettledBy s.entry.received client.chunkMap.map client'.chunkMap.map ∧
      t.entry.received ⊆ s.entry.received := by
  unfold dispatchReceivedChunkCheckSum at hdispatch
  split at hdispatch
  case h_1 hentry =>
    cases hdispatch
    exact ⟨client, hclient, rfl, rfl, .refl _ _, List.Subset.refl _⟩
  case h_2 hnone => exact absurd (hclient.symm.trans hnone) (Option.some_ne_none _)
  case h_3 entry client' hentry hclient' =>
    obtain rfl := Option.some.inj (hclient.symm.trans hclient')
    have hsame : s.entry = entry := by rw [CrcExchange.entry, hentry, Option.getD_some]
    rw [Traced.outcome_bind] at hdispatch
    obtain ⟨⟨verified, received⟩, hverify, hdispatch⟩ := hdispatch
    cases hdispatch
    obtain ⟨hsettled, hsize, hsub⟩ := verifyReceived_settledBy hverify
    exact ⟨verified, rfl, rfl, hsize, hsame ▸ hsettled, hsame ▸ hsub⟩

theorem dispatch_of_no_client [DecidableEq Sum] {env : VerifyEnv Sum}
    (hdispatch : (s.dispatchReceivedChunkCheckSum env).outcome = some t) (hclient : s.client = none) :
    t = s ∨ t = { s with cached := none } := by
  unfold dispatchReceivedChunkCheckSum at hdispatch
  split at hdispatch
  case h_1 =>
    cases hdispatch
    exact .inl rfl
  case h_2 =>
    cases hdispatch
    exact .inr rfl
  case h_3 hsome => exact absurd (hclient.symm.trans hsome).symm (Option.some_ne_none _)

theorem computedSum_frame {size : Nat} {disk : Option (List UInt8)}
    {result : Option Sum × CrcExchange PeerId Sum}
    (hcomputed : (computedSum zero sha1sum s size chunkNumber disk).outcome = some result) :
    result.2.client = s.client ∧ result.2.server = s.server ∧
      result.2.entry.received = s.entry.received := by
  unfold computedSum at hcomputed
  split at hcomputed
  case h_1 =>
    cases hcomputed
    exact ⟨rfl, rfl, rfl⟩
  case h_2 =>
    rw [Traced.outcome_bind] at hcomputed
    obtain ⟨bytes, -, hcomputed⟩ := hcomputed
    split at hcomputed
    · cases hcomputed
      exact ⟨rfl, rfl, rfl⟩
    · rw [Traced.outcome_bind] at hcomputed
      obtain ⟨map, -, hcomputed⟩ := hcomputed
      cases hcomputed
      exact ⟨rfl, rfl, rfl⟩

theorem request_frame {searched : Option Nat} {disk : Option (List UInt8)}
    {result : Option Sum × CrcExchange PeerId Sum}
    (hrequest : (s.handleRecvChunkCrcRequest zero sha1sum chunkNumber searched disk).outcome =
      some result) :
    result.2.client = s.client ∧
      (result.2.server = s.server ∨ result.2.server = (s.server <|> searched)) ∧
      result.2.entry.received = s.entry.received := by
  unfold handleRecvChunkCrcRequest at hrequest
  rw [Traced.outcome_bind] at hrequest
  obtain ⟨found, -, hrequest⟩ := hrequest
  split at hrequest
  case h_1 =>
    cases hrequest
    exact ⟨rfl, .inl rfl, rfl⟩
  case h_2 =>
    dsimp only at hrequest
    split at hrequest
    case h_1 =>
      cases hrequest
      exact ⟨rfl, .inr rfl, rfl⟩
    case h_2 =>
      obtain ⟨hclient, hserver, hreceived⟩ := computedSum_frame hrequest
      exact ⟨hclient, .inr hserver, hreceived⟩

theorem answer_frame {crc : Sum} {result : Bool × CrcExchange PeerId Sum}
    (hanswer : (s.recvSingleChunkCRC zero chunkNumber crc).outcome = some result) :
    result.2.client = s.client ∧ result.2.server = s.server ∧
      (result.2.entry.received = s.entry.received ∨
        s.client ≠ none ∧ result.2.entry.received = chunkNumber :: s.entry.received) := by
  unfold recvSingleChunkCRC at hanswer
  dsimp only at hanswer
  split at hanswer
  case h_1 =>
    cases hanswer
    exact ⟨rfl, rfl, .inl rfl⟩
  case h_2 client hclient =>
    rw [Traced.outcome_bind] at hanswer
    obtain ⟨map, -, hanswer⟩ := hanswer
    cases hanswer
    exact ⟨rfl, rfl, .inr ⟨by rw [hclient]; exact Option.some_ne_none _, rfl⟩⟩

/-! ### Runs -/

section Runs

variable [DecidableEq Sum]

theorem call_request_cases {searched : Option Nat} {disk : Option (List UInt8)} {c : Word32}
    (hstep : s.step zero sha1sum (.request c searched disk) = some t) :
    t.client = s.client ∧ (t.server = s.server ∨ t.server = (s.server <|> searched)) ∧
      t.entry.received = s.entry.received := by
  rw [step, call, Traced.outcome_bind] at hstep
  obtain ⟨result, hrequest, hstep⟩ := hstep
  cases hstep
  exact request_frame hrequest

theorem call_answer_cases {crc : Sum} {c : Word32}
    (hstep : s.step zero sha1sum (.answer c crc) = some t) :
    t.client = s.client ∧ t.server = s.server ∧ (t.entry.received = s.entry.received ∨
      s.client ≠ none ∧ t.entry.received = c.1 :: s.entry.received) := by
  rw [step, call, Traced.outcome_bind] at hstep
  obtain ⟨result, hanswer, hstep⟩ := hstep
  cases hstep
  exact answer_frame hanswer

theorem Fits.step {op : CrcOp PeerId Sum} (hfits : Fits fileSize s) (hof : OfFile fileSize op)
    (hkeeps : KeepsRange fileSize s op) (hstep : s.step zero sha1sum op = some t) :
    Fits fileSize t := by
  cases op with
  | request c searched disk =>
      obtain ⟨hclient, hserver, hreceived⟩ := call_request_cases hstep
      refine ⟨hclient ▸ hfits.client, fun size hsize => ?_, hreceived ▸ hfits.received⟩
      obtain hserver | hserver := hserver
      · exact hfits.server size (hserver ▸ hsize)
      · rw [hserver] at hsize
        cases hold : s.server with
        | none => exact hof size (by simpa [hold] using hsize)
        | some old => exact hfits.server size (by simpa [hold] using hsize)
  | answer c crc =>
      obtain ⟨hclient, hserver, hreceived⟩ := call_answer_cases hstep
      refine ⟨hclient ▸ hfits.client, hserver ▸ hfits.server, fun n hn => ?_⟩
      obtain hreceived | ⟨hsome, hreceived⟩ := hreceived
      · exact hfits.received n (hreceived ▸ hn)
      · rw [hreceived] at hn
        obtain rfl | hn := List.mem_cons.mp hn
        · exact hkeeps.resolve_right hsome
        · exact hfits.received n hn
  | dispatch env =>
      cases hclient : s.client with
      | none =>
          obtain rfl | rfl := dispatch_of_no_client hstep hclient
          · exact hfits
          · exact ⟨hfits.client, hfits.server, fun _ hn => absurd hn List.not_mem_nil⟩
      | some client =>
          obtain ⟨client', hclient', hserver, hsize, hsettled, hsub⟩ := dispatch_states hstep hclient
          obtain ⟨hmSize, hlength⟩ := hfits.client client hclient
          refine ⟨fun other hother => ?_, hserver ▸ hfits.server, fun n hn =>
            hfits.received n (hsub hn)⟩
          obtain rfl := Option.some.inj (hclient'.symm.trans hother)
          exact ⟨hsize.trans hmSize, hsettled.length_eq.trans hlength⟩
  | download client =>
      cases hstep
      exact ⟨hof, hfits.server, hfits.received⟩
  | share server =>
      cases hstep
      exact ⟨hfits.client, hof, hfits.received⟩

theorem safe_of_inRange {op : CrcOp PeerId Sum}
    (hrange : (s.call zero sha1sum op).All (InRange fileSize)) : Safe zero sha1sum fileSize s op where
  inRange := hrange
  states t client hstep hclient hother := by
    cases op with
    | request c searched disk =>
        exact ⟨client, (call_request_cases hstep).1.trans hclient, .refl _ _⟩
    | answer c crc => exact ⟨client, (call_answer_cases hstep).1.trans hclient, .refl _ _⟩
    | dispatch env =>
        obtain ⟨client', hclient', -, -, hsettled, -⟩ := dispatch_states hstep hclient
        exact ⟨client', hclient', hsettled⟩
    | download other => exact absurd rfl (hother other)
    | share server =>
        cases hstep
        exact ⟨client, hclient, .refl _ _⟩

/-- **Chunks outside the file.** In every run whose steps meet the condition every step is safe, and a
message is so only if it meets it. -/
theorem safe_of_reaches (hsize : fileSize < 2 ^ 64)
    (hreach : Reaches (step zero sha1sum) (fun s op => OfFile fileSize op ∧ KeepsRange fileSize s op)
      (new : CrcExchange PeerId Sum) s) (op : CrcOp PeerId Sum) :
    (KeepsRange fileSize s op → Safe zero sha1sum fileSize s op) ∧
      ((∀ env, op ≠ .dispatch env) → Safe zero sha1sum fileSize s op → KeepsRange fileSize s op) := by
  have hfits : Fits fileSize s := Reaches.invariant (Fits fileSize)
    (fun _ _ _ hfits hallowed hstep => hfits.step hallowed.1 hallowed.2 hstep)
    ⟨fun _ h => absurd h.symm (Option.some_ne_none _), fun _ h => absurd h.symm (Option.some_ne_none _),
      fun _ h => absurd h List.not_mem_nil⟩ hreach
  cases op with
  | request c searched disk =>
      have hiff : (s.call zero sha1sum (.request c searched disk)).All (InRange fileSize) ↔
          KeepsRange fileSize s (.request c searched disk) := by
        rw [call, Traced.all_bind]
        exact (and_iff_left fun _ _ => Traced.all_pure _).trans
          (request_inRange_iff hsize c searched disk)
      exact ⟨fun hkeeps => safe_of_inRange (hiff.mpr hkeeps), fun _ hsafe => hiff.mp hsafe.inRange⟩
  | answer c crc =>
      have hiff : (s.call zero sha1sum (.answer c crc)).All (InRange fileSize) ↔
          KeepsRange fileSize s (.answer c crc) := by
        rw [call, Traced.all_bind]
        exact (and_iff_left fun _ _ => Traced.all_pure _).trans (answer_inRange_iff c crc)
      exact ⟨fun hkeeps => safe_of_inRange (hiff.mpr hkeeps), fun _ hsafe => hiff.mp hsafe.inRange⟩
  | dispatch env =>
      exact ⟨fun hkeeps => safe_of_inRange (dispatch_inRange hfits hkeeps),
        fun hother => absurd rfl (hother env)⟩
  | download client => exact ⟨fun _ => safe_of_inRange (Traced.all_pure _), fun _ _ => trivial⟩
  | share server => exact ⟨fun _ => safe_of_inRange (Traced.all_pure _), fun _ _ => trivial⟩

end Runs

/-! ### A file of ten bytes -/

/-- The download of a file with one chunk. -/
def tenBytes : FileCreator Nat := .new 10 false .empty 0

/-- The second of the chunks that there are not. -/
theorem safe_counterexample : ∃ s : CrcExchange Nat Nat,
    Reaches (step 0 List.length) (fun _ op => OfFile 10 op) new s ∧
    ∃ chunkNumber : Word32, ¬ Safe 0 List.length 10 s (.answer chunkNumber 7) := by
  refine ⟨_, (Reaches.refl new).next (.download (some tenBytes)) ?_ rfl, ⟨1, by decide⟩, fun hsafe => ?_⟩
  · rintro client ⟨⟩
    exact ⟨rfl, rfl⟩
  · have hmem : Access.crcMap 1 ∈ (call 0 List.length
        ({ (new : CrcExchange Nat Nat) with client := some tenBytes } : CrcExchange Nat Nat)
        (.answer ⟨1, by decide⟩ 7)).trace := List.mem_cons_self
    exact absurd (hsafe.inRange _ hmem) (by decide : ¬ 1 < numberOfChunks 10)

theorem safe_tenBytes : Safe 0 List.length 10
    ({ (new : CrcExchange Nat Nat) with client := some tenBytes } : CrcExchange Nat Nat)
    (.answer ⟨0, by decide⟩ 7) := by
  refine (safe_of_reaches (by decide) ?_ _).1 (.inl (by decide))
  refine (Reaches.refl new).next (.download (some tenBytes)) ⟨?_, trivial⟩ rfl
  rintro client ⟨⟩
  exact ⟨rfl, rfl⟩

end CrcExchange

end RetroShare.Ft
