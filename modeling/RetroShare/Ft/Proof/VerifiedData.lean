import RetroShare.Ft.Proof.CreatorFrame

/-!
# What a packet does to the partial file

`addFileData` writes before it looks for a piece the data belongs to, so the table of requests does
not protect the file. What the file is afterwards depends on the size of the file, the offset, the
answers of the system and the data alone; from that follows exactly when verified data stays as it
is.
-/

namespace RetroShare.Ft

open RetroShare.Transition RetroShare.Word

theorem PartialFile.get?_write (file : PartialFile) (offset count : Nat) (data : Nat → UInt8)
    (x : Nat) :
    (file.write offset count data).get? x =
      if offset ≤ x ∧ x < offset + count then some (data (x - offset))
      else if x < file.length then file.get? x
      else if x < offset ∧ 0 < count then some 0
      else none := by
  unfold get? write
  rcases Nat.eq_zero_or_pos count with rfl | hpos
  · have hout : ¬ (offset ≤ x ∧ x < offset + 0) := by omega
    have hgap : ¬ (x < offset ∧ 0 < 0) := by omega
    rw [if_pos rfl, if_neg hout, if_neg hgap]
    split_ifs <;> rfl
  · rw [if_neg hpos.ne']
    simp only
    split_ifs <;> first | rfl | omega

theorem PartialFile.write_congr (file : PartialFile) (offset : Nat) {count : Nat}
    {data data' : Nat → UInt8} (hsame : ∀ i, i < count → data' i = data i) :
    file.write offset count data' = file.write offset count data := by
  unfold write
  split
  · rfl
  · congr 1
    funext x
    split
    · next hin => exact hsame _ (by omega)
    · rfl

namespace FileCreator

variable {PeerId : Type} [LinearOrder PeerId] {s s' : FileCreator PeerId}

/-! ### The table does not look at the file -/

theorem decRef_withFile (s : FileCreator PeerId) (file : PartialFile) (chunk : FtChunk PeerId) :
    ({ s with file := file } : FileCreator PeerId).decRef chunk =
      (s.decRef chunk).map fun result => ({ result.1 with file := file }, result.2) := by
  unfold decRef
  cases chunk.refCnt with
  | none => rfl
  | some ref =>
      simp only [Option.bind_eq_bind, Option.bind_some]
      cases s.refCnts[ref]? with
      | none => rfl
      | some count =>
          simp only [Option.bind_some]
          split <;> rfl

theorem incRef_withFile (s : FileCreator PeerId) (file : PartialFile) (chunk : FtChunk PeerId) :
    ({ s with file := file } : FileCreator PeerId).incRef chunk =
      (s.incRef chunk).map fun result => { result with file := file } := by
  unfold incRef
  cases chunk.refCnt with
  | none => rfl
  | some ref =>
      simp only [Option.bind_eq_bind, Option.bind_some]
      cases s.refCnts[ref]? <;> rfl

theorem shrinkPiece_withFile (s : FileCreator PeerId) (file : PartialFile)
    (chunk : FtChunk PeerId) (chunkSize : Nat) (now : Int) :
    ({ s with file := file } : FileCreator PeerId).shrinkPiece chunk chunkSize now =
      (s.shrinkPiece chunk chunkSize now).map fun result =>
        ({ result.1 with file := file }, result.2) := by
  unfold shrinkPiece
  split
  · rfl
  · rw [decRef_withFile]
    cases s.decRef chunk with
    | none => rfl
    | some result =>
        obtain ⟨middle, last⟩ := result
        cases last with
        | false => rfl
        | true =>
            simp only [Option.map_some, Option.bind_eq_bind, Option.bind_some, if_true]
            cases middle.chunkMap.dataReceived chunk.id now <;> rfl

theorem notifyReceived_withFile (s : FileCreator PeerId) (file : PartialFile)
    (offset chunkSize : Nat) (now : Int) :
    ({ s with file := file } : FileCreator PeerId).notifyReceived offset chunkSize now =
      (s.notifyReceived offset chunkSize now).map fun result =>
        ({ result.1 with file := file }, result.2) := by
  unfold notifyReceived
  simp only
  cases s.mChunks[offset]? with
  | some chunk =>
      exact shrinkPiece_withFile { s with mChunks := s.mChunks.erase offset } file chunk
        chunkSize now
  | none =>
      simp only
      cases s.mChunks.toList.find? fun entry => splits offset chunkSize entry.2 with
      | none => rfl
      | some entry =>
          obtain ⟨key, whole⟩ := entry
          simp only
          have hinc := incRef_withFile { s with
            mChunks := s.mChunks.insert whole.offset
              { whole with size := sub 64 offset whole.offset } } file
            { whole with
              offset := offset
              size := sub 64 whole.size (sub 64 offset whole.offset) }
          simp only at hinc
          rw [hinc]
          simp only [Option.bind_eq_bind, Option.bind_map]
          generalize ({ s with
            mChunks := s.mChunks.insert whole.offset
              { whole with size := sub 64 offset whole.offset } } : FileCreator PeerId).incRef
            { whole with
              offset := offset
              size := sub 64 whole.size (sub 64 offset whole.offset) } = inced
          cases inced with
          | none => rfl
          | some middle => exact shrinkPiece_withFile middle file _ chunkSize now

/-! ### The file after a packet -/

/-- There is room on the disc and the partial file is open or can be opened. -/
def Opens (s : FileCreator PeerId) (env : WriteEnv) : Prop :=
  env.discSpace = true ∧ (s.fd = true ∨ env.opening ≠ .failed)

/-- Opening the file replaces it by an empty one. -/
def Recreates (s : FileCreator PeerId) (env : WriteEnv) : Prop :=
  s.fd = false ∧ env.opening = .created

instance (s : FileCreator PeerId) (env : WriteEnv) : Decidable (s.Opens env) :=
  inferInstanceAs (Decidable (_ ∧ _))

instance (s : FileCreator PeerId) (env : WriteEnv) : Decidable (s.Recreates env) :=
  inferInstanceAs (Decidable (_ ∧ _))

def openedFile (s : FileCreator PeerId) (env : WriteEnv) : PartialFile :=
  if s.Recreates env then .empty else s.file

/-- The number of bytes that reach the file once it is open. -/
def writtenCount (s : FileCreator PeerId) (env : WriteEnv) (offset chunkSize : Nat) : Nat :=
  if 2 ^ 63 ≤ offset then 0 else min env.taken (s.clampedSize offset chunkSize)

def writtenFile (s : FileCreator PeerId) (env : WriteEnv) (offset chunkSize : Nat)
    (data : Nat → UInt8) : PartialFile :=
  if s.Opens env then
    (s.openedFile env).write offset (s.writtenCount env offset chunkSize) data
  else s.file

theorem initializeFileAttrs_eq_none (hinit : s.initializeFileAttrs opening = none) :
    s.fd = false ∧ opening = .failed := by
  unfold initializeFileAttrs at hinit
  split at hinit
  · exact absurd hinit nofun
  · next hfd =>
      cases opening with
      | opened => exact absurd hinit nofun
      | created => exact absurd hinit nofun
      | failed => exact ⟨Bool.not_eq_true _ ▸ hfd, rfl⟩

theorem initializeFileAttrs_file {env : WriteEnv}
    (hinit : s.initializeFileAttrs env.opening = some s') :
    s' = { s with fd := true, file := s.openedFile env } := by
  unfold initializeFileAttrs at hinit
  split at hinit
  · next hfd =>
      cases hinit
      have hkept : ¬ s.Recreates env := fun hnew => absurd (hnew.1.symm.trans hfd) nofun
      rw [openedFile, if_neg hkept, ← hfd]
  · next hfd =>
      have hclosed : s.fd = false := Bool.not_eq_true _ ▸ hfd
      split at hinit
      · next hopening =>
          cases hinit
          have hkept : ¬ s.Recreates env := fun hnew => absurd (hnew.2.symm.trans hopening) nofun
          rw [openedFile, if_neg hkept]
      · next hopening =>
          cases hinit
          have hnew : s.Recreates env := ⟨hclosed, hopening⟩
          rw [openedFile, if_pos hnew]
      · exact absurd hinit nofun

/-- **The data decides what the file holds, and nothing else.** -/
theorem addFileData_withData (s : FileCreator PeerId) (env : WriteEnv) (offset chunkSize : Nat)
    (data data' : Nat → UInt8) :
    s.addFileData env offset chunkSize data =
      (s.addFileData env offset chunkSize data').map fun result =>
        ({ result.1 with file := s.writtenFile env offset chunkSize data }, result.2) := by
  unfold addFileData writtenFile
  by_cases hspace : env.discSpace = true
  · rw [if_neg (not_not.mpr hspace), if_neg (not_not.mpr hspace)]
    cases hinit : s.initializeFileAttrs env.opening with
    | none =>
        obtain ⟨hfd, hopening⟩ := initializeFileAttrs_eq_none hinit
        have hclosed : ¬ s.Opens env := by
          rintro ⟨_, hopen | hopen⟩
          · exact absurd (hfd.symm.trans hopen) nofun
          · exact hopen hopening
        rw [if_neg hclosed]
        rfl
    | some opened =>
        have hopen : s.Opens env := by
          obtain ⟨_, _, hopen⟩ := initializeFileAttrs_eq hinit
          exact ⟨hspace, hopen⟩
        obtain rfl := initializeFileAttrs_file hinit
        have hclamped : ({ s with fd := true, file := s.openedFile env } :
            FileCreator PeerId).clampedSize offset chunkSize = s.clampedSize offset chunkSize := rfl
        rw [if_pos hopen, writtenCount]
        simp only [hclamped]
        by_cases hoffset : 2 ^ 63 ≤ offset
        · rw [if_pos hoffset, if_pos hoffset, if_pos hoffset]
          rfl
        · rw [if_neg hoffset, if_neg hoffset, if_neg hoffset]
          by_cases hshort : s.clampedSize offset chunkSize = 0 ∨
              env.taken < s.clampedSize offset chunkSize
          · rw [if_pos hshort, if_pos hshort]
            rfl
          · rw [if_neg hshort, if_neg hshort]
            have hnotify := fun data => notifyReceived_withFile
              { s with fd := true, file := s.openedFile env }
              ((s.openedFile env).write offset (min env.taken (s.clampedSize offset chunkSize)) data)
              offset (s.clampedSize offset chunkSize) env.now
            simp only at hnotify
            rw [hnotify data, hnotify data']
            cases ({ s with fd := true, file := s.openedFile env } :
                FileCreator PeerId).notifyReceived offset (s.clampedSize offset chunkSize)
                env.now <;> rfl
  · rw [if_pos hspace, if_pos hspace, if_neg (fun hopen => hspace hopen.1)]
    rfl

/-! ### When verified data stays put -/

/-- The partial file after a packet of a peer was handled. -/
def fileAfter (s : FileCreator PeerId) (fileSources : Finset PeerId) (env : WriteEnv)
    (peerId : PeerId) (offset chunkSize : Nat) (data : Nat → UInt8) : Option PartialFile :=
  (s.recvFileData fileSources env peerId offset chunkSize data).map (·.1.file)

/-- The file holds the byte `b` at position `x`, which belongs to a chunk that is done. -/
def HoldsVerified (s : FileCreator PeerId) (x : Nat) (b : UInt8) : Prop :=
  x < s.mSize ∧ s.chunkMap.map[ChunkMap.chunkOf x]? = some .done ∧ s.file.get? x = some b

/-- The call takes nothing from behind the first `chunkSize` bytes of the data, puts nothing outside
the file, and changes no verified byte. -/
structure StaysPut (s : FileCreator PeerId) (fileSources : Finset PeerId) (env : WriteEnv)
    (peerId : PeerId) (offset chunkSize : Nat) (data : Nat → UInt8) : Prop where
  taken : ∀ data', (∀ i, i < chunkSize → data' i = data i) →
    s.fileAfter fileSources env peerId offset chunkSize data' =
      s.fileAfter fileSources env peerId offset chunkSize data
  inside : ∀ data' x, s.mSize ≤ x →
    (s.fileAfter fileSources env peerId offset chunkSize data').map (·.get? x) =
      (s.fileAfter fileSources env peerId offset chunkSize data).map (·.get? x)
  verified : ∀ file x b, s.fileAfter fileSources env peerId offset chunkSize data = some file →
    s.HoldsVerified x b → file.get? x = some b

/-- The packet begins inside the file, or nothing of it is written. -/
def InRange (s : FileCreator PeerId) (env : WriteEnv) (offset : Nat) : Prop :=
  ¬ s.Opens env ∨ 2 ^ 63 ≤ offset ∨ env.taken = 0 ∨ offset ≤ s.mSize ∨
    (offset - s.mSize) % 2 ^ 32 = 0

/-- The packet repeats the verified bytes it covers. The others survive because the file is kept, or
because they are zeros in front of the first data of a new file. -/
def Spares (s : FileCreator PeerId) (env : WriteEnv) (offset chunkSize : Nat)
    (data : Nat → UInt8) : Prop :=
  s.Opens env → ∀ x b, s.HoldsVerified x b →
    if offset < 2 ^ 63 ∧ offset ≤ x ∧ x < offset + min env.taken chunkSize then
      data (x - offset) = b
    else
      ¬ s.Recreates env ∨
        (b = 0 ∧ x < offset ∧ offset < 2 ^ 63 ∧ offset < s.mSize ∧ 0 < min env.taken chunkSize)

theorem fileAfter_eq {fileSources : Finset PeerId} {env : WriteEnv} {peerId : PeerId}
    {offset chunkSize : Nat} {data : Nat → UInt8} (hsource : peerId ∈ fileSources)
    (hdefined : (s.fileAfter fileSources env peerId offset chunkSize data).isSome = true)
    (data' : Nat → UInt8) :
    s.fileAfter fileSources env peerId offset chunkSize data' =
      some (s.writtenFile env offset chunkSize data') := by
  unfold fileAfter recvFileData at hdefined ⊢
  rw [if_pos hsource] at hdefined ⊢
  rw [Option.isSome_map] at hdefined
  obtain ⟨result, hresult⟩ := Option.isSome_iff_exists.mp hdefined
  rw [addFileData_withData s env offset chunkSize data' data, hresult]
  rfl

theorem clampedSize_of_le {offset chunkSize : Nat} (hsize : s.mSize < 2 ^ 64)
    (hchunk : chunkSize < 2 ^ 32) (hoffset : offset < 2 ^ 63) (hle : offset ≤ s.mSize) :
    s.clampedSize offset chunkSize = min chunkSize (s.mSize - offset) := by
  rw [clampedSize, add_of_lt (by omega), sub_of_le hle hsize]
  split
  · rw [wrap_of_lt (by omega)]
    omega
  · omega

/-- Behind the end of the file the clamp wraps around. -/
theorem clampedSize_of_lt {offset chunkSize : Nat} (hchunk : chunkSize < 2 ^ 32)
    (hoffset : offset < 2 ^ 63) (hlt : s.mSize < offset) :
    s.clampedSize offset chunkSize = (s.mSize + 2 ^ 64 - offset) % 2 ^ 32 := by
  rw [clampedSize, add_of_lt (by omega), sub_of_lt hlt (by omega), if_pos (by omega), wrap]

/-- What is written when the packet is in range. -/
theorem InRange.writtenCount_eq {env : WriteEnv} {offset chunkSize : Nat}
    (hrange : s.InRange env offset) (hopens : s.Opens env) (hsize : s.mSize < 2 ^ 64)
    (hchunk : chunkSize < 2 ^ 32) :
    s.writtenCount env offset chunkSize =
      if offset < 2 ^ 63 ∧ offset < s.mSize then min env.taken (min chunkSize (s.mSize - offset))
      else 0 := by
  unfold writtenCount
  by_cases hoffset : 2 ^ 63 ≤ offset
  · rw [if_pos hoffset, if_neg (by omega)]
  · rw [if_neg hoffset]
    rcases le_or_gt offset s.mSize with hle | hlt
    · rw [clampedSize_of_le hsize hchunk (by omega) hle]
      split <;> omega
    · rw [clampedSize_of_lt hchunk (by omega) hlt, if_neg (by omega)]
      rcases hrange with hclosed | hbig | hnone | hin | hmod
      · exact absurd hopens hclosed
      · exact absurd hbig hoffset
      · omega
      · omega
      · omega

theorem get?_of_kept {env : WriteEnv} {offset count x : Nat} {data : Nat → UInt8} {b : UInt8}
    (hkept : ¬ s.Recreates env) (hout : ¬ (offset ≤ x ∧ x < offset + count))
    (hold : s.file.get? x = some b) :
    ((s.openedFile env).write offset count data).get? x = some b := by
  have hlength : x < s.file.length := by
    unfold PartialFile.get? at hold
    split at hold
    · assumption
    · exact absurd hold nofun
  rw [openedFile, if_neg hkept, PartialFile.get?_write, if_neg hout, if_pos hlength, hold]

theorem get?_of_recreated {env : WriteEnv} {offset count x : Nat} {data : Nat → UInt8}
    (hnew : s.Recreates env) (hout : ¬ (offset ≤ x ∧ x < offset + count)) :
    ((s.openedFile env).write offset count data).get? x =
      if x < offset ∧ 0 < count then some 0 else none := by
  rw [openedFile, if_pos hnew, PartialFile.get?_write, if_neg hout, if_neg]
  exact Nat.not_lt_zero x

theorem inRange_of_inside {env : WriteEnv} {offset chunkSize : Nat} (data : Nat → UInt8)
    (hchunk : chunkSize < 2 ^ 32)
    (hinside : ∀ data' x, s.mSize ≤ x → (s.writtenFile env offset chunkSize data').get? x =
      (s.writtenFile env offset chunkSize data).get? x) : s.InRange env offset := by
  by_contra hout
  unfold InRange at hout
  push Not at hout
  obtain ⟨hopens, hoffset, htaken, hlt, hmod⟩ := hout
  have hcount : 0 < s.writtenCount env offset chunkSize := by
    rw [writtenCount, if_neg (by omega), clampedSize_of_lt hchunk hoffset hlt]
    omega
  -- The byte that lands at the offset is the first one of the data.
  have hfirst : ∀ data', (s.writtenFile env offset chunkSize data').get? offset =
      some (data' 0) := by
    intro data'
    rw [writtenFile, if_pos hopens, PartialFile.get?_write, if_pos ⟨le_rfl, by omega⟩,
      Nat.sub_self]
  have hsame := hinside (fun i => data i + 1) offset hlt.le
  rw [hfirst, hfirst, Option.some.injEq] at hsame
  have hnat := congrArg UInt8.toNat hsame
  rw [UInt8.toNat_add] at hnat
  have := (data 0).toNat_lt
  simp only [UInt8.toNat_one] at hnat
  omega

/-- **When verified data stays put.** The packet begins inside the file (or nothing of it is
written), and it repeats every verified byte that it covers while the file is kept. -/
theorem verified_data_stays_put {size : Nat} (hsize : size < 2 ^ 64) {availability : Bool}
    {file : PartialFile} {lastRecvTime : Int} {s : FileCreator PeerId}
    (hreach : Reaches step (fun _ _ => True) (new size availability file lastRecvTime) s)
    {fileSources : Finset PeerId} {peerId : PeerId} (hsource : peerId ∈ fileSources)
    (env : WriteEnv) (offset : Word64) (chunkSize : Word32) (data : Nat → UInt8)
    (hdefined : (s.fileAfter fileSources env peerId offset chunkSize data).isSome = true) :
    s.StaysPut fileSources env peerId offset chunkSize data ↔
      s.InRange env offset ∧ s.Spares env offset chunkSize data := by
  have hmSize : s.mSize < 2 ^ 64 := (reaches_framed hreach).1 ▸ hsize
  have hchunk := chunkSize.2
  have hafter := fileAfter_eq hsource hdefined
  constructor
  · rintro ⟨_, hinside, hverified⟩
    have hrange : s.InRange env offset := by
      refine inRange_of_inside data hchunk fun data' x hx => ?_
      have := hinside data' x hx
      rw [hafter, hafter, Option.map_some, Option.map_some, Option.some.injEq] at this
      exact this
    refine ⟨hrange, fun hopens x b hholds => ?_⟩
    have hcount := hrange.writtenCount_eq hopens hmSize hchunk
    have hbyte := hverified _ x b (hafter data) hholds
    rw [writtenFile, if_pos hopens] at hbyte
    have hx := hholds.1
    split
    · next hin =>
        rw [PartialFile.get?_write, if_pos, Option.some.injEq] at hbyte
        · exact hbyte
        · rw [hcount, if_pos ⟨hin.1, by omega⟩]
          omega
    · next hout =>
        by_cases hnew : s.Recreates env
        · right
          rw [get?_of_recreated hnew] at hbyte
          · split at hbyte
            · next hgap =>
                rw [hcount] at hgap
                split at hgap
                · exact ⟨(Option.some.inj hbyte).symm, hgap.1, by omega, by omega, by omega⟩
                · omega
            · exact absurd hbyte nofun
          · rw [hcount]
            split <;> omega
        · exact Or.inl hnew
  · rintro ⟨hrange, hspares⟩
    by_cases hopens : s.Opens env
    · have hcount := hrange.writtenCount_eq hopens hmSize hchunk
      have hwritten : ∀ data', s.writtenFile env offset chunkSize data' =
          (s.openedFile env).write offset (s.writtenCount env offset chunkSize) data' :=
        fun data' => if_pos hopens
      constructor
      · intro data' hsame
        rw [hafter, hafter, hwritten, hwritten, PartialFile.write_congr]
        intro i hi
        refine hsame i ?_
        rw [hcount] at hi
        split at hi <;> omega
      · intro data' x hx
        have hout : ¬ ((offset : Nat) ≤ x ∧
            x < offset + s.writtenCount env offset chunkSize) := by
          rw [hcount]
          split <;> omega
        rw [hafter, hafter, Option.map_some, Option.map_some, hwritten, hwritten,
          PartialFile.get?_write, PartialFile.get?_write, if_neg hout, if_neg hout]
      · intro written x b hfile hholds
        rw [hafter, Option.some.injEq] at hfile
        rw [← hfile, hwritten]
        have hspared := hspares hopens x b hholds
        have hx := hholds.1
        split at hspared
        · next hin =>
            have hcovered : (offset : Nat) ≤ x ∧
                x < offset + s.writtenCount env offset chunkSize := by
              rw [hcount, if_pos ⟨hin.1, by omega⟩]
              omega
            rw [PartialFile.get?_write, if_pos hcovered, hspared]
        · next hout =>
            have hnot : ¬ ((offset : Nat) ≤ x ∧
                x < offset + s.writtenCount env offset chunkSize) := by
              rw [hcount]
              split <;> omega
            by_cases hnew : s.Recreates env
            · obtain ⟨rfl, hgap, hbelow, hinside, hsome⟩ := hspared.resolve_left (not_not.mpr hnew)
              have hpos : 0 < s.writtenCount env offset chunkSize := by
                rw [hcount, if_pos ⟨hbelow, hinside⟩]
                omega
              rw [get?_of_recreated hnew hnot, if_pos ⟨hgap, hpos⟩]
            · exact get?_of_kept hnew hnot hholds.2.2
    · have hwritten : ∀ data', s.writtenFile env offset chunkSize data' = s.file :=
        fun data' => if_neg hopens
      constructor
      · intro data' _
        rw [hafter, hafter, hwritten, hwritten]
      · intro data' x _
        rw [hafter, hafter, hwritten, hwritten]
      · intro written x b hfile hholds
        rw [hafter, hwritten, Option.some.injEq] at hfile
        rw [← hfile]
        exact hholds.2.2

/-- The first packet of a fresh download harms nothing. -/
theorem verified_data_stays_put_first_packet :
    (new 1000 true .empty 0 : FileCreator Nat).StaysPut {7} ⟨true, .created, 100, 1⟩ 7 0 100
      fun _ => 5 := by
  refine (verified_data_stays_put (by decide) (Reaches.refl _) (by decide)
    ⟨true, .created, 100, 1⟩ ⟨0, by decide⟩ ⟨100, by decide⟩ (fun _ => 5) (by decide)).mpr
    ⟨?_, ?_⟩
  · unfold InRange
    decide
  · rintro _ x b ⟨_, _, hheld⟩
    simp [new, PartialFile.empty, PartialFile.get?] at hheld

/-- After a file of one chunk was received, a late packet overwrites a verified byte, and a packet
that begins behind the end of the file is written there. -/
theorem late_packet_overwrites :
    ∃ s : FileCreator Nat, Reaches step (fun _ _ => True) (new 1000 true .empty 0) s ∧
      ¬ s.StaysPut {7} ⟨true, .opened, 10, 2⟩ 7 0 10 (fun _ => 9) ∧
      ¬ s.StaysPut {7} ⟨true, .opened, 1000, 2⟩ 7 2000 10 (fun _ => 9) := by
  refine ⟨((((new 1000 true .empty 0).step (.getMissingChunk 7 ⟨1000, by decide⟩ 0 0)).get
      (by decide)).step (.addFileData ⟨true, .created, 1000, 1⟩ ⟨0, by decide⟩
        ⟨1000, by decide⟩ fun _ => 5)).get (by decide), ?_, fun hstays => ?_, fun hstays => ?_⟩
  · exact Reaches.tail (Reaches.tail (Reaches.refl _) trivial (Option.some_get _).symm) trivial
      (Option.some_get _).symm
  · have hbyte := hstays.verified _ 0 5 (Option.some_get (by decide)).symm
      ⟨by decide, by decide, by decide⟩
    exact absurd hbyte (by decide)
  · have hsame := hstays.inside (fun _ => 8) 2000 (by decide)
    exact absurd hsame (by decide)

end FileCreator

end RetroShare.Ft
