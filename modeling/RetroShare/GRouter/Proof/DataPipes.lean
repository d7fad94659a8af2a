import RetroShare.GRouter.DataPipes
import Mathlib.Tactic

/-!
# Reassembly

A pipe that is empty puts the chunks of an item together again. A pipe that still holds the beginning
of an aborted item drops it together with the first chunk of the next one, which is then lost too.
-/

namespace RetroShare.GRouter

variable {id : Nat} {data : List UInt8} {passes offset count : Nat}

/-! ### Slicing -/

theorem sliceFrom_of_lt (hlt : offset < data.length) :
    sliceFrom id data (passes + 1) offset =
      ⟨id, offset, data.length,
        (data.drop offset).take (min (data.length - offset) chunkSizeLimit)⟩ ::
        sliceFrom id data passes (offset + min (data.length - offset) chunkSizeLimit) := by
  rw [sliceFrom, if_pos hlt]

theorem sliceFrom_of_le (hle : data.length ≤ offset) : sliceFrom id data passes offset = [] := by
  cases passes with
  | zero => rfl
  | succ passes => rw [sliceFrom, if_neg (Nat.not_lt.mpr hle)]

theorem mem_sliceFrom {chunk : Chunk} (hmem : chunk ∈ sliceFrom id data passes offset) :
    offset ≤ chunk.chunkStart ∧ chunk.totalSize = data.length := by
  induction passes generalizing offset with
  | zero => exact absurd hmem List.not_mem_nil
  | succ passes ih =>
      rcases Nat.lt_or_ge offset data.length with hlt | hle
      · rw [sliceFrom_of_lt hlt] at hmem
        rcases List.mem_cons.mp hmem with rfl | hrest
        · exact ⟨le_rfl, rfl⟩
        · exact ⟨(Nat.le_add_right _ _).trans (ih hrest).1, (ih hrest).2⟩
      · rw [sliceFrom_of_le hle] at hmem
        exact absurd hmem List.not_mem_nil

/-- The chunk that a pipe holds when `offset` bytes of the item have come. -/
def held (id : Nat) (data : List UInt8) (offset : Nat) : Chunk := ⟨id, 0, data.length, data.take offset⟩

theorem chunkSize_held (hle : offset ≤ data.length) : (held id data offset).chunkSize = offset := by
  rw [Chunk.chunkSize, held, List.length_take, Nat.min_eq_left hle]

namespace DataPipe

/-! ### A pipe that takes the item in -/

theorem finish_held (hle : offset ≤ data.length) :
    addDataChunk.finish (held id data offset) =
      if offset = data.length then (some data, none) else (none, some (held id data offset)) := by
  rw [addDataChunk.finish, chunkSize_held hle]
  split
  case isTrue hall =>
    have heq : offset = data.length := hall.symm
    rw [if_pos heq, held, heq, List.take_length]
  case isFalse hpart => rw [if_neg fun heq => hpart heq.symm]

/-- The next chunk of the item that the pipe holds. -/
theorem addDataChunk_next {id' size : Nat} (hsize : data.length ≤ maxTotalSize)
    (hlt : offset < data.length) (hle : size ≤ data.length - offset) :
    DataPipe.addDataChunk (some (held id data offset))
        ⟨id', offset, data.length, (data.drop offset).take size⟩ =
      addDataChunk.finish (held id data (offset + size)) := by
  have hlength : ((data.drop offset).take size).length = size := by
    rw [List.length_take, List.length_drop]
    omega
  rw [addDataChunk, if_neg]
  · dsimp only
    rw [if_neg]
    · rw [held, held, List.take_add]
    · rw [chunkSize_held hlt.le]
      simp [held]
  · simp only [Chunk.chunkSize, hlength, not_or, not_lt, ge_iff_le, not_le]
    omega

/-- The first chunk of an item, for an empty pipe. -/
theorem addDataChunk_first {size : Nat} (hsize : data.length ≤ maxTotalSize) (hne : data ≠ [])
    (hle : size ≤ data.length) :
    DataPipe.addDataChunk none ⟨id, 0, data.length, data.take size⟩ =
      addDataChunk.finish (held id data size) := by
  have hpos : 0 < data.length := List.length_pos_iff.mpr hne
  rw [addDataChunk, if_neg]
  · rfl
  · simp only [Chunk.chunkSize, List.length_take, not_or, not_lt, ge_iff_le, not_le]
    omega

/-- A pipe that holds the first `offset` bytes of an item. -/
def holding (id : Nat) (data : List UInt8) (offset : Nat) : DataPipe :=
  if offset = 0 then none else some (held id data offset)

theorem holding_zero : holding id data 0 = none := if_pos rfl

theorem holding_of_pos (hpos : 0 < offset) : holding id data offset = some (held id data offset) :=
  if_neg hpos.ne'

theorem addDataChunk_slice {size : Nat} (hfits : data.length ≤ maxTotalSize)
    (hlt : offset < data.length) (hpos : 0 < size) (hle : size ≤ data.length - offset) :
    (holding id data offset).addDataChunk ⟨id, offset, data.length, (data.drop offset).take size⟩ =
      if offset + size = data.length then (some data, none)
      else (none, holding id data (offset + size)) := by
  have hfinish : (holding id data offset).addDataChunk
      ⟨id, offset, data.length, (data.drop offset).take size⟩ =
        addDataChunk.finish (held id data (offset + size)) := by
    rcases Nat.eq_zero_or_pos offset with rfl | hoffset
    · rw [holding_zero, List.drop_zero, Nat.zero_add]
      exact addDataChunk_first hfits (List.length_pos_iff.mp hlt) hle
    · rw [holding_of_pos hoffset]
      exact addDataChunk_next hfits hlt hle
  rw [hfinish, finish_held (by omega), holding_of_pos (by omega)]

theorem receive_cons (pipe : DataPipe) (chunk : Chunk) (rest : List Chunk) :
    pipe.receive (chunk :: rest) =
      ((pipe.addDataChunk chunk).1.toList ++ ((pipe.addDataChunk chunk).2.receive rest).1,
        ((pipe.addDataChunk chunk).2.receive rest).2) := rfl

/-- One pass of the loop that slices, and the chunk that it makes. -/
theorem receive_sliceFrom (id passes : Nat) (hfits : data.length ≤ maxTotalSize)
    (hlt : offset < data.length) :
    ∃ size, 0 < size ∧ offset + size ≤ data.length ∧ ∀ count,
      (sliceFrom id data (passes + 1) offset).length =
          (sliceFrom id data passes (offset + size)).length + 1 ∧
        (holding id data offset).receive
            ((sliceFrom id data (passes + 1) offset).take (count + 1)) =
          if offset + size = data.length then ([data], none)
          else (holding id data (offset + size)).receive
            ((sliceFrom id data passes (offset + size)).take count) := by
  have hsize : 0 < min (data.length - offset) chunkSizeLimit := by
    rw [chunkSizeLimit]
    omega
  have hle : min (data.length - offset) chunkSizeLimit ≤ data.length - offset := min_le_left _ _
  rw [sliceFrom_of_lt hlt]
  generalize min (data.length - offset) chunkSizeLimit = size at hsize hle
  refine ⟨size, hsize, by omega, fun count => ⟨rfl, ?_⟩⟩
  rw [List.take_succ_cons, receive_cons, addDataChunk_slice hfits hlt hsize hle]
  split
  case isTrue hall =>
    rw [sliceFrom_of_le hall.ge, List.take_nil]
    rfl
  case isFalse hpart => rfl

/-- All the chunks that are left arrive. -/
theorem receive_whole (hfits : data.length ≤ maxTotalSize) (hlt : offset < data.length)
    (hpasses : data.length - offset ≤ passes)
    (hcount : (sliceFrom id data passes offset).length ≤ count) :
    (holding id data offset).receive ((sliceFrom id data passes offset).take count) =
      ([data], none) := by
  induction passes generalizing offset count with
  | zero => omega
  | succ passes ih =>
      obtain ⟨size, hpos, hle, hpass⟩ := receive_sliceFrom id passes hfits hlt
      obtain ⟨count, rfl⟩ : ∃ rest, count = rest + 1 := by
        refine Nat.exists_eq_add_one.mpr (lt_of_lt_of_le ?_ hcount)
        rw [(hpass 0).1]
        exact Nat.succ_pos _
      rw [(hpass count).2]
      split
      case isTrue => rfl
      case isFalse hpart =>
        rw [(hpass count).1] at hcount
        exact ih (by omega) (by omega) (by omega)

/-- The channel is cut before the last chunk. -/
theorem receive_part (hfits : data.length ≤ maxTotalSize) (hlt : offset < data.length)
    (hcount : count < (sliceFrom id data passes offset).length) :
    ∃ reached, offset ≤ reached ∧ reached < data.length ∧ (0 < count → 0 < reached) ∧
      (holding id data offset).receive ((sliceFrom id data passes offset).take count) =
        ([], holding id data reached) := by
  induction passes generalizing offset count with
  | zero => exact absurd hcount (Nat.not_lt_zero _)
  | succ passes ih =>
      cases count with
      | zero => exact ⟨offset, le_rfl, hlt, fun hpos => absurd hpos (lt_irrefl 0), rfl⟩
      | succ count =>
          obtain ⟨size, hpos, hle, hpass⟩ := receive_sliceFrom id passes hfits hlt
          rw [(hpass count).1] at hcount
          have hpart : offset + size < data.length := by
            by_contra hall
            rw [sliceFrom_of_le (not_lt.mp hall)] at hcount
            exact absurd hcount (by simp)
          obtain ⟨reached, hfrom, hreached, -, heq⟩ := ih hpart (Nat.lt_of_succ_lt_succ hcount)
          refine ⟨reached, by omega, hreached, fun _ => by omega, ?_⟩
          rw [(hpass count).2, if_neg hpart.ne, heq]

/-! ### A pipe that drops the item -/

/-- Without the first chunk nothing is taken in. -/
theorem receive_dropped {chunks : List Chunk} (hstart : ∀ chunk ∈ chunks, chunk.chunkStart ≠ 0) :
    DataPipe.receive none chunks = ([], none) := by
  induction chunks with
  | nil => rfl
  | cons chunk rest ih =>
      have hdrop : DataPipe.addDataChunk none chunk = (none, none) := by
        rw [addDataChunk]
        split
        · rfl
        · exact if_pos (hstart chunk List.mem_cons_self)
      rw [receive_cons, hdrop, ih fun other hmem => hstart other (List.mem_cons_of_mem _ hmem)]
      rfl

theorem receive_tooLarge {chunks : List Chunk}
    (hlarge : ∀ chunk ∈ chunks, maxTotalSize < chunk.totalSize) (pipe : DataPipe) :
    pipe.receive chunks = ([], if chunks = [] then pipe else none) := by
  induction chunks generalizing pipe with
  | nil => rfl
  | cons chunk rest ih =>
      have hdrop : pipe.addDataChunk chunk = (none, none) := by
        rw [addDataChunk.eq_def, if_pos (Or.inl (hlarge chunk List.mem_cons_self))]
      rw [receive_cons, hdrop, ih fun other hmem => hlarge other (List.mem_cons_of_mem _ hmem),
        if_neg (List.cons_ne_nil _ _)]
      dsimp only
      rw [ite_self]
      rfl

/-- What an aborted item leaves goes away with the first chunk of the next item. -/
theorem receive_occupied {incoming : Chunk} (hincoming : 0 < incoming.chunkSize) (hne : data ≠ []) :
    DataPipe.receive (some incoming) ((sliceFrom id data (passes + 1) 0).take (count + 1)) =
      ([], none) := by
  have hlt : 0 < data.length := List.length_pos_iff.mpr hne
  have hdrop : ∀ bytes : List UInt8,
      DataPipe.addDataChunk (some incoming) ⟨id, 0, data.length, bytes⟩ = (none, none) := by
    intro bytes
    rw [addDataChunk]
    split
    · rfl
    · exact if_pos (Or.inl hincoming.ne')
  rw [sliceFrom_of_lt hlt, List.take_succ_cons, receive_cons, hdrop, receive_dropped]
  · rfl
  · intro chunk hmem
    have hstart := (mem_sliceFrom (List.mem_of_mem_take hmem)).1
    rw [chunkSizeLimit] at hstart
    omega

/-! ### Items one after the other -/

/-- The buffer of a pipe is not empty. -/
def Filled (pipe : DataPipe) : Prop := ∀ incoming ∈ pipe, 0 < incoming.chunkSize

theorem filled_none : Filled none := fun _ hincoming => absurd hincoming (Option.not_mem_none _)

end DataPipe

namespace Transmission

/-- The item is not above the bound that `addDataChunk` tests. -/
def Fits (sent : Transmission) : Prop := sent.bytes.length ≤ maxTotalSize

instance (sent : Transmission) : Decidable sent.Fits := by
  unfold Fits
  infer_instance

/-- Whether something is left in the pipe behind an item, by what was left before it. -/
def leaves (sent : Transmission) (leftover : Bool) : Bool :=
  if sent.arrived = 0 then leftover else !leftover && decide (sent.Fits ∧ ¬sent.Complete)

/-- Whether something is left in the pipe when the item comes. -/
def meets (sent : Transmission) (leftover : Bool) : Bool := !sent.cleaned && leftover

theorem complete_pos {sent : Transmission} (hcomplete : sent.Complete) : 0 < sent.arrived := by
  refine lt_of_lt_of_le ?_ hcomplete
  obtain ⟨byte, rest, heq⟩ := List.exists_cons_of_ne_nil sent.hasHeader
  rw [sliceDataItem, heq, List.length_cons, sliceFrom_of_lt (by simp)]
  exact Nat.succ_pos _

end Transmission

namespace DataPipe

/-- What one item does to a pipe. -/
theorem receive_chunks (sent : Transmission) {pipe : DataPipe} (hfilled : pipe.Filled) :
    (pipe.receive sent.chunks).1 =
        (if pipe.isSome = false ∧ sent.Fits ∧ sent.Complete then [sent.bytes] else []) ∧
      (pipe.receive sent.chunks).2.Filled ∧
      (pipe.receive sent.chunks).2.isSome = sent.leaves pipe.isSome := by
  have hlt : 0 < sent.bytes.length := List.length_pos_iff.mpr sent.hasHeader
  rw [Transmission.chunks, sliceDataItem]
  rcases Nat.eq_zero_or_pos sent.arrived with hzero | hpos
  · have hpart : ¬sent.Complete := fun hcomplete =>
      absurd hzero (Transmission.complete_pos hcomplete).ne'
    rw [hzero, List.take_zero, if_neg fun h => hpart h.2.2, Transmission.leaves, if_pos hzero]
    exact ⟨rfl, hfilled, rfl⟩
  rw [Transmission.leaves, if_neg hpos.ne']
  cases pipe with
  | some incoming =>
      obtain ⟨passes, hpasses⟩ := Nat.exists_eq_add_one.mpr hlt
      obtain ⟨count, hcount⟩ := Nat.exists_eq_add_one.mpr hpos
      rw [hcount, hpasses, receive_occupied (hfilled incoming rfl) sent.hasHeader]
      exact ⟨(if_neg fun h => absurd h.1 (by simp)).symm, filled_none, rfl⟩
  | none =>
      by_cases hfits : sent.Fits
      case neg =>
        have hlarge : ∀ chunk ∈ (sliceFrom sent.propagationId sent.bytes sent.bytes.length 0).take
            sent.arrived, maxTotalSize < chunk.totalSize := by
          intro chunk hmem
          rw [(mem_sliceFrom (List.mem_of_mem_take hmem)).2]
          exact not_le.mp hfits
        rw [receive_tooLarge hlarge, ite_self, if_neg fun h => hfits h.2.1]
        exact ⟨rfl, filled_none, by simp [hfits]⟩
      case pos =>
        by_cases hcomplete : sent.Complete
        · have hwhole := receive_whole hfits hlt (Nat.sub_le _ _) hcomplete
          rw [holding_zero] at hwhole
          rw [hwhole, if_pos ⟨rfl, hfits, hcomplete⟩]
          exact ⟨rfl, filled_none, by simp [hcomplete]⟩
        · obtain ⟨reached, -, hreached, hstarted, hpart⟩ :=
            receive_part hfits hlt (not_le.mp hcomplete)
          rw [holding_zero, holding_of_pos (hstarted hpos)] at hpart
          rw [hpart, if_neg fun h => hcomplete h.2.2]
          refine ⟨rfl, ?_, by simp [hfits, hcomplete]⟩
          rintro incoming ⟨⟩
          rw [chunkSize_held hreached.le]
          exact hstarted hpos

/-- Every complete item that comes fits, and finds nothing left in the pipe. -/
def Undisturbed : Bool → List Transmission → Prop
  | _, [] => True
  | leftover, sent :: rest =>
      (sent.Complete → sent.meets leftover = false ∧ sent.Fits) ∧
        Undisturbed (sent.leaves (sent.meets leftover)) rest

/-- The items that should come out. -/
def wanted (sents : List Transmission) : List (List UInt8) :=
  (sents.filter fun sent => sent.Complete).map Transmission.bytes

theorem wanted_cons (sent : Transmission) (rest : List Transmission) :
    wanted (sent :: rest) = (if sent.Complete then [sent.bytes] else []) ++ wanted rest := by
  rw [wanted, wanted, List.filter_cons]
  by_cases hcomplete : sent.Complete <;> simp [hcomplete]

/-- One item through the pipe, then the others. -/
theorem receiveAll_cons (sent : Transmission) (rest : List Transmission) {pipe : DataPipe}
    (hfilled : pipe.Filled) :
    ∃ after : DataPipe, after.Filled ∧ after.isSome = sent.leaves (sent.meets pipe.isSome) ∧
      pipe.receiveAll (sent :: rest) =
        (if sent.meets pipe.isSome = false ∧ sent.Fits ∧ sent.Complete then [sent.bytes] else []) ++
          after.receiveAll rest := by
  have hmeets : (if sent.cleaned then none else pipe : DataPipe).isSome =
      sent.meets pipe.isSome := by
    rw [Transmission.meets]
    cases sent.cleaned <;> rfl
  have hkept : DataPipe.Filled (if sent.cleaned then none else pipe) := by
    split
    · exact filled_none
    · exact hfilled
  obtain ⟨hitems, hafter, hleaves⟩ := receive_chunks sent hkept
  rw [hmeets] at hitems hleaves
  refine ⟨_, hafter, hleaves, ?_⟩
  rw [receiveAll]
  exact congrArg (· ++ _) hitems

theorem length_receiveAll_le (sents : List Transmission) {pipe : DataPipe} (hfilled : pipe.Filled) :
    (pipe.receiveAll sents).length ≤ (wanted sents).length := by
  induction sents generalizing pipe with
  | nil => exact le_rfl
  | cons sent rest ih =>
      obtain ⟨after, hafter, -, heq⟩ := receiveAll_cons sent rest hfilled
      rw [heq, wanted_cons, List.length_append, List.length_append]
      refine Nat.add_le_add ?_ (ih hafter)
      by_cases hcomplete : sent.Complete
      · rw [if_pos hcomplete]
        split <;> simp
      · rw [if_neg fun h => hcomplete h.2.2, if_neg hcomplete]

/-- Exactly the complete items come out, when none of them is disturbed. -/
theorem receiveAll_eq_wanted (sents : List Transmission) {pipe : DataPipe} (hfilled : pipe.Filled) :
    pipe.receiveAll sents = wanted sents ↔ Undisturbed pipe.isSome sents := by
  induction sents generalizing pipe with
  | nil => exact iff_of_true rfl trivial
  | cons sent rest ih =>
      obtain ⟨after, hafter, hleaves, heq⟩ := receiveAll_cons sent rest hfilled
      have hrest := length_receiveAll_le rest hafter
      rw [heq, wanted_cons, Undisturbed, ← hleaves, ← ih hafter]
      by_cases hcomplete : sent.Complete
      · by_cases hfree : sent.meets pipe.isSome = false ∧ sent.Fits
        · rw [if_pos ⟨hfree.1, hfree.2, hcomplete⟩, if_pos hcomplete, List.append_cancel_left_eq]
          exact ⟨fun h => ⟨fun _ => hfree, h⟩, fun h => h.2⟩
        · rw [if_neg fun h => hfree ⟨h.1, h.2.1⟩, if_pos hcomplete]
          refine iff_of_false (fun h => ?_) fun h => hfree (h.1 hcomplete)
          have hlength := congrArg List.length h
          simp only [List.length_append, List.length_nil, List.length_singleton] at hlength
          omega
      · rw [if_neg fun h => hcomplete h.2.2, if_neg hcomplete, List.nil_append, List.nil_append]
        exact ⟨fun h => ⟨fun h' => absurd h' hcomplete, h⟩, fun h => h.2⟩

/-! ### The size of the buffer -/

/-- The buffer is not longer than its `total_size`. -/
def Within (pipe : DataPipe) : Prop := ∀ incoming ∈ pipe, incoming.chunkSize ≤ incoming.totalSize

end DataPipe

/-- `chunk` passes every test of `addDataChunk` and goes behind what the pipe holds. -/
def Chunk.Continues (incoming chunk : Chunk) : Prop :=
  chunk.totalSize ≤ maxTotalSize ∧ chunk.chunkSize ≤ chunk.totalSize ∧
    chunk.chunkStart < chunk.totalSize ∧ incoming.chunkSize = chunk.chunkStart ∧
    incoming.totalSize = chunk.totalSize

namespace DataPipe

/-- A chunk that goes behind what the pipe holds ends before `total_size`. -/
def EndsWithin (pipe : DataPipe) (chunk : Chunk) : Prop :=
  ∀ incoming ∈ pipe, incoming.Continues chunk →
    chunk.chunkStart + chunk.chunkSize ≤ chunk.totalSize

/-- Every chunk does so for the pipe that it meets. -/
def AllEndWithin : DataPipe → List Chunk → Prop
  | _, [] => True
  | pipe, chunk :: rest => pipe.EndsWithin chunk ∧ AllEndWithin (pipe.addDataChunk chunk).2 rest

theorem within_none : Within none := fun _ hincoming => absurd hincoming (Option.not_mem_none _)

theorem within_finish {incoming : Chunk} :
    (addDataChunk.finish incoming).2.Within ↔ incoming.chunkSize ≤ incoming.totalSize := by
  rw [addDataChunk.finish]
  split
  case isTrue hall => exact iff_of_true within_none hall.ge
  case isFalse => exact ⟨fun h => h incoming rfl, by rintro h other ⟨⟩; exact h⟩

theorem addDataChunk_within {pipe : DataPipe} (chunk : Chunk) :
    (pipe.addDataChunk chunk).2.Within ↔ pipe.EndsWithin chunk := by
  rw [addDataChunk.eq_def]
  split
  case isTrue hbad =>
    refine iff_of_true within_none fun incoming _ hcontinues => ?_
    obtain ⟨htotal, hsize, hstart, -⟩ := hcontinues
    omega
  case isFalse hgood =>
    simp only [not_or, not_lt, ge_iff_le, not_le] at hgood
    obtain ⟨htotal, hsize, hstart⟩ := hgood
    cases pipe with
    | none =>
        refine iff_of_true ?_ fun incoming hincoming => absurd hincoming (Option.not_mem_none _)
        dsimp only
        split
        · exact within_none
        · exact within_finish.mpr hsize
    | some incoming =>
        dsimp only
        split
        case isTrue hother =>
          refine iff_of_true within_none ?_
          rintro _ ⟨⟩ ⟨-, -, -, hsame⟩
          exact absurd hother (by simp [hsame])
        case isFalse hsame =>
          simp only [not_or, not_not] at hsame
          rw [within_finish, Chunk.chunkSize, List.length_append]
          constructor
          · rintro hle _ ⟨⟩ -
            rw [← hsame.1, ← hsame.2]
            exact hle
          · intro hends
            have hle := hends incoming rfl ⟨htotal, hsize, hstart, hsame⟩
            rw [← hsame.1, ← hsame.2] at hle
            exact hle

/-- The buffer stays within `total_size` exactly when all the chunks that are added do. -/
theorem receive_within (chunks : List Chunk) {pipe : DataPipe} (hwithin : pipe.Within) :
    (∀ count, (pipe.receive (chunks.take count)).2.Within) ↔ pipe.AllEndWithin chunks := by
  induction chunks generalizing pipe with
  | nil => exact iff_of_true (fun count => by rw [List.take_nil]; exact hwithin) trivial
  | cons chunk rest ih =>
      rw [AllEndWithin, ← addDataChunk_within]
      constructor
      · intro hall
        have hnext := hall 1
        exact ⟨hnext, (ih hnext).mp fun count => hall (count + 1)⟩
      · rintro ⟨hnext, hrest⟩ count
        cases count with
        | zero => exact hwithin
        | succ count => exact (ih hnext).mpr hrest count

/-- Complete items all come out, once and in order, exactly when each fits and finds an empty pipe; and
the buffer stays within `total_size` exactly when every chunk that is added ends there. -/
theorem reassembly_iff (sents : List Transmission) (chunks : List Chunk) :
    (DataPipe.receiveAll none sents = wanted sents ↔ Undisturbed false sents) ∧
      ((∀ count, (DataPipe.receive none (chunks.take count)).2.Within) ↔
        AllEndWithin none chunks) :=
  ⟨receiveAll_eq_wanted sents filled_none, receive_within chunks within_none⟩

/-- An item of two chunks. -/
def twoChunks (arrived : Nat) : Transmission where
  propagationId := 1
  bytes := List.replicate (chunkSizeLimit + 1) 0
  hasHeader := List.cons_ne_nil _ _
  arrived := arrived
  cleaned := false

/-- The second chunk starts at the last byte and brings two. -/
def overrun : List Chunk := [⟨1, 0, 2, [0]⟩, ⟨1, 1, 2, [0, 0]⟩]

theorem chunks_twoChunks (arrived : Nat) :
    (sliceDataItem 1 (twoChunks arrived).bytes).length = 2 := by
  have hlength : (twoChunks arrived).bytes.length = chunkSizeLimit + 1 := List.length_replicate
  have hpasses : (twoChunks arrived).bytes.length = chunkSizeLimit - 1 + 1 + 1 := by
    rw [hlength, chunkSizeLimit]
  rw [sliceDataItem, hpasses, sliceFrom_of_lt (by rw [hlength, chunkSizeLimit]; omega),
    sliceFrom_of_lt (by rw [hlength, chunkSizeLimit]; omega),
    sliceFrom_of_le (by rw [hlength, chunkSizeLimit]; omega)]
  rfl

/-- The first chunk of an aborted item makes the next item be lost, which comes whole; and a buffer of
three bytes has a `total_size` of two. -/
theorem reassembly_counterexample :
    DataPipe.receiveAll none [twoChunks 1, twoChunks 2] ≠ wanted [twoChunks 1, twoChunks 2] ∧
      ¬(DataPipe.receive none overrun).2.Within := by
  constructor
  · intro hall
    have hundisturbed := (receiveAll_eq_wanted _ filled_none).mp hall
    have hcomplete : (twoChunks 2).Complete := (chunks_twoChunks 2).le
    have hpart : ¬(twoChunks 1).Complete := not_le.mpr (by
      rw [show (twoChunks 1).propagationId = 1 from rfl, chunks_twoChunks]
      exact Nat.lt_succ_self 1)
    have hfits : (twoChunks 1).Fits := by
      rw [Transmission.Fits, twoChunks, List.length_replicate]
      decide
    have hfree := (hundisturbed.2.1 hcomplete).1
    have hleaves : (twoChunks 1).leaves false = true := by
      rw [Transmission.leaves, if_neg (by decide)]
      simp [hfits, hpart]
    exact absurd hfree (by rw [show (twoChunks 1).meets none.isSome = false from rfl, hleaves]; decide)
  · intro hwithin
    exact absurd (hwithin ⟨1, 0, 2, [0, 0, 0]⟩ rfl) (by decide)

end DataPipe

end RetroShare.GRouter
