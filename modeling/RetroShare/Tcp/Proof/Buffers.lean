import RetroShare.Tcp.TcpStream
import RetroShare.Foundation.Segments

/-!
# The buffers of a stream

Whatever is written, read or received, whole segments stay whole and the buffers around them stay
short of one. Over such buffers a stream holds two sequences of bytes, `pending` and `readable`, and
the operations are those of a queue.
-/

namespace RetroShare.Tcp

open Segments

variable {s : TcpStream}

/-- Whole segments in both queues, less than a segment in the buffers around them. -/
structure TcpStream.Sound (s : TcpStream) : Prop where
  inData : s.inData.length < maxSeg
  inQueue : ∀ db ∈ s.inQueue, db.length = maxSeg
  outDataRead : s.outDataRead.length < maxSeg
  outQueue : ∀ db ∈ s.outQueue, db.length = maxSeg
  outDataNet : s.outDataNet.length < maxSeg

theorem TcpStream.Sound.length_readable (hsound : s.Sound) :
    s.readable.length = s.pendingSize := by
  rw [TcpStream.readable, List.length_append, List.length_append,
    length_flatten_of_forall hsound.outQueue, TcpStream.pendingSize]

theorem maxSeg_pos : 0 < maxSeg := by decide

/-! ### Writing -/

theorem fillSegments_eq (fuel : Nat) (dta : List UInt8) (hfuel : dta.length < maxSeg * (fuel + 1)) :
    fillSegments fuel dta =
      (segments maxSeg (dta.length / maxSeg) dta, dta.drop (maxSeg * (dta.length / maxSeg))) := by
  induction fuel generalizing dta with
  | zero =>
      rw [fillSegments, Nat.div_eq_of_lt (by omega)]
      rfl
  | succ fuel ih =>
      rw [fillSegments]
      split_ifs with hwhole
      · have hcount : dta.length / maxSeg = (dta.length - maxSeg) / maxSeg + 1 :=
          Nat.div_eq_sub_div maxSeg_pos hwhole
        rw [Nat.mul_succ] at hfuel
        rw [ih (dta.drop maxSeg) (by rw [List.length_drop]; omega), List.length_drop, hcount,
          segments, List.drop_drop, Nat.mul_succ, Nat.add_comm maxSeg]
      · rw [Nat.div_eq_of_lt (by omega)]
        rfl

/-- What `write` does to a stream: nothing to its bytes, or all of `dta` behind them. -/
def WritesBehind (dta : List UInt8) (s : TcpStream) : Prop :=
  (write dta s).2.Sound ∧ (write dta s).2.readable = s.readable ∧
    ((write dta s).1 = -1 ∧ (write dta s).2.pending = s.pending ∨
      (write dta s).1 = dta.length ∧ (write dta s).2.pending = s.pending ++ dta)

theorem write_behind (hsound : s.Sound) (dta : List UInt8) : WritesBehind dta s := by
  unfold WritesBehind write
  split_ifs with hclosed hbefore hfull hactive hshort
  · exact ⟨⟨hsound.1, hsound.2, hsound.3, hsound.4, hsound.5⟩, rfl, .inl ⟨rfl, rfl⟩⟩
  · exact ⟨⟨hsound.1, hsound.2, hsound.3, hsound.4, hsound.5⟩, rfl, .inl ⟨rfl, rfl⟩⟩
  · exact ⟨⟨hsound.1, hsound.2, hsound.3, hsound.4, hsound.5⟩, rfl, .inl ⟨rfl, rfl⟩⟩
  · exact ⟨⟨hsound.1, hsound.2, hsound.3, hsound.4, hsound.5⟩, rfl, .inl ⟨rfl, rfl⟩⟩
  · refine ⟨⟨?_, hsound.2, hsound.3, hsound.4, hsound.5⟩, rfl, .inr ⟨rfl, ?_⟩⟩
    · rw [List.length_append, Nat.add_comm]
      exact hshort
    · simp [TcpStream.pending]
  · have hdata := hsound.inData
    have hrest := fillSegments_eq dta.length (dta.drop (maxSeg - s.inData.length)) (by
      have hdrop := List.length_drop (i := maxSeg - s.inData.length) (l := dta)
      have hpos := Nat.le_mul_of_pos_left (dta.length + 1) maxSeg_pos
      omega)
    dsimp only
    rw [hrest]
    refine ⟨⟨?_, ?_, hsound.3, hsound.4, hsound.5⟩, rfl, .inr ⟨rfl, ?_⟩⟩
    · have hmod := Nat.mod_lt (dta.drop (maxSeg - s.inData.length)).length maxSeg_pos
      have hsplit := Nat.div_add_mod (dta.drop (maxSeg - s.inData.length)).length maxSeg
      rw [List.length_drop]
      omega
    · intro db hdb
      rcases List.mem_append.mp hdb with hdb | hdb
      · exact hsound.inQueue db hdb
      · rcases List.mem_cons.mp hdb with rfl | hdb
        · rw [List.length_append, List.length_take]
          omega
        · exact length_of_mem_segments (Nat.mul_div_le _ _) db hdb
    · rw [TcpStream.pending, TcpStream.pending, List.flatten_append, List.flatten_cons]
      simp only [List.append_assoc]
      rw [segments_append_drop, List.take_append_drop]

/-! ### Reading -/

theorem toInt_ofNat (n : Nat) :
    (Int32.ofNat n).toInt =
      if n % 2 ^ 32 < 2 ^ 31 then ((n % 2 ^ 32 : Nat) : Int) else (n % 2 ^ 32 : Nat) - 2 ^ 32 := by
  have hsize : Int32.size = 2 ^ 32 := rfl
  rw [Int32.toInt_ofNat', Int.bmod_def, hsize]
  split <;> split <;> omega

theorem toNat_toUInt32 (n : Int32) : n.toUInt32.toNat = (n.toInt % 2 ^ 32).toNat := by
  have hnat : n.toUInt32.toNat = n.toBitVec.toNat := rfl
  have hint : n.toInt = n.toBitVec.toInt := rfl
  rw [hnat, hint, BitVec.toInt_eq_toNat_cond]
  split <;> omega

theorem toInt_sub_of_le {a b : Int32} (hnonneg : 0 ≤ b.toInt) (hle : b.toInt ≤ a.toInt) :
    (a - b).toInt = a.toInt - b.toInt := by
  have hlt := a.toInt_lt
  rw [Int32.toInt_sub, Int.bmod_eq_of_le] <;> omega

theorem toInt_maxSeg : (Int32.ofNat maxSeg).toInt = 1000 := rfl

theorem updateInWinSize_frame (s : TcpStream) :
    ∃ size, updateInWinSize s = { s with inWinSize := size } := by
  unfold updateInWinSize
  dsimp only
  split_ifs <;> exact ⟨_, rfl⟩

/-- The bytes behind `outDataRead` are copied from the front, as many as are asked for. -/
theorem readQueue_spec (outQueue : List (List UInt8)) :
    ∀ (s : TcpStream) (remSize : Int32), s.outQueue = outQueue → s.outDataRead = [] → s.Sound →
      remSize.toInt ≤ s.readable.length →
      (readQueue remSize outQueue s).2.Sound ∧
        (readQueue remSize outQueue s).2.pending = s.pending ∧
        (readQueue remSize outQueue s).1.length = remSize.toInt.toNat ∧
        (readQueue remSize outQueue s).1 ++ (readQueue remSize outQueue s).2.readable = s.readable := by
  induction outQueue with
  | nil =>
      intro s remSize hqueue hread hsound hle
      rw [readQueue]
      split_ifs with hpos
      · have hreadable : s.readable = s.outDataNet := by
          simp [TcpStream.readable, hqueue, hread]
        rw [hreadable] at hle
        have hnet := hsound.outDataNet
        refine ⟨⟨hsound.1, hsound.2, ?_, hsound.4, maxSeg_pos⟩, rfl, ?_, ?_⟩
        · rw [List.length_drop]
          omega
        · rw [List.length_take]
          omega
        · rw [hreadable]
          simp [TcpStream.readable, hqueue]
      · rw [gt_iff_lt, Int32.lt_iff_toInt_lt, Int32.toInt_zero, not_lt] at hpos
        exact ⟨hsound, rfl, by rw [Int.toNat_of_nonpos hpos]; rfl, rfl⟩
  | cons db outQueue ih =>
      intro s remSize hqueue hread hsound hle
      have hwhole : ∀ db' ∈ db :: outQueue, db'.length = maxSeg := hqueue ▸ hsound.outQueue
      have hdb := hwhole db (List.mem_cons_self ..)
      have hrest : ∀ db' ∈ outQueue, db'.length = maxSeg :=
        fun db' hmem => hwhole db' (List.mem_cons_of_mem _ hmem)
      have hreadable : s.readable = db ++ (outQueue.flatten ++ s.outDataNet) := by
        simp [TcpStream.readable, hqueue, hread]
      have hmax : maxSeg = 1000 := rfl
      rw [readQueue]
      split_ifs with hpos hpart
      · rw [gt_iff_lt, Int32.lt_iff_toInt_lt, Int32.toInt_zero] at hpos
        rw [Int32.lt_iff_toInt_lt, toInt_maxSeg] at hpart
        refine ⟨⟨hsound.1, hsound.2, ?_, hrest, hsound.5⟩, rfl, ?_, ?_⟩
        · rw [List.length_drop]
          omega
        · rw [List.length_take]
          omega
        · rw [hreadable]
          simp only [TcpStream.readable, ← List.append_assoc, List.take_append_drop]
      · rw [Int32.lt_iff_toInt_lt, toInt_maxSeg, not_lt] at hpart
        have hsub : (remSize - Int32.ofNat maxSeg).toInt = remSize.toInt - 1000 := by
          rw [toInt_sub_of_le (by rw [toInt_maxSeg]; omega) (by rw [toInt_maxSeg]; exact hpart),
            toInt_maxSeg]
        have hreadable' : TcpStream.readable { s with outQueue } = outQueue.flatten ++ s.outDataNet := by
          simp [TcpStream.readable, hread]
        have hle' : (remSize - Int32.ofNat maxSeg).toInt ≤
            (TcpStream.readable { s with outQueue }).length := by
          rw [hreadable', hsub]
          rw [hreadable, List.length_append, hdb] at hle
          push_cast at hle
          omega
        obtain ⟨hsound', hpending, hlength, happend⟩ := ih { s with outQueue } _ rfl hread
          ⟨hsound.1, hsound.2, hsound.3, hrest, hsound.5⟩ hle'
        refine ⟨hsound', hpending, ?_, ?_⟩
        · rw [List.length_append, hlength, hsub, hdb]
          omega
        · rw [List.append_assoc, happend, hreadable', hreadable]
      · rw [gt_iff_lt, Int32.lt_iff_toInt_lt, Int32.toInt_zero, not_lt] at hpos
        exact ⟨hsound, rfl, by rw [Int.toNat_of_nonpos hpos]; rfl, rfl⟩

/-- The state lets a user write and read. -/
def TcpStream.Open (s : TcpStream) : Prop := s.state ≠ .closed ∧ s.state.beforeEstablished = false

/-- The bytes that `read` has returned: as many of those it has stored as it says. -/
def returned (size : Int32) (s : TcpStream) : List UInt8 :=
  (read size s).2.1.take (read size s).1.toInt.toNat

/-- What is returned comes from the front, and is gone from there. -/
def ReadsFront (size : Int32) (s : TcpStream) : Prop :=
  (read size s).2.2.Sound ∧ (read size s).2.2.pending = s.pending ∧
    returned size s ++ (read size s).2.2.readable = s.readable

/-- The size that `read` works with. -/
def clampSize (size : Int32) (s : TcpStream) : Int32 :=
  if intReadPending s < size then intReadPending s else size

theorem toInt_intReadPending (s : TcpStream) :
    (intReadPending s).toInt =
      if s.pendingSize % 2 ^ 32 < 2 ^ 31 then ((s.pendingSize % 2 ^ 32 : Nat) : Int)
      else (s.pendingSize % 2 ^ 32 : Nat) - 2 ^ 32 :=
  toInt_ofNat _

theorem toInt_clampSize (size : Int32) (s : TcpStream) :
    (clampSize size s).toInt = min (intReadPending s).toInt size.toInt := by
  rw [clampSize, min_def]
  split_ifs with hlt hle hle
  · rfl
  · rw [Int32.lt_iff_toInt_lt] at hlt
    omega
  · rw [Int32.lt_iff_toInt_lt] at hlt
    omega
  · rfl

/-- More than there is behind `outDataRead` is never asked for, also where the size is negative. -/
theorem remSize_le (hsound : s.Sound) {size : Int32} (hsize : 0 ≤ size.toInt) :
    (clampSize size s - Int32.ofNat s.outDataRead.length).toInt ≤
      (TcpStream.readable { s with outDataRead := [] }).length := by
  have hread := hsound.outDataRead
  have hmax : maxSeg = 1000 := rfl
  have hlength := hsound.length_readable
  have hsplit : s.readable.length =
      s.outDataRead.length + (TcpStream.readable { s with outDataRead := [] }).length := by
    simp [TcpStream.readable]
  have hclamp := toInt_clampSize size s
  have hpending := toInt_intReadPending s
  have hpow : (((2 ^ 32 : Nat) : Int)) = 2 ^ 32 := by norm_num
  rw [Int32.toInt_sub, toInt_ofNat, if_pos (by omega), Int.bmod_def, hpow]
  split at hpending <;> split <;> omega

/-- Reading when there is something to read. -/
theorem read_eq (hopen : s.Open) (hsome : intReadPending s ≠ 0) (size : Int32) :
    read size s =
      if (clampSize size s).toUInt32.toNat < s.outDataRead.length then
        (clampSize size s, s.outDataRead.take (clampSize size s).toUInt32.toNat,
          updateInWinSize { s with
            outDataRead := s.outDataRead.drop (clampSize size s).toUInt32.toNat })
      else
        (clampSize size s,
          s.outDataRead ++ (readQueue (clampSize size s - Int32.ofNat s.outDataRead.length)
            s.outQueue { s with outDataRead := [] }).1,
          updateInWinSize (readQueue (clampSize size s - Int32.ofNat s.outDataRead.length)
            s.outQueue { s with outDataRead := [] }).2) := by
  unfold read clampSize
  simp only [hopen.1, hopen.2, hsome, if_false, decide_false, Bool.and_false, Bool.false_eq_true]

/-- A read that keeps within `outDataRead`. -/
theorem readsFront_short (hsound : s.Sound) (hopen : s.Open) (hsome : intReadPending s ≠ 0)
    {size : Int32} (hshort : (clampSize size s).toUInt32.toNat < s.outDataRead.length) :
    ReadsFront size s := by
  have hread := hsound.outDataRead
  have hmax : maxSeg = 1000 := rfl
  have hupper := (clampSize size s).toInt_lt
  have hlower := (clampSize size s).le_toInt
  have hnat := toNat_toUInt32 (clampSize size s)
  have hret : (clampSize size s).toInt.toNat = (clampSize size s).toUInt32.toNat := by omega
  obtain ⟨window, hframe⟩ := updateInWinSize_frame { s with
    outDataRead := s.outDataRead.drop (clampSize size s).toUInt32.toNat }
  unfold ReadsFront returned
  rw [read_eq hopen hsome, if_pos hshort, hframe]
  refine ⟨⟨hsound.1, hsound.2, ?_, hsound.4, hsound.5⟩, rfl, ?_⟩
  · rw [List.length_drop]
    omega
  · rw [hret, List.take_take, min_self, TcpStream.readable, TcpStream.readable]
    simp only [← List.append_assoc, List.take_append_drop]

/-- A read that takes the whole of `outDataRead`: everything is there after it, but where the size is
negative what was in `outDataRead` is not returned. -/
theorem readsFront_whole_iff (hsound : s.Sound) (hopen : s.Open) (hsome : intReadPending s ≠ 0)
    {size : Int32} (hsize : 0 ≤ size.toInt)
    (hwhole : ¬ (clampSize size s).toUInt32.toNat < s.outDataRead.length) :
    ReadsFront size s ↔ 0 ≤ (clampSize size s).toInt ∨ s.outDataRead = [] := by
  have hread := hsound.outDataRead
  have hmax : maxSeg = 1000 := rfl
  obtain ⟨hsound', hpending, hlength, happend⟩ := readQueue_spec s.outQueue
    { s with outDataRead := [] } (clampSize size s - Int32.ofNat s.outDataRead.length) rfl rfl
    ⟨hsound.1, hsound.2, maxSeg_pos, hsound.4, hsound.5⟩ (remSize_le hsound hsize)
  have hreadable : s.readable =
      s.outDataRead ++ TcpStream.readable { s with outDataRead := [] } := by
    simp [TcpStream.readable]
  obtain ⟨window, hframe⟩ := updateInWinSize_frame (readQueue
    (clampSize size s - Int32.ofNat s.outDataRead.length) s.outQueue { s with outDataRead := [] }).2
  have heq : ReadsFront size s ↔
      (s.outDataRead ++ (readQueue (clampSize size s - Int32.ofNat s.outDataRead.length) s.outQueue
          { s with outDataRead := [] }).1).take (clampSize size s).toInt.toNat ++
        (readQueue (clampSize size s - Int32.ofNat s.outDataRead.length) s.outQueue
          { s with outDataRead := [] }).2.readable = s.readable := by
    unfold ReadsFront returned
    rw [read_eq hopen hsome, if_neg hwhole, hframe]
    exact ⟨fun h => h.2.2,
      fun h => ⟨⟨hsound'.1, hsound'.2, hsound'.3, hsound'.4, hsound'.5⟩, hpending, h⟩⟩
  have hnat := toNat_toUInt32 (clampSize size s)
  have hzero : (Int32.ofNat s.outDataRead.length).toInt = s.outDataRead.length := by
    rw [toInt_ofNat, if_pos (by omega)]
    omega
  rw [heq]
  constructor
  · intro hfront
    by_contra hlost
    push Not at hlost
    have hnone : (clampSize size s).toInt.toNat = 0 := Int.toNat_of_nonpos (by omega)
    have hlengths := congrArg List.length happend
    have hfronts := congrArg List.length hfront
    have hpos := List.length_pos_of_ne_nil hlost.2
    rw [hnone, hreadable] at hfronts
    simp only [List.take_zero, List.nil_append, List.length_append] at hfronts hlengths
    omega
  · intro hcase
    by_cases hnonneg : 0 ≤ (clampSize size s).toInt
    · have hsub : (clampSize size s - Int32.ofNat s.outDataRead.length).toInt =
          (clampSize size s).toInt - s.outDataRead.length := by
        rw [toInt_sub_of_le (by omega) (by rw [hzero]; omega), hzero]
      have hall : (s.outDataRead ++ (readQueue (clampSize size s - Int32.ofNat s.outDataRead.length)
          s.outQueue { s with outDataRead := [] }).1).length = (clampSize size s).toInt.toNat := by
        rw [List.length_append, hlength, hsub]
        omega
      rw [← hall, List.take_length, List.append_assoc, happend, ← hreadable]
    · have hempty := hcase.resolve_left hnonneg
      have hnone : (clampSize size s).toInt.toNat = 0 := Int.toNat_of_nonpos (by omega)
      have hsame : clampSize size s - Int32.ofNat s.outDataRead.length = clampSize size s := by
        rw [hempty]
        exact Int32.sub_zero _
      rw [hsame] at hlength happend ⊢
      rw [hnone] at hlength ⊢
      rw [List.eq_nil_of_length_eq_zero hlength] at happend
      rw [hreadable, hempty]
      exact happend

/-- Reading takes from the front exactly when the number of bytes that wait is not negative as an
`int`, or nothing waits in `outDataRead`. -/
theorem readsFront_iff (hsound : s.Sound) (hopen : s.Open) {size : Int32} (hsize : 0 ≤ size.toInt) :
    ReadsFront size s ↔ s.pendingSize % 2 ^ 32 < 2 ^ 31 ∨ s.outDataRead = [] := by
  have hpending := toInt_intReadPending s
  have hclamp := toInt_clampSize size s
  have hread := hsound.outDataRead
  have hmax : maxSeg = 1000 := rfl
  by_cases hsome : intReadPending s = 0
  · have hfits : s.pendingSize % 2 ^ 32 < 2 ^ 31 := by
      rw [hsome, Int32.toInt_zero] at hpending
      split at hpending <;> omega
    refine ⟨fun _ => .inl hfits, fun _ => ?_⟩
    unfold ReadsFront returned read
    simp only [hopen.1, hopen.2, hsome, if_false, decide_true, Bool.and_true, Bool.false_eq_true]
    split_ifs
    · exact ⟨hsound, rfl, rfl⟩
    · exact ⟨⟨hsound.1, hsound.2, hsound.3, hsound.4, hsound.5⟩, rfl, rfl⟩
  · by_cases hshort : (clampSize size s).toUInt32.toNat < s.outDataRead.length
    · refine ⟨fun _ => .inl ?_, fun _ => readsFront_short hsound hopen hsome hshort⟩
      rw [toNat_toUInt32] at hshort
      split at hpending <;> omega
    · rw [readsFront_whole_iff hsound hopen hsome hsize hshort]
      refine or_congr_left ?_
      split at hpending <;> omega

/-- Three bytes in two buffers. -/
def threeBytes : TcpStream where
  outDataRead := [1, 2]
  outDataNet := [3]
  state := .established
  outStreamActive := true

/-- One byte before so many segments of zeros. -/
def zeros (count : Nat) : TcpStream where
  outDataRead := [0]
  outQueue := List.replicate count (List.replicate 1000 0)
  state := .established
  outStreamActive := true
  inStreamActive := true

theorem zeros_open (count : Nat) : (zeros count).Open := ⟨nofun, rfl⟩

theorem zeros_sound (count : Nat) : (zeros count).Sound := by
  refine ⟨maxSeg_pos, nofun, ?_, ?_, maxSeg_pos⟩
  · exact (by decide : 1 < maxSeg)
  · intro db hdb
    rw [List.eq_of_mem_replicate hdb, List.length_replicate]
    rfl

theorem pendingSize_zeros (count : Nat) : (zeros count).pendingSize = 1 + count * 1000 := by
  rw [TcpStream.pendingSize, zeros, List.length_replicate]
  rfl

end RetroShare.Tcp
