import RetroShare.Foundation.Dividers
import RetroShare.Pqi.PqiQoS

/-!
# What a call of the outgoing queue does

A round changes counters and picks a level that has something, and a slice is the next bytes of the first
packet there.
-/

namespace RetroShare.PqiQoS

open Bytes Dividers PqiStreamer Util

/-! ### Slices -/

/-- A packet that waits has bytes left. -/
structure ItemRecord.Waits (item : ItemRecord) : Prop where
  offset : item.currentOffset < item.size
  size : item.size ≤ 2 ^ 30

/-- The bytes that go out next. -/
def ItemRecord.next (item : ItemRecord) (maxSize : Nat) : List UInt8 :=
  (item.data.drop item.currentOffset).take maxSize

def ItemRecord.last (item : ItemRecord) (maxSize : Nat) : Bool :=
  item.size ≤ item.currentOffset + maxSize

def ItemRecord.advance (item : ItemRecord) (maxSize : Nat) : ItemRecord :=
  { item with currentOffset := item.currentOffset + maxSize }

/-- What is left of the packets of a level. -/
def remaining (maxSize : Nat) : List ItemRecord → List ItemRecord
  | [] => []
  | item :: rest => if item.last maxSize then rest else item.advance maxSize :: rest

variable {item : ItemRecord} {rest : List ItemRecord} {q : ItemQueue} {maxSize : Nat} {out : Slice}

theorem ItemRecord.length_next (item : ItemRecord) (maxSize : Nat) :
    (item.next maxSize).length = min maxSize (item.size - item.currentOffset) := by
  rw [ItemRecord.next, List.length_take, List.length_drop, ItemRecord.size]

variable (out) in
/-- **A slice.** -/
theorem slice_spec (hitems : q.items = item :: rest) (hwaits : item.Waits) (hpos : 0 < maxSize)
    (hmax : maxSize ≤ 2 ^ 30) :
    q.slice maxSize out = (some (item.next maxSize),
      ⟨(item.next maxSize).length, item.currentOffset = 0, item.last maxSize, item.id⟩,
      { q with items := remaining maxSize q.items }) := by
  have hoffset := hwaits.offset
  have hsize := hwaits.size
  have hsum : Word.add 32 item.currentOffset maxSize = item.currentOffset + maxSize :=
    Word.add_of_lt (by omega)
  rw [ItemQueue.slice, hitems]
  dsimp only
  split
  · next hwhole =>
      have hnext : item.next maxSize = item.data := by
        rw [ItemRecord.next, hwhole.1, List.drop_zero, List.take_of_length_le]
        exact hwhole.2.le
      have hlast : item.last maxSize = true := by
        rw [ItemRecord.last, decide_eq_true_iff, hwhole.1]
        omega
      rw [hnext, hlast, remaining, hlast, decide_eq_true hwhole.1]
      rfl
  · have hlength := item.length_next maxSize
    have hmalloc : rsMalloc (min maxSize (item.size - item.currentOffset)) = true := by
      rw [rsMalloc, decide_eq_true_iff]
      omega
    have hmem : (item.data.drop item.currentOffset).take
        (min maxSize (item.size - item.currentOffset)) = item.next maxSize := by
      refine List.take_eq_take_iff.mpr ?_
      rw [List.length_drop, ItemRecord.size, Nat.min_assoc, Nat.min_self]
    rw [if_neg (by omega), if_pos hmalloc, hlength, hsum, remaining, hmem]
    by_cases hlast : item.size ≤ item.currentOffset + maxSize
    · have hends : item.last maxSize = true := decide_eq_true hlast
      rw [if_pos (decide_eq_true hlast), hends, decide_eq_true hlast, if_pos rfl]
    · have hends : item.last maxSize = false := decide_eq_false hlast
      have hleft : min maxSize (item.size - item.currentOffset) = maxSize := by omega
      rw [if_neg (by simpa using hlast), hends, decide_eq_false hlast,
        if_neg Bool.false_ne_true, hleft]
      rfl

/-! ### Rounds -/

/-- What the constructor makes and no call changes: the thresholds are powers, and the counters stay
below them. -/
structure Tuned (n base : Nat) (queues : Nat → ItemQueue) : Prop where
  threshold : ∀ k < n, (queues k).threshold = base ^ (n - 1 - k)
  inc : ∀ k < n, (queues k).inc = base
  counter : ∀ k < n, (queues k).counter < base ^ (n - 1 - k)

variable {n base inc start m last : Nat} {queues : Nat → ItemQueue} {s : PqiQoS}

theorem tuned_new (hbase : 0 < base) : Tuned n base (new n base).itemQueues :=
  ⟨fun _ _ => rfl, fun _ _ => rfl, fun _ _ => Nat.pow_pos hbase⟩

variable (start queues) in
theorem skipEmpty_spec (hinc : ∀ k < m, (queues k).inc = base) :
    (skipEmpty queues m start).1 ≤ m ∧
      (∀ k, (skipEmpty queues m start).1 < k → k ≤ m → (queues k).items = []) ∧
      ((skipEmpty queues m start).1 = 0 ∨ (queues (skipEmpty queues m start).1).items ≠ []) ∧
      (skipEmpty queues m start).2 = if (skipEmpty queues m start).1 = m then start else base := by
  induction m generalizing start with
  | zero => exact ⟨le_rfl, fun k hk hle => by omega, Or.inl rfl, (if_pos rfl).symm⟩
  | succ m ih =>
      rw [skipEmpty]
      split
      · next hempty =>
          rw [hinc m (Nat.lt_succ_self m)]
          obtain ⟨hle, habove, htop, hgain⟩ := @ih base fun k hk => hinc k (by omega)
          refine ⟨by omega, fun k hk hkm => ?_, htop, ?_⟩
          · rcases Nat.lt_or_eq_of_le hkm with hlt | rfl
            · exact habove k hk (by omega)
            · exact List.isEmpty_iff.mp hempty
          · rw [hgain, ite_self, if_neg (by omega)]
      · next hsome =>
          exact ⟨le_rfl, fun k hk hle => by omega, Or.inr (by simpa using hsome), (if_pos rfl).symm⟩

/-- A level that has something, and one that has gained enough. -/
def ItemQueue.gains (q : ItemQueue) : Bool := !q.items.isEmpty

def ItemQueue.wraps (q : ItemQueue) (inc : Nat) : Bool :=
  q.gains && decide (q.threshold ≤ q.counter + inc)

theorem gain_eq (q : ItemQueue) (inc : Nat) :
    q.gain inc = (q.wraps inc, { q with
      counter :=
        if q.wraps inc then q.counter + inc - q.threshold
        else if q.gains then q.counter + inc else q.counter }) := by
  unfold ItemQueue.gain ItemQueue.wraps ItemQueue.gains
  cases hempty : q.items.isEmpty with
  | true => simp
  | false =>
      by_cases henough : q.threshold ≤ q.counter + inc
      · simp [henough]
      · simp [henough]

variable (inc m last queues) in
theorem gainAll_spec :
    ((gainAll inc m last queues).2 = fun k => if k < m then ((queues k).gain inc).2 else queues k) ∧
      (((∀ k < m, (queues k).wraps inc = false) ∧ (gainAll inc m last queues).1 = last) ∨
        ((gainAll inc m last queues).1 < m ∧
          (queues (gainAll inc m last queues).1).wraps inc = true ∧
          ∀ k < (gainAll inc m last queues).1, (queues k).wraps inc = false)) := by
  induction m generalizing last queues with
  | zero => exact ⟨rfl, Or.inl ⟨fun k hk => by omega, rfl⟩⟩
  | succ m ih =>
      have hbelow : ∀ k < m, Function.update queues m ((queues m).gain inc).2 k = queues k :=
        fun k hk => Function.update_of_ne (by omega) _ _
      rw [gainAll]
      obtain ⟨hqueues, hserved⟩ := @ih (if ((queues m).gain inc).1 then m else last)
        (Function.update queues m ((queues m).gain inc).2)
      dsimp only
      generalize gainAll inc m (if ((queues m).gain inc).1 then m else last)
        (Function.update queues m ((queues m).gain inc).2) = result at hqueues hserved ⊢
      constructor
      · rw [hqueues]
        funext k
        rcases Nat.lt_trichotomy k m with hlt | rfl | hgt
        · rw [if_pos hlt, if_pos (by omega), hbelow k hlt]
        · rw [if_neg (by omega), if_pos (by omega), Function.update_self]
        · rw [if_neg (by omega), if_neg (by omega), Function.update_of_ne (by omega)]
      · rcases hserved with ⟨hnone, hlast⟩ | ⟨hlt, hwraps, hlower⟩
        · have hnone' : ∀ k < m, (queues k).wraps inc = false := fun k hk => by
            rw [← hbelow k hk]
            exact hnone k hk
          rw [gain_eq] at hlast
          cases hm : (queues m).wraps inc with
          | true =>
              rw [hm, if_pos rfl] at hlast
              rw [hlast]
              exact Or.inr ⟨Nat.lt_succ_self m, hm, hnone'⟩
          | false =>
              rw [hm, if_neg Bool.false_ne_true] at hlast
              refine Or.inl ⟨fun k hk => ?_, hlast⟩
              rcases Nat.lt_succ_iff_lt_or_eq.mp hk with hk | rfl
              · exact hnone' k hk
              · exact hm
        · rw [hbelow _ hlt] at hwraps
          refine Or.inr ⟨by omega, hwraps, fun k hk => ?_⟩
          rw [← hbelow k (by omega)]
          exact hlower k hk

/-- A counter in units of which all levels need the same number. -/
def scaled (base : Nat) (queues : Nat → ItemQueue) (k : Nat) : Nat := base ^ k * (queues k).counter

/-- The levels that gain in a round, and those that have gained enough. -/
def gaining (n : Nat) (queues : Nat → ItemQueue) (k : Nat) : Bool := decide (k < n) && (queues k).gains

def wrapping (n inc : Nat) (queues : Nat → ItemQueue) (k : Nat) : Bool :=
  decide (k < n) && (queues k).wraps inc

theorem pow_mul_threshold (base : Nat) {k : Nat} (hk : k < n) :
    base ^ k * base ^ (n - 1 - k) = base ^ (n - 1) := by
  rw [← pow_add]
  congr 1
  omega

/-- Where every level gains as the model says, the counters are dividers. -/
theorem round_of_gains (htuned : Tuned n base s.itemQueues)
    (hqueues : ∀ k < n, queues k = ((s.itemQueues k).gain inc).2)
    (hothers : ∀ k, n ≤ k → queues k = s.itemQueues k) :
    Round (base ^ (n - 1)) inc (base ^ ·) (gaining n s.itemQueues) (wrapping n inc s.itemQueues)
      (scaled base s.itemQueues) (scaled base queues) where
  idle := by
    intro k hidle
    unfold scaled
    by_cases hk : k < n
    · rw [gaining, decide_eq_true hk, Bool.true_and] at hidle
      have hno : (s.itemQueues k).wraps inc = false := by rw [ItemQueue.wraps, hidle, Bool.false_and]
      rw [hqueues k hk, gain_eq, hno, hidle]
      rfl
    · rw [hothers k (by omega)]
  grown := by
    intro k hgains hno
    have hand := Bool.and_eq_true_iff.mp hgains
    have hk := of_decide_eq_true hand.1
    rw [wrapping, decide_eq_true hk, Bool.true_and] at hno
    unfold scaled
    rw [hqueues k hk, gain_eq, hno, hand.2]
    dsimp only
    rw [if_neg Bool.false_ne_true, if_pos rfl, Nat.mul_add, Nat.mul_comm inc]
  wrapped := by
    intro k _ hwraps
    have hand := Bool.and_eq_true_iff.mp hwraps
    have hk := of_decide_eq_true hand.1
    have henough : base ^ (n - 1 - k) ≤ (s.itemQueues k).counter + inc := by
      rw [← htuned.threshold k hk]
      exact of_decide_eq_true (Bool.and_eq_true_iff.mp hand.2).2
    unfold scaled
    rw [hqueues k hk, gain_eq, hand.2, htuned.threshold k hk, ← pow_mul_threshold base hk]
    dsimp only
    rw [if_pos rfl, ← Nat.mul_add, Nat.sub_add_cancel henough, Nat.mul_add, Nat.mul_comm inc]
  gained := by
    intro k hwraps
    have hand := Bool.and_eq_true_iff.mp hwraps
    exact Bool.and_eq_true_iff.mpr ⟨hand.1, (Bool.and_eq_true_iff.mp hand.2).1⟩

/-- **A round.** -/
theorem round_spec (hlevels : s.levels = n) (htuned : Tuned n base s.itemQueues) (hbase : 2 ≤ base) (hbusy : ∃ k < n, (s.itemQueues k).items ≠ []) :
    ∃ last queues inc, s.round = (last, queues) ∧ last < n ∧ (s.itemQueues last).items ≠ [] ∧
      (∀ k, ∃ counter, queues k = { s.itemQueues k with counter := counter }) ∧
      Tuned n base queues ∧ 0 < inc ∧
      Round (base ^ (n - 1)) inc (base ^ ·) (gaining n s.itemQueues) (wrapping n inc s.itemQueues)
        (scaled base s.itemQueues) (scaled base queues) ∧
      ∀ k, wrapping n inc s.itemQueues k = true → k ≠ last →
        last < k ∧ wrapping n inc s.itemQueues last = true := by
  obtain ⟨busy, hbusyn, hbusy⟩ := hbusy
  have hskip := skipEmpty_spec (m := n - 1) 1 s.itemQueues
    fun k hk => htuned.inc k (by omega)
  unfold round
  rw [hlevels]
  generalize skipEmpty s.itemQueues (n - 1) 1 = skip at hskip ⊢
  obtain ⟨i, inc⟩ := skip
  obtain ⟨hi, habove, htop, hinc⟩ := hskip
  dsimp only at hi habove htop hinc ⊢
  have hempty : ∀ k, i < k → k < n → (s.itemQueues k).items = [] := fun k hk hkn =>
    habove k hk (by omega)
  have htop : (s.itemQueues i).items ≠ [] := by
    rcases htop with rfl | htop
    · by_contra hnone
      rcases Nat.eq_zero_or_pos busy with rfl | hpos
      · exact hbusy hnone
      · exact hbusy (hempty busy hpos hbusyn)
    · exact htop
  have hincpos : 0 < inc := by
    rw [hinc]
    split <;> omega
  have hgains : ∀ k, i < k → k < n → (s.itemQueues k).gains = false := by
    intro k hk hkn
    rw [ItemQueue.gains, hempty k hk hkn]
    rfl
  obtain ⟨hqueues, hserved⟩ := gainAll_spec inc (i + 1) i s.itemQueues
  generalize gainAll inc (i + 1) i s.itemQueues = result at hqueues hserved ⊢
  obtain ⟨last, queues⟩ := result
  dsimp only at hqueues hserved
  have hbelow : ∀ k < n, queues k = ((s.itemQueues k).gain inc).2 := by
    intro k hk
    rw [hqueues]
    dsimp only
    split
    · rfl
    · have hno := hgains k (by omega) hk
      rw [gain_eq, ItemQueue.wraps, hno]
      rfl
  have hothers : ∀ k, n ≤ k → queues k = s.itemQueues k := by
    intro k hk
    rw [hqueues]
    exact if_neg (by omega)
  have hsame : ∀ k, ∃ counter, queues k = { s.itemQueues k with counter := counter } := by
    intro k
    by_cases hk : k < n
    · rw [hbelow k hk, gain_eq]
      exact ⟨_, rfl⟩
    · exact ⟨_, hothers k (by omega)⟩
  have hwrapped : ∀ k, wrapping n inc s.itemQueues k = true →
      k < i + 1 ∧ (s.itemQueues k).wraps inc = true := by
    intro k hwraps
    have hand := Bool.and_eq_true_iff.mp hwraps
    refine ⟨?_, hand.2⟩
    by_contra hge
    have hno := hgains k (by omega) (of_decide_eq_true hand.1)
    rw [(Bool.and_eq_true_iff.mp hand.2).1] at hno
    cases hno
  have hlast : last < n ∧ (s.itemQueues last).items ≠ [] := by
    rcases hserved with ⟨_, rfl⟩ | ⟨hlt, hwraps, _⟩
    · exact ⟨by omega, htop⟩
    · have hgain := (Bool.and_eq_true_iff.mp hwraps).1
      exact ⟨by omega, by simpa [ItemQueue.gains] using hgain⟩
  refine ⟨last, queues, inc, rfl, hlast.1, hlast.2, hsame, ?_, hincpos,
    round_of_gains htuned hbelow hothers, fun k hwraps hne => ?_⟩
  · refine ⟨fun k hk => ?_, fun k hk => ?_, fun k hk => ?_⟩
    · obtain ⟨counter, hcounter⟩ := hsame k
      rw [hcounter]
      exact htuned.threshold k hk
    · obtain ⟨counter, hcounter⟩ := hsame k
      rw [hcounter]
      exact htuned.inc k hk
    · have hcounter := htuned.counter k hk
      have hthreshold := htuned.threshold k hk
      rw [hbelow k hk, gain_eq]
      dsimp only
      split
      · next hwraps =>
          have hle := (hwrapped k (Bool.and_eq_true_iff.mpr ⟨decide_eq_true hk, hwraps⟩)).1
          have hfew : inc ≤ base ^ (n - 1 - k) := by
            rw [hinc]
            split
            · exact Nat.one_le_pow _ _ (by omega)
            · exact Nat.le_self_pow (by omega) base
          omega
      · next hno =>
          split
          · next hgain =>
              rw [ItemQueue.wraps, hgain, Bool.true_and, decide_eq_true_iff] at hno
              omega
          · exact hcounter
  · obtain ⟨hk, hwraps⟩ := hwrapped k hwraps
    rcases hserved with ⟨hnone, _⟩ | ⟨hlt, hlastwraps, hlower⟩
    · rw [hnone k hk] at hwraps
      cases hwraps
    · refine ⟨?_, Bool.and_eq_true_iff.mpr ⟨decide_eq_true hlast.1, hlastwraps⟩⟩
      by_contra hge
      rw [hlower k (by omega)] at hwraps
      cases hwraps

/-! ### Calls -/

theorem length_remaining (maxSize : Nat) (item : ItemRecord) (rest : List ItemRecord) :
    (remaining maxSize (item :: rest)).length + (if item.last maxSize then 1 else 0) =
      (item :: rest).length := by
  rw [remaining]
  split <;> rfl

theorem level_lt (s : PqiQoS) (priority : Nat) (hlevels : 0 < s.levels) :
    s.level priority < s.levels := by
  unfold level
  split <;> omega

variable (s) in
theorem items_inRsItem (data : List UInt8) (priority k : Nat) :
    ((s.inRsItem data priority).itemQueues k).items =
      if k = s.level priority then (s.itemQueues k).items ++ [⟨data, 0, s.idCounter⟩]
      else (s.itemQueues k).items := by
  unfold inRsItem
  dsimp only
  split
  · next heq => rw [heq, Function.update_self, ItemQueue.push]
  · next hne => rw [Function.update_of_ne hne]

variable (s) in
/-- Nothing but the packets of a level changes. -/
theorem inRsItem_queue (data : List UInt8) (priority k : Nat) :
    ∃ items, (s.inRsItem data priority).itemQueues k = { s.itemQueues k with items := items } := by
  unfold inRsItem
  dsimp only
  by_cases hk : k = s.level priority
  · rw [hk, Function.update_self]
    exact ⟨_, rfl⟩
  · rw [Function.update_of_ne hk]
    exact ⟨_, rfl⟩

theorem tuned_inRsItem (htuned : Tuned n base s.itemQueues) (data : List UInt8) (priority : Nat) :
    Tuned n base (s.inRsItem data priority).itemQueues := by
  refine ⟨fun k hk => ?_, fun k hk => ?_, fun k hk => ?_⟩
  all_goals
    obtain ⟨items, hitems⟩ := inRsItem_queue s data priority k
    rw [hitems]
  · exact htuned.threshold k hk
  · exact htuned.inc k hk
  · exact htuned.counter k hk

theorem scaled_inRsItem (data : List UInt8) (priority : Nat) :
    scaled base (s.inRsItem data priority).itemQueues = scaled base s.itemQueues := by
  funext k
  obtain ⟨items, hitems⟩ := inRsItem_queue s data priority k
  rw [scaled, scaled, hitems]

theorem sum_inRsItem (hlevels : s.levels = n) (hn : 0 < n) (data : List UInt8) (priority : Nat) :
    ∑ k ∈ Finset.range n, ((s.inRsItem data priority).itemQueues k).items.length =
      (∑ k ∈ Finset.range n, (s.itemQueues k).items.length) + 1 := by
  have hterm : ∀ k, ((s.inRsItem data priority).itemQueues k).items.length =
      (s.itemQueues k).items.length + if k = s.level priority then 1 else 0 := by
    intro k
    rw [items_inRsItem]
    split
    · rw [List.length_append, List.length_singleton]
    · rfl
  have hlevel : s.level priority < n := hlevels ▸ s.level_lt priority (hlevels ▸ hn)
  simp only [hterm, Finset.sum_add_distrib]
  rw [Finset.sum_ite_eq' (Finset.range n), if_pos (Finset.mem_range.mpr hlevel)]

theorem remaining_ne (hpos : 0 < maxSize) : remaining maxSize (item :: rest) ≠ item :: rest := by
  rw [remaining]
  split
  · intro heq
    have := congrArg List.length heq
    rw [List.length_cons] at this
    omega
  · intro heq
    have hoffset := congrArg ItemRecord.currentOffset (List.cons.inj heq).1
    rw [ItemRecord.advance] at hoffset
    dsimp only at hoffset
    omega

theorem waits_remaining {items : List ItemRecord} (hwaits : ∀ item ∈ items, item.Waits) :
    ∀ item ∈ remaining maxSize items, item.Waits := by
  cases items with
  | nil => exact hwaits
  | cons first rest =>
      intro item hitem
      rw [remaining] at hitem
      split at hitem
      · exact hwaits item (List.mem_cons_of_mem _ hitem)
      · next hlast =>
          rcases List.mem_cons.mp hitem with rfl | hitem
          · rw [ItemRecord.last, decide_eq_true_iff, Nat.not_le] at hlast
            exact ⟨hlast, (hwaits first List.mem_cons_self).size⟩
          · exact hwaits item (List.mem_cons_of_mem _ hitem)

variable (out) in
/-- **A call that gives out a slice.** -/
theorem out_spec (hlevels : s.levels = n) (htuned : Tuned n base s.itemQueues) (hbase : 2 ≤ base)
    (hbusy : ∃ k < n, (s.itemQueues k).items ≠ [])
    (hwaits : ∀ k, ∀ item ∈ (s.itemQueues k).items, item.Waits) (hsome : s.nbItems ≠ 0)
    (hpos : 0 < maxSize) (hmax : maxSize ≤ 2 ^ 30) :
    ∃ last item rest queues inc, last < n ∧ (s.itemQueues last).items = item :: rest ∧
      s.outRsItem maxSize out = (some (item.next maxSize),
        ⟨(item.next maxSize).length, item.currentOffset = 0, item.last maxSize, item.id⟩,
        { s with
          itemQueues := queues
          nbItems := if item.last maxSize then s.nbItems - 1 else s.nbItems }) ∧
      (∀ k, (queues k).items =
        if k = last then remaining maxSize (item :: rest) else (s.itemQueues k).items) ∧
      Tuned n base queues ∧ 0 < inc ∧
      Round (base ^ (n - 1)) inc (base ^ ·) (gaining n s.itemQueues) (wrapping n inc s.itemQueues)
        (scaled base s.itemQueues) (scaled base queues) ∧
      ∀ k, wrapping n inc s.itemQueues k = true → k ≠ last →
        last < k ∧ wrapping n inc s.itemQueues last = true := by
  obtain ⟨last, queues, inc, hround, hlast, hitems, hsame, htuned', hinc, hdividers, hwraps⟩ :=
    round_spec hlevels htuned hbase hbusy
  obtain ⟨item, rest, hcons⟩ := List.exists_cons_of_ne_nil hitems
  have hkept : ∀ k, (queues k).items = (s.itemQueues k).items := by
    intro k
    obtain ⟨counter, hcounter⟩ := hsame k
    rw [hcounter]
  have hslice := slice_spec out ((hkept last).trans hcons)
    (hwaits last item (hcons ▸ List.mem_cons_self)) hpos hmax
  have hcounters : scaled base (Function.update queues last
      { queues last with items := remaining maxSize (queues last).items }) = scaled base queues := by
    funext k
    unfold scaled
    by_cases hk : k = last
    · rw [hk, Function.update_self]
    · rw [Function.update_of_ne hk]
  refine ⟨last, item, rest, Function.update queues last
    { queues last with items := remaining maxSize (queues last).items }, inc, hlast, hcons, ?_,
    fun k => ?_, ?_, hinc, ?_, hwraps⟩
  · unfold outRsItem
    rw [if_neg hsome, hround]
    dsimp only
    rw [hslice]
  · split
    · next heq => rw [heq, Function.update_self, hkept last, hcons]
    · next hne => rw [Function.update_of_ne hne, hkept k]
  · refine ⟨fun k hk => ?_, fun k hk => ?_, fun k hk => ?_⟩
    · rw [← htuned'.threshold k hk]
      by_cases heq : k = last
      · rw [heq, Function.update_self]
      · rw [Function.update_of_ne heq]
    · rw [← htuned'.inc k hk]
      by_cases heq : k = last
      · rw [heq, Function.update_self]
      · rw [Function.update_of_ne heq]
    · have hcounter := htuned'.counter k hk
      by_cases heq : k = last
      · subst heq
        rw [Function.update_self]
        exact hcounter
      · rw [Function.update_of_ne heq]
        exact hcounter
  · rw [hcounters]
    exact hdividers

/-- The number of packets, whichever level is served. -/
theorem sum_remaining {items items' : Nat → List ItemRecord} (hlast : last < n)
    (hcons : items last = item :: rest)
    (hitems : ∀ k, items' k = if k = last then remaining maxSize (item :: rest) else items k) :
    (∑ k ∈ Finset.range n, (items' k).length) + (if item.last maxSize then 1 else 0) =
      ∑ k ∈ Finset.range n, (items k).length := by
  have hterm : ∀ k, (items k).length =
      (items' k).length + if k = last then (if item.last maxSize then 1 else 0) else 0 := by
    intro k
    rw [hitems]
    split
    · next heq => rw [heq, hcons, length_remaining]
    · rfl
  simp only [hterm, Finset.sum_add_distrib]
  rw [Finset.sum_ite_eq' (Finset.range n) last, if_pos (Finset.mem_range.mpr hlast)]

end RetroShare.PqiQoS
