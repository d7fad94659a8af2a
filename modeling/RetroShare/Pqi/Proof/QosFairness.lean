import RetroShare.Pqi.Proof.QosQueue

/-!
# No level starves

A level that has something gets ahead of the levels below it in each call that serves another one. How far
it can get bounds the number of calls it waits.
-/

namespace RetroShare.PqiQoS

open Dividers Transition

/-- The queue, and for each level the number of the last calls of `outRsItem` in which it had something
and nothing of it went out. -/
structure Watched where
  queue : PqiQoS
  waits : Nat → Nat

namespace Watched

inductive Op
  | inRsItem (data : List UInt8) (priority : Nat)
  | outRsItem (maxSliceSize : Nat) (out : Slice)

/-- What `rs_malloc` gives out fits. -/
def Op.Lawful : Op → Prop
  | .inRsItem data _ => data ≠ [] ∧ data.length ≤ 2 ^ 30
  | .outRsItem maxSliceSize _ => 0 < maxSliceSize ∧ maxSliceSize ≤ 2 ^ 30

def waitsAfter (before after : PqiQoS) (waits : Nat → Nat) (k : Nat) : Nat :=
  if (before.itemQueues k).items = [] ∨ (after.itemQueues k).items ≠ (before.itemQueues k).items then 0
  else waits k + 1

def step (s : Watched) : Op → Option Watched
  | .inRsItem data priority => some { s with queue := s.queue.inRsItem data priority }
  | .outRsItem maxSliceSize out =>
      let queue := (s.queue.outRsItem maxSliceSize out).2.2
      some ⟨queue, waitsAfter s.queue queue s.waits⟩

def start (queue : PqiQoS) : Watched := ⟨queue, fun _ => 0⟩

variable {n base j k : Nat} {s s' : Watched} {op : Op}

/-- The waiting calls are paid for by how far the level is ahead. -/
structure Sound (n base : Nat) (s : Watched) : Prop where
  levels : s.queue.levels = n
  tuned : Tuned n base s.queue.itemQueues
  items : ∀ k, ∀ item ∈ (s.queue.itemQueues k).items, item.Waits
  count : s.queue.nbItems = ∑ k ∈ Finset.range n, (s.queue.itemQueues k).items.length
  waits : ∀ j < n, (s.waits j : Int) ≤
    lead (scaled base s.queue.itemQueues) j + (j * base ^ (n - 1) : Nat)

theorem scaled_lt {queues : Nat → ItemQueue} (hbase : 0 < base) (htuned : Tuned n base queues)
    (hk : k < n) : scaled base queues k < base ^ (n - 1) := by
  rw [← pow_mul_threshold base hk]
  exact Nat.mul_lt_mul_of_pos_left (htuned.counter k hk) (Nat.pow_pos hbase)

theorem neg_lead_scaled_le {queues : Nat → ItemQueue} (hbase : 0 < base) (htuned : Tuned n base queues)
    (hj : j < n) : -lead (scaled base queues) j ≤ (j * base ^ (n - 1) : Nat) :=
  neg_lead_le fun _ hk => (scaled_lt hbase htuned (hk.trans hj)).le

theorem sound_start (hbase : 0 < base) : (start (new n base)).Sound n base where
  levels := rfl
  tuned := tuned_new hbase
  items := fun _ _ hitem => absurd hitem List.not_mem_nil
  count := (Finset.sum_eq_zero fun _ _ => rfl).symm
  waits := by
    intro j hj
    have := neg_lead_scaled_le hbase (tuned_new hbase) hj
    change (0 : Int) ≤ _
    change -lead (scaled base (new n base).itemQueues) j ≤ _ at this
    change (0 : Int) ≤ lead (scaled base (new n base).itemQueues) j + _
    omega

theorem exists_busy (hsound : s.Sound n base) (hsome : s.queue.nbItems ≠ 0) :
    ∃ k < n, (s.queue.itemQueues k).items ≠ [] := by
  by_contra hnone
  push Not at hnone
  refine hsome (hsound.count.trans (Finset.sum_eq_zero fun k hk => ?_))
  rw [hnone k (Finset.mem_range.mp hk), List.length_nil]

theorem Sound.inRsItem (hsound : s.Sound n base) (hn : 0 < n) {data : List UInt8} {priority : Nat}
    (hlawful : (Op.inRsItem data priority).Lawful) :
    Sound n base { s with queue := s.queue.inRsItem data priority } where
  levels := hsound.levels
  tuned := tuned_inRsItem hsound.tuned data priority
  items := by
    intro k item hitem
    rw [items_inRsItem] at hitem
    split at hitem
    · rcases List.mem_append.mp hitem with hitem | hitem
      · exact hsound.items k item hitem
      · rw [List.mem_singleton.mp hitem]
        exact ⟨List.length_pos_iff.mpr hlawful.1, hlawful.2⟩
    · exact hsound.items k item hitem
  count := by
    rw [sum_inRsItem hsound.levels hn, ← hsound.count]
    rfl
  waits := by
    intro j hj
    rw [scaled_inRsItem]
    exact hsound.waits j hj

theorem Sound.outRsItem (hsound : s.Sound n base) (hbase : 2 ≤ base) {maxSliceSize : Nat} {out : Slice}
    (hlawful : (Op.outRsItem maxSliceSize out).Lawful) (hsome : s.queue.nbItems ≠ 0) :
    ∃ bytes ≠ [], (s.queue.outRsItem maxSliceSize out).1 = some bytes ∧
      Sound n base ⟨(s.queue.outRsItem maxSliceSize out).2.2,
        waitsAfter s.queue (s.queue.outRsItem maxSliceSize out).2.2 s.waits⟩ := by
  obtain ⟨last, item, rest, queues, inc, hlast, hcons, hcall, hitems, htuned, hinc, hround, hwraps⟩ :=
    out_spec out hsound.levels hsound.tuned hbase (exists_busy hsound hsome) hsound.items
      hsome hlawful.1 hlawful.2
  have hwaits := hsound.items last item (hcons ▸ List.mem_cons_self)
  have hnext : item.next maxSliceSize ≠ [] := by
    have hlength := item.length_next maxSliceSize
    have hoffset := hwaits.offset
    have hpos := hlawful.1
    intro hnil
    rw [hnil, List.length_nil] at hlength
    omega
  refine ⟨item.next maxSliceSize, hnext, congrArg Prod.fst hcall, ?_⟩
  rw [hcall]
  have hsum := sum_remaining hlast hcons hitems
  refine ⟨hsound.levels, htuned, fun k => ?_, ?_, fun j hj => ?_⟩
  · rw [hitems]
    split
    · rw [← hcons]
      exact waits_remaining (hsound.items last)
    · exact hsound.items k
  · have hcount := hsound.count
    dsimp only
    rw [← hsum] at hcount
    split
    · next hends =>
        rw [if_pos hends] at hcount
        omega
    · next hends =>
        rw [if_neg hends] at hcount
        exact hcount
  · have hfloor := neg_lead_scaled_le (by omega) htuned hj
    have hold := hsound.waits j hj
    unfold waitsAfter
    dsimp only
    split
    · omega
    · next hwaiting =>
        push Not at hwaiting
        obtain ⟨hbusy, hkept⟩ := hwaiting
        have hother : j ≠ last := by
          rintro rfl
          rw [hitems, if_pos rfl, hcons] at hkept
          exact remaining_ne hlawful.1 hkept
        have hgains : gaining n s.queue.itemQueues j = true := by
          rw [gaining, decide_eq_true hj, Bool.true_and, ItemQueue.gains]
          simpa using hbusy
        have hlead := hround.lead_lt (sum_pow_lt hbase j) hinc hgains fun hwrapsj =>
          ⟨last, hwraps j hwrapsj hother⟩
        omega

theorem Sound.step (hsound : s.Sound n base) (hn : 0 < n) (hbase : 2 ≤ base) (hlawful : op.Lawful)
    (hstep : s.step op = some s') : s'.Sound n base := by
  cases op with
  | inRsItem data priority =>
      cases hstep
      exact hsound.inRsItem hn hlawful
  | outRsItem maxSliceSize out =>
      cases hstep
      by_cases hsome : s.queue.nbItems = 0
      · have hcall : (s.queue.outRsItem maxSliceSize out).2.2 = s.queue := by
          unfold PqiQoS.outRsItem
          rw [if_pos hsome]
        have hidle : ∀ k < n, (s.queue.itemQueues k).items = [] := by
          intro k hk
          have hle := Finset.single_le_sum
            (f := fun k => (s.queue.itemQueues k).items.length) (fun _ _ => Nat.zero_le _)
            (Finset.mem_range.mpr hk)
          rw [← hsound.count, hsome] at hle
          exact List.length_eq_zero_iff.mp (Nat.le_zero.mp hle)
        rw [hcall]
        refine { hsound with waits := fun j hj => ?_ }
        have hfloor := neg_lead_scaled_le (by omega) hsound.tuned hj
        dsimp only
        rw [waitsAfter, if_pos (Or.inl (hidle j hj))]
        omega
      · obtain ⟨_, _, _, hsound'⟩ := hsound.outRsItem hbase hlawful hsome
        exact hsound'

/-- **No level starves.** While packets are queued every call gives out some bytes, and a level that has
something waits fewer than `512 * (j + 1)` calls, whatever else is queued. -/
theorem waits_lt (hreach : Reaches step (fun _ op => op.Lawful) (start ofStreamer) s) :
    (∀ j < 10, s.waits j < 512 * (j + 1)) ∧
      s.queue.nbItems = ∑ k ∈ Finset.range 10, (s.queue.itemQueues k).items.length ∧
      ∀ maxSliceSize out, (Op.outRsItem maxSliceSize out).Lawful → s.queue.nbItems ≠ 0 →
        ∃ bytes ≠ [], (s.queue.outRsItem maxSliceSize out).1 = some bytes := by
  have hsound : s.Sound 10 2 := hreach.invariant (Sound 10 2)
    (fun before op after hsound hlawful hstep => hsound.step (by decide) le_rfl hlawful hstep)
    (sound_start (by decide))
  refine ⟨fun j hj => ?_, hsound.count, fun maxSliceSize out hlawful hsome => ?_⟩
  · have hwaits := hsound.waits j hj
    have hlead := lead_lt_total (scaled_lt (by decide) hsound.tuned hj)
    norm_num at hwaits hlead
    omega
  · obtain ⟨bytes, hbytes, hcall, _⟩ := hsound.outRsItem le_rfl hlawful hsome
    exact ⟨bytes, hbytes, hcall⟩

/-- A packet of a low level behind one of the highest. -/
theorem waits_lt_behind : ∃ s, (start ((ofStreamer.inRsItem [1] 3).inRsItem [2] 9)).step
    (.outRsItem 512 ⟨0, true, true, 0⟩) = some s ∧ s.waits 3 < 512 * (3 + 1) := by
  have hlow : (Op.inRsItem [1] 3).Lawful := ⟨List.cons_ne_nil _ _, Nat.one_le_two_pow⟩
  have hhigh : (Op.inRsItem [2] 9).Lawful := ⟨List.cons_ne_nil _ _, Nat.one_le_two_pow⟩
  have hout : (Op.outRsItem 512 ⟨0, true, true, 0⟩).Lawful := ⟨by decide, by decide⟩
  have hqueued : Reaches step (fun _ op => op.Lawful) (start ofStreamer)
      (start ((ofStreamer.inRsItem [1] 3).inRsItem [2] 9)) :=
    ((Reaches.refl _).next (Op.inRsItem [1] 3) hlow rfl).next (Op.inRsItem [2] 9) hhigh rfl
  have hrun := hqueued.next (Op.outRsItem 512 ⟨0, true, true, 0⟩) hout rfl
  exact ⟨_, rfl, (waits_lt hrun).1 3 (by decide)⟩

end Watched

end RetroShare.PqiQoS
