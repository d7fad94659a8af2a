import RetroShare.GRouter.Friends
import Mathlib.Tactic

/-!
# The duplication budget

The factors are rounded one by one, each correcting what the ones before took too much. The last one
takes exactly what is left, since the others never take so much that nothing remains. For three friends
this rests on the threshold: no selected probability is above twice another one.
-/

namespace RetroShare.GRouter

open Rounding OrderedMap

variable {D N : Nat} {proba delta ideal : ℚ}

/-! ### One factor -/

theorem toUInt32_rint (hnonneg : 0 ≤ ideal) (hle : ideal ≤ D) (hD : D < 2 ^ 32) :
    toUInt32 (rint ideal) = some (rint ideal).toNat := by
  have hlow : 0 ≤ rint ideal := le_rint_of_le (by exact_mod_cast hnonneg)
  have hhigh : rint ideal ≤ (D : ℤ) := rint_le_of_le (by exact_mod_cast hle)
  rw [toUInt32, if_pos ⟨hlow, by omega⟩]

/-- A factor is within its clamps, and above the lower one it is at most half too large. -/
theorem duplication_spec (ideal : ℚ) (hND : N ≤ D) (hD : D < 2 ^ 32)
    (hideal : D * proba - delta = ideal) (hnonneg : 0 ≤ ideal) (hle : ideal ≤ D) :
    ∃ real : Nat, duplication D N proba delta = some (real, real - ideal) ∧
      1 ≤ real ∧ real + N ≤ D + 1 ∧ (real = 1 ∨ (real : ℚ) ≤ ideal + 1 / 2) := by
  have hlow : 0 ≤ rint ideal := le_rint_of_le (by exact_mod_cast hnonneg)
  refine ⟨min (D - N + 1) (max 1 (rint ideal).toNat), ?_, by omega, by omega, ?_⟩
  · simp only [duplication, hideal, toUInt32_rint hnonneg hle hD]
    rfl
  · rcases Nat.lt_or_ge 1 (rint ideal).toNat with hlarge | hsmall
    · right
      have hmin : min (D - N + 1) (max 1 (rint ideal).toNat) ≤ (rint ideal).toNat :=
        (min_le_right _ _).trans (max_eq_right hlarge.le).le
      have hcast : ((rint ideal).toNat : ℚ) = rint ideal := by
        exact_mod_cast congrArg (Int.cast (R := ℚ)) (Int.toNat_of_nonneg hlow)
      calc ((min (D - N + 1) (max 1 (rint ideal).toNat) : Nat) : ℚ)
          ≤ (rint ideal).toNat := by exact_mod_cast hmin
        _ = rint ideal := hcast
        _ ≤ ideal + 1 / 2 := rint_le_add_half ideal
    · left
      omega

/-- What is left is taken as it is. -/
theorem duplication_exact (hND : N ≤ D) (hD : D < 2 ^ 32) {k : Nat}
    (hideal : D * proba - delta = (k : ℚ)) (hpos : 1 ≤ k) (hle : k + N ≤ D + 1) (hN : 0 < N) :
    duplication D N proba delta = some (k, 0) := by
  have hround : rint (k : ℚ) = k := by exact_mod_cast rint_intCast (k : ℤ)
  have hrange : toUInt32 (k : ℤ) = some k := by
    rw [toUInt32, if_pos ⟨by omega, by omega⟩, Int.toNat_natCast]
  have hreal : min (D - N + 1) (max 1 k) = k := by omega
  simp only [duplication, hideal, hround, hrange]
  exact congrArg some (Prod.ext hreal (by rw [hreal]; exact sub_self _))

/-! ### All factors -/

variable {pairs : List (ℚ × PeerId)} {peer : PeerId} {factors : OrderedMap PeerId Nat}

/-- The shares add up to one, and none is above twice another one. -/
structure Balanced (shares : List ℚ) : Prop where
  sum_eq_one : shares.sum = 1
  near : ∃ top, 0 < top ∧ ∀ share ∈ shares, top ≤ 2 * share ∧ share ≤ top

/-- The factors of the peers, noted one after the other. -/
def assign (factors : OrderedMap PeerId Nat) (entries : List (PeerId × Nat)) : OrderedMap PeerId Nat :=
  entries.foldl (fun noted entry => noted.insert entry.1 entry.2) factors

theorem spread_cons {real : Nat} {after : ℚ} {rest : List (ℚ × PeerId)}
    (hreal : duplication D N proba delta = some (real, after)) :
    spread D N ((proba, peer) :: rest) delta factors =
      spread D N rest after (factors.insert peer real) := by
  rw [spread, hreal]
  rfl

/-- The factors that are given out: each is positive, and together they are `D`. -/
structure Split (D : Nat) (pairs : List (ℚ × PeerId)) (entries : List (PeerId × Nat)) : Prop where
  peers : entries.map Prod.fst = pairs.map Prod.snd
  positive : ∀ entry ∈ entries, 1 ≤ entry.2
  sum_eq : (entries.map Prod.snd).sum = D

theorem spread_one (hD : D < 2 ^ 32) (hND : 1 ≤ D) (hsum : proba = 1) :
    ∃ entries, spread D 1 [(proba, peer)] 0 factors = some (assign factors entries) ∧
      Split D [(proba, peer)] entries := by
  have hfirst : duplication D 1 proba 0 = some (D, 0) :=
    duplication_exact hND hD (by rw [hsum]; ring) hND le_rfl one_pos
  refine ⟨[(peer, D)], ?_, rfl, by simpa using hND, by simp⟩
  rw [spread_cons hfirst]
  rfl

theorem spread_two {q₁ q₂ : ℚ} {p₁ p₂ : PeerId} (hD : D < 2 ^ 32) (hND : 2 ≤ D)
    (h₁ : 0 ≤ q₁) (h₂ : 0 ≤ q₂) (hsum : q₁ + q₂ = 1) :
    ∃ entries, spread D 2 [(q₁, p₁), (q₂, p₂)] 0 factors = some (assign factors entries) ∧
      Split D [(q₁, p₁), (q₂, p₂)] entries := by
  have hcast : (0 : ℚ) ≤ D := Nat.cast_nonneg D
  have htotal : (D : ℚ) * q₁ + D * q₂ = D := by rw [← mul_add, hsum, mul_one]
  have hx : 0 ≤ (D : ℚ) * q₁ := mul_nonneg hcast h₁
  have hy : 0 ≤ (D : ℚ) * q₂ := mul_nonneg hcast h₂
  obtain ⟨a, hfirst, ha, haD, -⟩ :=
    duplication_spec _ hND hD (sub_zero ((D : ℚ) * q₁)) hx (by linarith)
  have hsecond : duplication D 2 q₂ (a - D * q₁) = some (D - a, 0) := by
    refine duplication_exact hND hD ?_ (by omega) (by omega) two_pos
    rw [Nat.cast_sub (by omega)]
    linarith
  refine ⟨[(p₁, a), (p₂, D - a)], ?_, rfl, ?_, ?_⟩
  · rw [spread_cons hfirst, spread_cons hsecond]
    rfl
  · intro entry hmem
    simp only [List.mem_cons, List.not_mem_nil, or_false] at hmem
    rcases hmem with rfl | rfl
    · exact ha
    · dsimp only
      omega
  · simp only [List.map_cons, List.map_nil, List.sum_cons, List.sum_nil]
    omega

/-- The first two of three friends have at most four fifths of the probability, so that something is
left for the third one. -/
theorem spread_three {q₁ q₂ q₃ top : ℚ} {p₁ p₂ p₃ : PeerId} (hD : D < 2 ^ 32) (hND : 3 ≤ D)
    (h₁ : top ≤ 2 * q₁ ∧ q₁ ≤ top) (h₂ : top ≤ 2 * q₂ ∧ q₂ ≤ top) (h₃ : top ≤ 2 * q₃ ∧ q₃ ≤ top)
    (hsum : q₁ + q₂ + q₃ = 1) :
    ∃ entries, spread D 3 [(q₁, p₁), (q₂, p₂), (q₃, p₃)] 0 factors = some (assign factors entries) ∧
      Split D [(q₁, p₁), (q₂, p₂), (q₃, p₃)] entries := by
  have hcast : (3 : ℚ) ≤ D := by exact_mod_cast hND
  have hfifth₁ : (D : ℚ) * (1 / 5) ≤ D * q₁ := mul_le_mul_of_nonneg_left (by linarith) (by linarith)
  have hfifth₂ : (D : ℚ) * (1 / 5) ≤ D * q₂ := mul_le_mul_of_nonneg_left (by linarith) (by linarith)
  have hboth : (D : ℚ) * (q₁ + q₂) ≤ D * (4 / 5) :=
    mul_le_mul_of_nonneg_left (by linarith) (by linarith)
  have htotal : (D : ℚ) * q₁ + D * q₂ + D * q₃ = D := by rw [← mul_add, ← mul_add, hsum, mul_one]
  rw [mul_add] at hboth
  generalize hx : (D : ℚ) * q₁ = x at *
  generalize hy : (D : ℚ) * q₂ = y at *
  obtain ⟨a, hfirst, ha, haD, hnear⟩ :=
    duplication_spec x hND hD (by rw [hx, sub_zero]) (by linarith) (by linarith)
  have hax : (a : ℚ) ≤ x + 1 / 2 := by
    rcases hnear with rfl | hnear
    · push_cast
      linarith
    · exact hnear
  have haone : (1 : ℚ) ≤ a := by exact_mod_cast ha
  obtain ⟨b, hsecond, hb, hbD, hnear⟩ :=
    duplication_spec (x + y - a) hND hD (show D * q₂ - (a - x) = x + y - a by rw [hy]; ring)
      (by linarith) (by linarith)
  have hleft : a + b + 1 ≤ D := by
    rcases hnear with rfl | hnear
    · omega
    · have hlt : ((a + b : Nat) : ℚ) < D := by
        push_cast
        linarith
      exact Nat.cast_lt.mp hlt
  have hthird : duplication D 3 q₃ (b - (x + y - a)) = some (D - a - b, 0) := by
    refine duplication_exact hND hD ?_ (by omega) (by omega) (by decide)
    rw [Nat.cast_sub (by omega), Nat.cast_sub (by omega)]
    linarith
  refine ⟨[(p₁, a), (p₂, b), (p₃, D - a - b)], ?_, rfl, ?_, ?_⟩
  · rw [spread_cons hfirst, spread_cons hsecond, spread_cons hthird]
    rfl
  · intro entry hmem
    simp only [List.mem_cons, List.not_mem_nil, or_false] at hmem
    rcases hmem with rfl | rfl | rfl
    · exact ha
    · exact hb
    · dsimp only
      omega
  · simp only [List.map_cons, List.map_nil, List.sum_cons, List.sum_nil]
    omega

/-- Between one and three friends, with balanced shares. -/
theorem spread_split (factors : OrderedMap PeerId Nat) (hD : D < 2 ^ 32) (hpos : 0 < pairs.length)
    (hbranching : pairs.length ≤ maxBranchingFactor) (hND : pairs.length ≤ D)
    (hbalanced : Balanced (pairs.map Prod.fst)) :
    ∃ entries, spread D pairs.length pairs 0 factors = some (assign factors entries) ∧
      Split D pairs entries := by
  obtain ⟨hsum, top, htop, hnear⟩ := hbalanced
  match pairs with
  | [] => exact absurd hpos (lt_irrefl 0)
  | [(q, p)] => exact spread_one hD hND (by simpa using hsum)
  | [(q₁, p₁), (q₂, p₂)] =>
      have h₁ := hnear q₁ (by simp)
      have h₂ := hnear q₂ (by simp)
      exact spread_two hD hND (by linarith) (by linarith) (by simpa using hsum)
  | [(q₁, p₁), (q₂, p₂), (q₃, p₃)] =>
      exact spread_three hD hND (hnear q₁ (by simp)) (hnear q₂ (by simp)) (hnear q₃ (by simp))
        (by simpa [add_assoc] using hsum)
  | _ :: _ :: _ :: _ :: rest =>
      simp only [List.length_cons, maxBranchingFactor] at hbranching
      omega

theorem balanced_normalise {probas : List ℚ} (hne : probas ≠ []) {top : ℚ} (htop : 0 < top)
    (hnear : ∀ p ∈ probas, top ≤ 2 * p ∧ p ≤ top) : Balanced (probas.map (· / probas.sum)) := by
  have hpos : 0 < probas.sum := List.sum_pos probas (fun p hp => by linarith [hnear p hp]) hne
  refine ⟨?_, top / probas.sum, div_pos htop hpos, ?_⟩
  · simp only [div_eq_mul_inv, List.sum_map_mul_right, List.map_id']
    exact mul_inv_cancel₀ hpos.ne'
  · intro share hshare
    obtain ⟨p, hp, rfl⟩ := List.mem_map.mp hshare
    obtain ⟨hlow, hhigh⟩ := hnear p hp
    refine ⟨?_, div_le_div_of_nonneg_right hhigh hpos.le⟩
    rw [← mul_div_assoc]
    exact div_le_div_of_nonneg_right hlow hpos.le

/-! ### What is noted -/

section Assign

variable {entries : List (PeerId × Nat)}

theorem lookup_assign {factor : Nat}
    (hlookup : (assign factors entries)[peer]? = some factor) :
    factors[peer]? = some factor ∨ (peer, factor) ∈ entries := by
  induction entries generalizing factors with
  | nil => exact Or.inl hlookup
  | cons entry rest ih =>
      rcases ih hlookup with hbefore | hrest
      · rw [lookup_insert] at hbefore
        split at hbefore
        case isTrue heq =>
          cases hbefore
          cases heq
          exact Or.inr List.mem_cons_self
        case isFalse => exact Or.inl hbefore
      · exact Or.inr (List.mem_cons_of_mem _ hrest)

theorem size_assign_le : (assign factors entries).size ≤ factors.size + entries.length := by
  induction entries generalizing factors with
  | nil => exact le_rfl
  | cons entry rest ih =>
      have hinsert : (factors.insert entry.1 entry.2).size ≤ factors.size + 1 :=
        Std.ExtTreeMap.size_insert_le
      calc (assign (factors.insert entry.1 entry.2) rest).size
          ≤ (factors.insert entry.1 entry.2).size + rest.length := ih
        _ ≤ factors.size + (rest.length + 1) := by omega

theorem sumOver_assign (hnodup : (entries.map Prod.fst).Nodup)
    (habsent : ∀ entry ∈ entries, factors[entry.1]? = none) :
    sumOver (fun _ factor => factor) (assign factors entries) =
      sumOver (fun _ factor => factor) factors + (entries.map Prod.snd).sum := by
  induction entries generalizing factors with
  | nil => rfl
  | cons entry rest ih =>
      rw [List.map_cons, List.nodup_cons] at hnodup
      have hrest : ∀ other ∈ rest, (factors.insert entry.1 entry.2)[other.1]? = none := by
        intro other hmem
        have hne : entry.1 ≠ other.1 := fun heq =>
          hnodup.1 (heq ▸ List.mem_map_of_mem hmem)
        rw [lookup_insert_ne _ _ hne]
        exact habsent other (List.mem_cons_of_mem _ hmem)
      have hfirst := habsent entry List.mem_cons_self
      calc sumOver (fun _ factor => factor) (assign (factors.insert entry.1 entry.2) rest)
          = sumOver (fun _ factor => factor) (factors.insert entry.1 entry.2) +
              (rest.map Prod.snd).sum := ih hnodup.2 hrest
        _ = sumOver (fun _ factor => factor) factors +
              ((entry :: rest).map Prod.snd).sum := by
            rw [sumOver_insert_of_absent _ _ _ hfirst, List.map_cons, List.sum_cons]
            omega

end Assign

/-! ### Which friends are left -/

section Available

variable {random : RandomF32} {onlineIds incomingRoutes : List PeerId} {maxProbability : ℚ}
  {peers : List (PeerId × ℚ)}

/-- The peers of the pairs that are left, without their probabilities. -/
theorem map_snd_availableFriends :
    (availableFriends random onlineIds incomingRoutes maxProbability peers).map Prod.snd =
      (peers.filter fun entry => entry.1 ∉ incomingRoutes ∧ entry.1 ∈ onlineIds ∧
        ¬entry.2 < thresholdBestPeersSelect * maxProbability).map Prod.fst := by
  refine List.ext_getElem (by simp [availableFriends]) fun n h h' => ?_
  simp [availableFriends]

theorem mem_availableFriends {pair : ℚ × PeerId}
    (hmem : pair ∈ availableFriends random onlineIds incomingRoutes maxProbability peers) :
    pair.2 ∈ onlineIds ∧ pair.2 ∉ incomingRoutes := by
  have hpeer := List.mem_map_of_mem (f := Prod.snd) hmem
  rw [map_snd_availableFriends] at hpeer
  obtain ⟨entry, hentry, heq⟩ := List.mem_map.mp hpeer
  have hkept := of_decide_eq_true (List.mem_filter.mp hentry).2
  rw [← heq]
  exact ⟨hkept.2.1, hkept.1⟩

/-- Random values are close to one half; else the threshold keeps the probabilities together. -/
theorem near_availableFriends (hnonneg : 0 ≤ maxProbability)
    (hmax : maxProbability ≠ 0 → ∀ entry ∈ peers, entry.2 ≤ maxProbability) :
    ∃ top, 0 < top ∧
      ∀ pair ∈ availableFriends random onlineIds incomingRoutes maxProbability peers,
        top ≤ 2 * pair.1 ∧ pair.1 ≤ top := by
  by_cases hzero : maxProbability = 0
  · refine ⟨501 / 1000, by norm_num, fun pair hmem => ?_⟩
    rw [availableFriends, List.mem_mapIdx] at hmem
    obtain ⟨count, hcount, rfl⟩ := hmem
    have hrandom := (random count).2
    rw [if_pos hzero]
    constructor <;> linarith
  · refine ⟨maxProbability, lt_of_le_of_ne hnonneg (Ne.symm hzero), fun pair hmem => ?_⟩
    rw [availableFriends, List.mem_mapIdx] at hmem
    obtain ⟨count, hcount, rfl⟩ := hmem
    rw [if_neg hzero]
    have hentry := List.mem_filter.mp (List.getElem_mem hcount)
    have hkept : ¬_ < 1 / 2 * maxProbability := (of_decide_eq_true hentry.2).2.2
    rw [not_lt] at hkept
    exact ⟨by linarith, hmax hzero _ hentry.1⟩

end Available

/-! ### The budget -/

theorem length_computeRoutingProbabilities (m : Matrix) (keyId : KeyId) (friends : List PeerId)
    (maximum : ℚ) : (m.computeRoutingProbabilities keyId friends maximum).2.1.length = friends.length := by
  rw [Matrix.computeRoutingProbabilities]
  split
  · exact List.length_replicate
  · dsimp only
    split
    · rw [List.length_map, List.length_map]
    · exact List.length_map _

/-- The largest value that a loop with `std::max` has seen. -/
theorem le_foldl_max (values : List ℚ) (first : ℚ) :
    first ≤ values.foldl max first ∧ ∀ value ∈ values, value ≤ values.foldl max first := by
  induction values generalizing first with
  | nil => exact ⟨le_rfl, fun value hmem => absurd hmem List.not_mem_nil⟩
  | cons value rest ih =>
      obtain ⟨hfirst, hrest⟩ := ih (max first value)
      refine ⟨(le_max_left _ _).trans hfirst, fun other hmem => ?_⟩
      rcases List.mem_cons.mp hmem with rfl | hmem
      · exact (le_max_right _ _).trans hfirst
      · exact hrest other hmem

/-- What is selected of sorted pairs, and the factors it gets. -/
theorem spread_selected {pairs : List (ℚ × PeerId)} (D : UInt32) {top : ℚ} (htop : 0 < top)
    (hnear : ∀ pair ∈ pairs, top ≤ 2 * pair.1 ∧ pair.1 ≤ top)
    (hnodup : (pairs.map Prod.snd).Nodup) :
    let maxCount := min (min pairs.length maxBranchingFactor) D.toNat
    let selected := pairs.reverse.take maxCount
    ∃ entries : List (PeerId × Nat),
      spread D.toNat maxCount (selected.map fun pair => (pair.1 / (selected.map Prod.fst).sum, pair.2)) 0
          ∅ = some (assign ∅ entries) ∧
        entries.length ≤ maxBranchingFactor ∧ (entries.map Prod.fst).Nodup ∧
        (∀ entry ∈ entries, entry.1 ∈ pairs.map Prod.snd ∧ 1 ≤ entry.2) ∧
        (entries = [] ∨ (entries.map Prod.snd).sum = D.toNat) := by
  intro maxCount selected
  have hlength : selected.length = maxCount := by
    rw [List.length_take, List.length_reverse]
    omega
  have hsubset : ∀ pair ∈ selected, pair ∈ pairs := fun pair hmem =>
    List.mem_reverse.mp (List.mem_of_mem_take hmem)
  have hselected : (selected.map Prod.snd).Nodup := by
    refine List.Nodup.sublist ((List.take_sublist _ _).map Prod.snd) ?_
    rw [List.map_reverse]
    exact List.nodup_reverse.mpr hnodup
  set normalised := selected.map fun pair => (pair.1 / (selected.map Prod.fst).sum, pair.2)
    with hnormalised
  have hcount : normalised.length = maxCount := by rw [hnormalised, List.length_map, hlength]
  rcases Nat.eq_zero_or_pos maxCount with hzero | hpos
  · refine ⟨[], ?_, Nat.zero_le _, List.nodup_nil, by simp, Or.inl rfl⟩
    rw [List.length_eq_zero_iff.mp (hcount.trans hzero)]
    rfl
  · have hbalanced : Balanced (normalised.map Prod.fst) := by
      have hfst : normalised.map Prod.fst =
          (selected.map Prod.fst).map (· / (selected.map Prod.fst).sum) := by
        rw [hnormalised, List.map_map, List.map_map]
        rfl
      rw [hfst]
      refine balanced_normalise ?_ htop ?_
      · rw [ne_eq, List.map_eq_nil_iff, ← List.length_eq_zero_iff]
        omega
      · intro p hp
        obtain ⟨pair, hpair, rfl⟩ := List.mem_map.mp hp
        exact hnear pair (hsubset pair hpair)
    have hpeers : normalised.map Prod.snd = selected.map Prod.snd := by
      rw [hnormalised, List.map_map]
      rfl
    obtain ⟨entries, hspread, hsplit⟩ := spread_split ∅ D.toNat_lt
      (by omega : 0 < normalised.length) (by omega) (by omega) hbalanced
    rw [hcount] at hspread
    refine ⟨entries, hspread, ?_, ?_, ?_, Or.inr hsplit.sum_eq⟩
    · have hlen := congrArg List.length hsplit.peers
      rw [List.length_map, List.length_map, hcount] at hlen
      omega
    · rw [hsplit.peers, hpeers]
      exact hselected
    · intro entry hentry
      refine ⟨?_, hsplit.positive entry hentry⟩
      have hmem : entry.1 ∈ entries.map Prod.fst := List.mem_map_of_mem hentry
      rw [hsplit.peers, hpeers] at hmem
      obtain ⟨pair, hpair, heq⟩ := List.mem_map.mp hmem
      exact List.mem_map.mpr ⟨pair, hsubset pair hpair, heq⟩

/-- The factors of the selected peers add up to the duplication factor, whatever the weights are. -/
theorem lockedCollectAvailableFriends_budget {ConnectState : Type} (m : Matrix)
    (friendList : OrderedMap PeerId ConnectState) (onlineIds : List PeerId) (random : RandomF32)
    (pairSort : PairSort) (gxsId : KeyId) (incomingRoutes : List PeerId)
    (duplicationFactor : UInt32) :
    ∃ factors : OrderedMap PeerId Nat,
      lockedCollectAvailableFriends m friendList onlineIds random pairSort gxsId incomingRoutes
          duplicationFactor ∅ = some factors ∧
        (∀ (peer : PeerId) (factor : Nat), factors[peer]? = some factor →
          peer ∈ onlineIds ∧ peer ∉ incomingRoutes ∧ 1 ≤ factor) ∧
        factors.size ≤ maxBranchingFactor ∧
        sumOver (fun _ factor => factor) factors ≤ duplicationFactor.toNat ∧
        (factors ≠ ∅ →
          sumOver (fun _ factor => factor) factors = duplicationFactor.toNat) ∧
        (duplicationFactor = 0 → factors = ∅) := by
  rw [lockedCollectAvailableFriends]
  set peers := getFriendList friendList
  have hlength := length_computeRoutingProbabilities m gxsId peers 1
  generalize m.computeRoutingProbabilities gxsId peers 1 = computed at *
  obtain ⟨known, probas, maximum⟩ := computed
  dsimp only at hlength ⊢
  generalize hmaxProbability :
    (if maximum < thresholdForRandomRouting then 0 else probas.foldl max 0) = maxProbability
  have hnonneg : 0 ≤ maxProbability := by
    rw [← hmaxProbability]
    split
    · exact le_rfl
    · exact (le_foldl_max probas 0).1
  have hmax : maxProbability ≠ 0 → ∀ entry ∈ peers.zip probas, entry.2 ≤ maxProbability := by
    intro hne entry hentry
    rw [← hmaxProbability] at hne ⊢
    split at hne
    case isTrue => exact absurd rfl hne
    case isFalse hthreshold =>
      rw [if_neg hthreshold]
      exact (le_foldl_max probas 0).2 _ (List.of_mem_zip hentry).2
  set available := availableFriends random onlineIds incomingRoutes maxProbability (peers.zip probas)
    with havailable
  have hperm := pairSort.perm available
  obtain ⟨top, htop, hnear⟩ := near_availableFriends hnonneg hmax
  have hnodup : ((pairSort.sort available).map Prod.snd).Nodup := by
    rw [(hperm.map Prod.snd).nodup_iff, havailable, map_snd_availableFriends]
    refine List.Nodup.sublist (List.filter_sublist.map Prod.fst) ?_
    rw [List.map_fst_zip hlength.ge]
    exact nodup_keys_toList friendList
  obtain ⟨entries, hspread, hbranching, hkeys, hentries, hsum⟩ :=
    spread_selected duplicationFactor htop (fun pair hmem => hnear pair (hperm.mem_iff.mp hmem)) hnodup
  have htotal : sumOver (fun _ factor => factor) (assign ∅ entries) = (entries.map Prod.snd).sum := by
    rw [sumOver_assign hkeys fun entry _ => Std.ExtTreeMap.getElem?_empty, sumOver_empty, Nat.zero_add]
  refine ⟨assign ∅ entries, hspread, ?_, ?_, ?_, ?_, ?_⟩
  · intro peer factor hlookup
    rcases lookup_assign hlookup with habsurd | hmem
    · rw [Std.ExtTreeMap.getElem?_empty] at habsurd
      exact absurd habsurd (by simp)
    · obtain ⟨hpeer, hfactor⟩ := hentries _ hmem
      obtain ⟨pair, hpair, heq⟩ := List.mem_map.mp hpeer
      obtain ⟨honline, hincoming⟩ := mem_availableFriends (hperm.mem_iff.mp hpair)
      rw [heq] at honline hincoming
      exact ⟨honline, hincoming, hfactor⟩
  · calc (assign ∅ entries).size
        ≤ (∅ : OrderedMap PeerId Nat).size + entries.length := size_assign_le
      _ = entries.length := by rw [Std.ExtTreeMap.size_empty, Nat.zero_add]
      _ ≤ maxBranchingFactor := hbranching
  · rw [htotal]
    rcases hsum with rfl | hsum
    · exact Nat.zero_le _
    · exact hsum.le
  · intro hne
    rw [htotal]
    rcases hsum with rfl | hsum
    · exact absurd rfl hne
    · exact hsum
  · rintro rfl
    rcases hsum with rfl | hsum
    · rfl
    · cases entries with
      | nil => rfl
      | cons entry rest =>
          have hfactor := (hentries entry List.mem_cons_self).2
          rw [List.map_cons, List.sum_cons] at hsum
          exact absurd hsum (by simp; omega)

end RetroShare.GRouter
