import RetroShare.Foundation.Transition
import RetroShare.GRouter.Matrix
import Mathlib.Data.List.Induction

/-!
# Indices of the routing matrix

Loading replaces the vector of friends, and the clue lists of the keys that were saved. The clue
lists of other keys stay as they are, with the indices of the old vector.
-/

namespace RetroShare.GRouter

open Transition

namespace Matrix

variable {m : Matrix} {now clock : Int}

/-! ### The two index maps -/

theorem indices_append (peers : List PeerId) (peer : PeerId) :
    indices (peers ++ [peer]) = (indices peers).insert peer peers.length := by
  simp [indices, List.zipIdx_append]

theorem indices_lookup {peers : List PeerId} (hnodup : peers.Nodup) (peer : PeerId) (i : Nat) :
    (indices peers)[peer]? = some i ↔ peers[i]? = some peer := by
  induction peers using List.reverseRecOn with
  | nil => simp [indices]
  | append_singleton peers last ih =>
      obtain ⟨hrest, -, hfresh⟩ := List.nodup_append.mp hnodup
      have hlast : last ∉ peers := fun hmem => hfresh last hmem last (List.mem_singleton_self _) rfl
      rw [indices_append, OrderedMap.lookup_insert]
      by_cases heq : last = peer
      case pos =>
        subst heq
        rw [if_pos rfl, Option.some_inj]
        constructor
        · rintro rfl
          simp
        · intro hlookup
          by_contra hne
          rcases Nat.lt_or_ge i peers.length with hlt | hge
          · rw [List.getElem?_append_left hlt] at hlookup
            exact hlast (List.mem_of_getElem? hlookup)
          · rw [List.getElem?_eq_none (by simp; omega)] at hlookup
            cases hlookup
      case neg =>
        rw [if_neg heq, ih hrest]
        rcases Nat.lt_or_ge i peers.length with hlt | hge
        · rw [List.getElem?_append_left hlt]
        · rw [List.getElem?_eq_none hge, List.getElem?_append_right hge]
          cases i - peers.length <;> simp [heq]

theorem size_indices {peers : List PeerId} (hnodup : peers.Nodup) :
    (indices peers).size = peers.length := by
  induction peers using List.reverseRecOn with
  | nil => simp [indices]
  | append_singleton peers last ih =>
      obtain ⟨hrest, -, hfresh⟩ := List.nodup_append.mp hnodup
      have hlast : last ∉ peers := fun hmem => hfresh last hmem last (List.mem_singleton_self _) rfl
      have hnone : last ∉ indices peers := by
        intro hmem
        obtain ⟨i, hi⟩ := Option.isSome_iff_exists.mp (Std.ExtTreeMap.isSome_getElem?_iff_mem.mpr hmem)
        exact hlast (List.mem_of_getElem? ((indices_lookup hrest last i).mp hi))
      rw [indices_append, Std.ExtTreeMap.size_insert,
        if_neg (Std.ExtTreeMap.contains_iff_mem.not.mpr hnone), ih hrest, List.length_append,
        List.length_singleton]

/-! ### Clue lists -/

/-- The clues of one key, where `friends` friends have an index. -/
structure CluesOk (friends : Nat) (clues : List RoutingMatrixHitEntry) : Prop where
  inRange : ∀ clue ∈ clues, clue.friendId < friends
  few : clues.length ≤ maxHitEntries
  newestFirst : clues.Pairwise fun a b => b.timeStamp ≤ a.timeStamp
  spaced : clues.Pairwise fun a b =>
    a.friendId = b.friendId → b.timeStamp + minTimeBetweenHits ≤ a.timeStamp

/-- The two index maps are inverse to each other, and the clues of every key are in order. -/
structure Consistent (m : Matrix) : Prop where
  inverse : ∀ (peer : PeerId) (i : Nat), m.friendIndices[peer]? = some i ↔ m.reverseFriendIndices[i]? = some peer
  size : m.friendIndices.size = m.reverseFriendIndices.length
  clues : ∀ (key : KeyId) clues, m.routingClues[key]? = some clues →
    CluesOk m.friendIndices.size clues

theorem CluesOk.mono {friends friends' : Nat} {clues : List RoutingMatrixHitEntry}
    (hok : CluesOk friends clues) (hle : friends ≤ friends') : CluesOk friends' clues :=
  { hok with inRange := fun clue hmem => (hok.inRange clue hmem).trans_le hle }

theorem cluesOk_nil (friends : Nat) : CluesOk friends [] :=
  ⟨fun _ hmem => absurd hmem List.not_mem_nil, Nat.zero_le _, .nil, .nil⟩

/-- A clue that is not too close to another one of its friend comes to the front. -/
theorem CluesOk.push {friends fid : Nat} {clues : List RoutingMatrixHitEntry} {weight : ℚ}
    (hok : CluesOk friends clues) (hfid : fid < friends)
    (hpast : ∀ clue ∈ clues, clue.timeStamp ≤ now)
    (hcalm : ∀ clue ∈ clues, fid = clue.friendId → clue.timeStamp + minTimeBetweenHits ≤ now) :
    CluesOk friends ((⟨fid, weight, now⟩ :: clues).take maxHitEntries) where
  inRange := by
    intro clue hmem
    rcases List.mem_cons.mp (List.mem_of_mem_take hmem) with rfl | hrest
    · exact hfid
    · exact hok.inRange clue hrest
  few := List.length_take_le _ _
  newestFirst := (List.pairwise_cons.mpr ⟨hpast, hok.newestFirst⟩).take
  spaced := (List.pairwise_cons.mpr ⟨hcalm, hok.spaced⟩).take

/-! ### What the operations keep -/

/-- `_friend_indices` is what loading the vector would make of it, and no clue is from the future. -/
structure Kept (m : Matrix) (clock : Int) : Prop where
  indices : m.friendIndices = Matrix.indices m.reverseFriendIndices
  nodup : m.reverseFriendIndices.Nodup
  clues : ∀ (key : KeyId) clues, m.routingClues[key]? = some clues →
    CluesOk m.reverseFriendIndices.length clues
  past : ∀ (key : KeyId) clues, m.routingClues[key]? = some clues →
    ∀ clue ∈ clues, clue.timeStamp ≤ clock

theorem Kept.consistent (hkept : m.Kept clock) : m.Consistent := by
  have hsize : m.friendIndices.size = m.reverseFriendIndices.length := by
    rw [hkept.indices, size_indices hkept.nodup]
  refine ⟨fun peer i => ?_, hsize, fun key clues hclues => hsize ▸ hkept.clues key clues hclues⟩
  rw [hkept.indices, indices_lookup hkept.nodup]

theorem Kept.mono {clock' : Int} (hkept : m.Kept clock) (hle : clock ≤ clock') : m.Kept clock' :=
  { hkept with past := fun key clues hclues clue hmem =>
      (hkept.past key clues hclues clue hmem).trans hle }

theorem kept_new (clock : Int) : new.Kept clock where
  indices := rfl
  nodup := List.nodup_nil
  clues := fun key clues hclues => by simp [new] at hclues
  past := fun key clues hclues => by simp [new] at hclues

theorem Kept.getFriendId (hkept : m.Kept clock) (sourceFriend : PeerId) :
    (m.getFriendId sourceFriend).2.Kept clock ∧
      (m.getFriendId sourceFriend).1 < (m.getFriendId sourceFriend).2.reverseFriendIndices.length := by
  unfold Matrix.getFriendId
  split
  case h_1 fid hknown =>
    rw [hkept.indices, indices_lookup hkept.nodup] at hknown
    exact ⟨hkept, (List.getElem?_eq_some_iff.mp hknown).1⟩
  case h_2 hunknown =>
    have hfresh : sourceFriend ∉ m.reverseFriendIndices := by
      intro hmem
      obtain ⟨i, hi⟩ := List.mem_iff_getElem?.mp hmem
      rw [← indices_lookup hkept.nodup, ← hkept.indices, hunknown] at hi
      cases hi
    refine ⟨⟨?_, ?_, ?_, hkept.past⟩, by simp⟩
    · rw [indices_append, hkept.indices]
    · rw [List.nodup_append]
      refine ⟨hkept.nodup, List.nodup_singleton _, ?_⟩
      rintro a ha b hb rfl
      exact hfresh (List.mem_singleton.mp hb ▸ ha)
    · exact fun key clues hclues => (hkept.clues key clues hclues).mono (by simp)

theorem Kept.addRoutingClue (hkept : m.Kept clock) (hclock : clock ≤ now) (keyId : KeyId)
    (sourceFriend : PeerId) (weight : ℚ) :
    (m.addRoutingClue keyId sourceFriend weight now).2.Kept now := by
  obtain ⟨hkept, hfid⟩ := (hkept.mono hclock).getFriendId sourceFriend
  unfold Matrix.addRoutingClue
  generalize m.getFriendId sourceFriend = friend at hkept hfid
  obtain ⟨fid, m⟩ := friend
  dsimp only at hkept hfid ⊢
  split
  case isTrue => exact hkept
  case isFalse hcalm =>
    have hlst : CluesOk m.reverseFriendIndices.length (m.routingClues[keyId]?.getD []) ∧
        ∀ clue ∈ m.routingClues[keyId]?.getD [], clue.timeStamp ≤ now := by
      cases hclues : m.routingClues[keyId]? with
      | none => exact ⟨cluesOk_nil _, fun _ hmem => absurd hmem List.not_mem_nil⟩
      | some clues => exact ⟨hkept.clues keyId clues hclues, hkept.past keyId clues hclues⟩
    generalize m.routingClues[keyId]?.getD [] = lst at hcalm hlst
    have hpush : CluesOk m.reverseFriendIndices.length
        ((⟨fid, weight, now⟩ :: lst).take maxHitEntries) := by
      refine hlst.1.push hfid hlst.2 fun clue hmem heq => ?_
      by_contra hclose
      exact hcalm (List.any_eq_true.mpr ⟨clue, hmem, by simp [heq, not_le.mp hclose]⟩)
    refine ⟨hkept.indices, hkept.nodup, fun key clues hclues => ?_, fun key clues hclues => ?_⟩ <;>
      rw [OrderedMap.lookup_insert] at hclues <;> split at hclues
    · cases hclues
      exact hpush
    · exact hkept.clues key clues hclues
    · cases hclues
      intro clue hmem
      rcases List.mem_cons.mp (List.mem_of_mem_take hmem) with rfl | hrest
      · exact le_rfl
      · exact hlst.2 clue hrest
    · exact hkept.past key clues hclues

/-! ### Updating -/

/-- No clue that is in range is written outside of the vector. -/
theorem addHits_defined (now : Int) : ∀ (clues : List RoutingMatrixHitEntry) (v : List ℚ),
    (∀ clue ∈ clues, clue.friendId < v.length) → ∃ v', clues.foldlM (addHit now) v = some v'
  | [], v, _ => ⟨v, rfl⟩
  | clue :: rest, v, hrange => by
      rw [List.foldlM_cons, addHit, List.getElem?_eq_getElem (hrange clue List.mem_cons_self)]
      refine addHits_defined now rest _ fun other hmem => ?_
      rw [List.length_set]
      exact hrange other (List.mem_cons_of_mem _ hmem)

theorem combineHits_defined (now : Int) {friends : Nat} :
    ∀ (entries : List (KeyId × List RoutingMatrixHitEntry)) (hits : OrderedMap KeyId (List ℚ)),
      (∀ entry ∈ entries, ∀ clue ∈ entry.2, clue.friendId < friends) →
        ∃ hits', entries.foldlM (combineHits now friends) hits = some hits'
  | [], hits, _ => ⟨hits, rfl⟩
  | entry :: rest, hits, hrange => by
      obtain ⟨v, hv⟩ := addHits_defined now entry.2 (List.replicate friends 0)
        (by simpa using hrange entry List.mem_cons_self)
      rw [List.foldlM_cons, combineHits, hv]
      exact combineHits_defined now rest _ fun other hmem =>
        hrange other (List.mem_cons_of_mem _ hmem)

theorem updateRoutingProbabilities_defined (hok : m.Consistent) (now : Int) :
    ∃ answer, m.updateRoutingProbabilities now = some answer := by
  unfold updateRoutingProbabilities
  split
  case isTrue => exact ⟨_, rfl⟩
  case isFalse =>
    have hrange : ∀ entry ∈ m.routingClues.toList,
        ∀ clue ∈ entry.2, clue.friendId < m.friendIndices.size := fun entry hmem =>
      (hok.clues entry.1 entry.2 ((OrderedMap.mem_toList _).mp hmem)).inRange
    obtain ⟨hits, hhits⟩ := combineHits_defined now m.routingClues.toList m.timeCombinedHits hrange
    exact ⟨_, by rw [hhits]; rfl⟩

theorem updateRoutingProbabilities_frame {m' : Matrix} {updated : Bool}
    (hupdate : m.updateRoutingProbabilities now = some (updated, m')) :
    ∃ hits need, m' = { m with timeCombinedHits := hits, probaNeedUpdating := need } := by
  unfold updateRoutingProbabilities at hupdate
  split at hupdate
  · cases hupdate
    exact ⟨_, _, rfl⟩
  · obtain ⟨hits, -, hupdate⟩ := Option.bind_eq_some_iff.mp hupdate
    cases hupdate
    exact ⟨_, _, rfl⟩

/-! ### Loading -/

/-- A list that was saved: the vector of friends comes first, and the clues agree with it. -/
structure Saved (items : List MatrixItem) (clock : Int) : Prop where
  friends : ∃ peers rest, items = .friendList peers :: rest ∧ peers.Nodup ∧
    ∀ item ∈ rest, match item with
      | .friendList _ => False
      | .clues _ clues => CluesOk peers.length clues ∧ ∀ clue ∈ clues, clue.timeStamp ≤ clock
      | .track _ _ _ => True

/-- Every clue that stays has an index in the vector that is loaded. -/
def Fits (m : Matrix) (items : List MatrixItem) : Prop :=
  ∀ (key : KeyId) clues, m.routingClues[key]? = some clues →
    (∀ saved, .clues key saved ∉ items) →
      ∀ peers, .friendList peers ∈ items → ∀ clue ∈ clues, clue.friendId < peers.length

theorem Saved.mono {items : List MatrixItem} {clock' : Int} (hsaved : Saved items clock)
    (hle : clock ≤ clock') : Saved items clock' := by
  obtain ⟨peers, rest, rfl, hnodup, hitems⟩ := hsaved.friends
  refine ⟨peers, rest, rfl, hnodup, fun item hmem => ?_⟩
  have hitem := hitems item hmem
  cases item with
  | friendList => exact hitem
  | clues key clues => exact ⟨hitem.1, fun clue hclue => (hitem.2 clue hclue).trans hle⟩
  | track => trivial

theorem saved_saveList (hkept : m.Kept clock) : Saved m.saveList clock := by
  refine ⟨m.reverseFriendIndices, _, rfl, hkept.nodup, fun item hmem => ?_⟩
  rcases List.mem_append.mp hmem with hclues | htrack
  · obtain ⟨⟨key, clues⟩, hentry, rfl⟩ := List.mem_map.mp hclues
    have hlookup := (OrderedMap.mem_toList _).mp hentry
    exact ⟨hkept.clues key clues hlookup, hkept.past key clues hlookup⟩
  · obtain ⟨entry, -, rfl⟩ := List.mem_map.mp htrack
    trivial

/-- Items other than the vector of friends replace clue lists, and leave the others. -/
theorem foldl_loadItem (items : List MatrixItem) (hitems : ∀ peers, .friendList peers ∉ items)
    (m : Matrix) :
    (items.foldl loadItem m).reverseFriendIndices = m.reverseFriendIndices ∧
      (items.foldl loadItem m).friendIndices = m.friendIndices ∧
      ∀ (key : KeyId) clues, (items.foldl loadItem m).routingClues[key]? = some clues →
        .clues key clues ∈ items ∨
          m.routingClues[key]? = some clues ∧ ∀ saved, .clues key saved ∉ items := by
  induction items using List.reverseRecOn with
  | nil => exact ⟨rfl, rfl, fun key clues hclues => .inr ⟨hclues, fun _ => List.not_mem_nil⟩⟩
  | append_singleton items item ih =>
      obtain ⟨hreverse, hindices, hclues⟩ :=
        ih fun peers hmem => hitems peers (List.mem_append_left _ hmem)
      rw [List.foldl_append, List.foldl_cons, List.foldl_nil]
      cases item with
      | friendList peers =>
          exact absurd (List.mem_append_right _ (List.mem_singleton_self _)) (hitems peers)
      | track mid providerId timeStamp =>
          refine ⟨hreverse, hindices, fun key clues hlookup => ?_⟩
          simpa using hclues key clues hlookup
      | clues key' clues' =>
          refine ⟨hreverse, hindices, fun key clues hlookup => ?_⟩
          rw [loadItem, OrderedMap.lookup_insert] at hlookup
          split at hlookup
          case isTrue heq =>
            cases hlookup
            exact .inl (heq ▸ List.mem_append_right _ (List.mem_singleton_self _))
          case isFalse hne =>
            refine (hclues key clues hlookup).imp (List.mem_append_left _) fun ⟨hold, hnone⟩ =>
              ⟨hold, fun saved hmem => ?_⟩
            rcases List.mem_append.mp hmem with hmem | hmem
            · exact hnone saved hmem
            · cases List.mem_singleton.mp hmem
              exact hne rfl

theorem Kept.loadList {items : List MatrixItem} (hkept : m.Kept clock) (hsaved : Saved items clock)
    (hfits : m.Fits items) : (m.loadList items).Kept clock := by
  obtain ⟨peers, rest, rfl, hnodup, hitems⟩ := hsaved.friends
  have hrest : ∀ peers, .friendList peers ∉ rest := fun peers hmem => hitems _ hmem
  obtain ⟨hreverse, hindices, hclues⟩ := foldl_loadItem rest hrest (m.loadItem (.friendList peers))
  have hlist : ∀ (key : KeyId) clues,
      (m.loadList (.friendList peers :: rest)).routingClues[key]? = some clues →
      CluesOk peers.length clues ∧ ∀ clue ∈ clues, clue.timeStamp ≤ clock := by
    intro key clues hlookup
    rcases hclues key clues hlookup with hmem | ⟨hold, hnone⟩
    · exact hitems _ hmem
    · have hstays : ∀ saved, .clues key saved ∉ .friendList peers :: rest := fun saved hmem =>
        hnone saved ((List.mem_cons.mp hmem).resolve_left nofun)
      exact ⟨{ hkept.clues key clues hold with
        inRange := hfits key clues hold hstays peers List.mem_cons_self }, hkept.past key clues hold⟩
  refine ⟨?_, ?_, fun key clues hlookup => ?_, fun key clues hlookup => (hlist key clues hlookup).2⟩
  · rw [Matrix.loadList, List.foldl_cons, hindices, hreverse]
    rfl
  · rw [Matrix.loadList, List.foldl_cons, hreverse]
    exact hnodup
  · rw [Matrix.loadList, List.foldl_cons, hreverse]
    exact (hlist key clues hlookup).1

theorem foldl_loadItem_stays (items : List MatrixItem) {key : KeyId}
    (hnone : ∀ saved, .clues key saved ∉ items) (m : Matrix) :
    (items.foldl loadItem m).routingClues[key]? = m.routingClues[key]? := by
  induction items generalizing m with
  | nil => rfl
  | cons item rest ih =>
      rw [List.foldl_cons, ih fun saved hmem => hnone saved (List.mem_cons_of_mem _ hmem)]
      cases item with
      | friendList => rfl
      | track => rfl
      | clues key' clues =>
          have hne : key' ≠ key := by
            rintro rfl
            exact hnone clues List.mem_cons_self
          exact OrderedMap.lookup_insert_ne _ _ hne

/-- A list that does not fit leaves a clue without a friend. -/
theorem Consistent.fits {items : List MatrixItem} (hsaved : Saved items clock)
    (hok : (m.loadList items).Consistent) : m.Fits items := by
  intro key clues hclues hstays peers hpeers
  obtain ⟨peers', rest, rfl, -, hitems⟩ := hsaved.friends
  have hrest : ∀ peers, .friendList peers ∉ rest := fun peers hmem => hitems _ hmem
  cases (List.mem_cons.mp hpeers).resolve_right (hrest peers)
  have hsize : (m.loadList (.friendList peers :: rest)).friendIndices.size = peers.length := by
    rw [hok.size, Matrix.loadList, List.foldl_cons,
      (foldl_loadItem rest hrest (m.loadItem (.friendList peers))).1]
    rfl
  rw [← hsize]
  exact (hok.clues key clues ((foldl_loadItem_stays _ hstays m).trans hclues)).inRange

end Matrix

/-! ### Runs -/

namespace MatrixWorld

variable {w w' : MatrixWorld}

/-- Time does not go back, and a list that is loaded was saved and fits the clues that stay. -/
def Fitting (w : MatrixWorld) : Int × MatrixOp → Prop
  | (now, .loadList items) => w.clock ≤ now ∧ items ∈ w.saved ∧ w.matrix.Fits items
  | (now, _) => w.clock ≤ now

structure Kept (w : MatrixWorld) : Prop where
  matrix : w.matrix.Kept w.clock
  saved : ∀ items ∈ w.saved, Matrix.Saved items w.clock

theorem Kept.step {event : Int × MatrixOp} (hkept : w.Kept) (hfitting : w.Fitting event)
    (hstep : w.step event = some w') : w'.Kept := by
  obtain ⟨now, op⟩ := event
  have hmatrix := hkept.matrix
  have hclock : w.clock ≤ now := by
    cases op with
    | loadList items => exact hfitting.1
    | _ => exact hfitting
  have hsaved : ∀ items ∈ w.saved, Matrix.Saved items now := fun items hmem =>
    (hkept.saved items hmem).mono hclock
  have hlater := hmatrix.mono hclock
  cases op with
  | addRoutingClue keyId sourceFriend weight =>
      cases hstep
      exact ⟨hmatrix.addRoutingClue hclock keyId sourceFriend weight, hsaved⟩
  | addTrackingInfo mid sourceFriend =>
      cases hstep
      exact ⟨⟨hlater.indices, hlater.nodup, hlater.clues, hlater.past⟩, hsaved⟩
  | cleanUp =>
      cases hstep
      exact ⟨⟨hlater.indices, hlater.nodup, hlater.clues, hlater.past⟩, hsaved⟩
  | updateRoutingProbabilities =>
      obtain ⟨⟨updated, m'⟩, hupdate, hstep⟩ := Option.bind_eq_some_iff.mp hstep
      cases hstep
      obtain ⟨hits, need, rfl⟩ := Matrix.updateRoutingProbabilities_frame hupdate
      exact ⟨⟨hlater.indices, hlater.nodup, hlater.clues, hlater.past⟩, hsaved⟩
  | saveList =>
      cases hstep
      exact ⟨hlater, List.forall_mem_cons.mpr ⟨Matrix.saved_saveList hlater, hsaved⟩⟩
  | loadList items =>
      cases hstep
      exact ⟨hlater.loadList (hsaved items hfitting.2.1) hfitting.2.2, hsaved⟩
  | restart =>
      cases hstep
      exact ⟨Matrix.kept_new now, hsaved⟩

def start (clock : Int) : MatrixWorld := ⟨.new, [], clock⟩

/-- **Consistency of the routing matrix.** As long as every list that is loaded fits the clues that
stay, the index maps are inverse bijections, the clues of each key are few, in order, spaced and in
range, and no update of the probabilities writes outside of its vector. -/
theorem consistent_of_reaches (clock : Int) (w : MatrixWorld)
    (hreach : Reaches step Fitting (start clock) w) :
    w.matrix.Consistent ∧
      (∀ now, ∃ answer, w.matrix.updateRoutingProbabilities now = some answer) ∧
      ∀ items ∈ w.saved, (w.matrix.loadList items).Consistent ↔ w.matrix.Fits items := by
  have hkept : w.Kept := hreach.invariant Kept (fun _ _ _ hkept hfitting => hkept.step hfitting)
    ⟨Matrix.kept_new clock, fun _ hmem => absurd hmem List.not_mem_nil⟩
  have hok := hkept.matrix.consistent
  refine ⟨hok, Matrix.updateRoutingProbabilities_defined hok, fun items hmem => ⟨?_, ?_⟩⟩
  · exact Matrix.Consistent.fits (hkept.saved items hmem)
  · exact fun hfits => (hkept.matrix.loadList (hkept.saved items hmem) hfits).consistent

/-! ### A clue from before the load -/

def sampleKey : KeyId := ⟨List.replicate 16 1, rfl⟩

def sampleFriend : PeerId := ⟨List.replicate 16 2, rfl⟩

/-- A first clue, in a world without a saved list. -/
def clued : MatrixWorld :=
  ⟨(Matrix.new.addRoutingClue sampleKey sampleFriend 1 0).2, [], 0⟩

theorem consistent_sample : clued.matrix.Consistent :=
  (consistent_of_reaches 0 clued
    ((Reaches.refl _).next (0, .addRoutingClue sampleKey sampleFriend 1) (le_refl (0 : Int)) rfl)).1

/-- Time does not go back, and only saved lists are loaded. -/
def Orderly (w : MatrixWorld) (event : Int × MatrixOp) : Prop :=
  w.clock ≤ event.1 ∧ ∀ items, event.2 = .loadList items → items ∈ w.saved

/-- The list of an empty matrix is loaded when there is a clue already. -/
theorem consistent_counterexample :
    ¬∀ (clock : Int) (w : MatrixWorld), Reaches step Orderly (start clock) w →
      ∀ now, ∃ answer, w.matrix.updateRoutingProbabilities now = some answer := by
  intro hclaim
  let items := Matrix.new.saveList
  let saved : MatrixWorld := ⟨.new, [items], 0⟩
  let heard : MatrixWorld := ⟨clued.matrix, [items], 0⟩
  let loaded : MatrixWorld := ⟨clued.matrix.loadList items, [items], 0⟩
  have hsaved : Reaches step Orderly (start 0) saved :=
    (Reaches.refl _).next (0, .saveList) ⟨le_refl (0 : Int), nofun⟩ rfl
  have hheard : Reaches step Orderly (start 0) heard :=
    hsaved.next (0, .addRoutingClue sampleKey sampleFriend 1) ⟨le_refl (0 : Int), nofun⟩ rfl
  have hloaded : Reaches step Orderly (start 0) loaded := by
    refine hheard.next (0, .loadList items) ⟨le_refl (0 : Int), ?_⟩ rfl
    rintro _ ⟨⟩
    exact List.mem_cons_self
  have hwrite : loaded.matrix.updateRoutingProbabilities 0 = none := by decide
  obtain ⟨answer, hanswer⟩ := hclaim 0 loaded hloaded 0
  cases hwrite.symm.trans hanswer

end MatrixWorld

end RetroShare.GRouter
