import RetroShare.Dht.Peer
import RetroShare.Foundation.Word
import Mathlib.Data.List.Lex
import Mathlib.Data.Set.Basic

/-!
# The order of the peer addresses

`operator<` compares node ids, then addresses, then ports. Of two addresses of one node, it takes the
first as the smaller one when its address is smaller, and also when its port is.
-/

namespace RetroShare.Dht

/-! ### Node ids -/

theorem lessBytes_iff : ∀ as bs : List UInt8, as.length = bs.length →
    (lessBytes as bs = true ↔ as < bs)
  | [], [], _ => by simp [lessBytes]
  | a :: as, b :: bs, hlength => by
      have ih := lessBytes_iff as bs (Nat.succ.inj hlength)
      rw [lessBytes, List.cons_lt_cons_iff]
      split_ifs with hless hgreater
      · exact iff_of_true rfl (.inl hless)
      · refine iff_of_false not_false ?_
        rintro (hlt | ⟨rfl, _⟩)
        · exact hless hlt
        · exact lt_irrefl a hgreater
      · have heq : a = b := le_antisymm (not_lt.mp hgreater) (not_lt.mp hless)
        rw [ih]
        exact ⟨fun hlt => .inr ⟨heq, hlt⟩, fun hlt => (hlt.resolve_left hless).2⟩

theorem sameBytes_iff : ∀ as bs : List UInt8, as.length = bs.length →
    (sameBytes as bs = true ↔ as = bs)
  | [], [], _ => by simp [sameBytes]
  | a :: as, b :: bs, hlength => by
      have ih := sameBytes_iff as bs (Nat.succ.inj hlength)
      rw [sameBytes, List.cons_eq_cons]
      split_ifs with hless hgreater
      · exact iff_of_false not_false fun heq => hless.ne heq.1
      · exact iff_of_false not_false fun heq => hgreater.ne' heq.1
      · have heq : a = b := le_antisymm (not_lt.mp hgreater) (not_lt.mp hless)
        rw [ih, and_iff_right heq]

namespace PeerAddr

theorem lessBytes_id (a b : PeerAddr) : lessBytes a.id.1 b.id.1 = true ↔ a.id.1 < b.id.1 :=
  lessBytes_iff _ _ (a.id.2.trans b.id.2.symm)

/-! ### Addresses -/

/-- **What `operator<` compares.** -/
theorem less_iff (a b : PeerAddr) :
    a.less b = true ↔ a.id.1 < b.id.1 ∨ a.id = b.id ∧ (a.ip < b.ip ∨ a.port < b.port) := by
  rw [less]
  split_ifs with hless hgreater hip
  · exact iff_of_true rfl (.inl ((lessBytes_id a b).mp hless))
  · have hlt := (lessBytes_id b a).mp hgreater
    refine iff_of_false not_false ?_
    rintro (hlt' | ⟨heq, _⟩)
    · exact lt_asymm hlt hlt'
    · exact hlt.ne (congrArg Subtype.val heq.symm)
  all_goals
    rw [lessBytes_id] at hless hgreater
    have heq : a.id = b.id := Subtype.ext (le_antisymm (not_lt.mp hgreater) (not_lt.mp hless))
  · exact iff_of_true rfl (.inr ⟨heq, .inl hip⟩)
  · rw [decide_eq_true_iff]
    exact ⟨fun hport => .inr ⟨heq, .inr hport⟩,
      fun hor => ((hor.resolve_left hless).2).resolve_left hip⟩

theorem same_iff (a b : PeerAddr) : a.same b = true ↔ a = b := by
  have hsame := sameBytes_iff a.id.1 b.id.1 (a.id.2.trans b.id.2.symm)
  rw [same]
  split_ifs with hid
  · refine iff_of_false not_false ?_
    rintro rfl
    rw [hsame.mpr rfl] at hid
    cases hid
  · rw [Bool.not_eq_true', Bool.not_eq_false, hsame] at hid
    have heq : a.id = b.id := Subtype.ext hid
    rw [decide_eq_true_iff]
    constructor
    · rintro ⟨hip, hport⟩
      cases a
      cases b
      cases heq
      cases hip
      cases hport
      rfl
    · rintro rfl
      exact ⟨rfl, rfl⟩

/-- Two addresses of one node of which the first has the smaller address and the second the smaller
port. -/
def Crossed (a b : PeerAddr) : Prop := a.id = b.id ∧ a.ip < b.ip ∧ b.port < a.port

/-- What a sorted container needs of the operators, for the keys it holds. -/
def StrictlyOrders (keys : Set PeerAddr) : Prop :=
  ∀ a ∈ keys, ∀ b ∈ keys, ∀ c ∈ keys,
    ¬ (a.less b = true ∧ b.less a = true) ∧
      (a.less b = true → b.less c = true → a.less c = true) ∧
      (¬ a.less b = true ∧ ¬ b.less a = true ↔ a.same b = true)

theorem less_both_iff {a b : PeerAddr} :
    a.less b = true ∧ b.less a = true ↔ Crossed a b ∨ Crossed b a := by
  rw [less_iff, less_iff]
  constructor
  · rintro ⟨hab | ⟨hid, hab⟩, hba | ⟨hid', hba⟩⟩
    · exact absurd hab (lt_asymm hba)
    · exact absurd hab (hid' ▸ lt_irrefl _)
    · exact absurd hba (hid ▸ lt_irrefl _)
    · rcases hab with hip | hport
      · exact .inl ⟨hid, hip, hba.resolve_left (UInt32.lt_asymm hip)⟩
      · exact .inr ⟨hid', hba.resolve_right (UInt16.lt_asymm hport), hport⟩
  · rintro (⟨hid, hip, hport⟩ | ⟨hid, hip, hport⟩)
    · exact ⟨.inr ⟨hid, .inl hip⟩, .inr ⟨hid.symm, .inr hport⟩⟩
    · exact ⟨.inr ⟨hid.symm, .inr hport⟩, .inr ⟨hid, .inl hip⟩⟩

/-- Neither comes first only if they are equal. -/
theorem not_less_iff {a b : PeerAddr} : ¬ a.less b = true ∧ ¬ b.less a = true ↔ a = b := by
  rw [less_iff, less_iff]
  constructor
  · rintro ⟨hab, hba⟩
    obtain ⟨hidab, hab⟩ := not_or.mp hab
    obtain ⟨hidba, hba⟩ := not_or.mp hba
    have hid : a.id = b.id := Subtype.ext (le_antisymm (not_lt.mp hidba) (not_lt.mp hidab))
    obtain ⟨hip, hport⟩ := not_or.mp fun hor => hab ⟨hid, hor⟩
    obtain ⟨hip', hport'⟩ := not_or.mp fun hor => hba ⟨hid.symm, hor⟩
    cases a
    cases b
    cases hid
    cases UInt32.le_antisymm (UInt32.not_lt.mp hip') (UInt32.not_lt.mp hip)
    cases UInt16.le_antisymm (UInt16.not_lt.mp hport') (UInt16.not_lt.mp hport)
    rfl
  · rintro rfl
    have hnot : ¬ (a.id.1 < a.id.1 ∨ a.id = a.id ∧ (a.ip < a.ip ∨ a.port < a.port)) := by
      rintro (hlt | ⟨_, hip | hport⟩)
      · exact lt_irrefl _ hlt
      · exact UInt32.lt_irrefl _ hip
      · exact UInt16.lt_irrefl _ hport
    exact ⟨hnot, hnot⟩

theorem less_trans {a b c : PeerAddr} (hab : a.less b = true) (hbc : b.less c = true)
    (hab' : ¬ Crossed a b ∧ ¬ Crossed b a) (hbc' : ¬ Crossed b c ∧ ¬ Crossed c b) :
    a.less c = true := by
  rw [less_iff] at hab hbc ⊢
  rcases hab with hab | ⟨hid, hab⟩ <;> rcases hbc with hbc | ⟨hid', hbc⟩
  · exact .inl (hab.trans hbc)
  · exact .inl (hid' ▸ hab)
  · exact .inl (hid ▸ hbc)
  · refine .inr ⟨hid.trans hid', ?_⟩
    simp only [Crossed, hid, hid', true_and, UInt32.lt_iff_toNat_lt, UInt16.lt_iff_toNat_lt]
      at hab hbc hab' hbc' ⊢
    omega

/-- **The order of the keys.** The operators order a set of addresses strictly and totally, in line
with equality, if and only if no two of them are crossed. -/
theorem strictlyOrders_iff (keys : Set PeerAddr) :
    StrictlyOrders keys ↔ ∀ a ∈ keys, ∀ b ∈ keys, ¬ Crossed a b := by
  constructor
  · intro horders a ha b hb hcrossed
    exact (horders a ha b hb a ha).1 (less_both_iff.mpr (.inl hcrossed))
  · intro hcrossed a ha b hb c hc
    refine ⟨fun hboth => ?_, fun hab hbc => ?_, ?_⟩
    · rcases less_both_iff.mp hboth with hab | hba
      · exact hcrossed a ha b hb hab
      · exact hcrossed b hb a ha hba
    · exact less_trans hab hbc ⟨hcrossed a ha b hb, hcrossed b hb a ha⟩
        ⟨hcrossed b hb c hc, hcrossed c hc b hb⟩
    · rw [same_iff]
      exact not_less_iff

/-- Two addresses of one node, such as the address that it is reached at and another one. -/
theorem strictlyOrders_counterexample : ¬ StrictlyOrders Set.univ := by
  intro horders
  let id : NodeId := ⟨List.replicate keyLen 0, List.length_replicate⟩
  exact (horders ⟨id, 1, 2⟩ trivial ⟨id, 2, 1⟩ trivial ⟨id, 1, 2⟩ trivial).1 ⟨by decide, by decide⟩

end PeerAddr

end RetroShare.Dht
