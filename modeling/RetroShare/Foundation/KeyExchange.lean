import Mathlib.Tactic

/-!
# Key exchange with renegotiation

Two ends exchange public keys over a channel in each direction. An end that starts sends a new public
key. An end that has started and receives one computes the common key; an end that has a common key
already starts again first, and so answers. A key that is received before the end has started is lost.

The ends agree once nothing is on its way. That an exchange comes to rest is a matter of counting:
every answer is a new question, and only an end that still waits for one ends the chain.
-/

namespace RetroShare.KeyExchange

inductive Side
  | left
  | right
  deriving DecidableEq

def Side.other : Side → Side
  | .left => .right
  | .right => .left

@[simp]
theorem Side.other_other (side : Side) : side.other.other = side := by
  cases side <;> rfl

@[simp]
theorem Side.other_ne (side : Side) : side.other ≠ side := by
  cases side <;> nofun

theorem Side.eq_or_eq_other (side a : Side) : a = side ∨ a = side.other := by
  cases side <;> cases a <;> simp [Side.other]

/-- An end that has not started, that waits for a public key, or that has a common key. -/
inductive End (Secret Key : Type)
  | absent
  | half (secret : Secret)
  | available (secret : Secret) (key : Key)

def End.secret {Secret Key : Type} : End Secret Key → Option Secret
  | .absent => none
  | .half secret => some secret
  | .available secret _ => some secret

/-- Ends that wait are counted. -/
def End.waiting {Secret Key : Type} : End Secret Key → Nat
  | .half _ => 1
  | _ => 0

section Ends

variable {Secret Key : Type} (secret : Secret) (key : Key)

@[simp]
theorem End.waiting_absent : (End.absent : End Secret Key).waiting = 0 := rfl

@[simp]
theorem End.waiting_half : (End.half secret : End Secret Key).waiting = 1 := rfl

@[simp]
theorem End.waiting_available : (End.available secret key).waiting = 0 := rfl

def End.present : End Secret Key → Bool
  | .absent => false
  | _ => true

/-- How many deliveries a public key on its way to an end may still cause. An answer goes to the other
end, so with both ends present a key towards an end that answers weighs most. -/
def End.weight (both : Bool) : End Secret Key → Nat
  | .absent => 1
  | .half _ => 2
  | .available _ _ => if both then 3 else 2

@[simp]
theorem End.present_absent : (End.absent : End Secret Key).present = false := rfl

@[simp]
theorem End.present_half : (End.half secret : End Secret Key).present = true := rfl

@[simp]
theorem End.present_available : (End.available secret key).present = true := rfl

/-- What a started end is after it tried to compute the common key. -/
def End.conclude {Public : Type} (agree : Secret → Public → Option Key) (secret : Secret)
    (key : Public) : End Secret Key :=
  match agree secret key with
  | none => .half secret
  | some common => .available secret common

end Ends

structure Exchange (Secret Public Key : Type) where
  ends : Side → End Secret Key
  towards : Side → List Public

namespace Exchange

variable {Secret Public Key : Type} (publicKey : Secret → Public)
  (agree : Secret → Public → Option Key)

def setEnd (x : Exchange Secret Public Key) (side : Side) (e : End Secret Key) :
    Exchange Secret Public Key :=
  { x with ends := Function.update x.ends side e }

def setTowards (x : Exchange Secret Public Key) (side : Side) (keys : List Public) :
    Exchange Secret Public Key :=
  { x with towards := Function.update x.towards side keys }

def start (x : Exchange Secret Public Key) (side : Side) (secret : Secret) :
    Exchange Secret Public Key :=
  (x.setEnd side (.half secret)).setTowards side.other (x.towards side.other ++ [publicKey secret])

def conclude (x : Exchange Secret Public Key) (side : Side) (secret : Secret) (key : Public) :
    Exchange Secret Public Key :=
  x.setEnd side (.conclude agree secret key)

/-- The oldest public key on its way to a side arrives; `fresh` is used when the side answers. -/
def deliver (x : Exchange Secret Public Key) (side : Side) (fresh : Secret) :
    Option (Exchange Secret Public Key) :=
  match x.towards side with
  | [] => none
  | key :: rest =>
      let x := x.setTowards side rest
      match x.ends side with
      | .absent => some x
      | .half secret => some (x.conclude agree side secret key)
      | .available _ _ => some ((x.start publicKey side fresh).conclude agree side fresh key)

def outstanding (x : Exchange Secret Public Key) : Nat :=
  (x.towards .left).length + (x.towards .right).length

def waiting (x : Exchange Secret Public Key) : Nat :=
  (x.ends .left).waiting + (x.ends .right).waiting

/-! ### Updates -/

section Updates

variable (x : Exchange Secret Public Key) (side : Side) (e : End Secret Key) (keys : List Public)

@[simp]
theorem ends_setEnd : (x.setEnd side e).ends side = e := Function.update_self ..

@[simp]
theorem ends_setEnd_other : (x.setEnd side e).ends side.other = x.ends side.other :=
  Function.update_of_ne side.other_ne ..

@[simp]
theorem towards_setEnd : (x.setEnd side e).towards = x.towards := rfl

@[simp]
theorem ends_setTowards : (x.setTowards side keys).ends = x.ends := rfl

@[simp]
theorem towards_setTowards : (x.setTowards side keys).towards side = keys :=
  Function.update_self ..

@[simp]
theorem towards_setTowards_other :
    (x.setTowards side keys).towards side.other = x.towards side.other :=
  Function.update_of_ne side.other_ne ..

@[simp]
theorem towards_setTowards_of_other :
    (x.setTowards side.other keys).towards side = x.towards side :=
  Function.update_of_ne side.other_ne.symm ..

theorem setEnd_self (hend : x.ends side = e) : x.setEnd side e = x := by
  rw [setEnd, ← hend, Function.update_eq_self]

theorem setTowards_self (htowards : x.towards side = keys) : x.setTowards side keys = x := by
  rw [setTowards, ← htowards, Function.update_eq_self]

theorem outstanding_eq :
    x.outstanding = (x.towards side).length + (x.towards side.other).length := by
  cases side with
  | left => rfl
  | right => exact Nat.add_comm _ _

theorem waiting_eq : x.waiting = (x.ends side).waiting + (x.ends side.other).waiting := by
  cases side with
  | left => rfl
  | right => exact Nat.add_comm _ _

theorem forall_side {P : Side → Prop} (side : Side) : (∀ a, P a) ↔ P side ∧ P side.other := by
  constructor
  · exact fun h => ⟨h side, h side.other⟩
  · rintro ⟨hside, hother⟩ a
    rcases side.eq_or_eq_other a with rfl | rfl
    · exact hside
    · exact hother

end Updates

/-- An answer, seen as one change. -/
theorem conclude_start (x : Exchange Secret Public Key) (side : Side) (secret : Secret)
    (key : Public) :
    (x.start publicKey side secret).conclude agree side secret key =
      (x.setEnd side (.conclude agree secret key)).setTowards side.other
        (x.towards side.other ++ [publicKey secret]) := by
  simp [Exchange.start, conclude, setEnd, setTowards]

/-- What a delivery can do, case by case of the end that it reaches. -/
theorem deliver_cases {x x' : Exchange Secret Public Key} {side : Side} {fresh : Secret}
    (hdeliver : x.deliver publicKey agree side fresh = some x') :
    ∃ key rest, x.towards side = key :: rest ∧
      ((x.ends side = .absent ∧ x' = x.setTowards side rest) ∨
        (∃ secret, x.ends side = .half secret ∧
          x' = (x.setTowards side rest).conclude agree side secret key) ∨
        (∃ old common, x.ends side = .available old common ∧
          x' = ((x.setTowards side rest).start publicKey side fresh).conclude agree side fresh key)) := by
  unfold deliver at hdeliver
  cases htowards : x.towards side with
  | nil => simp [htowards] at hdeliver
  | cons key rest =>
      refine ⟨key, rest, rfl, ?_⟩
      cases hend : x.ends side with
      | absent =>
          left
          simpa [htowards, hend, eq_comm] using hdeliver
      | half secret =>
          right; left
          exact ⟨secret, rfl, by simpa [htowards, hend, eq_comm] using hdeliver⟩
      | available old common =>
          right; right
          exact ⟨old, common, rfl, by simpa [htowards, hend, eq_comm] using hdeliver⟩

/-! ### Agreement -/

/-- The last public key on its way to a side is the other end's own; when none is on its way, a common
key on this side comes from it. -/
def SyncedAt (x : Exchange Secret Public Key) (side : Side) : Prop :=
  ∀ secret, (x.ends side.other).secret = some secret →
    (x.towards side).getLast? = some (publicKey secret) ∨
      x.towards side = [] ∧ ∀ own common, x.ends side = .available own common →
        agree own (publicKey secret) = some common

def Synced (x : Exchange Secret Public Key) : Prop := ∀ side, x.SyncedAt publicKey agree side

variable {publicKey agree} {x x' : Exchange Secret Public Key}

theorem Synced.start (hsynced : x.Synced publicKey agree) (side : Side) (secret : Secret) :
    (x.start publicKey side secret).Synced publicKey agree := by
  unfold Synced
  rw [forall_side side]
  constructor
  · intro other hother
    rcases hsynced side other (by simpa [Exchange.start] using hother) with hlast | ⟨hempty, -⟩
    · left
      simpa [Exchange.start] using hlast
    · right
      refine ⟨by simpa [Exchange.start] using hempty, ?_⟩
      intro own common hend
      simp [Exchange.start] at hend
  · intro own hown
    left
    have hsecret : secret = own := by simpa [Exchange.start, End.secret] using hown
    simp [Exchange.start, hsecret]

theorem Synced.giveUp (hsynced : x.Synced publicKey agree) (side : Side) :
    (x.setEnd side .absent).Synced publicKey agree := by
  unfold Synced
  rw [forall_side side]
  constructor
  · intro other hother
    rcases hsynced side other (by simpa using hother) with hlast | ⟨hempty, -⟩
    · exact .inl hlast
    · refine .inr ⟨hempty, fun own common hend => ?_⟩
      simp at hend
  · intro own hown
    simp [End.secret] at hown

@[simp]
theorem secret_conclude (x : Exchange Secret Public Key) (side : Side) (secret : Secret)
    (key : Public) : ((x.conclude agree side secret key).ends side).secret = some secret := by
  rw [conclude, ends_setEnd, End.conclude]
  split <;> rfl

@[simp]
theorem ends_conclude_other (x : Exchange Secret Public Key) (side : Side) (secret : Secret)
    (key : Public) : (x.conclude agree side secret key).ends side.other = x.ends side.other :=
  ends_setEnd_other ..

@[simp]
theorem towards_conclude (x : Exchange Secret Public Key) (side : Side) (secret : Secret)
    (key : Public) : (x.conclude agree side secret key).towards = x.towards := rfl

theorem agree_of_conclude {side : Side} {secret own : Secret} {key : Public} {common : Key}
    (hend : (x.conclude agree side secret key).ends side = .available own common) :
    agree own key = some common := by
  rw [conclude, ends_setEnd, End.conclude] at hend
  split at hend
  · cases hend
  · next hagree =>
      cases hend
      exact hagree

/-- An end that has just computed from the oldest key is in step with what follows it. -/
theorem syncedAt_conclude {side : Side} {secret : Secret} {key : Public} {rest : List Public}
    (hsynced : x.SyncedAt publicKey agree side) (htowards : x.towards side = key :: rest)
    {y : Exchange Secret Public Key} (hy : y.towards side = rest)
    (hyother : y.ends side.other = x.ends side.other) :
    (y.conclude agree side secret key).SyncedAt publicKey agree side := by
  intro other hother
  rw [ends_conclude_other, hyother] at hother
  have hlast : (key :: rest).getLast? = some (publicKey other) := by
    rcases hsynced other hother with hlast | ⟨hempty, -⟩
    · rwa [htowards] at hlast
    · rw [htowards] at hempty
      cases hempty
  rw [towards_conclude, hy]
  cases rest with
  | nil =>
      have hkey : key = publicKey other := by simpa using hlast
      refine .inr ⟨rfl, fun own common hend => ?_⟩
      rw [← hkey]
      exact agree_of_conclude hend
  | cons next rest => exact .inl (by rwa [List.getLast?_cons_cons] at hlast)

theorem Synced.deliver (hsynced : x.Synced publicKey agree) {side : Side} {fresh : Secret}
    (hdeliver : x.deliver publicKey agree side fresh = some x') : x'.Synced publicKey agree := by
  obtain ⟨key, rest, htowards, hcases⟩ := deliver_cases publicKey agree hdeliver
  rcases hcases with ⟨hend, rfl⟩ | ⟨secret, hend, rfl⟩ | ⟨old, common, hend, rfl⟩
  · unfold Synced
    rw [forall_side side]
    constructor
    · intro other hother
      rcases hsynced side other (by simpa using hother) with hlast | ⟨hempty, -⟩
      · rw [htowards] at hlast
        rw [towards_setTowards]
        cases rest with
        | nil => exact .inr ⟨rfl, fun own common havail => by simp [hend] at havail⟩
        | cons next rest => exact .inl (by rwa [List.getLast?_cons_cons] at hlast)
      · rw [htowards] at hempty
        cases hempty
    · intro own hown
      simp [hend, End.secret] at hown
  · unfold Synced
    rw [forall_side side]
    constructor
    · exact syncedAt_conclude (hsynced side) htowards (by simp) (by simp)
    · intro own hown
      have hsecret : secret = own := by simpa using hown
      have hold := hsynced side.other own (by simp [hend, End.secret, hsecret])
      simpa using hold
  · unfold Synced
    rw [forall_side side]
    constructor
    · exact syncedAt_conclude (hsynced side) htowards (by simp [Exchange.start])
        (by simp [Exchange.start])
    · intro own hown
      have hsecret : fresh = own := by simpa using hown
      left
      simp [Exchange.start, hsecret]

/-- **Agreement.** When nothing is on its way, two ends with a common key have the same one. -/
theorem Synced.agreement (hsynced : x.Synced publicKey agree)
    (hcomm : ∀ a b, agree a (publicKey b) = agree b (publicKey a))
    (hleft : x.towards .left = []) (hright : x.towards .right = []) {a b : Secret} {ka kb : Key}
    (ha : x.ends .left = .available a ka) (hb : x.ends .right = .available b kb) : ka = kb := by
  have hka : agree a (publicKey b) = some ka := by
    rcases hsynced .left b (by simp [Side.other, hb, End.secret]) with hlast | ⟨-, hagree⟩
    · simp [hleft] at hlast
    · exact hagree a ka ha
  have hkb : agree b (publicKey a) = some kb := by
    rcases hsynced .right a (by simp [Side.other, ha, End.secret]) with hlast | ⟨-, hagree⟩
    · simp [hright] at hlast
    · exact hagree b kb hb
  rw [hcomm a b, hkb] at hka
  exact (Option.some.inj hka).symm

/-! ### Coming to rest -/

/-- With both ends started, no more public keys are on their way than ends wait for one. -/
def Balanced (x : Exchange Secret Public Key) : Prop :=
  ∀ side, x.ends side = .absent ∨ x.ends side.other = .absent ∨ x.outstanding ≤ x.waiting

theorem balanced_of_side (side : Side)
    (h : x.ends side = .absent ∨ x.ends side.other = .absent ∨ x.outstanding ≤ x.waiting) :
    x.Balanced := by
  unfold Balanced
  rw [forall_side side, Side.other_other]
  exact ⟨h, by tauto⟩

/-- An end may start when no more public keys are on their way than the other end waits for. -/
theorem balanced_start {side : Side} {secret : Secret}
    (hroom : x.ends side.other = .absent ∨ x.outstanding ≤ (x.ends side.other).waiting) :
    (x.start publicKey side secret).Balanced := by
  apply balanced_of_side side
  right
  rcases hroom with habsent | hroom
  · left
    simpa [Exchange.start] using habsent
  · right
    rw [outstanding_eq _ side] at hroom
    rw [outstanding_eq _ side, waiting_eq _ side]
    simp [Exchange.start]
    omega

theorem balanced_giveUp (x : Exchange Secret Public Key) (side : Side) :
    (x.setEnd side .absent).Balanced :=
  balanced_of_side side (.inl (by simp))

/-- A present end is `half` or has a common key after it computed one. -/
theorem ends_conclude (agree : Secret → Public → Option Key) (x : Exchange Secret Public Key)
    (side : Side) (secret : Secret)
    (key : Public) :
    (x.conclude agree side secret key).ends side = .half secret ∨
      ∃ common, (x.conclude agree side secret key).ends side = .available secret common := by
  rw [conclude, ends_setEnd, End.conclude]
  split
  · exact .inl rfl
  · exact .inr ⟨_, rfl⟩

theorem Balanced.deliver (hbalanced : x.Balanced) {side : Side} {fresh : Secret}
    (hdeliver : x.deliver publicKey agree side fresh = some x') : x'.Balanced := by
  obtain ⟨key, rest, htowards, hcases⟩ := deliver_cases publicKey agree hdeliver
  have hside := hbalanced side
  rw [outstanding_eq _ side, waiting_eq _ side, htowards] at hside
  apply balanced_of_side side
  rw [outstanding_eq _ side, waiting_eq _ side]
  rcases hcases with ⟨hend, rfl⟩ | ⟨secret, hend, rfl⟩ | ⟨old, common, hend, rfl⟩
  · exact .inl (by simpa using hend)
  · right
    have hwait := ends_conclude agree (x.setTowards side rest) side secret key
    simp only [hend, End.waiting_half, List.length_cons, reduceCtorEq, false_or] at hside
    simp only [ends_conclude_other, ends_setTowards, towards_conclude, towards_setTowards,
      towards_setTowards_other]
    apply hside.imp_right
    intro hle
    rcases hwait with hwait | ⟨common, hwait⟩
    · simp only [hwait, End.waiting_half]
      omega
    · simp only [hwait, End.waiting_available]
      omega
  · right
    simp only [hend, End.waiting_available, List.length_cons, reduceCtorEq, false_or] at hside
    simp only [ends_conclude_other, towards_conclude, Exchange.start, ends_setTowards,
      ends_setEnd_other, towards_setTowards_of_other, towards_setTowards_other, towards_setEnd,
      towards_setTowards, List.length_append, List.length_singleton]
    apply hside.imp_right
    omega

def bothPresent (x : Exchange Secret Public Key) : Bool :=
  (x.ends .left).present && (x.ends .right).present

def potential (x : Exchange Secret Public Key) : Nat :=
  (x.ends .left).weight x.bothPresent * (x.towards .left).length +
    (x.ends .right).weight x.bothPresent * (x.towards .right).length

theorem bothPresent_eq (x : Exchange Secret Public Key) (side : Side) :
    x.bothPresent = ((x.ends side).present && (x.ends side.other).present) := by
  cases side with
  | left => rfl
  | right => exact Bool.and_comm _ _

theorem potential_eq (x : Exchange Secret Public Key) (side : Side) :
    x.potential = (x.ends side).weight x.bothPresent * (x.towards side).length +
      (x.ends side.other).weight x.bothPresent * (x.towards side.other).length := by
  cases side with
  | left => rfl
  | right => exact Nat.add_comm _ _

@[simp]
theorem present_conclude (x : Exchange Secret Public Key) (side : Side) (secret : Secret)
    (key : Public) : ((x.conclude agree side secret key).ends side).present = true := by
  rcases ends_conclude agree x side secret key with hend | ⟨common, hend⟩
  · rw [hend, End.present_half]
  · rw [hend, End.present_available]

/-- Every delivery lowers the potential of a balanced exchange. -/
theorem Balanced.potential_deliver (hbalanced : x.Balanced) {side : Side} {fresh : Secret}
    (hdeliver : x.deliver publicKey agree side fresh = some x') : x'.potential < x.potential := by
  obtain ⟨key, rest, htowards, hcases⟩ := deliver_cases publicKey agree hdeliver
  have hside := hbalanced side
  rw [outstanding_eq _ side, waiting_eq _ side, htowards, List.length_cons] at hside
  rw [potential_eq x' side, potential_eq x side, bothPresent_eq x' side, bothPresent_eq x side,
    htowards, List.length_cons]
  rcases hcases with ⟨hend, rfl⟩ | ⟨secret, hend, rfl⟩ | ⟨old, common, hend, rfl⟩
  · simp [hend, End.weight]
  · have hwait := ends_conclude agree (x.setTowards side rest) side secret key
    simp only [ends_conclude_other, ends_setTowards, towards_conclude, towards_setTowards,
      towards_setTowards_other, present_conclude, hend, End.present_half, Bool.true_and]
    simp only [hend, End.waiting_half, reduceCtorEq, false_or] at hside
    rcases hwait with hwait | ⟨common, hwait⟩
    · simp only [hwait, End.weight]
      omega
    · cases hother : x.ends side.other with
      | absent =>
          simp only [hwait, End.weight, End.present_absent, Bool.false_eq_true, ↓reduceIte]
          omega
      | half own =>
          simp only [hother, reduceCtorEq, false_or, End.waiting_half] at hside
          simp only [hwait, End.weight, End.present_half, ↓reduceIte]
          omega
      | available own common =>
          simp only [hother, reduceCtorEq, false_or, End.waiting_available] at hside
          simp only [hwait, End.weight, End.present_available, ↓reduceIte]
          omega
  · have hwait := ends_conclude agree
      ((x.setTowards side rest).start publicKey side fresh) side fresh key
    simp only [hend, End.waiting_available, reduceCtorEq, false_or] at hside
    simp only [ends_conclude_other, towards_conclude, present_conclude, Exchange.start,
      ends_setTowards, ends_setEnd_other, towards_setTowards_of_other, towards_setTowards_other,
      towards_setEnd, towards_setTowards, List.length_append, List.length_singleton, hend,
      End.present_available, Bool.true_and] at hwait ⊢
    cases hother : x.ends side.other with
    | absent =>
        rcases hwait with hwait | ⟨common, hwait⟩
        all_goals
          simp only [hwait, End.weight, End.present_absent, Bool.false_eq_true, ↓reduceIte]
          omega
    | half own =>
        simp only [hother, reduceCtorEq, false_or, End.waiting_half] at hside
        rcases hwait with hwait | ⟨common, hwait⟩
        all_goals
          simp only [hwait, End.weight, End.present_half, ↓reduceIte]
          omega
    | available own common =>
        -- nothing may be on its way to two ends that would both answer
        simp only [hother, reduceCtorEq, false_or, End.waiting_available] at hside
        omega

/-! ### Answering each other -/

/-- Every public key on its way is one of an end. -/
def Genuine (publicKey : Secret → Public) (x : Exchange Secret Public Key) : Prop :=
  ∀ side, ∀ key ∈ x.towards side, ∃ secret, key = publicKey secret

theorem Genuine.start (hgenuine : x.Genuine publicKey) (side : Side) (secret : Secret) :
    (x.start publicKey side secret).Genuine publicKey := by
  unfold Genuine
  rw [forall_side side]
  constructor
  · intro key hmem
    exact hgenuine side key (by simpa [Exchange.start] using hmem)
  · intro key hmem
    simp only [Exchange.start, towards_setTowards, List.mem_append, List.mem_singleton] at hmem
    rcases hmem with hold | hnew
    · exact hgenuine side.other key hold
    · exact ⟨secret, hnew⟩

theorem Genuine.pop (hgenuine : x.Genuine publicKey) {side : Side} {key : Public}
    {rest : List Public} (htowards : x.towards side = key :: rest) :
    (x.setTowards side rest).Genuine publicKey := by
  unfold Genuine
  rw [forall_side side, towards_setTowards, towards_setTowards_other]
  exact ⟨fun key hmem => hgenuine side key (by simp [htowards, hmem]), hgenuine side.other⟩

theorem Genuine.deliver (hgenuine : x.Genuine publicKey) {side : Side} {fresh : Secret}
    (hdeliver : x.deliver publicKey agree side fresh = some x') : x'.Genuine publicKey := by
  obtain ⟨key, rest, htowards, hcases⟩ := deliver_cases publicKey agree hdeliver
  have hpopped := hgenuine.pop htowards
  rcases hcases with ⟨-, rfl⟩ | ⟨secret, -, rfl⟩ | ⟨old, common, -, rfl⟩
  · exact hpopped
  · exact hpopped
  · exact hpopped.start side fresh

/-- Both ends have started and more public keys are on their way than ends wait for one. -/
structure Crowded (x : Exchange Secret Public Key) : Prop where
  present : ∀ side, (x.ends side).present = true
  crowd : x.waiting < x.outstanding

theorem Crowded.exists_towards (hcrowded : x.Crowded) : ∃ side, x.towards side ≠ [] := by
  by_contra hnone
  push Not at hnone
  have hcrowd := hcrowded.crowd
  rw [outstanding, hnone .left, hnone .right] at hcrowd
  exact absurd hcrowd (by simp)

theorem conclude_of_agree (x : Exchange Secret Public Key) (side : Side) {secret : Secret}
    {key : Public} (hagree : agree secret key ≠ none) :
    ∃ common, x.conclude agree side secret key = x.setEnd side (.available secret common) := by
  obtain ⟨common, hcommon⟩ := Option.ne_none_iff_exists'.mp hagree
  exact ⟨common, by simp [conclude, End.conclude, hcommon]⟩

/-- Where every computation succeeds, a delivery leaves a crowded exchange crowded: such ends answer
each other for ever. -/
theorem Crowded.deliver (hcrowded : x.Crowded) (hgenuine : x.Genuine publicKey)
    (hagree : ∀ a b, agree a (publicKey b) ≠ none) {side : Side} {fresh : Secret}
    (hdeliver : x.deliver publicKey agree side fresh = some x') : x'.Crowded := by
  obtain ⟨key, rest, htowards, hcases⟩ := deliver_cases publicKey agree hdeliver
  obtain ⟨sent, hkey⟩ := hgenuine side key (by simp [htowards])
  have hother := hcrowded.present side.other
  have hcrowd := hcrowded.crowd
  rw [outstanding_eq _ side, waiting_eq _ side, htowards, List.length_cons] at hcrowd
  rcases hcases with ⟨hend, -⟩ | ⟨secret, hend, rfl⟩ | ⟨old, common, hend, rfl⟩
  · have hpresent := hcrowded.present side
    rw [hend] at hpresent
    cases hpresent
  · obtain ⟨common, hconclude⟩ := conclude_of_agree (x.setTowards side rest) side
      (hkey ▸ hagree secret sent)
    rw [hconclude]
    refine ⟨(forall_side side).mpr (by simp [hother]), ?_⟩
    rw [outstanding_eq _ side, waiting_eq _ side]
    simp only [hend, End.waiting_half] at hcrowd
    simp
    omega
  · obtain ⟨common, hconclude⟩ := conclude_of_agree
      ((x.setTowards side rest).start publicKey side fresh) side
      (hkey ▸ hagree fresh sent)
    rw [hconclude]
    refine ⟨(forall_side side).mpr (by simp [Exchange.start, hother]), ?_⟩
    rw [outstanding_eq _ side, waiting_eq _ side]
    simp only [hend, End.waiting_available] at hcrowd
    simp [Exchange.start]
    omega

end Exchange

end RetroShare.KeyExchange
