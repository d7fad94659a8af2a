import Mathlib.Tactic
import RetroShare.Foundation.Transition
import RetroShare.Gxs.Vetting

/-!
# When the vetting pass ends

A group request always leaves the iterator behind itself. A message request whose items cannot all
be encrypted is looked at again at once, so the pass is one look per vetting exactly when no such
request comes up.
-/

namespace RetroShare.Gxs

open Transition Loop

variable {World Encrypted : Type} (around : Surroundings World Encrypted)

theorem run_pure {A : Type} (a : A) (world : World) :
    (pure a : StateM World A).run world = (a, world) :=
  rfl

theorem run_bind {A B : Type} (x : StateM World A) (next : A → StateM World B) (world : World) :
    (x >>= next).run world = (next (x.run world).1).run (x.run world).2 :=
  rfl

/-! ### Encrypting a message request -/

/-- Every item of the message ids can be encrypted, one after the other. -/
def MsgCircleIdsRequestVetting.Encrypts (msgPend : MsgCircleIdsRequestVetting) (transN : UInt32) :
    List MsgIdCircleVet → World → Prop
  | [], _ => True
  | mic :: rest, world =>
      let (encryptedItem, world) := (around.encryptSingleNxsItem (msgPend.item transN mic)
        msgPend.mCircleId msgPend.mGrpId).run world
      encryptedItem.isSome ∧ msgPend.Encrypts transN rest world

/-- A message request that is cleared, and whose circle asks for encryption, has only items that can
be encrypted. -/
def GrpCircleVetting.Encryptable (gcv : GrpCircleVetting) (world : World) : Prop :=
  match gcv with
  | grpIdPend _ => True
  | msgIdSendPend mcirv =>
      let ((clear, mcirv), world) := (mcirv.cleared around).run world
      let numbered := around.getTransactionId.run world
      clear = true → mcirv.mShouldEncrypt = true →
        mcirv.Encrypts around numbered.1 mcirv.mMsgs numbered.2

/-- The same of a vetting that comes up, where it is only needed if the vetting is due. -/
def GrpCircleVetting.EncryptableWhenDue (gcv : GrpCircleVetting) (world : World) : Prop :=
  let ((clear, old, looked), world) := (gcv.due around).run world
  (clear || old) = true → looked.Encryptable around world

theorem MsgCircleIdsRequestVetting.items_isSome (msgPend : MsgCircleIdsRequestVetting)
    (transN : UInt32) : ∀ (mMsgs : List MsgIdCircleVet) (world : World),
      ((msgPend.items around transN mMsgs).run world).1.isSome = true ↔
        (msgPend.mShouldEncrypt = true → msgPend.Encrypts around transN mMsgs world)
  | [], world => by simp only [items, Encrypts, run_pure, Option.isSome_some, implies_true]
  | mic :: rest, world => by
      have ih := items_isSome msgPend transN rest
      rw [items, Encrypts]
      by_cases hencrypt : msgPend.mShouldEncrypt = true
      case pos =>
        simp only [hencrypt, true_implies] at ih
        rw [if_pos hencrypt, run_bind]
        generalize (around.encryptSingleNxsItem (msgPend.item transN mic) msgPend.mCircleId
          msgPend.mGrpId).run world = answer
        obtain ⟨encryptedItem, world⟩ := answer
        cases encryptedItem
        case none => simp only [run_pure, Option.isSome_none, Bool.false_eq_true, false_and, hencrypt,
          true_implies]
        case some => simp only [run_bind, run_pure, Option.isSome_map, ih, hencrypt, true_implies,
          Option.isSome_some, true_and]
      case neg =>
        rw [if_neg hencrypt, run_bind, run_pure, Option.isSome_map, ih]
        simp only [hencrypt, Bool.false_eq_true, false_implies]

theorem MsgCircleIdsRequestVetting.createTransactionFromPending_run
    (msgPend : MsgCircleIdsRequestVetting) (world : World) :
    ((msgPend.createTransactionFromPending around).run world).1 = true ↔
      (msgPend.mShouldEncrypt = true →
        msgPend.Encrypts around (around.getTransactionId.run world).1 msgPend.mMsgs
          (around.getTransactionId.run world).2) := by
  rw [← items_isSome, createTransactionFromPending, run_bind, run_bind]
  generalize (msgPend.items around _ msgPend.mMsgs).run _ = answer
  obtain ⟨itemL, world⟩ := answer
  cases itemL
  case none => simp only [run_pure, Option.isSome_none]
  case some itemL =>
    dsimp only
    split <;> simp only [run_bind, run_pure, Option.isSome_some]

/-! ### One look -/

/-- The vetting should have had a transaction and has none. -/
def Examination.Refused (exam : Examination) : Prop := exam.created = some false

theorem GrpCircleVetting.examine_before (gcv : GrpCircleVetting) (world : World) :
    ((gcv.examine around).run world).1.before = gcv := by
  rw [examine, run_bind]
  generalize (gcv.due around).run world = looked
  obtain ⟨⟨clear, old, looked⟩, world⟩ := looked
  dsimp only
  split <;> rfl

theorem GrpCircleVetting.settle_refused (gcv : GrpCircleVetting) (world : World) :
    ((gcv.settle around).run world).1.1 = some false ↔ ¬gcv.Encryptable around world := by
  cases gcv with
  | grpIdPend gcirv =>
      simp only [settle, GrpCircleIdRequestVetting.createTransactionFromPending, run_bind, run_pure,
        Encryptable, not_true, iff_false]
      split <;> simp
  | msgIdSendPend mcirv =>
      simp only [settle, Encryptable, run_bind]
      generalize (mcirv.cleared around).run world = looked
      obtain ⟨⟨clear, mcirv⟩, world⟩ := looked
      cases clear
      case false => simp only [Bool.false_eq_true, if_false, run_pure, reduceCtorEq, false_implies,
        not_true]
      case true =>
        simp only [if_true, run_bind, run_pure, true_implies, Option.some_inj]
        rw [← Bool.not_eq_true, mcirv.createTransactionFromPending_run]

theorem GrpCircleVetting.examine_refused (gcv : GrpCircleVetting) (world : World) :
    ((gcv.examine around).run world).1.Refused ↔ ¬gcv.EncryptableWhenDue around world := by
  rw [examine, run_bind, EncryptableWhenDue]
  generalize (gcv.due around).run world = looked
  obtain ⟨⟨clear, old, looked⟩, world⟩ := looked
  by_cases hdue : (clear || old) = true
  case pos =>
    simp only [hdue, if_true, run_bind, run_pure, Examination.Refused, true_implies]
    exact looked.settle_refused around world
  case neg => simp [hdue, Examination.Refused]

/-- A group request always has its transaction. -/
theorem GrpCircleVetting.settle_msg {gcv : GrpCircleVetting} {world : World}
    (hrefused : ((gcv.settle around).run world).1.1 = some false) :
    ∃ mcirv, ((gcv.settle around).run world).1.2 = msgIdSendPend mcirv := by
  cases gcv with
  | grpIdPend gcirv => exact absurd trivial (((grpIdPend gcirv).settle_refused around world).mp hrefused)
  | msgIdSendPend mcirv =>
      simp only [settle, run_bind]
      split <;> exact ⟨_, rfl⟩

theorem GrpCircleVetting.examine_msg {gcv : GrpCircleVetting} {world : World}
    (hrefused : ((gcv.examine around).run world).1.Refused) :
    let exam := ((gcv.examine around).run world).1
    (exam.cleared || exam.expired) = true ∧ ∃ mcirv, exam.after = msgIdSendPend mcirv := by
  simp only [examine, run_bind] at hrefused ⊢
  generalize (gcv.due around).run world = looked at hrefused ⊢
  obtain ⟨⟨clear, old, looked⟩, world⟩ := looked
  dsimp only at hrefused ⊢
  split at hrefused
  case isTrue hdue =>
    rw [if_pos hdue]
    exact ⟨hdue, looked.settle_msg around hrefused⟩
  case isFalse => cases hrefused

/-! ### The loop -/

variable {around} {vet : Vetting World} {gcv : GrpCircleVetting} {rest : List GrpCircleVetting}

theorem Vetting.pass_nil (hpending : vet.pending = []) : vet.pass around = none := by
  rw [pass, hpending]

theorem Vetting.advance_refused {exam : Examination} (hdue : (exam.cleared || exam.expired) = true)
    {mcirv : MsgCircleIdsRequestVetting} (hafter : exam.after = .msgIdSendPend mcirv)
    (hrefused : exam.Refused) :
    vet.advance exam rest = { vet with pending := exam.after :: rest } := by
  have hcreated : exam.created = some false := hrefused
  simp only [advance, hdue, hafter, hcreated, if_true]

theorem Vetting.advance_settled {exam : Examination} (hsettled : ¬exam.Refused) :
    vet.advance exam rest =
      { vet with
        passed := vet.passed ++ (if exam.stays then [exam.after] else [])
        pending := rest
        deleted := vet.deleted ++ (if exam.stays then [] else [exam.after]) } := by
  have hcreated : exam.created ≠ some false := hsettled
  have hstays : exam.stays = !(exam.cleared || exam.expired) := by
    simp [Examination.stays, hcreated]
  cases hdue : (exam.cleared || exam.expired)
  case false => simp [advance, hstays, hdue]
  case true =>
    simp only [advance, hstays, hdue, if_true]
    split
    case h_1 hnone => exact absurd hnone hcreated
    case h_2 hnone => exact absurd hnone hcreated
    case h_3 => simp

theorem Vetting.pass_cons (hpending : vet.pending = gcv :: rest) :
    let look := (gcv.examine around).run vet.world
    vet.pass around = some
      { vet.advance look.1 rest with examined := vet.examined ++ [look.1], world := look.2 } := by
  rw [pass, hpending]

/-- A refused look leaves a vetting in its place. -/
theorem Vetting.pass_refused (hpending : vet.pending = gcv :: rest)
    (hrefused : ((gcv.examine around).run vet.world).1.Refused) :
    ∃ next, vet.pass around = some next ∧ next.pending.length = vet.pending.length ∧
      next.examined.length = vet.examined.length + 1 := by
  obtain ⟨hdue, mcirv, hafter⟩ := GrpCircleVetting.examine_msg around hrefused
  refine ⟨_, pass_cons hpending, ?_, ?_⟩
  · rw [advance_refused hdue hafter hrefused, hpending, List.length_cons, List.length_cons]
  · rw [List.length_append, List.length_singleton]

/-- Any other look moves the iterator on. -/
theorem Vetting.pass_settled (hpending : vet.pending = gcv :: rest)
    (hsettled : ¬((gcv.examine around).run vet.world).1.Refused) :
    let exam := ((gcv.examine around).run vet.world).1
    vet.pass around = some
      ⟨vet.passed ++ (if exam.stays then [exam.after] else []), rest,
        vet.deleted ++ (if exam.stays then [] else [exam.after]), vet.examined ++ [exam],
        ((gcv.examine around).run vet.world).2⟩ := by
  dsimp only
  rw [pass_cons hpending, advance_settled hsettled]

/-- The vettings that have not been looked at yet will each be looked at. -/
theorem Vetting.examined_le {final : Vetting World} (hends : Ends (Vetting.pass around) vet final) :
    vet.examined.length + vet.pending.length ≤ final.examined.length := by
  have hkeep : ∀ before after : Vetting World,
      vet.examined.length + vet.pending.length ≤ before.examined.length + before.pending.length →
      before.pass around = some after →
      vet.examined.length + vet.pending.length ≤ after.examined.length + after.pending.length := by
    intro before after hbefore hpass
    cases hpending : before.pending with
    | nil => cases (pass_nil hpending).symm.trans hpass
    | cons gcv rest =>
        by_cases hrefused : ((gcv.examine around).run before.world).1.Refused
        · obtain ⟨next, hnext, hlength, hexamined⟩ := pass_refused hpending hrefused
          cases hnext.symm.trans hpass
          omega
        · cases (pass_settled hpending hrefused).symm.trans hpass
          simp only [hpending, List.length_append, List.length_cons, List.length_nil] at hbefore ⊢
          omega
  obtain ⟨hle, hstop⟩ := hends.keeps
    (fun now => vet.examined.length + vet.pending.length ≤ now.examined.length + now.pending.length)
    hkeep le_rfl
  cases hpending : final.pending with
  | nil => simpa [hpending] using hle
  | cons gcv rest => cases (pass_cons hpending).symm.trans hstop

/-- One look per vetting leaves no room for a refused one. -/
theorem Vetting.along_of_examined {final : Vetting World} :
    ∀ {pending : List GrpCircleVetting} {vet : Vetting World}, vet.pending = pending →
      Ends (Vetting.pass around) vet final →
      final.examined.length = vet.examined.length + pending.length →
      Along (fun world gcv => some ((gcv.examine around).run world).2)
        (fun world gcv => gcv.EncryptableWhenDue around world) pending vet.world
  | [], _, _, _, _ => trivial
  | gcv :: rest, vet, hpending, hends, hlength => by
      by_cases hrefused : ((gcv.examine around).run vet.world).1.Refused
      case pos =>
        obtain ⟨next, hpass, hkept, hexamined⟩ := pass_refused hpending hrefused
        have hle := examined_le ((ends_of_some hpass).mp hends)
        rw [hkept, hpending] at hle
        omega
      case neg =>
        have hpass := pass_settled hpending hrefused
        refine ⟨by simpa [GrpCircleVetting.examine_refused] using hrefused, ?_⟩
        rintro world ⟨⟩
        have hrest := (ends_of_some hpass).mp hends
        refine along_of_examined rfl hrest ?_
        simp only [List.length_append, List.length_cons, List.length_nil] at hlength ⊢
        omega

/-- The looks that the pass takes when none is refused. -/
def looks (around : Surroundings World Encrypted) : List GrpCircleVetting → World → List Examination
  | [], _ => []
  | gcv :: rest, world =>
      let look := (gcv.examine around).run world
      look.1 :: looks around rest look.2

theorem looks_before : ∀ (pending : List GrpCircleVetting) (world : World),
    (looks around pending world).map (·.before) = pending
  | [], _ => rfl
  | gcv :: rest, world => by
      rw [looks, List.map_cons, GrpCircleVetting.examine_before, looks_before rest]

theorem Vetting.ends_of_along :
    ∀ (pending : List GrpCircleVetting) (vet : Vetting World), vet.pending = pending →
      Along (fun world gcv => some ((gcv.examine around).run world).2)
        (fun world gcv => gcv.EncryptableWhenDue around world) pending vet.world →
      ∃ final, Ends (Vetting.pass around) vet final ∧ final.pending = [] ∧
        final.passed =
          vet.passed ++ ((looks around pending vet.world).filter (·.stays)).map (·.after) ∧
        final.deleted =
          vet.deleted ++ ((looks around pending vet.world).filter (!·.stays)).map (·.after) ∧
        final.examined = vet.examined ++ looks around pending vet.world
  | [], vet, hpending, _ => by
      refine ⟨vet, (ends_of_none (pass_nil hpending)).mpr rfl, hpending, ?_, ?_, ?_⟩ <;> simp [looks]
  | gcv :: rest, vet, hpending, halong => by
      have hsettled : ¬((gcv.examine around).run vet.world).1.Refused := by
        rw [GrpCircleVetting.examine_refused, not_not]
        exact halong.1
      have hpass := pass_settled hpending hsettled
      dsimp only at hpass
      generalize hexam : ((gcv.examine around).run vet.world).1 = exam at hpass
      generalize hworld : ((gcv.examine around).run vet.world).2 = world at hpass
      generalize hnext : Vetting.mk _ rest _ _ world = next at hpass
      have hrest : Along _ _ rest next.world := halong.2 next.world (by rw [← hnext, ← hworld])
      obtain ⟨final, hends, hnone, hpassed, hdeleted, hexamined⟩ :=
        ends_of_along rest next (by rw [← hnext]) hrest
      refine ⟨final, (ends_of_some hpass).mpr hends, hnone, ?_, ?_, ?_⟩
      · rw [hpassed, ← hnext, looks, hexam, hworld, List.append_assoc]
        cases hstays : exam.stays <;> simp [hstays]
      · rw [hdeleted, ← hnext, looks, hexam, hworld, List.append_assoc]
        cases hstays : exam.stays <;> simp [hstays]
      · rw [hexamined, ← hnext, looks, hexam, hworld, List.append_assoc, List.singleton_append]

/-- The vector when the loop is done. -/
def Vetting.mPendingCircleVets (vet : Vetting World) : List GrpCircleVetting :=
  vet.passed ++ vet.pending

/-- **The vetting pass.** It ends after one look at each vetting, keeps those that stay and deletes
the others, exactly when every message request that comes up cleared, and is to be encrypted, can
be encrypted. -/
theorem runVetting_iff (around : Surroundings World Encrypted)
    (mPendingCircleVets : List GrpCircleVetting) (world : World) :
    (∃ fuel final, runVetting around fuel mPendingCircleVets world = some final ∧
        final.examined.map (·.before) = mPendingCircleVets ∧
        final.mPendingCircleVets = (final.examined.filter (·.stays)).map (·.after) ∧
        final.deleted = (final.examined.filter (!·.stays)).map (·.after)) ↔
      Along (fun world gcv => some ((gcv.examine around).run world).2)
        (fun world gcv => gcv.EncryptableWhenDue around world) mPendingCircleVets world := by
  constructor
  · rintro ⟨fuel, final, hrun, hbefore, _, _⟩
    have hlength := congrArg List.length hbefore
    rw [List.length_map] at hlength
    have hends : Ends (Vetting.pass around) (.start mPendingCircleVets world) final := ⟨fuel, hrun⟩
    exact Vetting.along_of_examined rfl hends (by simpa [Vetting.start] using hlength)
  · intro halong
    obtain ⟨final, ⟨fuel, hrun⟩, hnone, hpassed, hdeleted, hexamined⟩ :=
      Vetting.ends_of_along mPendingCircleVets (.start mPendingCircleVets world) rfl halong
    simp only [Vetting.start, List.nil_append] at hpassed hdeleted hexamined
    refine ⟨fuel, final, hrun, ?_, ?_, ?_⟩
    · rw [hexamined, looks_before]
    · rw [Vetting.mPendingCircleVets, hnone, List.append_nil, hpassed, hexamined]
    · rw [hdeleted, hexamined]

/-! ### A request that comes up for ever -/

/-- Circles are loaded and everyone may have everything encrypted, and nothing can be encrypted: a
circle without recipients. -/
def noRecipients : Surroundings Unit Unit where
  time := pure 0
  isLoaded _ := pure true
  loadCircle _ := pure ()
  isRecipient _ _ _ := pure true
  getPGPId peerId := pure peerId
  canSend _ _ _ := pure (true, true)
  encryptSingleNxsItem _ _ _ := pure none
  getTransactionId := pure 0
  pushGrpRespFromList _ _ _ := pure ()
  pushMsgRespFromList _ _ _ _ := pure ()

def oneMessage : MsgCircleIdsRequestVetting := ⟨0, [⟨1, 2⟩], 3, 4, 5, true⟩

theorem runVetting_counterexample :
    ¬∃ fuel final, runVetting noRecipients fuel [.msgIdSendPend oneMessage] () = some final := by
  rintro ⟨fuel, final, hrun⟩
  refine not_ends (fun vet : Vetting Unit => vet.pending = [.msgIdSendPend oneMessage]) ?_ rfl
    ⟨fuel, hrun⟩
  intro vet hpending
  exact ⟨_, Vetting.pass_cons hpending, rfl⟩

end RetroShare.Gxs
