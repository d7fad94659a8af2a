import RetroShare.Ft.Proof.DownloadQueue

/-!
# Runs of the download queue

In every run each download is in the queue once, at the position its control knows, and no call
follows a pointer to something that is deleted. The states of the controls fit their positions as
long as nothing sets a state without a check of the queue: a start of a waiting file does, and so
does a restored state.
-/

namespace RetroShare.Ft

open Outcome Transition

variable {Hash : Type} [LinearOrder Hash] {strict : Prop}

namespace Controller

/-! ### Requests -/

theorem QueueOk.alreadyHaveFile {s : Controller Hash} (hok : s.QueueOk strict) (env : RequestEnv)
    (hash : Hash) : Yields (s.alreadyHaveFile env hash) fun _ => True := by
  have hdetails : Yields (s.detailsComplete hash) fun _ => True := by
    unfold detailsComplete
    cases hlookup : s.mDownloads[hash]? with
    | some addr =>
        obtain ⟨fc, hfc, _, hlive, _⟩ := hok.download hlookup
        obtain ⟨transfer, _, htransfer⟩ := hlive.transfer
        obtain ⟨creator, _, hcreator⟩ := hlive.creator
        exact .bind_eq (control_eq hfc) (.bind_eq htransfer (.bind_eq hcreator (.pure trivial)))
    | none =>
        cases hdone : s.mCompleted[hash]? with
        | some addr =>
            obtain ⟨_, fc, hfc⟩ := hok.done hdone
            exact .bind_eq (control_eq hfc) (.pure trivial)
        | none => exact .ok trivial
  exact hdetails.bind fun _ _ => .pure trivial

theorem toList_insert_perm {m : OrderedMap Hash Nat} {hash : Hash} (addr : Nat)
    (habsent : m[hash]? = none) :
    ((m.insert hash addr).toList.map Prod.snd).Perm (addr :: m.toList.map Prod.snd) := by
  have hperm := OrderedMap.toList_perm_cons_erase (m.insert hash addr)
    (OrderedMap.lookup_insert_self m hash addr)
  rw [OrderedMap.erase_insert_of_absent m addr habsent] at hperm
  exact hperm.map Prod.snd

/-- A new download goes to the end of the queue. -/
theorem QueueOk.addDownload {s : Controller Hash} (hok : s.QueueOk strict) (env : RequestEnv)
    {hash : Hash} (size : Nat) (habsent : s.mDownloads[hash]? = none) :
    Yields (s.addDownload env hash size) (QueueOk strict) := by
  have hvacant : s.controls s.fresh = none := hok.below le_rfl
  let queued : Controller Hash :=
    { s.setControl s.fresh (newControl env hash size) with
      fresh := s.fresh + 1
      mDownloadQueue := s.mDownloadQueue ++ [s.fresh] }
  have hnew : queued.controls s.fresh = some (newControl env hash size) := if_pos rfl
  have hold : ∀ {addr fc}, s.controls addr = some fc → queued.controls addr = some fc := by
    intro addr fc hfc
    have hne : addr ≠ s.fresh := by
      rintro rfl
      cases hvacant.symm.trans hfc
    exact (if_neg hne).trans hfc
  have hout : s.fresh ∉ s.mDownloadQueue := by
    intro hmem
    obtain ⟨fc, hfc, _⟩ := hok.seated.live _ hmem
    cases hvacant.symm.trans hfc
  have hscattered : queued.Scattered strict [s.mDownloadQueue.length] := by
    refine ⟨List.nodup_append_comm.mp (List.nodup_cons.mpr ⟨hout, hok.seated.nodup⟩), ?_, ?_⟩
    · intro addr hmem
      rcases List.mem_append.mp hmem with hmem | hmem
      · obtain ⟨fc, hfc, hlive⟩ := hok.seated.live addr hmem
        exact ⟨fc, hold hfc, hlive⟩
      · cases List.mem_singleton.mp hmem
        exact ⟨_, hnew, rfl, rfl⟩
    · intro pos addr hat hloose
      have hne : pos ≠ s.mDownloadQueue.length := fun heq => hloose (List.mem_singleton.mpr heq)
      have hlt := (List.getElem?_eq_some_iff.mp hat).1
      have hlength : queued.mDownloadQueue.length = s.mDownloadQueue.length + 1 :=
        List.length_append
      have hat' : s.mDownloadQueue[pos]? = some addr := by
        rw [← hat]
        exact (List.getElem?_append_left (by omega)).symm
      obtain ⟨fc, hfc, hpos, hfits⟩ := hok.seated.placed hat' List.not_mem_nil
      exact ⟨fc, hold hfc, hpos, hfits⟩
  have hchecked := hscattered.check (by simp [queued]) env.now
  have hlast : queued.mDownloadQueue.length - 1 = s.mDownloadQueue.length := by simp [queued]
  unfold Controller.addDownload addToQueue
  rw [← hlast] at hchecked
  refine Yields.bind hchecked fun s' hs' => .pure ?_
  obtain ⟨hkept, hqueue, hseated⟩ := hs'
  refine ⟨⟨hseated.nodup, hseated.live, hseated.placed⟩, ?_, fun hlookup => ?_, fun hlookup => ?_,
    fun hle => ?_⟩
  · change s'.mDownloadQueue.Perm ((s'.mDownloads.insert hash s.fresh).toList.map Prod.snd)
    rw [hqueue, hkept.mDownloads_eq]
    refine List.Perm.trans ?_ (toList_insert_perm s.fresh habsent).symm
    exact List.perm_append_comm.trans (hok.listed.cons s.fresh)
  · next hash' addr =>
      change (s'.mDownloads.insert hash s.fresh)[hash']? = some addr at hlookup
      rw [hkept.mDownloads_eq, OrderedMap.lookup_insert] at hlookup
      split at hlookup
      · next heq =>
          cases hlookup
          obtain ⟨fc', hfc', hhash, _⟩ := hkept.kin hnew
          exact ⟨fc', hfc', hhash.trans heq⟩
      · obtain ⟨fc, hfc, hhash⟩ := hok.named hlookup
        obtain ⟨fc', hfc', hhash', _⟩ := hkept.kin (hold hfc)
        exact ⟨fc', hfc', hhash'.trans hhash⟩
  · next hash' addr =>
      change s'.mCompleted[hash']? = some addr at hlookup
      rw [hkept.mCompleted_eq] at hlookup
      obtain ⟨hnot, fc, hfc⟩ := hok.done hlookup
      obtain ⟨fc', hfc', _⟩ := hkept.kin (hold hfc)
      refine ⟨fun hmem => ?_, fc', hfc'⟩
      change addr ∈ s'.mDownloadQueue at hmem
      rw [hqueue] at hmem
      rcases List.mem_append.mp hmem with hmem | hmem
      · exact hnot hmem
      · cases List.mem_singleton.mp hmem
        cases hvacant.symm.trans hfc
  · next addr =>
      change s'.fresh ≤ addr at hle
      rw [hkept.fresh_eq] at hle
      have hlt : s.fresh < addr := hle
      exact hkept.vacant ((if_neg hlt.ne').trans (hok.below hlt.le))

theorem QueueOk.fileRequest {s : Controller Hash} (hok : s.QueueOk strict) (env : RequestEnv)
    (hash : Hash) (size : Nat) : Yields (s.fileRequest env hash size) (QueueOk strict) := by
  refine (hok.alreadyHaveFile env hash).bind fun have' _ => ?_
  split
  · exact .pure hok
  split
  · exact .pure hok
  split
  · exact .pure hok
  split
  · exact .pure ⟨⟨hok.seated.nodup, hok.seated.live, hok.seated.placed⟩, hok.listed, hok.named,
      hok.done, hok.below⟩
  cases hlookup : s.mDownloads[hash]? with
  | none => exact hok.addDownload env size hlookup
  | some addr =>
      obtain ⟨fc, hfc, _, hlive, _⟩ := hok.download hlookup
      obtain ⟨transfer, _, htransfer⟩ := hlive.transfer
      refine .bind_eq (control_eq hfc) ?_
      split
      · exact .bind_eq htransfer (.pure hok)
      · exact .pure hok

/-- A saved transfer is restored into the download of its hash. -/
theorem QueueOk.restoreTarget {s : Controller Hash} (hok : s.QueueOk strict) (hash : Hash) :
    s.restoreTarget hash = .ok s.mDownloads[hash]? := by
  unfold Controller.restoreTarget
  cases hlookup : s.mDownloads[hash]? with
  | none => rfl
  | some addr =>
      obtain ⟨fc, hfc, _, hlive, _⟩ := hok.download hlookup
      dsimp only
      rw [control_eq hfc]
      exact congrArg Except.ok (if_pos hlive.2)

theorem QueueOk.loadTransfer {s : Controller Hash} (hok : s.QueueOk strict) (env : RequestEnv)
    (hash : Hash) (size state : Nat) :
    Yields (s.loadTransfer env hash size state) (QueueOk strict) := by
  refine (hok.fileRequest env hash size).bind fun s' hok' => .bind_eq (hok'.restoreTarget hash) ?_
  split
  · exact .pure ⟨⟨hok'.seated.nodup, hok'.seated.live, hok'.seated.placed⟩, hok'.listed,
      hok'.named, hok'.done, hok'.below⟩
  · exact .pure hok'

/-- The saved state fits the position of the download that it is restored into. -/
def StateFits (s : Controller Hash) (hash : Hash) : Prop :=
  ∀ state addr fc, s.mPendingChunkMaps[hash]? = some state → s.mDownloads[hash]? = some addr →
    s.controls addr = some fc → Fits s.maxActiveDownloads fc.mQueuePosition state

theorem QueueOk.restoreState {s : Controller Hash} (hok : s.QueueOk strict) {hash : Hash}
    (hfits : strict → s.StateFits hash) : Yields (s.restoreState hash) (QueueOk strict) := by
  unfold Controller.restoreState
  cases hstate : s.mPendingChunkMaps[hash]? with
  | none => exact .ok hok
  | some state =>
      have htaken : Yields (s.takeState s.mDownloads[hash]? state) (QueueOk strict) := by
        unfold takeState
        cases hlookup : s.mDownloads[hash]? with
        | none => exact .ok hok
        | some addr =>
            obtain ⟨fc, hfc, _, _, _⟩ := hok.download hlookup
            refine .bind_eq (control_eq hfc) (.pure (hok.moved ?_))
            exact hok.setControl hfc rfl id rfl fun hstrict _ =>
              hfits hstrict state addr fc hstate hlookup hfc
      refine .bind_eq (hok.restoreTarget hash) (htaken.bind fun s' hok' => .pure ?_)
      exact ⟨⟨hok'.seated.nodup, hok'.seated.live, hok'.seated.placed⟩, hok'.listed, hok'.named,
        hok'.done, hok'.below⟩

/-- The state that the first pending request restores fits. -/
def RestoreFits (s : Controller Hash) (env : RequestEnv) : Prop :=
  ∀ request requests, s.mPendingRequests = request :: requests → ∀ s',
    { s with mPendingRequests := requests }.fileRequest env request.mHash request.mSize = .ok s' →
      s'.StateFits request.mHash

/-- The states that these passes restore fit. -/
def RestoresFit : List RequestEnv → Controller Hash → Prop
  | [], _ => True
  | env :: envs, s => s.RestoreFits env ∧ ∀ s', s.handleOne env = .ok s' → RestoresFit envs s'

theorem QueueOk.handleOne {s : Controller Hash} (hok : s.QueueOk strict) {env : RequestEnv}
    (hfits : strict → s.RestoreFits env) : Yields (s.handleOne env) (QueueOk strict) := by
  unfold Controller.handleOne
  cases hpending : s.mPendingRequests with
  | nil => exact .ok hok
  | cons request requests =>
      have hok' : ({ s with mPendingRequests := requests } : Controller Hash).QueueOk strict :=
        ⟨⟨hok.seated.nodup, hok.seated.live, hok.seated.placed⟩, hok.listed, hok.named, hok.done,
          hok.below⟩
      obtain ⟨s', hs', hok''⟩ := hok'.fileRequest env request.mHash request.mSize
      refine .bind_eq hs' (hok''.restoreState fun hstrict => ?_)
      exact hfits hstrict request requests hpending s' hs'

theorem QueueOk.handlePasses {envs : List RequestEnv} : ∀ {s : Controller Hash}, s.QueueOk strict →
    (strict → RestoresFit envs s) → Yields (s.handlePasses envs) (QueueOk strict) := by
  induction envs with
  | nil => exact fun hok _ => .pure hok
  | cons env envs ih =>
      intro s hok hfits
      obtain ⟨s', hs', hok'⟩ := hok.handleOne fun hstrict => (hfits hstrict).1
      unfold Controller.handlePasses
      rw [List.foldlM_cons]
      exact .bind_eq hs' (ih hok' fun hstrict => (hfits hstrict).2 s' hs')

/-! ### The end of a download -/

/-- The control of a download loses its objects and leaves the queue. -/
theorem QueueOk.retire {s : Controller Hash} (hok : s.QueueOk strict) {hash : Hash} {addr : Nat}
    {fc fc' : FileControl Hash} (hlookup : s.mDownloads[hash]? = some addr)
    (hfc : s.controls addr = some fc) (now : Int) :
    Yields ((s.setControl addr fc').queueRemove now fc.mQueuePosition) fun s' =>
      Kept (s.setControl addr fc') s' ∧ s'.Seated strict ∧
        s'.mDownloadQueue.Perm ((s.mDownloads.erase hash).toList.map Prod.snd) ∧
          addr ∉ s'.mDownloadQueue ∧ ∀ a ∈ s'.mDownloadQueue, a ∈ s.mDownloadQueue := by
  obtain ⟨fc₀, hfc₀, _, _, hat⟩ := hok.download hlookup
  cases hfc.symm.trans hfc₀
  obtain ⟨hhole, hout⟩ := hok.seated.hole hat
  have hsame : ∀ a ∈ s.mDownloadQueue.eraseIdx fc.mQueuePosition,
      (s.setControl addr fc').controls a = s.controls a := fun a hmem =>
    if_neg fun (heq : a = addr) => hout (heq ▸ hmem)
  have hhole' : (s.setControl addr fc').HoleAt strict fc.mQueuePosition
      (s.mDownloadQueue.eraseIdx fc.mQueuePosition) := by
    refine ⟨hhole.lt, .refl _, hhole.nodup, fun a hmem => ?_, fun hpos hat' => ?_⟩
    · obtain ⟨fc₁, hfc₁, hlive⟩ := hhole.live a hmem
      exact ⟨fc₁, (hsame a hmem).trans hfc₁, hlive⟩
    · obtain ⟨fc₁, hfc₁, hplace⟩ := hhole.placed hpos hat'
      exact ⟨fc₁, (hsame _ (hhole.mem hpos hat')).trans hfc₁, hplace⟩
  refine (hhole'.queueRemove now).mono fun s' hs' => ?_
  obtain ⟨hkept, hperm, hseated⟩ := hs'
  have hvalues := (OrderedMap.toList_perm_cons_erase s.mDownloads hlookup).map Prod.snd
  have hothers : (s.mDownloadQueue.eraseIdx fc.mQueuePosition).Perm
      ((s.mDownloads.erase hash).toList.map Prod.snd) :=
    (((perm_of_getElem? hat).trans hok.listed).trans hvalues).cons_inv
  refine ⟨hkept, hseated, hperm.trans hothers, fun hmem => hout (hperm.mem_iff.mp hmem), ?_⟩
  exact fun a hmem => List.mem_of_mem_eraseIdx (hperm.mem_iff.mp hmem)

/-- The control of a hash that stays is not the one that is retired. -/
theorem QueueOk.ne_of_erase {s : Controller Hash} (hok : s.QueueOk strict) {hash hash' : Hash}
    {addr addr' : Nat} (hlookup : s.mDownloads[hash]? = some addr)
    (hlookup' : (s.mDownloads.erase hash)[hash']? = some addr') :
    addr' ≠ addr ∧ s.mDownloads[hash']? = some addr' := by
  rw [OrderedMap.lookup_erase] at hlookup'
  split at hlookup'
  · cases hlookup'
  · next hne =>
      refine ⟨?_, hlookup'⟩
      rintro rfl
      obtain ⟨fc, hfc, hhash⟩ := hok.named hlookup
      obtain ⟨fc', hfc', hhash'⟩ := hok.named hlookup'
      cases hfc.symm.trans hfc'
      exact hne (hhash.symm.trans hhash')

theorem QueueOk.completeFile {s : Controller Hash} (hok : s.QueueOk strict) (now : Int)
    (movedHere movedThere : Bool) (hash : Hash) :
    Yields (s.completeFile now movedHere movedThere hash) (QueueOk strict) := by
  unfold Controller.completeFile
  cases hlookup : s.mDownloads[hash]? with
  | none => exact .ok hok
  | some addr =>
      obtain ⟨fc, hfc, hhash, hlive, hat⟩ := hok.download hlookup
      obtain ⟨transfer, _, htransfer⟩ := hlive.transfer
      obtain ⟨creator, _, hcreator⟩ := hlive.creator
      have hmem := hok.mem_queue.mpr ⟨hash, hlookup⟩
      refine .bind_eq (control_eq hfc) (.bind_eq hcreator ?_)
      split
      · exact .pure hok
      refine .bind_eq htransfer ((hok.retire hlookup hfc now).bind fun s' hs' => .pure ?_)
      obtain ⟨hkept, hseated, hlisted, hout, hsub⟩ := hs'
      refine ⟨⟨hseated.nodup, hseated.live, hseated.placed⟩, ?_, fun hlookup' => ?_,
        fun hlookup' => ?_, fun hle => ?_⟩
      · change s'.mDownloadQueue.Perm ((s'.mDownloads.erase hash).toList.map Prod.snd)
        rw [hkept.mDownloads_eq]
        exact hlisted
      · next hash' addr' =>
          change (s'.mDownloads.erase hash)[hash']? = some addr' at hlookup'
          rw [hkept.mDownloads_eq] at hlookup'
          obtain ⟨hne, hlookup'⟩ := hok.ne_of_erase hlookup hlookup'
          obtain ⟨fc₁, hfc₁, hhash₁⟩ := hok.named hlookup'
          obtain ⟨fc₂, hfc₂, hhash₂, _⟩ := hkept.kin ((if_neg hne).trans hfc₁)
          exact ⟨fc₂, hfc₂, hhash₂.trans hhash₁⟩
      · next hash' addr' =>
          change (s'.mCompleted.insert fc.mHash addr)[hash']? = some addr' at hlookup'
          rw [hkept.mCompleted_eq, OrderedMap.lookup_insert] at hlookup'
          split at hlookup'
          · cases hlookup'
            obtain ⟨fc₂, hfc₂, _⟩ := hkept.kin (if_pos rfl)
            exact ⟨hout, fc₂, hfc₂⟩
          · obtain ⟨hnot, fc₁, hfc₁⟩ := hok.done hlookup'
            have hne : addr' ≠ addr := fun heq => hnot (heq ▸ hmem)
            obtain ⟨fc₂, hfc₂, _⟩ := hkept.kin ((if_neg hne).trans hfc₁)
            exact ⟨fun hmem' => hnot (hsub addr' hmem'), fc₂, hfc₂⟩
      · next addr' =>
          change s'.fresh ≤ addr' at hle
          rw [hkept.fresh_eq] at hle
          have hnone := hok.below hle
          have hne : addr' ≠ addr := by
            rintro rfl
            cases hnone.symm.trans hfc
          exact hkept.vacant ((if_neg hne).trans hnone)

theorem QueueOk.fileCancel {s : Controller Hash} (hok : s.QueueOk strict) (now : Int) (hash : Hash) :
    Yields (s.fileCancel now hash) (QueueOk strict) := by
  unfold Controller.fileCancel
  cases hlookup : s.mDownloads[hash]? with
  | none => exact .ok hok
  | some addr =>
      obtain ⟨fc, hfc, hhash, hlive, hat⟩ := hok.download hlookup
      obtain ⟨transfer, _, htransfer⟩ := hlive.transfer
      obtain ⟨creator, _, hcreator⟩ := hlive.creator
      have hmem := hok.mem_queue.mpr ⟨hash, hlookup⟩
      refine .bind_eq (control_eq hfc) (.bind_eq hcreator ?_)
      split
      · exact .pure hok
      refine .bind_eq htransfer ((hok.retire hlookup hfc now).bind fun s' hs' => .pure ?_)
      obtain ⟨hkept, hseated, hlisted, hout, hsub⟩ := hs'
      -- the control is deleted, and nothing that stays leads to it
      have hother : ∀ {a : Nat} {fc₁ : FileControl Hash}, a ≠ addr → s.controls a = some fc₁ →
          ∃ fc₂, (s'.deleteControl addr).controls a = some fc₂ ∧ fc₂.mHash = fc₁.mHash := by
        intro a fc₁ hne hfc₁
        obtain ⟨fc₂, hfc₂, hhash₂, _⟩ := hkept.kin ((if_neg hne).trans hfc₁)
        exact ⟨fc₂, (if_neg hne).trans hfc₂, hhash₂⟩
      refine ⟨⟨hseated.nodup, fun a hmem' => ?_, fun hat' hloose => ?_⟩, ?_, fun hlookup' => ?_,
        fun hlookup' => ?_, fun hle => ?_⟩
      · obtain ⟨fc₁, hfc₁, hlive₁⟩ := hseated.live a hmem'
        have hne : a ≠ addr := fun heq => hout (heq ▸ hmem')
        exact ⟨fc₁, (if_neg hne).trans hfc₁, hlive₁⟩
      · next pos a =>
          obtain ⟨fc₁, hfc₁, hplace⟩ := hseated.placed hat' hloose
          have hne : a ≠ addr := fun heq => hout (heq ▸ List.mem_of_getElem? hat')
          exact ⟨fc₁, (if_neg hne).trans hfc₁, hplace⟩
      · change s'.mDownloadQueue.Perm ((s'.mDownloads.erase hash).toList.map Prod.snd)
        rw [hkept.mDownloads_eq]
        exact hlisted
      · next hash' addr' =>
          change (s'.mDownloads.erase hash)[hash']? = some addr' at hlookup'
          rw [hkept.mDownloads_eq] at hlookup'
          obtain ⟨hne, hlookup'⟩ := hok.ne_of_erase hlookup hlookup'
          obtain ⟨fc₁, hfc₁, hhash₁⟩ := hok.named hlookup'
          obtain ⟨fc₂, hfc₂, hhash₂⟩ := hother hne hfc₁
          exact ⟨fc₂, hfc₂, hhash₂.trans hhash₁⟩
      · next hash' addr' =>
          change s'.mCompleted[hash']? = some addr' at hlookup'
          rw [hkept.mCompleted_eq] at hlookup'
          obtain ⟨hnot, fc₁, hfc₁⟩ := hok.done hlookup'
          have hne : addr' ≠ addr := fun heq => hnot (heq ▸ hmem)
          obtain ⟨fc₂, hfc₂, _⟩ := hother hne hfc₁
          exact ⟨fun hmem' => hnot (hsub addr' hmem'), fc₂, hfc₂⟩
      · next addr' =>
          change s'.fresh ≤ addr' at hle
          rw [hkept.fresh_eq] at hle
          have hnone := hok.below hle
          have hne : addr' ≠ addr := by
            rintro rfl
            cases hnone.symm.trans hfc
          exact (if_neg hne).trans (hkept.vacant ((if_neg hne).trans hnone))

/-- A file that is started stands below the limit. -/
def StartFits (s : Controller Hash) (hash : Hash) : Prop :=
  ∀ addr fc, s.mDownloads[hash]? = some addr → s.controls addr = some fc →
    fc.mQueuePosition < s.maxActiveDownloads

theorem QueueOk.fileControl {s : Controller Hash} (hok : s.QueueOk strict) (hash : Hash)
    (flags : ControlFlag) (hstart : strict → flags = .start → s.StartFits hash) :
    Yields (s.fileControl hash flags) (QueueOk strict) := by
  unfold Controller.fileControl
  cases hlookup : s.mDownloads[hash]? with
  | none => exact .ok hok
  | some addr =>
      obtain ⟨fc, hfc, _, hlive, _⟩ := hok.download hlookup
      refine .bind_eq (control_eq hfc) ?_
      cases flags with
      | pause => exact .pure (hok.moved (hok.setControl hfc rfl id rfl fun _ _ => .inl rfl))
      | start =>
          refine .pure (hok.moved (hok.setControl hfc rfl id rfl fun hstrict _ => ?_))
          exact fits_downloading (hstart hstrict rfl addr fc hlookup hfc)
      | forceCheck =>
          obtain ⟨transfer, _, htransfer⟩ := hlive.transfer
          exact .bind_eq htransfer (.pure hok)
      | other => exact .pure hok

theorem controls_deleteAll (entries : List (Hash × Nat)) : ∀ (s : Controller Hash) (addr : Nat),
    addr ∉ entries.map Prod.snd →
      (entries.foldl (fun s entry => s.deleteControl entry.2) s).controls addr = s.controls addr := by
  induction entries with
  | nil => exact fun _ _ _ => rfl
  | cons entry entries ih =>
      intro s addr hnot
      rw [List.map_cons, List.mem_cons, not_or] at hnot
      rw [List.foldl_cons, ih _ addr hnot.2]
      exact if_neg hnot.1

theorem others_deleteAll (entries : List (Hash × Nat)) : ∀ s : Controller Hash,
    entries.foldl (fun s entry => s.deleteControl entry.2) s =
      { s with controls := (entries.foldl (fun s entry => s.deleteControl entry.2) s).controls } := by
  induction entries with
  | nil => exact fun _ => rfl
  | cons entry entries ih =>
      intro s
      rw [List.foldl_cons, ih]
      rfl

theorem vacant_deleteAll (entries : List (Hash × Nat)) : ∀ {s : Controller Hash} {addr : Nat},
    s.controls addr = none →
      (entries.foldl (fun s entry => s.deleteControl entry.2) s).controls addr = none := by
  induction entries with
  | nil => exact id
  | cons entry entries ih =>
      intro s addr hnone
      refine ih ?_
      unfold deleteControl
      dsimp only
      split
      · rfl
      · exact hnone

theorem QueueOk.fileClearCompleted {s : Controller Hash} (hok : s.QueueOk strict) :
    s.fileClearCompleted.QueueOk strict := by
  have hsame : ∀ addr ∈ s.mDownloadQueue,
      s.fileClearCompleted.controls addr = s.controls addr := by
    intro addr hmem
    refine controls_deleteAll s.mCompleted.toList s addr fun hdone => ?_
    obtain ⟨⟨hash, a⟩, hentry, rfl⟩ := List.mem_map.mp hdone
    exact (hok.done ((OrderedMap.mem_toList _).mp hentry)).1 hmem
  have hothers : s.fileClearCompleted =
      { s with controls := s.fileClearCompleted.controls, mCompleted := ∅ } := by
    unfold Controller.fileClearCompleted
    rw [others_deleteAll]
  have hqueue : s.fileClearCompleted.mDownloadQueue = s.mDownloadQueue := by rw [hothers]
  have hdownloads : s.fileClearCompleted.mDownloads = s.mDownloads := by rw [hothers]
  have hmax : s.fileClearCompleted.maxActiveDownloads = s.maxActiveDownloads := by rw [hothers]
  refine ⟨⟨hqueue ▸ hok.seated.nodup, fun addr hmem => ?_, fun hat hloose => ?_⟩, ?_,
    fun hlookup => ?_, fun hlookup => ?_, fun hle => ?_⟩
  · rw [hqueue] at hmem
    obtain ⟨fc, hfc, hlive⟩ := hok.seated.live addr hmem
    exact ⟨fc, (hsame addr hmem).trans hfc, hlive⟩
  · rw [hqueue] at hat
    obtain ⟨fc, hfc, hpos, hfits⟩ := hok.seated.placed hat hloose
    exact ⟨fc, (hsame _ (List.mem_of_getElem? hat)).trans hfc, hpos, hmax ▸ hfits⟩
  · rw [hqueue, hdownloads]
    exact hok.listed
  · rw [hdownloads] at hlookup
    obtain ⟨fc, hfc, hhash⟩ := hok.named hlookup
    exact ⟨fc, (hsame _ (hok.mem_queue.mpr ⟨_, hlookup⟩)).trans hfc, hhash⟩
  · change (∅ : OrderedMap Hash Nat)[_]? = some _ at hlookup
    simp at hlookup
  · have hfresh : s.fileClearCompleted.fresh = s.fresh := by rw [hothers]
    rw [hfresh] at hle
    exact vacant_deleteAll s.mCompleted.toList (hok.below hle)

theorem QueueOk.progress {s : Controller Hash} (hok : s.QueueOk strict) (hash : Hash)
    (transfer : TransferModule) (creator : CreatorHandle) :
    Yields (s.progress hash transfer creator) (QueueOk strict) := by
  unfold Controller.progress
  cases hlookup : s.mDownloads[hash]? with
  | none => exact .ok hok
  | some addr =>
      obtain ⟨fc, hfc, _, _, _⟩ := hok.download hlookup
      exact .bind_eq (control_eq hfc) (.pure (hok.moved
        (hok.setControl hfc rfl (fun _ => ⟨rfl, rfl⟩) rfl fun _ hfits => hfits)))

/-! ### Runs -/

/-- A file that is started stands below the limit, and a state that is restored fits the position of
its file. -/
def Permits (s : Controller Hash) : Op Hash → Prop
  | .fileControl hash .start => s.StartFits hash
  | .handleAPendingRequest env =>
      RestoresFit ((List.range maxSimultaneousPendingRequests).map env) s
  | _ => True

/-- The loop of `setQueueSize` ends. -/
def Ends (s : Controller Hash) : Op Hash → Prop
  | .setQueueSize _ size => 0 < size → max size s.maxActiveDownloads ≠ 2 ^ 32 - 1
  | _ => True

theorem QueueOk.perform {s : Controller Hash} (hok : s.QueueOk strict) {op : Op Hash}
    (hpermits : strict → s.Permits op) (hends : s.Ends op) :
    Yields (s.perform op) (QueueOk strict) := by
  cases op with
  | activate => exact .ok ⟨⟨hok.seated.nodup, hok.seated.live, hok.seated.placed⟩, hok.listed,
      hok.named, hok.done, hok.below⟩
  | fileRequest env hash size => exact hok.fileRequest env hash size
  | loadTransfer env hash size state => exact hok.loadTransfer env hash size state
  | handleAPendingRequest env => exact hok.handlePasses hpermits
  | fileCancel now hash => exact hok.fileCancel now hash
  | fileControl hash flags =>
      refine hok.fileControl hash flags fun hstrict heq => ?_
      subst heq
      exact hpermits hstrict
  | completeFile now movedHere movedThere hash =>
      exact hok.completeFile now movedHere movedThere hash
  | fileClearCompleted => exact .ok hok.fileClearCompleted
  | moveInQueue now hash mv => exact hok.moveInQueue now hash mv
  | setQueueSize now size => exact hok.setQueueSize now size hends
  | checkDownloadQueue now hasOnlineSource => exact hok.checkDownloadQueue now hasOnlineSource
  | progress hash transfer creator => exact hok.progress hash transfer creator

/-- A call that does not end is the only one without an outcome. -/
theorem perform_of_not_ends {s : Controller Hash} {op : Op Hash} (hends : ¬s.Ends op) :
    s.perform op = .error .endless := by
  cases op with
  | setQueueSize now size =>
      have hloop : 0 < size ∧ max size s.maxActiveDownloads = 2 ^ 32 - 1 := by
        simpa [Ends] using hends
      change s.setQueueSize now size = _
      unfold Controller.setQueueSize
      dsimp only
      rw [if_pos hloop.1, if_pos hloop.2]
  | _ => exact absurd trivial hends

theorem QueueOk.safe {s : Controller Hash} (hok : s.QueueOk False) (op : Op Hash) :
    s.perform op ≠ .error .dangling := by
  by_cases hends : s.Ends op
  · exact (hok.perform False.elim hends).ne_error _
  · rw [perform_of_not_ends hends]
    exact nofun

theorem QueueOk.step {s s' : Controller Hash} (hok : s.QueueOk strict) {op : Op Hash}
    (hpermits : strict → s.Permits op) (hstep : s.step op = some s') : s'.QueueOk strict := by
  have hperform : s.perform op = .ok s' := by
    unfold Controller.step at hstep
    cases houtcome : s.perform op with
    | error fault =>
        rw [houtcome] at hstep
        cases hstep
    | ok s'' =>
        rw [houtcome] at hstep
        cases hstep
        rfl
  have hends : s.Ends op := by
    by_contra hnot
    rw [perform_of_not_ends hnot] at hperform
    cases hperform
  exact (hok.perform hpermits hends).post hperform

theorem queueOk_new : (new : Controller Hash).QueueOk strict := by
  refine ⟨⟨List.nodup_nil, nofun, fun hat => ?_⟩, ?_, fun hlookup => ?_, fun hlookup => ?_,
    fun _ => rfl⟩
  · simp [new] at hat
  · simp [new]
  · simp [new] at hlookup
  · simp [new] at hlookup

/-- In every run, whatever is started and restored, the queue lists the downloads in order. -/
theorem queueOk_of_reaches {s : Controller Hash}
    (hrun : Reaches Controller.step (fun _ _ => True) new s) : s.QueueOk False :=
  hrun.invariant (QueueOk False) (fun _ _ _ hok _ hstep => hok.step False.elim hstep) queueOk_new

/-- What the queue is meant to keep. -/
structure QueueInOrder (s : Controller Hash) : Prop where
  once : s.mDownloadQueue.Nodup ∧ s.mDownloadQueue.Perm (s.mDownloads.toList.map Prod.snd)
  positions : ∀ i addr, s.mDownloadQueue[i]? = some addr →
    ∃ fc, s.controls addr = some fc ∧ fc.mQueuePosition = i ∧
      (i < s.maxActiveDownloads →
        fc.mState = FileState.downloading ∨ fc.mState = FileState.paused) ∧
      (s.maxActiveDownloads ≤ i → fc.mState = FileState.queued ∨ fc.mState = FileState.paused)
  safe : ∀ op, s.perform op ≠ .error .dangling

/-- **The download queue.** It is in order in every state of a run in which every file that is
started stands below the limit and every restored state fits the position of its file. -/
theorem queueInOrder_of_reaches {s : Controller Hash}
    (hrun : Reaches Controller.step Permits new s) : s.QueueInOrder := by
  have hok : s.QueueOk True :=
    hrun.invariant (QueueOk True) (fun _ _ _ hok hpermits hstep => hok.step (fun _ => hpermits) hstep)
      queueOk_new
  refine ⟨⟨hok.seated.nodup, hok.listed⟩, fun i addr hat => ?_, fun op => ?_⟩
  · obtain ⟨fc, hfc, hpos, hfits⟩ := hok.seated.placed hat List.not_mem_nil
    have hstate := hfits trivial
    unfold Fits at hstate
    exact ⟨fc, hfc, hpos, by grind, by grind⟩
  · exact (queueOk_of_reaches (hrun.mono fun _ _ _ => trivial)).safe op

/-- What follows these calls. -/
def after (s : Controller Hash) (ops : List (Op Hash)) : Option (Controller Hash) :=
  ops.foldlM Controller.step s

theorem reaches_after {ops : List (Op Hash)} : ∀ {s₀ s s' : Controller Hash},
    Reaches Controller.step (fun _ _ => True) s₀ s → s.after ops = some s' →
      Reaches Controller.step (fun _ _ => True) s₀ s' := by
  induction ops with
  | nil =>
      intro s₀ s s' hrun hafter
      cases hafter
      exact hrun
  | cons op ops ih =>
      intro s₀ s s' hrun hafter
      unfold after at hafter
      rw [List.foldlM_cons] at hafter
      obtain ⟨middle, hstep, hrest⟩ := Option.bind_eq_some_iff.mp hafter
      exact ih (hrun.tail trivial hstep) hrest

def sampleEnv : RequestEnv := { listed := false, directSource := false, now := 0 }

/-- A file is requested and started, at the head of the queue. -/
theorem queueInOrder_of_reaches_sample : ∃ s : Controller Nat, s.mDownloadQueue = [0] ∧
    s.QueueInOrder := by
  obtain ⟨s₁, hs₁⟩ := Option.isSome_iff_exists.mp
    (by decide : ((new : Controller Nat).step .activate).isSome = true)
  let request : Op Nat := .fileRequest sampleEnv 7 100
  have htwo : (((new : Controller Nat).step .activate).bind fun s => (s.step request).map fun s =>
      (s.mDownloads[7]?, (s.controls 0).map FileControl.mQueuePosition, s.maxActiveDownloads)) =
        some (some 0, some 0, 5) := by decide
  have hthree : (((new : Controller Nat).step .activate).bind fun s => (s.step request).bind fun s =>
      (s.step (.fileControl 7 .start)).map Controller.mDownloadQueue) = some [0] := by decide
  rw [hs₁, Option.bind_some] at htwo hthree
  obtain ⟨s₂, hs₂, hfacts⟩ := Option.map_eq_some_iff.mp htwo
  rw [hs₂, Option.bind_some] at hthree
  obtain ⟨s₃, hs₃, hqueue⟩ := Option.map_eq_some_iff.mp hthree
  simp only [Prod.mk.injEq] at hfacts
  obtain ⟨haddr, hposition, hmax⟩ := hfacts
  have hstart : s₂.StartFits 7 := by
    intro addr fc hlookup hfc
    cases haddr.symm.trans hlookup
    rw [hfc] at hposition
    rw [hmax, Option.some.inj hposition]
    decide
  exact ⟨s₃, hqueue, queueInOrder_of_reaches
    ((((Reaches.refl _).next .activate trivial hs₁).next request trivial hs₂).next
      (.fileControl 7 .start) hstart hs₃)⟩

/-- Two files, of which one may download, and the waiting one is started. -/
theorem queueInOrder_counterexample :
    ¬∀ s : Controller Nat, Reaches Controller.step (fun _ _ => True) new s → s.QueueInOrder := by
  intro hall
  let ops : List (Op Nat) := [.activate, .setQueueSize 0 1, .fileRequest sampleEnv 7 100,
    .fileRequest sampleEnv 8 100, .fileControl 8 .start]
  have hstates : ((new : Controller Nat).after ops).map (fun s =>
      (s.mDownloadQueue[1]?, (s.controls 1).map FileControl.mState, s.maxActiveDownloads)) =
        some (some 1, some 0, 1) := by decide
  obtain ⟨s, hafter, hfacts⟩ := Option.map_eq_some_iff.mp hstates
  simp only [Prod.mk.injEq] at hfacts
  obtain ⟨haddr, hstate, hmax⟩ := hfacts
  obtain ⟨fc, hfc, _, _, hwaiting⟩ :=
    (hall s (reaches_after (.refl _) hafter)).positions 1 1 haddr
  rw [hfc] at hstate
  have hdownloading : fc.mState = 0 := Option.some.inj hstate
  have hwaits := hwaiting (Nat.le_of_eq hmax)
  rw [hdownloading] at hwaits
  exact absurd hwaits (by decide)

end Controller

end RetroShare.Ft
