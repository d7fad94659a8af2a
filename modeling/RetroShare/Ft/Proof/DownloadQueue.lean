import Mathlib.Data.List.Perm.Basic
import RetroShare.Foundation.Outcome
import RetroShare.Ft.DownloadQueue

/-!
# The order of the download queue

The queue lists every download once, each control knows its position, and downloads or waits as its
position says. The loops that move elements are followed with a hole: the position whose element is
on its way.
-/

namespace RetroShare.Ft

open Outcome Transition

variable {Hash : Type}

/-! ### One control

Where `strict` does not hold, the states of the controls are left out of consideration.
-/

/-- What a position allows: the elements below the limit download, the later ones wait. -/
def Fits (maxActive pos state : Nat) : Prop :=
  state = FileState.paused ∨
    if pos < maxActive then state = FileState.downloading else state = FileState.queued

section Queue

variable {strict : Prop}

/-- The objects behind a control are there. -/
def FileControl.Live (fc : FileControl Hash) : Prop :=
  fc.mTransfer.isSome = true ∧ fc.mCreator.isSome = true

theorem FileControl.Live.transfer {fc : FileControl Hash} (hlive : fc.Live) :
    ∃ transfer, fc.mTransfer = some transfer ∧ fc.transfer = .ok transfer := by
  obtain ⟨transfer, htransfer⟩ := Option.isSome_iff_exists.mp hlive.1
  exact ⟨transfer, htransfer, by rw [FileControl.transfer, htransfer]⟩

theorem FileControl.Live.creator {fc : FileControl Hash} (hlive : fc.Live) :
    ∃ creator, fc.mCreator = some creator ∧ fc.creator = .ok creator := by
  obtain ⟨creator, hcreator⟩ := Option.isSome_iff_exists.mp hlive.2
  exact ⟨creator, hcreator, by rw [FileControl.creator, hcreator]⟩

theorem FileControl.Live.resetActvTimeStamp {fc : FileControl Hash} (hlive : fc.Live) (now : Int) :
    Yields (fc.resetActvTimeStamp now) fun fc' => fc'.Live ∧ fc'.mHash = fc.mHash ∧
      fc'.mQueuePosition = fc.mQueuePosition ∧ fc'.mState = fc.mState := by
  obtain ⟨transfer, _, htransfer⟩ := hlive.transfer
  exact .bind_eq htransfer (.pure ⟨⟨rfl, hlive.2⟩, rfl, rfl, rfl⟩)

theorem FileControl.Live.closeFile {fc : FileControl Hash} (hlive : fc.Live) :
    Yields fc.closeFile fun fc' => fc'.Live ∧ fc'.mHash = fc.mHash ∧
      fc'.mQueuePosition = fc.mQueuePosition ∧ fc'.mState = fc.mState := by
  obtain ⟨creator, _, hcreator⟩ := hlive.creator
  exact .bind_eq hcreator (.pure ⟨⟨hlive.1, rfl⟩, rfl, rfl, rfl⟩)

theorem fits_downloading {maxActive pos : Nat} (hpos : pos < maxActive) :
    Fits maxActive pos FileState.downloading := by
  right
  rw [if_pos hpos]

theorem fits_queued {maxActive pos : Nat} (hpos : maxActive ≤ pos) :
    Fits maxActive pos FileState.queued := by
  right
  rw [if_neg (Nat.not_lt.mpr hpos)]

/-- A control that has been checked fits its position. -/
theorem FileControl.Live.checked {fc : FileControl Hash} (hlive : fc.Live) (maxActive : Nat)
    (now : Int) (pos : Nat) :
    Yields (fc.checked maxActive now pos) fun fc' => fc'.Live ∧ fc'.mHash = fc.mHash ∧
      fc'.mQueuePosition = pos ∧ Fits maxActive pos fc'.mState := by
  have hmoved : ({ fc with mQueuePosition := pos } : FileControl Hash).Live := hlive
  unfold FileControl.checked
  dsimp only
  split
  · next hactive =>
      have hfits := fits_downloading hactive.1
      split
      · exact (hmoved.resetActvTimeStamp now).bind fun fc' hfc' =>
          .pure ⟨hfc'.1, hfc'.2.1, hfc'.2.2.1, hfits⟩
      · exact .bind_eq rfl (.pure ⟨hlive, rfl, rfl, hfits⟩)
  · next hactive =>
      split
      · next hwaiting =>
          have hqueued : ({ fc with mQueuePosition := pos, mState := FileState.queued } :
              FileControl Hash).Live := hlive
          refine hqueued.closeFile.mono fun fc' hfc' => ⟨hfc'.1, hfc'.2.1, hfc'.2.2.1, ?_⟩
          rw [hfc'.2.2.2]
          exact fits_queued hwaiting.1
      · next hwaiting =>
          refine .ok ⟨hlive, rfl, rfl, ?_⟩
          unfold Fits
          grind

namespace Controller

variable [LinearOrder Hash]

/-! ### Frames -/

def IsLive (s : Controller Hash) (addr : Nat) : Prop :=
  ∃ fc, s.controls addr = some fc ∧ fc.Live

/-- The control of this element knows its position and fits it. -/
def PlacedAt (strict : Prop) (s : Controller Hash) (pos addr : Nat) : Prop :=
  ∃ fc, s.controls addr = some fc ∧ fc.mQueuePosition = pos ∧
    (strict → Fits s.maxActiveDownloads pos fc.mState)

/-- Only the order of the queue changes, and controls that keep their hash and their objects. -/
structure Kept (s s' : Controller Hash) : Prop where
  others : s' = { s with controls := s'.controls, mDownloadQueue := s'.mDownloadQueue }
  kin : ∀ {addr fc}, s.controls addr = some fc →
    ∃ fc', s'.controls addr = some fc' ∧ fc'.mHash = fc.mHash ∧ (fc.Live → fc'.Live)
  vacant : ∀ {addr}, s.controls addr = none → s'.controls addr = none

theorem Kept.refl (s : Controller Hash) : Kept s s :=
  ⟨rfl, fun hfc => ⟨_, hfc, rfl, id⟩, id⟩

theorem Kept.trans {s s' s'' : Controller Hash} (hkept : Kept s s') (hkept' : Kept s' s'') :
    Kept s s'' where
  others := by rw [hkept'.others, hkept.others]
  kin hfc := by
    obtain ⟨fc', hfc', hhash, hlive⟩ := hkept.kin hfc
    obtain ⟨fc'', hfc'', hhash', hlive'⟩ := hkept'.kin hfc'
    exact ⟨fc'', hfc'', hhash'.trans hhash, hlive' ∘ hlive⟩
  vacant hnone := hkept'.vacant (hkept.vacant hnone)

theorem Kept.isLive {s s' : Controller Hash} (hkept : Kept s s') {addr : Nat}
    (hlive : s.IsLive addr) : s'.IsLive addr := by
  obtain ⟨fc, hfc, hfcLive⟩ := hlive
  obtain ⟨fc', hfc', _, hlive'⟩ := hkept.kin hfc
  exact ⟨fc', hfc', hlive' hfcLive⟩

theorem Kept.mDownloads_eq {s s' : Controller Hash} (hkept : Kept s s') :
    s'.mDownloads = s.mDownloads := by
  rw [hkept.others]

theorem Kept.mCompleted_eq {s s' : Controller Hash} (hkept : Kept s s') :
    s'.mCompleted = s.mCompleted := by
  rw [hkept.others]

theorem Kept.fresh_eq {s s' : Controller Hash} (hkept : Kept s s') : s'.fresh = s.fresh := by
  rw [hkept.others]

theorem Kept.maxActiveDownloads_eq {s s' : Controller Hash} (hkept : Kept s s') :
    s'.maxActiveDownloads = s.maxActiveDownloads := by
  rw [hkept.others]

theorem Kept.setControl {s : Controller Hash} {addr : Nat} {fc fc' : FileControl Hash}
    (hfc : s.controls addr = some fc) (hhash : fc'.mHash = fc.mHash) (hlive : fc.Live → fc'.Live) :
    Kept s (s.setControl addr fc') where
  others := rfl
  kin := by
    intro a fc₀ hfc₀
    by_cases haddr : a = addr
    · subst haddr
      cases hfc.symm.trans hfc₀
      exact ⟨fc', if_pos rfl, hhash, hlive⟩
    · exact ⟨fc₀, (if_neg haddr).trans hfc₀, rfl, id⟩
  vacant := by
    intro a hnone
    have haddr : a ≠ addr := by
      rintro rfl
      cases hfc.symm.trans hnone
    exact (if_neg haddr).trans hnone

theorem Kept.setQueue (s : Controller Hash) (queue : List Nat) :
    Kept s { s with mDownloadQueue := queue } :=
  ⟨rfl, fun hfc => ⟨_, hfc, rfl, id⟩, id⟩

theorem control_eq {s : Controller Hash} {addr : Nat} {fc : FileControl Hash}
    (hfc : s.controls addr = some fc) : s.control addr = .ok fc := by
  rw [control, hfc]

theorem queueAt_eq {s : Controller Hash} {pos addr : Nat}
    (hat : s.mDownloadQueue[pos]? = some addr) : s.queueAt pos = .ok addr := by
  rw [queueAt, hat]

/-! ### One check -/

theorem checkQueueElement_spec (strict : Prop) {s : Controller Hash} {pos addr : Nat}
    (hat : s.mDownloadQueue[pos]? = some addr) (hlive : s.IsLive addr) (now : Int) :
    Yields (s.checkQueueElement now pos) fun s' => Kept s s' ∧
      s'.mDownloadQueue = s.mDownloadQueue ∧ s'.PlacedAt strict pos addr ∧
        ∀ a ≠ addr, s'.controls a = s.controls a := by
  obtain ⟨fc, hfc, hfcLive⟩ := hlive
  refine .bind_eq (queueAt_eq hat) (.bind_eq (control_eq hfc) ?_)
  refine (hfcLive.checked s.maxActiveDownloads now pos).bind fun fc' hfc' => .pure ?_
  obtain ⟨hlive', hhash, hpos, hfits⟩ := hfc'
  exact ⟨.setControl hfc hhash fun _ => hlive', rfl, ⟨fc', if_pos rfl, hpos, fun _ => hfits⟩,
    fun a ha => if_neg ha⟩

theorem PlacedAt.congr {s s' : Controller Hash} (hkept : Kept s s') {pos addr : Nat}
    (hsame : s'.controls addr = s.controls addr) (hplaced : s.PlacedAt strict pos addr) :
    s'.PlacedAt strict pos addr := by
  obtain ⟨fc, hfc, hpos, hfits⟩ := hplaced
  exact ⟨fc, hsame.trans hfc, hpos, hkept.maxActiveDownloads_eq ▸ hfits⟩

/-! ### Positions to be checked -/

/-- Every element is live and listed once, and in its place unless its position is one of these. -/
structure Scattered (strict : Prop) (s : Controller Hash) (loose : List Nat) : Prop where
  nodup : s.mDownloadQueue.Nodup
  live : ∀ addr ∈ s.mDownloadQueue, s.IsLive addr
  placed : ∀ {pos addr}, s.mDownloadQueue[pos]? = some addr → pos ∉ loose → s.PlacedAt strict pos addr

/-- Every element is in its place. -/
abbrev Seated (strict : Prop) (s : Controller Hash) : Prop := s.Scattered strict []

theorem Scattered.check {s : Controller Hash} {pos : Nat} {loose : List Nat}
    (hscattered : s.Scattered strict (pos :: loose)) (hpos : pos < s.mDownloadQueue.length)
    (now : Int) :
    Yields (s.checkQueueElement now pos) fun s' => Kept s s' ∧
      s'.mDownloadQueue = s.mDownloadQueue ∧ s'.Scattered strict loose := by
  have hat := List.getElem?_eq_getElem hpos
  have hlive := hscattered.live _ (List.getElem_mem hpos)
  refine (checkQueueElement_spec strict hat hlive now).mono fun s' hs' => ?_
  obtain ⟨hkept, hqueue, hplaced, hothers⟩ := hs'
  refine ⟨hkept, hqueue, hqueue ▸ hscattered.nodup, fun addr hmem => ?_, ?_⟩
  · exact hkept.isLive (hscattered.live addr (hqueue ▸ hmem))
  · intro q addr hq hloose
    rw [hqueue] at hq
    by_cases heq : q = pos
    · subst heq
      cases hat.symm.trans hq
      exact hplaced
    · have hne : addr ≠ s.mDownloadQueue[pos] := by
        rintro rfl
        obtain ⟨hlt, hget⟩ := List.getElem?_eq_some_iff.mp hq
        exact heq ((List.Nodup.getElem_inj_iff hscattered.nodup).mp hget)
      have hnot : q ∉ pos :: loose := fun hmem => (List.mem_cons.mp hmem).elim heq hloose
      exact (hscattered.placed hq hnot).congr hkept (hothers addr hne)

theorem Scattered.checkAll {loose : List Nat} : ∀ {s : Controller Hash}, s.Scattered strict loose →
    (∀ pos ∈ loose, pos < s.mDownloadQueue.length) → ∀ now : Int,
      Yields (loose.foldlM (checkQueueElement now) s) fun s' => Kept s s' ∧
        s'.mDownloadQueue = s.mDownloadQueue ∧ s'.Seated strict := by
  induction loose with
  | nil => exact fun hscattered _ _ => .pure ⟨.refl _, rfl, hscattered⟩
  | cons pos loose ih =>
      intro s hscattered hbelow now
      rw [List.foldlM_cons]
      refine (hscattered.check (hbelow pos List.mem_cons_self) now).bind fun s' hs' => ?_
      obtain ⟨hkept, hqueue, hscattered'⟩ := hs'
      refine (ih hscattered' (fun q hq => ?_) now).mono fun s'' hs'' => ?_
      · rw [hqueue]
        exact hbelow q (List.mem_cons_of_mem pos hq)
      · exact ⟨hkept.trans hs''.1, hs''.2.1.trans hqueue, hs''.2.2⟩

/-! ### A hole -/

/-- The element at the hole is out of the queue; all others are in their places. -/
structure HoleAt (strict : Prop) (s : Controller Hash) (hole : Nat) (others : List Nat) : Prop where
  lt : hole < s.mDownloadQueue.length
  perm : (s.mDownloadQueue.eraseIdx hole).Perm others
  nodup : others.Nodup
  live : ∀ addr ∈ others, s.IsLive addr
  placed : ∀ {pos addr}, pos ≠ hole → s.mDownloadQueue[pos]? = some addr → s.PlacedAt strict pos addr

theorem HoleAt.mem {s : Controller Hash} {hole pos addr : Nat} {others : List Nat}
    (hhole : s.HoleAt strict hole others) (hpos : pos ≠ hole) (hat : s.mDownloadQueue[pos]? = some addr) :
    addr ∈ others :=
  hhole.perm.mem_iff.mp (List.mem_eraseIdx_iff_getElem?.mpr ⟨pos, hpos, hat⟩)

/-- No element stands at two positions, the hole apart. -/
theorem HoleAt.unique {s : Controller Hash} {hole pos pos' addr : Nat} {others : List Nat}
    (hhole : s.HoleAt strict hole others) (hpos : pos ≠ hole) (hpos' : pos' ≠ hole)
    (hat : s.mDownloadQueue[pos]? = some addr) (hat' : s.mDownloadQueue[pos']? = some addr) :
    pos = pos' := by
  obtain ⟨fc, hfc, heq, _⟩ := hhole.placed hpos hat
  obtain ⟨fc', hfc', heq', _⟩ := hhole.placed hpos' hat'
  cases hfc.symm.trans hfc'
  exact heq.symm.trans heq'

theorem Seated.hole {s : Controller Hash} (hseated : s.Seated strict) {pos addr : Nat}
    (hat : s.mDownloadQueue[pos]? = some addr) :
    s.HoleAt strict pos (s.mDownloadQueue.eraseIdx pos) ∧ addr ∉ s.mDownloadQueue.eraseIdx pos := by
  obtain ⟨hlt, hget⟩ := List.getElem?_eq_some_iff.mp hat
  refine ⟨⟨hlt, .refl _, hseated.nodup.eraseIdx pos, fun a hmem => ?_, fun _ hq => ?_⟩, ?_⟩
  · exact hseated.live a (List.mem_of_mem_eraseIdx hmem)
  · exact hseated.placed hq List.not_mem_nil
  · have hperm := List.getElem_cons_eraseIdx_perm hlt
    have hnodup := hperm.nodup_iff.mpr hseated.nodup
    rw [hget] at hnodup
    exact (List.nodup_cons.mp hnodup).1

/-- The element that comes from `source` closes the hole and leaves another one. -/
theorem HoleAt.shift {s : Controller Hash} {hole source : Nat} {others : List Nat}
    (hhole : s.HoleAt strict hole others) (hsource : source < s.mDownloadQueue.length)
    (hne : source ≠ hole) (now : Int) :
    Yields (s.shift now hole source) fun s' => Kept s s' ∧
      s'.mDownloadQueue.length = s.mDownloadQueue.length ∧ s'.HoleAt strict source others := by
  have hat := List.getElem?_eq_getElem hsource
  generalize s.mDownloadQueue[source] = addr at hat
  have hlive := hhole.live addr (hhole.mem hne hat)
  have hset : (s.setQueue hole addr).mDownloadQueue[hole]? = some addr :=
    List.getElem?_set_self hhole.lt
  refine .bind_eq (queueAt_eq hat) ?_
  refine (checkQueueElement_spec strict hset hlive now).mono fun s' hs' => ?_
  obtain ⟨hkept, hqueue, hplaced, hothers⟩ := hs'
  have hkept' : Kept s s' := (Kept.setQueue s _).trans hkept
  have hqueue' : s'.mDownloadQueue = s.mDownloadQueue.set hole addr := hqueue
  have hlength : s'.mDownloadQueue.length = s.mDownloadQueue.length := by
    rw [hqueue', List.length_set]
  have hstill : s'.mDownloadQueue[source]? = some addr := by
    rw [hqueue', List.getElem?_set_ne hne.symm, hat]
  refine ⟨hkept', hlength, ⟨hlength ▸ hsource, ?_, hhole.nodup, ?_, ?_⟩⟩
  · obtain ⟨hlt, hget⟩ := List.getElem?_eq_some_iff.mp hstill
    have hfirst := List.getElem_cons_eraseIdx_perm hlt
    have hsecond := List.set_perm_cons_eraseIdx hhole.lt addr
    rw [hget] at hfirst
    rw [← hqueue'] at hsecond
    exact ((hfirst.trans hsecond).cons_inv).trans hhole.perm
  · exact fun a hmem => hkept'.isLive (hhole.live a hmem)
  · intro pos a hpos hat'
    by_cases heq : pos = hole
    · subst heq
      rw [hqueue', List.getElem?_set_self hhole.lt] at hat'
      cases hat'
      exact hplaced
    · rw [hqueue', List.getElem?_set_ne (Ne.symm heq)] at hat'
      have hother : a ≠ addr := by
        rintro rfl
        exact hpos (hhole.unique heq hne hat' hat)
      exact (hhole.placed heq hat').congr hkept' (hothers a hother)

/-- The element that was taken out closes the hole. -/
theorem HoleAt.fill {s : Controller Hash} {hole tmp : Nat} {others : List Nat}
    (hhole : s.HoleAt strict hole others) (hlive : s.IsLive tmp) (hfresh : tmp ∉ others) (now : Int) :
    Yields ((s.setQueue hole tmp).checkQueueElement now hole) fun s' => Kept s s' ∧
      s'.mDownloadQueue.Perm (tmp :: others) ∧ s'.Seated strict := by
  have hset : (s.setQueue hole tmp).mDownloadQueue[hole]? = some tmp :=
    List.getElem?_set_self hhole.lt
  refine (checkQueueElement_spec strict hset hlive now).mono fun s' hs' => ?_
  obtain ⟨hkept, hqueue, hplaced, hothers⟩ := hs'
  have hkept' : Kept s s' := (Kept.setQueue s _).trans hkept
  have hqueue' : s'.mDownloadQueue = s.mDownloadQueue.set hole tmp := hqueue
  have hperm : s'.mDownloadQueue.Perm (tmp :: others) := by
    rw [hqueue']
    exact (List.set_perm_cons_eraseIdx hhole.lt tmp).trans (hhole.perm.cons tmp)
  refine ⟨hkept', hperm, ?_, fun a hmem => ?_, fun hat' _ => ?_⟩
  · exact hperm.nodup_iff.mpr (List.nodup_cons.mpr ⟨hfresh, hhole.nodup⟩)
  · rcases List.mem_cons.mp (hperm.mem_iff.mp hmem) with rfl | hmem
    · exact hkept'.isLive hlive
    · exact hkept'.isLive (hhole.live a hmem)
  · next pos a _ =>
      by_cases heq : pos = hole
      · subst heq
        rw [hqueue', List.getElem?_set_self hhole.lt] at hat'
        cases hat'
        exact hplaced
      · rw [hqueue', List.getElem?_set_ne (Ne.symm heq)] at hat'
        have hother : a ≠ tmp := by
          rintro rfl
          exact hfresh (hhole.mem heq hat')
        exact (hhole.placed heq hat').congr hkept' (hothers a hother)

/-! ### Moves -/

theorem shiftUp_spec (now : Int) {others : List Nat} : ∀ (count pos : Nat) {s : Controller Hash},
    s.HoleAt strict pos others → s.mDownloadQueue.length - 1 - pos = count →
      Yields (s.shiftUp now pos) fun s' => Kept s s' ∧
        s'.mDownloadQueue.length = s.mDownloadQueue.length ∧
          s'.HoleAt strict (s.mDownloadQueue.length - 1) others := by
  intro count
  induction count with
  | zero =>
      intro pos s hhole hcount
      have hlast : pos = s.mDownloadQueue.length - 1 := by
        have := hhole.lt
        omega
      unfold shiftUp
      rw [hcount]
      exact .pure ⟨.refl s, rfl, hlast ▸ hhole⟩
  | succ count ih =>
      intro pos s hhole hcount
      unfold shiftUp
      rw [hcount, List.range'_succ, List.foldlM_cons]
      refine (hhole.shift (by omega) (Nat.succ_ne_self pos) now).bind fun s' hs' => ?_
      obtain ⟨hkept, hlength, hhole'⟩ := hs'
      have hcount' : s'.mDownloadQueue.length - 1 - (pos + 1) = count := by omega
      have hrest := ih (pos + 1) hhole' hcount'
      unfold shiftUp at hrest
      rw [hcount'] at hrest
      refine hrest.mono fun s'' hs'' => ?_
      rw [hlength] at hs''
      exact ⟨hkept.trans hs''.1, hs''.2.1, hs''.2.2⟩

theorem shiftDown_spec (now : Int) {others : List Nat} : ∀ (pos : Nat) {s : Controller Hash},
    s.HoleAt strict pos others →
      Yields (s.shiftDown now pos) fun s' => Kept s s' ∧ s'.HoleAt strict 0 others := by
  intro pos
  induction pos with
  | zero => exact fun hhole => .pure ⟨.refl _, hhole⟩
  | succ pos ih =>
      intro s hhole
      unfold shiftDown
      rw [List.range_succ, List.reverse_append, List.reverse_singleton, List.singleton_append,
        List.foldlM_cons]
      have hbefore : pos < s.mDownloadQueue.length := Nat.lt_of_succ_lt hhole.lt
      refine (hhole.shift hbefore (Nat.succ_ne_self pos).symm now).bind fun s' hs' => ?_
      exact (ih hs'.2.2).mono fun s'' hs'' => ⟨hs'.1.trans hs''.1, hs''.2⟩

/-- The element at the hole leaves the queue. -/
theorem HoleAt.queueRemove {s : Controller Hash} {pos : Nat} {others : List Nat}
    (hhole : s.HoleAt strict pos others) (now : Int) :
    Yields (s.queueRemove now pos) fun s' => Kept s s' ∧ s'.mDownloadQueue.Perm others ∧
      s'.Seated strict := by
  have hne : s.mDownloadQueue ≠ [] := List.ne_nil_of_length_pos (Nat.zero_lt_of_lt hhole.lt)
  unfold Controller.queueRemove
  rw [if_neg hne]
  refine (shiftUp_spec now _ pos hhole rfl).bind fun s' hs' => .pure ?_
  obtain ⟨hkept, hlength, hhole'⟩ := hs'
  have hdrop : s'.mDownloadQueue.dropLast =
      s'.mDownloadQueue.eraseIdx (s.mDownloadQueue.length - 1) := by
    rw [← hlength, List.eraseIdx_length_sub_one]
  have hperm : s'.mDownloadQueue.dropLast.Perm others := by
    rw [hdrop]
    exact hhole'.perm
  refine ⟨hkept.trans (.setQueue s' _), hperm, hperm.nodup_iff.mpr hhole'.nodup, ?_, ?_⟩
  · exact fun addr hmem => hhole'.live addr (hperm.mem_iff.mp hmem)
  · intro q addr hq _
    have hlt := (List.getElem?_eq_some_iff.mp hq).1
    rw [List.length_dropLast] at hlt
    have hq' : s'.mDownloadQueue[q]? = some addr := by
      rw [← hq, List.getElem?_dropLast, if_pos hlt]
    exact hhole'.placed (by omega) hq'

theorem perm_of_getElem? {queue : List Nat} {pos addr : Nat} (hat : queue[pos]? = some addr) :
    (addr :: queue.eraseIdx pos).Perm queue := by
  obtain ⟨hlt, rfl⟩ := List.getElem?_eq_some_iff.mp hat
  exact List.getElem_cons_eraseIdx_perm hlt

/-- What a move keeps. -/
def Moved (strict : Prop) (s s' : Controller Hash) : Prop :=
  Kept s s' ∧ s'.mDownloadQueue.Perm s.mDownloadQueue ∧ s'.Seated strict

theorem Seated.topQueue {s : Controller Hash} (hseated : s.Seated strict) {pos addr : Nat}
    (hat : s.mDownloadQueue[pos]? = some addr) (now : Int) :
    Yields (s.topQueue now pos) (Moved strict s) := by
  obtain ⟨hhole, hfresh⟩ := hseated.hole hat
  have hlive := hseated.live addr (List.mem_of_getElem? hat)
  refine .bind_eq (queueAt_eq hat) ((shiftDown_spec now pos hhole).bind fun s' hs' => ?_)
  refine (hs'.2.fill (hs'.1.isLive hlive) hfresh now).mono fun s'' hs'' => ?_
  exact ⟨hs'.1.trans hs''.1, hs''.2.1.trans (perm_of_getElem? hat), hs''.2.2⟩

theorem Seated.bottomQueue {s : Controller Hash} (hseated : s.Seated strict) {pos addr : Nat}
    (hat : s.mDownloadQueue[pos]? = some addr) (now : Int) :
    Yields (s.bottomQueue now pos) (Moved strict s) := by
  obtain ⟨hhole, hfresh⟩ := hseated.hole hat
  have hlive := hseated.live addr (List.mem_of_getElem? hat)
  refine .bind_eq (queueAt_eq hat) ((shiftUp_spec now _ pos hhole rfl).bind fun s' hs' => ?_)
  obtain ⟨hkept, hlength, hhole'⟩ := hs'
  rw [hlength]
  refine (hhole'.fill (hkept.isLive hlive) hfresh now).mono fun s'' hs'' => ?_
  exact ⟨hkept.trans hs''.1, hs''.2.1.trans (perm_of_getElem? hat), hs''.2.2⟩

theorem Seated.swapQueue {s : Controller Hash} (hseated : s.Seated strict) {pos1 pos2 : Nat}
    (hpos1 : pos1 < s.mDownloadQueue.length) (hpos2 : pos2 < s.mDownloadQueue.length) (now : Int) :
    Yields (s.swapQueue now pos1 pos2) (Moved strict s) := by
  unfold Controller.swapQueue
  split
  · exact .ok ⟨.refl s, .refl _, hseated⟩
  · next hne =>
      refine .bind_eq (queueAt_eq (List.getElem?_eq_getElem hpos1))
        (.bind_eq (queueAt_eq (List.getElem?_eq_getElem hpos2)) ?_)
      let swapped := (s.setQueue pos1 s.mDownloadQueue[pos2]).setQueue pos2 s.mDownloadQueue[pos1]
      have hperm : swapped.mDownloadQueue.Perm s.mDownloadQueue := List.set_set_perm hpos1 hpos2
      have hscattered : swapped.Scattered strict [pos1, pos2] := by
        refine ⟨hperm.nodup_iff.mpr hseated.nodup, fun addr hmem => ?_, fun hat hloose => ?_⟩
        · exact hseated.live addr (hperm.mem_iff.mp hmem)
        · next pos addr =>
            have hpos : pos ≠ pos1 ∧ pos ≠ pos2 := by simpa using hloose
            change ((s.mDownloadQueue.set pos1 _).set pos2 _)[pos]? = some addr at hat
            rw [List.getElem?_set_ne hpos.2.symm, List.getElem?_set_ne hpos.1.symm] at hat
            exact hseated.placed hat List.not_mem_nil
      have hbelow : ∀ pos ∈ [pos1, pos2], pos < swapped.mDownloadQueue.length := by
        rw [hperm.length_eq]
        simp [hpos1, hpos2]
      have hchecked := hscattered.checkAll hbelow now
      simp only [List.foldlM_cons, List.foldlM_nil, bind_pure] at hchecked
      refine hchecked.mono fun s' hs' => ?_
      exact ⟨(Kept.setQueue s _).trans hs'.1, hs'.2.1 ▸ hperm, hs'.2.2⟩

theorem Seated.placed_iff {s : Controller Hash} (hseated : s.Seated strict) {addr : Nat}
    (hmem : addr ∈ s.mDownloadQueue) : ∃ fc, s.controls addr = some fc ∧
      s.mDownloadQueue[fc.mQueuePosition]? = some addr := by
  obtain ⟨pos, hlt, hget⟩ := List.getElem_of_mem hmem
  have hat : s.mDownloadQueue[pos]? = some addr := List.getElem?_eq_some_iff.mpr ⟨hlt, hget⟩
  obtain ⟨fc, hfc, hpos, _⟩ := hseated.placed hat List.not_mem_nil
  exact ⟨fc, hfc, hpos ▸ hat⟩

/-! ### The controller -/

/-- The queue and the maps agree. -/
structure QueueOk (strict : Prop) (s : Controller Hash) : Prop where
  seated : s.Seated strict
  listed : s.mDownloadQueue.Perm (s.mDownloads.toList.map Prod.snd)
  named : ∀ {hash : Hash} {addr}, s.mDownloads[hash]? = some addr →
    ∃ fc, s.controls addr = some fc ∧ fc.mHash = hash
  done : ∀ {hash : Hash} {addr}, s.mCompleted[hash]? = some addr →
    addr ∉ s.mDownloadQueue ∧ ∃ fc, s.controls addr = some fc
  below : ∀ {addr}, s.fresh ≤ addr → s.controls addr = none

theorem QueueOk.mem_queue {s : Controller Hash} (hok : s.QueueOk strict) {addr : Nat} :
    addr ∈ s.mDownloadQueue ↔ ∃ hash : Hash, s.mDownloads[hash]? = some addr := by
  rw [hok.listed.mem_iff, List.mem_map]
  constructor
  · rintro ⟨⟨hash, a⟩, hmem, rfl⟩
    exact ⟨hash, (OrderedMap.mem_toList _).mp hmem⟩
  · rintro ⟨hash, hlookup⟩
    exact ⟨(hash, addr), (OrderedMap.mem_toList _).mpr hlookup, rfl⟩

/-- The control of a download. -/
theorem QueueOk.download {s : Controller Hash} (hok : s.QueueOk strict) {hash : Hash} {addr : Nat}
    (hlookup : s.mDownloads[hash]? = some addr) :
    ∃ fc, s.controls addr = some fc ∧ fc.mHash = hash ∧ fc.Live ∧
      s.mDownloadQueue[fc.mQueuePosition]? = some addr := by
  have hmem := hok.mem_queue.mpr ⟨hash, hlookup⟩
  obtain ⟨fc, hfc, hat⟩ := hok.seated.placed_iff hmem
  obtain ⟨fc', hfc', hhash⟩ := hok.named hlookup
  obtain ⟨fc'', hfc'', hlive⟩ := hok.seated.live addr hmem
  cases hfc.symm.trans hfc'
  cases hfc.symm.trans hfc''
  exact ⟨fc, hfc, hhash, hlive, hat⟩

theorem QueueOk.moved {s s' : Controller Hash} (hok : s.QueueOk strict) (hmoved : Moved strict s s') :
    s'.QueueOk strict := by
  obtain ⟨hkept, hperm, hseated⟩ := hmoved
  refine ⟨hseated, ?_, fun hlookup => ?_, fun hlookup => ?_, fun hle => ?_⟩
  · rw [hkept.mDownloads_eq]
    exact hperm.trans hok.listed
  · rw [hkept.mDownloads_eq] at hlookup
    obtain ⟨fc, hfc, hhash⟩ := hok.named hlookup
    obtain ⟨fc', hfc', hhash', _⟩ := hkept.kin hfc
    exact ⟨fc', hfc', hhash'.trans hhash⟩
  · rw [hkept.mCompleted_eq] at hlookup
    obtain ⟨hnot, fc, hfc⟩ := hok.done hlookup
    obtain ⟨fc', hfc', _⟩ := hkept.kin hfc
    exact ⟨fun hmem => hnot (hperm.mem_iff.mp hmem), fc', hfc'⟩
  · rw [hkept.fresh_eq] at hle
    exact hkept.vacant (hok.below hle)

/-- A control is written back at its position. -/
theorem QueueOk.setControl {s : Controller Hash} (hok : s.QueueOk strict) {addr : Nat}
    {fc fc' : FileControl Hash} (hfc : s.controls addr = some fc) (hhash : fc'.mHash = fc.mHash)
    (hlive : fc.Live → fc'.Live) (hpos : fc'.mQueuePosition = fc.mQueuePosition)
    (hfits : strict → Fits s.maxActiveDownloads fc.mQueuePosition fc.mState →
      Fits s.maxActiveDownloads fc.mQueuePosition fc'.mState) :
    Moved strict s (s.setControl addr fc') := by
  have hkept : Kept s (s.setControl addr fc') := .setControl hfc hhash hlive
  refine ⟨hkept, .refl _, hok.seated.nodup, fun a hmem => ?_, fun hat _ => ?_⟩
  · exact hkept.isLive (hok.seated.live a hmem)
  · next pos a _ =>
      obtain ⟨fc₀, hfc₀, hpos₀, hfits₀⟩ := hok.seated.placed hat List.not_mem_nil
      by_cases haddr : a = addr
      · subst haddr
        cases hfc.symm.trans hfc₀
        refine ⟨fc', if_pos rfl, hpos.trans hpos₀, fun hstrict => ?_⟩
        rw [← hpos₀]
        exact hfits hstrict (hpos₀ ▸ hfits₀ hstrict)
      · exact ⟨fc₀, (if_neg haddr).trans hfc₀, hpos₀, hfits₀⟩

theorem QueueOk.moveInQueue {s : Controller Hash} (hok : s.QueueOk strict) (now : Int) (hash : Hash)
    (mv : QueueMove) : Yields (s.moveInQueue now hash mv) (QueueOk strict) := by
  unfold Controller.moveInQueue
  cases hlookup : s.mDownloads[hash]? with
  | none => exact .ok hok
  | some addr =>
      obtain ⟨fc, hfc, _, _, hat⟩ := hok.download hlookup
      have hlt := (List.getElem?_eq_some_iff.mp hat).1
      refine .bind_eq (control_eq hfc) ?_
      cases mv with
      | top => exact (hok.seated.topQueue hat now).mono fun _ => hok.moved
      | bottom => exact (hok.seated.bottomQueue hat now).mono fun _ => hok.moved
      | up =>
          dsimp only
          split
          · exact (hok.seated.swapQueue hlt (by omega) now).mono fun _ => hok.moved
          · exact .pure hok
      | down =>
          dsimp only
          split
          · exact (hok.seated.swapQueue hlt (by omega) now).mono fun _ => hok.moved
          · exact .pure hok

theorem fits_of_outside {size old pos state : Nat} (hfits : Fits old pos state)
    (houtside : pos < min size old ∨ max size old < pos) : Fits size pos state := by
  unfold Fits at *
  grind

theorem QueueOk.setQueueSize {s : Controller Hash} (hok : s.QueueOk strict) (now : Int) (size : Nat)
    (hends : 0 < size → max size s.maxActiveDownloads ≠ 2 ^ 32 - 1) :
    Yields (s.setQueueSize now size) (QueueOk strict) := by
  unfold Controller.setQueueSize
  split
  · next hsize =>
      dsimp only
      rw [if_neg (hends hsize)]
      let resized : Controller Hash := { s with maxActiveDownloads := size }
      have hresized : resized.QueueOk False :=
        ⟨⟨hok.seated.nodup, hok.seated.live, fun hat hloose => by
          obtain ⟨fc, hfc, hpos, _⟩ := hok.seated.placed hat hloose
          exact ⟨fc, hfc, hpos, False.elim⟩⟩, hok.listed, hok.named, hok.done, hok.below⟩
      have hscattered : resized.Scattered strict
          ((List.range' (min size s.maxActiveDownloads)
            (max size s.maxActiveDownloads + 1 - min size s.maxActiveDownloads)).filter
              fun p => decide (p < s.mDownloadQueue.length)) := by
        refine ⟨hok.seated.nodup, hok.seated.live, fun hat hloose => ?_⟩
        next pos addr =>
          have hlt := (List.getElem?_eq_some_iff.mp hat).1
          obtain ⟨fc, hfc, hpos, hfits⟩ := hok.seated.placed hat List.not_mem_nil
          have hrange : pos ∉ List.range' (min size s.maxActiveDownloads)
              (max size s.maxActiveDownloads + 1 - min size s.maxActiveDownloads) := by
            intro hmem
            exact hloose (List.mem_filter.mpr ⟨hmem, decide_eq_true hlt⟩)
          have houtside : pos < min size s.maxActiveDownloads ∨
              max size s.maxActiveDownloads < pos := by
            rw [List.mem_range'_1] at hrange
            omega
          exact ⟨fc, hfc, hpos, fun hstrict => fits_of_outside (hfits hstrict) houtside⟩
      refine (hscattered.checkAll (fun pos hmem => ?_) now).mono fun s' hs' => ?_
      · exact of_decide_eq_true (List.mem_filter.mp hmem).2
      · obtain ⟨hkept, hqueue, hseated⟩ := hs'
        refine { hresized.moved ⟨hkept, hqueue ▸ .refl _, hseated.nodup, hseated.live, ?_⟩ with
          seated := hseated }
        intro pos addr hat hloose
        obtain ⟨fc, hfc, hpos, _⟩ := hseated.placed hat hloose
        exact ⟨fc, hfc, hpos, False.elim⟩
  · exact .ok hok

/-! ### The check of the queue -/

theorem classify_spec {s : Controller Hash} (hok : s.QueueOk strict) (now : Int)
    (hasOnlineSource : Hash → Bool) : ∀ entries : List (Hash × Nat),
      (∀ entry ∈ entries, entry.2 ∈ s.mDownloadQueue) →
        Yields (s.classify now hasOnlineSource entries) fun found =>
          (∀ addr ∈ found.1, addr ∈ s.mDownloadQueue) ∧
            ∀ addr ∈ found.2, addr ∈ s.mDownloadQueue
  | [], _ => .ok ⟨nofun, nofun⟩
  | (hash, addr) :: entries, hentries => by
      have hmem := hentries (hash, addr) List.mem_cons_self
      obtain ⟨fc, hfc, hlive⟩ := hok.seated.live addr hmem
      obtain ⟨transfer, _, htransfer⟩ := hlive.transfer
      have hinactive : Yields (isInactive now fc) fun _ => True := by
        unfold isInactive
        rw [htransfer]
        split
        · exact .ok trivial
        · split <;> exact .ok trivial
      have hready : Yields (isReady hasOnlineSource hash fc) fun _ => True := by
        unfold isReady
        rw [htransfer]
        split <;> exact .ok trivial
      refine .bind_eq (control_eq hfc) (hinactive.bind fun inactive _ => hready.bind fun ready _ => ?_)
      have hrest := classify_spec hok now hasOnlineSource entries fun entry hentry =>
        hentries entry (List.mem_cons_of_mem _ hentry)
      refine hrest.bind fun found hfound => .pure ⟨fun a ha => ?_, fun a ha => ?_⟩
      · cases inactive with
        | false => exact hfound.1 a ha
        | true => exact (List.mem_cons.mp ha).elim (fun heq => heq ▸ hmem) (hfound.1 a)
      · cases ready with
        | false => exact hfound.2 a ha
        | true => exact (List.mem_cons.mp ha).elim (fun heq => heq ▸ hmem) (hfound.2 a)

theorem QueueOk.resetActvTimeStamp {s : Controller Hash} (hok : s.QueueOk strict) {addr : Nat}
    (hmem : addr ∈ s.mDownloadQueue) (now : Int) :
    Yields (s.resetActvTimeStamp now addr) (Moved strict s) := by
  obtain ⟨fc, hfc, hlive⟩ := hok.seated.live addr hmem
  refine .bind_eq (control_eq hfc) ((hlive.resetActvTimeStamp now).bind fun fc' hfc' => .pure ?_)
  obtain ⟨hlive', hhash, hpos, hstate⟩ := hfc'
  exact hok.setControl hfc hhash (fun _ => hlive') hpos fun _ hfits => hstate ▸ hfits

theorem Moved.trans {s s' s'' : Controller Hash} (hmoved : Moved strict s s')
    (hmoved' : Moved strict s' s'') : Moved strict s s'' :=
  ⟨hmoved.1.trans hmoved'.1, hmoved'.2.1.trans hmoved.2.1, hmoved'.2.2⟩

theorem Moved.mem {s s' : Controller Hash} (hmoved : Moved strict s s') {addr : Nat}
    (hmem : addr ∈ s.mDownloadQueue) : addr ∈ s'.mDownloadQueue :=
  hmoved.2.1.mem_iff.mpr hmem

theorem QueueOk.exchange {s : Controller Hash} (hok : s.QueueOk strict) {inactive online : Nat}
    (hinactive : inactive ∈ s.mDownloadQueue) (honline : online ∈ s.mDownloadQueue) (now : Int) :
    Yields (s.exchange now inactive online) (Moved strict s) := by
  refine (hok.resetActvTimeStamp hinactive now).bind fun s₁ hs₁ => ?_
  refine ((hok.moved hs₁).resetActvTimeStamp (hs₁.mem honline) now).bind fun s₂ hs₂ => ?_
  have hmoved := hs₁.trans hs₂
  obtain ⟨fc, hfc, hat⟩ := hmoved.2.2.placed_iff (hmoved.mem hinactive)
  obtain ⟨fc', hfc', hat'⟩ := hmoved.2.2.placed_iff (hmoved.mem honline)
  refine .bind_eq (control_eq hfc) (.bind_eq (control_eq hfc') ?_)
  have hlt := (List.getElem?_eq_some_iff.mp hat).1
  have hlt' := (List.getElem?_eq_some_iff.mp hat').1
  exact (hmoved.2.2.swapQueue hlt hlt' now).mono fun s₃ hs₃ => hmoved.trans hs₃

theorem QueueOk.requeue {s : Controller Hash} (hok : s.QueueOk strict) {inactive : Nat}
    (hinactive : inactive ∈ s.mDownloadQueue) (now : Int) :
    Yields (s.requeue now inactive) (Moved strict s) := by
  obtain ⟨fc, hfc, hat⟩ := hok.seated.placed_iff hinactive
  refine .bind_eq (control_eq hfc) ((hok.seated.bottomQueue hat now).bind fun s' hs' => ?_)
  exact ((hok.moved hs').resetActvTimeStamp (hs'.mem hinactive) now).mono fun _ => hs'.trans

theorem QueueOk.checkDownloadQueue {s : Controller Hash} (hok : s.QueueOk strict) (now : Int)
    (hasOnlineSource : Hash → Bool) :
    Yields (s.checkDownloadQueue now hasOnlineSource) (QueueOk strict) := by
  unfold Controller.checkDownloadQueue
  split
  · exact .ok hok
  · have hentries : ∀ entry ∈ s.mDownloads.toList, entry.2 ∈ s.mDownloadQueue := fun entry hentry =>
      hok.mem_queue.mpr ⟨entry.1, (OrderedMap.mem_toList _).mp hentry⟩
    refine (classify_spec hok now hasOnlineSource _ hentries).bind fun found hfound => ?_
    have hself : Moved strict s s := ⟨.refl s, .refl _, hok.seated⟩
    refine (Yields.foldlM (fun rest s' => Moved strict s s' ∧ ∀ entry ∈ rest,
      entry.1 ∈ s.mDownloadQueue ∧ entry.2 ∈ s.mDownloadQueue) ?_ _ s ?_).bind fun s₁ hs₁ => ?_
    · rintro entry rest s' ⟨hmoved, hrest⟩
      obtain ⟨⟨hfirst, hsecond⟩, hrest⟩ := List.forall_mem_cons.mp hrest
      exact ((hok.moved hmoved).exchange (hmoved.mem hfirst) (hmoved.mem hsecond) now).mono
        fun _ hs'' => ⟨hmoved.trans hs'', hrest⟩
    · exact ⟨hself, fun entry hentry =>
        ⟨hfound.1 _ (List.of_mem_zip hentry).1, hfound.2 _ (List.of_mem_zip hentry).2⟩⟩
    refine (Yields.foldlM (fun rest s' => Moved strict s s' ∧ ∀ addr ∈ rest,
      addr ∈ s.mDownloadQueue) ?_ _ s₁ ?_).bind fun s₂ hs₂ => ?_
    · rintro addr rest s' ⟨hmoved, hrest⟩
      obtain ⟨hfirst, hrest⟩ := List.forall_mem_cons.mp hrest
      exact ((hok.moved hmoved).requeue (hmoved.mem hfirst) now).mono
        fun _ hs'' => ⟨hmoved.trans hs'', hrest⟩
    · exact ⟨hs₁.1, fun addr hmem => hfound.1 addr (List.mem_of_mem_drop hmem)⟩
    have hok₂ := hok.moved hs₂.1
    have hscattered : s₂.Scattered strict (List.range s₂.mDownloadQueue.length) :=
      ⟨hok₂.seated.nodup, hok₂.seated.live, fun hat _ => hok₂.seated.placed hat List.not_mem_nil⟩
    refine (hscattered.checkAll (fun pos => List.mem_range.mp) now).mono fun s₃ hs₃ => ?_
    exact hok₂.moved ⟨hs₃.1, hs₃.2.1 ▸ .refl _, hs₃.2.2⟩

end Controller

end Queue

end RetroShare.Ft
