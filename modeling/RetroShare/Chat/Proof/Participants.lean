import RetroShare.Foundation.Transition
import RetroShare.Chat.Participants
import RetroShare.Chat.Proof.OnlyOnce

/-!
# Leaving a lobby

`bounceLobbyObject` puts the author of an object on the list before it looks for earlier copies, and
before it looks for a flood. So a second copy of a `PEER_LEFT` event brings its author back, for good
as long as nothing else is heard of him. Without such objects, who left stays off the list.
-/

namespace RetroShare.Chat

open Transition OrderedMap

variable {overLimit : Nat → Nat → Bool} {service : Service} {item : BouncingObject}
  {lobby : ChatLobbyEntry} {lobbyId : ChatLobbyId} {keyId : RsGxsId} {now : Int} {peerId : RsPeerId}

/-! ### Who is on the list -/

/-- `keyId` is in the `gxs_ids` of the lobby. -/
def Service.Lists (service : Service) (lobbyId : ChatLobbyId) (keyId : RsGxsId) : Prop :=
  ∃ lobby, service.chatLobbys[lobbyId]? = some lobby ∧ lobby.gxsIds[keyId]?.isSome

theorem lists_iff (hlobby : service.chatLobbys[lobbyId]? = some lobby) :
    service.Lists lobbyId keyId ↔ lobby.gxsIds[keyId]?.isSome := by
  constructor
  · rintro ⟨other, hother, hlists⟩
    cases hlobby.symm.trans hother
    exact hlists
  · exact fun hlists => ⟨lobby, hlobby, hlists⟩

theorem Service.Lists.congr {other : Service}
    (hsame : service.chatLobbys[lobbyId]? = other.chatLobbys[lobbyId]?) :
    service.Lists lobbyId keyId ↔ other.Lists lobbyId keyId := by
  rw [Service.Lists, Service.Lists, hsame]

theorem lists_setLobby_self :
    (service.setLobby lobbyId lobby).Lists lobbyId keyId ↔ lobby.gxsIds[keyId]?.isSome :=
  lists_iff (lookup_insert_self _ _ _)

theorem lists_setLobby_ne {other : ChatLobbyId} (hne : lobbyId ≠ other) :
    (service.setLobby lobbyId lobby).Lists other keyId ↔ service.Lists other keyId :=
  Service.Lists.congr (lookup_insert_ne _ _ hne)

/-- Who is on a list after the change of one lobby. -/
theorem lists_modifyLobby {changed : ChatLobbyId} {f : ChatLobbyEntry → ChatLobbyEntry}
    (hlists : (service.modifyLobby changed f).Lists lobbyId keyId) :
    changed ≠ lobbyId ∧ service.Lists lobbyId keyId ∨
      changed = lobbyId ∧ ∃ lobby, service.chatLobbys[lobbyId]? = some lobby ∧
        (f lobby).gxsIds[keyId]?.isSome := by
  unfold Service.modifyLobby at hlists
  cases hlobby : service.chatLobbys[changed]? with
  | none =>
      rw [hlobby] at hlists
      refine Or.inl ⟨?_, hlists⟩
      rintro rfl
      obtain ⟨lobby, hpresent, -⟩ := hlists
      exact absurd (hlobby.symm.trans hpresent) (Option.some_ne_none lobby).symm
  | some lobby =>
      rw [hlobby] at hlists
      by_cases heq : changed = lobbyId
      · subst heq
        exact Or.inr ⟨rfl, lobby, hlobby, lists_setLobby_self.mp hlists⟩
      · exact Or.inl ⟨heq, (lists_setLobby_ne heq).mp hlists⟩

/-- A change that puts nobody on the list. -/
theorem lists_of_modifyLobby {changed : ChatLobbyId} {f : ChatLobbyEntry → ChatLobbyEntry}
    (hf : ∀ lobby : ChatLobbyEntry, (f lobby).gxsIds[keyId]?.isSome → lobby.gxsIds[keyId]?.isSome)
    (hlists : (service.modifyLobby changed f).Lists lobbyId keyId) : service.Lists lobbyId keyId := by
  rcases lists_modifyLobby hlists with ⟨-, hbefore⟩ | ⟨-, lobby, hlobby, hlist⟩
  · exact hbefore
  · exact ⟨lobby, hlobby, hf lobby hlist⟩

theorem isSome_of_erase {ids : OrderedMap RsGxsId Int} {erased : RsGxsId}
    (hsome : (ids.erase erased)[keyId]?.isSome) : ids[keyId]?.isSome := by
  rw [lookup_erase] at hsome
  split at hsome
  · exact absurd hsome Bool.false_ne_true
  · exact hsome

/-! ### What a bounce does to the list -/

/-- There were too many objects from this peer lately. -/
def Service.floods (overLimit : Nat → Nat → Bool) (service : Service) (now : Int)
    (item : BouncingObject) (peerId : RsPeerId) (lobby : ChatLobbyEntry) : Bool :=
  let lobbyCount :=
    service.visibleLobbies[item.lobbyId]?.getD (lobby.gxsIds.insert item.keyId now).size
  let recent := (service.messageCounts[toLex (peerId, item.lobbyId)]?.getD []).dropWhile fun time =>
    time + maxMessagesPerSecondsPeriod < now
  overLimit recent.length lobbyCount

/-- The object is neither a copy of one in the cache, nor part of a flood. -/
def Service.Takes (overLimit : Nat → Nat → Bool) (service : Service) (now : Int)
    (item : BouncingObject) (peerId : RsPeerId) : Prop :=
  ∀ lobby : ChatLobbyEntry, service.chatLobbys[item.lobbyId]? = some lobby →
    lobby.msgCache[item.msgId]? = none ∧ service.floods overLimit now item peerId lobby = false

theorem bouncingObjectCheck_setLobby {changed : ChatLobbyEntry}
    (hids : changed.gxsIds = lobby.gxsIds.insert item.keyId now) :
    ((service.setLobby item.lobbyId changed).bouncingObjectCheck overLimit now item peerId).1 =
      !service.floods overLimit now item peerId lobby := by
  have hlobby : (service.setLobby item.lobbyId changed).chatLobbys[item.lobbyId]? = some changed :=
    lookup_insert_self _ _ _
  have hvisible : (service.setLobby item.lobbyId changed).visibleLobbies = service.visibleLobbies := rfl
  have hcounts : (service.setLobby item.lobbyId changed).messageCounts = service.messageCounts := rfl
  have hanswer : ∀ (limit : Bool) (refused taken : Service),
      (if limit = true then (false, refused) else (true, taken)).1 = !limit := by
    intro limit refused taken
    cases limit <;> rfl
  rw [Service.bouncingObjectCheck, hlobby, hvisible, hcounts, Service.floods, ← hids]
  cases service.visibleLobbies[item.lobbyId]? with
  | none => exact hanswer _ _ _
  | some count => exact hanswer _ _ _

/-- A bounce puts the author on the list, taken or not. -/
theorem bounceLobbyObject_lists (connected : Finset RsPeerId)
    (hlobby : service.chatLobbys[item.lobbyId]? = some lobby) :
    let result := service.bounceLobbyObject overLimit now connected item peerId
    (∀ other author, result.2.1.Lists other author ↔
      other = item.lobbyId ∧ author = item.keyId ∨ service.Lists other author) ∧
    (result.1 = true ↔ service.Takes overLimit now item peerId) := by
  have hchanged : ∀ (after : Service) (changed : ChatLobbyEntry),
      after.chatLobbys[item.lobbyId]? = some changed →
      (∀ other, item.lobbyId ≠ other → after.chatLobbys[other]? = service.chatLobbys[other]?) →
      changed.gxsIds = lobby.gxsIds.insert item.keyId now →
      ∀ other author, after.Lists other author ↔
        other = item.lobbyId ∧ author = item.keyId ∨ service.Lists other author := by
    intro after changed hafter hothers hids other author
    by_cases hother : item.lobbyId = other
    · subst hother
      rw [lists_iff hafter, lists_iff hlobby, hids, lookup_insert]
      by_cases hauthor : item.keyId = author
      · rw [if_pos hauthor]
        exact iff_of_true rfl (Or.inl ⟨rfl, hauthor.symm⟩)
      · rw [if_neg hauthor]
        exact ⟨Or.inr, fun h => h.resolve_left fun h => hauthor h.2.symm⟩
    · rw [Service.Lists.congr (hothers other hother)]
      exact ⟨Or.inr, fun h => h.resolve_left fun h => hother h.1.symm⟩
  have htakes : service.Takes overLimit now item peerId ↔ lobby.msgCache[item.msgId]? = none ∧
      service.floods overLimit now item peerId lobby = false := by
    constructor
    · exact fun h => h lobby hlobby
    · intro h other hother
      cases hlobby.symm.trans hother
      exact h
  rw [htakes, Service.bounceLobbyObject, hlobby]
  dsimp only
  generalize (if peerId ≠ service.ownId then insert peerId lobby.participatingFriends
    else lobby.participatingFriends) = friends
  split
  · next hcached =>
      refine ⟨hchanged _ _ (lookup_insert_self _ _ _) (fun _ => lookup_insert_ne _ _) rfl,
        iff_of_false Bool.false_ne_true fun h => ?_⟩
      rw [h.1] at hcached
      exact Bool.false_ne_true hcached
  · next hnew =>
      have huncached : lobby.msgCache[item.msgId]? = none := by simpa using hnew
      have hcheck := @bouncingObjectCheck_setLobby overLimit service item lobby now peerId
        { lobby with
          participatingFriends := friends
          gxsIds := lobby.gxsIds.insert item.keyId now
          msgCache := lobby.msgCache.insert item.msgId now
          lastActivity := now } rfl
      have hlobbys := chatLobbys_bouncingObjectCheck overLimit (service.setLobby item.lobbyId
        { lobby with
          participatingFriends := friends
          gxsIds := lobby.gxsIds.insert item.keyId now
          msgCache := lobby.msgCache.insert item.msgId now
          lastActivity := now }) now item peerId
      generalize Service.bouncingObjectCheck overLimit _ now item peerId = checked at hcheck hlobbys ⊢
      have hothers : ∀ other, item.lobbyId ≠ other →
          checked.2.chatLobbys[other]? = service.chatLobbys[other]? := by
        intro other hother
        rw [hlobbys]
        exact lookup_insert_ne _ _ hother
      split
      · next hflood =>
          rw [hcheck] at hflood
          refine ⟨hchanged _ _ (by rw [hlobbys]; exact lookup_insert_self _ _ _) hothers rfl,
            iff_of_false Bool.false_ne_true fun h => ?_⟩
          rw [h.2] at hflood
          exact Bool.false_ne_true hflood
      · next htaken =>
          rw [hcheck] at htaken
          refine ⟨hchanged _ _ (lookup_insert_self _ _ _) (fun other hother => ?_) rfl,
            iff_of_true rfl ⟨huncached, by simpa using htaken⟩⟩
          exact (lookup_insert_ne _ _ hother).trans (hothers other hother)

/-- A handler puts at most the author of an object on the list that it admits. -/
theorem handleRecv_lists {checkTime bounceTime : Int} {answers : Answers} :
    let handled :=
      service.handleRecvBouncingObject overLimit checkTime bounceTime answers item peerId
    (∀ other author, handled.2.1.Lists other author →
      service.admits checkTime answers item = true ∧ other = item.lobbyId ∧ author = item.keyId ∨
        service.Lists other author) ∧
    (service.admits checkTime answers item = true →
      service.Takes overLimit bounceTime item peerId → handled.1 = true) := by
  cases hadmits : service.admits checkTime answers item with
  | false =>
      dsimp only
      rw [handleRecv_refused hadmits]
      exact ⟨fun _ _ => Or.inr, fun h => absurd h Bool.false_ne_true⟩
  | true =>
      obtain ⟨-, lobby, hlobby⟩ := sendTime_le_of_admits hadmits
      obtain ⟨hlists, htakes⟩ := @bounceLobbyObject_lists overLimit service item lobby bounceTime
        peerId answers.connected hlobby
      have hafter := (congrArg Prod.fst (handleRecv_admitted overLimit bounceTime peerId hadmits))
      dsimp only at hafter ⊢
      rw [hafter]
      refine ⟨fun other author hlist => ?_, fun _ h => ?_⟩
      · rcases (hlists other author).mp hlist with hauthor | hbefore
        · exact Or.inl ⟨rfl, hauthor⟩
        · exact Or.inr hbefore
      · have hfresh := htakes.mpr h
        rw [Service.handleRecvBouncingObject, hadmits]
        dsimp only
        rw [if_neg (by decide), hfresh]
        rfl

/-- An event that is acted on may put its author on the list, or take him off. -/
theorem processEvent_lists {checkTime bounceTime actTime : Int} {answers : Answers}
    {eventType : EventType} :
    let handled := service.processEvent overLimit checkTime bounceTime actTime answers item eventType
      peerId
    (∀ other author, handled.2.Lists other author →
      service.admits checkTime answers item = true ∧ other = item.lobbyId ∧ author = item.keyId ∨
        service.Lists other author) ∧
    (handled.1 = true → eventType = .peerLeft → ¬handled.2.Lists item.lobbyId item.keyId) ∧
    (service.admits checkTime answers item = true →
      service.Takes overLimit bounceTime item peerId → handled.1 = true) := by
  obtain ⟨hlists, htakes⟩ := @handleRecv_lists overLimit service item peerId checkTime bounceTime
    answers
  have hadmitted : (service.handleRecvBouncingObject overLimit checkTime bounceTime answers item
      peerId).1 = true → service.admits checkTime answers item = true := by
    intro hfresh
    by_contra hrefused
    rw [handleRecv_refused (Bool.eq_false_of_not_eq_true hrefused)] at hfresh
    exact Bool.false_ne_true hfresh
  rw [Service.processEvent, Service.handleRecvChatLobbyEventItem]
  generalize service.handleRecvBouncingObject overLimit checkTime bounceTime answers item peerId =
    handled at *
  obtain ⟨accepted, after, events⟩ := handled
  cases accepted with
  | false => exact ⟨hlists, fun h => absurd h Bool.false_ne_true, htakes⟩
  | true =>
      refine ⟨fun other author hlist => ?_, fun _ hleft hlist => ?_, fun _ _ => rfl⟩
      · by_cases hauthor : other = item.lobbyId ∧ author = item.keyId
        · exact Or.inl ⟨hadmitted rfl, hauthor⟩
        · refine hlists other author ?_
          rcases lists_modifyLobby hlist with ⟨-, hbefore⟩ | ⟨hsame, lobby, hlobby, hpresent⟩
          · exact hbefore
          · have hne : item.keyId ≠ author := fun h => hauthor ⟨hsame.symm, h.symm⟩
            refine ⟨lobby, hlobby, ?_⟩
            cases eventType with
            | peerLeft => exact isSome_of_erase hpresent
            | peerJoined => exact lookup_insert_ne lobby.gxsIds actTime hne ▸ hpresent
            | keepAlive => exact lookup_insert_ne lobby.gxsIds actTime hne ▸ hpresent
            | other => exact hpresent
      · subst hleft
        rcases lists_modifyLobby hlist with ⟨hne, -⟩ | ⟨-, lobby, -, hpresent⟩
        · exact hne rfl
        · rw [ChatLobbyEntry.actOn, lookup_erase, if_pos rfl] at hpresent
          exact Bool.false_ne_true hpresent

/-! ### Runs -/

namespace World

variable {w : World}

/-- Who left is not on the list. -/
def Final (w : World) : Prop :=
  ∀ lobbyId keyId, (lobbyId, keyId) ∈ w.out → ¬w.service.Lists lobbyId keyId

/-- The id of the object is new to the lobby. -/
def Unseen (w : World) (item : BouncingObject) : Prop := (item.lobbyId, item.msgId) ∉ w.seen

/-- No object of an author who left reaches `bounceLobbyObject`, unless it is taken; and it is taken
under a new id, or is another `PEER_LEFT` event. -/
def allowed (overLimit : Nat → Nat → Bool) (w : World) : LobbyOp → Prop
  | .message checkTime bounceTime answers item peerId =>
      w.service.admits checkTime answers item = true → (item.lobbyId, item.keyId) ∈ w.out →
        w.Unseen item ∧ w.service.Takes overLimit bounceTime item peerId
  | .event checkTime bounceTime _ answers item eventType peerId =>
      w.service.admits checkTime answers item = true → (item.lobbyId, item.keyId) ∈ w.out →
        (eventType = .peerLeft ∨ w.Unseen item) ∧
          w.service.Takes overLimit bounceTime item peerId
  | .sendOwn bounceTime _ item =>
      (item.lobbyId, item.keyId) ∈ w.out →
        w.Unseen item ∧ w.service.Takes overLimit bounceTime item w.service.ownId
  | _ => True

/-- What has to hold of an object that is noted. -/
theorem Final.note (hfinal : w.Final) {after : Service} {reached accepted leaves : Bool}
    (hlists : ∀ other author, after.Lists other author →
      reached = true ∧ other = item.lobbyId ∧ author = item.keyId ∨ w.service.Lists other author)
    (hleaves : accepted = true → leaves = true → ¬after.Lists item.lobbyId item.keyId)
    (hout : reached = true → (item.lobbyId, item.keyId) ∈ w.out →
      accepted = true ∧ (leaves = true ∨ w.Unseen item)) :
    (w.note item after reached accepted leaves).Final := by
  -- whoever was out before and is not the author stays off the list
  have hothers : ∀ other author, (other, author) ∈ w.out →
      ¬(reached = true ∧ other = item.lobbyId ∧ author = item.keyId) →
      ¬after.Lists other author := by
    intro other author hmem hne hlist
    exact hfinal other author hmem ((hlists other author hlist).resolve_left hne)
  intro other author hmem hlist
  dsimp only [World.note] at hmem hlist
  cases accepted with
  | false =>
      refine hothers other author hmem ?_ hlist
      rintro ⟨hreached, rfl, rfl⟩
      exact absurd (hout hreached hmem).1 Bool.false_ne_true
  | true =>
      rw [Bool.not_true, if_neg Bool.false_ne_true] at hmem
      cases leaves with
      | true =>
          rw [if_pos rfl, Finset.mem_insert] at hmem
          by_cases hauthor : (other, author) = (item.lobbyId, item.keyId)
          · cases hauthor
            exact hleaves rfl rfl hlist
          · refine hothers other author (hmem.resolve_left hauthor) ?_ hlist
            rintro ⟨-, rfl, rfl⟩
            exact hauthor rfl
      | false =>
          rw [if_neg Bool.false_ne_true] at hmem
          split at hmem
          · next hseen =>
              refine hothers other author hmem ?_ hlist
              rintro ⟨hreached, rfl, rfl⟩
              exact (hout hreached hmem).2.resolve_left Bool.false_ne_true hseen
          · next hnew =>
              obtain ⟨hauthor, hmem⟩ := Finset.mem_erase.mp hmem
              refine hothers other author hmem ?_ hlist
              rintro ⟨-, rfl, rfl⟩
              exact hauthor rfl

/-- An operation that puts nobody on a list. -/
theorem Final.mono (hfinal : w.Final) {after : Service}
    (hlists : ∀ other author, after.Lists other author → w.service.Lists other author) :
    Final { w with service := after } :=
  fun other author hmem hlist => hfinal other author hmem (hlists other author hlist)

theorem Final.message (hfinal : w.Final) {checkTime bounceTime : Int} {answers : Answers}
    (hallowed : w.allowed overLimit (.message checkTime bounceTime answers item peerId))
    {after : World}
    (hstep : w.step overLimit (.message checkTime bounceTime answers item peerId) = some after) :
    after.Final := by
  cases hstep
  obtain ⟨hlists, htakes⟩ := @handleRecv_lists overLimit w.service item peerId checkTime bounceTime
    answers
  refine hfinal.note hlists (fun _ hleaves => absurd hleaves Bool.false_ne_true) ?_
  intro hadmits hout
  obtain ⟨hunseen, htaken⟩ := hallowed hadmits hout
  exact ⟨htakes hadmits htaken, Or.inr hunseen⟩

theorem Final.event (hfinal : w.Final) {checkTime bounceTime actTime : Int} {answers : Answers}
    {eventType : EventType}
    (hallowed : w.allowed overLimit
      (.event checkTime bounceTime actTime answers item eventType peerId))
    {after : World} (hstep : w.step overLimit
      (.event checkTime bounceTime actTime answers item eventType peerId) = some after) :
    after.Final := by
  cases hstep
  obtain ⟨hlists, hleaves, htakes⟩ := @processEvent_lists overLimit w.service item peerId checkTime
    bounceTime actTime answers eventType
  refine hfinal.note hlists (fun haccepted hleft => hleaves haccepted (of_decide_eq_true hleft)) ?_
  intro hadmits hout
  obtain ⟨hkind, htaken⟩ := hallowed hadmits hout
  exact ⟨htakes hadmits htaken, hkind.imp_left decide_eq_true⟩

theorem Final.sendOwn (hfinal : w.Final) {bounceTime : Int} {connected : Finset RsPeerId}
    (hallowed : w.allowed overLimit (.sendOwn bounceTime connected item)) {after : World}
    (hstep : w.step overLimit (.sendOwn bounceTime connected item) = some after) : after.Final := by
  cases hstep
  cases hlobby : w.service.chatLobbys[item.lobbyId]? with
  | none =>
      rw [Service.sendOwnObject, Service.bounceLobbyObject, hlobby]
      exact hfinal.note (fun _ _ => Or.inr) (fun h => absurd h Bool.false_ne_true)
        fun h => absurd h Bool.false_ne_true
  | some lobby =>
      obtain ⟨hlists, htakes⟩ := @bounceLobbyObject_lists overLimit w.service item lobby bounceTime
        w.service.ownId connected hlobby
      refine hfinal.note (fun other author hlist => ?_) (fun _ h => absurd h Bool.false_ne_true) ?_
      · exact ((hlists other author).mp hlist).imp_left fun h => ⟨rfl, h⟩
      · intro _ hout
        obtain ⟨hunseen, htaken⟩ := hallowed hout
        exact ⟨htakes.mpr htaken, Or.inr hunseen⟩

theorem lists_of_clean {cleanTime : Int} {other : ChatLobbyId} {author : RsGxsId}
    (hlist : (w.service.cleanLobbyCaches cleanTime).Lists other author) :
    w.service.Lists other author := by
  obtain ⟨lobby, hlobby, hpresent⟩ := hlist
  rw [Service.cleanLobbyCaches, Std.ExtTreeMap.getElem?_map] at hlobby
  obtain ⟨before, hbefore, rfl⟩ := Option.map_eq_some_iff.mp hlobby
  refine ⟨before, hbefore, ?_⟩
  rw [ChatLobbyEntry.clean, lookup_filter] at hpresent
  exact Option.isSome_of_isSome_filter _ _ hpresent

/-- **Step.** -/
theorem Final.step (hfinal : w.Final) {op : LobbyOp} (hallowed : w.allowed overLimit op)
    {after : World} (hstep : w.step overLimit op = some after) : after.Final := by
  cases op with
  | message => exact hfinal.message hallowed hstep
  | event => exact hfinal.event hallowed hstep
  | sendOwn => exact hfinal.sendOwn hallowed hstep
  | friendUnsubscribe lobbyId peerId =>
      cases hstep
      exact hfinal.mono fun other author => lists_of_modifyLobby fun lobby => isSome_of_erase
  | clean cleanTime =>
      cases hstep
      exact hfinal.mono fun other author => lists_of_clean
  | subscribe lobbyId pgpSigned =>
      cases hstep
      refine hfinal.mono fun other author hlist => ?_
      dsimp only [Service.run] at hlist
      split at hlist
      · exact hlist
      · by_cases heq : lobbyId = other
        · subst heq
          have hpresent := lists_setLobby_self.mp hlist
          exact absurd hpresent (by simp)
        · exact (lists_setLobby_ne heq).mp hlist
  | unsubscribe lobbyId =>
      cases hstep
      refine hfinal.mono fun other author hlist => ?_
      obtain ⟨lobby, hlobby, hpresent⟩ := hlist
      dsimp only [Service.run] at hlobby
      rw [lookup_erase] at hlobby
      split at hlobby
      · exact absurd hlobby (Option.some_ne_none lobby).symm
      · exact ⟨lobby, hlobby, hpresent⟩
  | setFriends lobbyId friends =>
      cases hstep
      exact hfinal.mono fun other author => lists_of_modifyLobby fun lobby => id
  | setVisible lobbyId count =>
      cases hstep
      exact hfinal.mono fun other author => id

/-- **Who left stays off the list**, in every run in which no object of such an author reaches
`bounceLobbyObject` without being taken. -/
theorem final_of_reaches {initial w : World} (hinitial : initial.out = ∅)
    (hreach : Reaches (World.step overLimit) (World.allowed overLimit) initial w) : w.Final := by
  refine hreach.invariant Final (fun _ _ _ hfinal hallowed hstep => hfinal.step hallowed hstep) ?_
  intro lobbyId keyId hout
  rw [hinitial] at hout
  exact absurd hout (Finset.notMem_empty _)

/-! ### Copies of a departure -/

/-- Identity 9 takes part in lobby 7. -/
def attended : World :=
  ⟨⟨1, (∅ : OrderedMap _ _).insert 7 ⟨false, ∅, {2, 3}, (∅ : OrderedMap _ _).insert 9 0, 0, 0⟩, ∅, ∅⟩,
    ∅, ∅⟩

/-- Its `PEER_LEFT` event, that comes from a friend. -/
def departure (now : Int) (peerId : RsPeerId) : LobbyOp :=
  .event now now now untroubled ⟨.event, 7, 5, 0, 9, 100⟩ .peerLeft peerId

/-- The state that these operations lead to, where the limit against flooding is not reached. -/
def following (ops : List LobbyOp) : World :=
  ops.foldl (fun w op => (w.step (fun _ _ => false) op).getD w) attended

theorem final_sample : (following [departure 10 2]).Final :=
  final_of_reaches rfl (.next (departure 10 2) (.refl attended)
    (fun _ hout => absurd hout (Finset.notMem_empty _)) rfl)

/-- The second copy puts its author on the list again. -/
theorem final_counterexample :
    ¬∀ w : World, Reaches (World.step fun _ _ => false) (fun _ _ => True) attended w → w.Final := by
  intro hall
  have hreach : Reaches (World.step fun _ _ => false) (fun _ _ => True) attended
      (following [departure 10 2, departure 11 3]) :=
    .next (departure 11 3) (.next (departure 10 2) (.refl attended) trivial rfl) trivial rfl
  refine hall _ hreach 7 9 (by decide) ⟨_, rfl, ?_⟩
  rfl

end World

end RetroShare.Chat
