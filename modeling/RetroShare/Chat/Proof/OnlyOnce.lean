import RetroShare.Chat.DistributedChat
import RetroShare.Foundation.Transition

/-!
# Lobby messages are handled once

A message is taken for a duplicate as long as its id is in the cache, which forgets it 1200 seconds
after its last sighting. A copy passes the age test up to 1100 seconds after the time its sender
wrote on it, and that time may be 600 seconds ahead of the first sighting. So the cache forgets too
early when it is cleaned in between, and never does if the sender is at most 100 seconds ahead.
-/

namespace RetroShare.Chat

open Transition

/-! ### The observer of one lobby -/

/-- What tells messages of one lobby apart. -/
abbrev MessageKey := ChatLobbyMsgId × Int

/-- The service, with what an observer of one lobby notes: the clock, the time of the last cleaning,
when each message was last bounced, and what became of it. -/
structure Watched where
  service : Service
  clock : Int
  lastClean : Int
  lastSeen : MessageKey → Option Int
  log : List Event

/-- The item is that message of the lobby. -/
def BouncingObject.Carries (item : BouncingObject) (lobbyId : ChatLobbyId) (key : MessageKey) :
    Prop :=
  item.kind = .message ∧ item.lobbyId = lobbyId ∧ (item.msgId, item.sendTime) = key

instance (item : BouncingObject) (lobbyId : ChatLobbyId) (key : MessageKey) :
    Decidable (item.Carries lobbyId key) := by
  unfold BouncingObject.Carries
  infer_instance

/-- Messages of the lobby that a bounce at that time has seen. -/
def noteSeen (lobbyId : ChatLobbyId) (bounceTime : Int) (item : BouncingObject)
    (lastSeen : MessageKey → Option Int) : MessageKey → Option Int := fun key =>
  if item.Carries lobbyId key then some bounceTime else lastSeen key

/-- A run of the service in which the clock reads no earlier than `start`. -/
def Watched.start (ownId : RsPeerId) (start : Int) : Watched :=
  ⟨⟨ownId, ∅, ∅, ∅⟩, start, start, fun _ => none, []⟩

section Runs

variable (overLimit : Nat → Nat → Bool) (lobbyId : ChatLobbyId)

def Watched.step (watched : Watched) (op : Op) : Option Watched :=
  let (service, events) := watched.service.run overLimit op
  let watched' := { watched with service := service, log := watched.log ++ events }
  match op with
  | .receive checkTime bounceTime answers item _ =>
      some { watched' with
        clock := bounceTime
        lastSeen :=
          if watched.service.admits checkTime answers item then
            noteSeen lobbyId bounceTime item watched.lastSeen
          else watched.lastSeen }
  | .sendOwn bounceTime _ item =>
      some { watched' with
        clock := bounceTime
        lastSeen :=
          if (watched.service.chatLobbys[item.lobbyId]?).isSome then
            noteSeen lobbyId bounceTime item watched.lastSeen
          else watched.lastSeen }
  | .clean now => some { watched' with clock := now, lastClean := now }
  | _ => some watched'

/-- Time does not run backwards, the lobby is not left, and own objects are drawn up after the clock
was last read, with an id that is not in the cache. -/
def Watched.Ordinary (watched : Watched) : Op → Prop
  | .receive checkTime bounceTime _ _ _ => watched.clock ≤ checkTime ∧ checkTime ≤ bounceTime
  | .sendOwn bounceTime _ item =>
      watched.clock ≤ item.sendTime ∧ item.sendTime ≤ bounceTime ∧
        ∀ lobby : ChatLobbyEntry, watched.service.chatLobbys[item.lobbyId]? = some lobby →
          lobby.msgCache[item.msgId]? = none
  | .clean now => watched.clock ≤ now
  | .unsubscribe left => left ≠ lobbyId
  | _ => True

/-- A copy that passes the tests comes before the caches are cleaned more than 1200 seconds after
the message was last seen. -/
def Watched.InWindow (watched : Watched) : Op → Prop
  | .receive checkTime _ answers item _ =>
      watched.service.admits checkTime answers item →
        ∀ key, item.Carries lobbyId key → ∀ seen, watched.lastSeen key = some seen →
          watched.lastClean ≤ seen + maxKeepMsgRecord
  | _ => True

/-- The event shows that message. -/
def Event.shows (key : MessageKey) : Event → Bool
  | .accepted item _ => decide (item.Carries lobbyId key)
  | .forwarded _ _ => false

/-- The event sends that message to that friend. -/
def Event.sends (key : MessageKey) (friend : RsPeerId) : Event → Bool
  | .accepted _ _ => false
  | .forwarded item peerId => decide (item.Carries lobbyId key) && decide (peerId = friend)

/-- Every message of the lobby is shown at most once, goes to each friend at most once, and does not
go back to the friend from whom it was taken. -/
def OnlyOnce (log : List Event) : Prop :=
  ∀ key, log.countP (Event.shows lobbyId key) ≤ 1 ∧
    (∀ friend, log.countP (Event.sends lobbyId key friend) ≤ 1) ∧
    ∀ item friend, item.Carries lobbyId key → Event.accepted item friend ∈ log →
      log.countP (Event.sends lobbyId key friend) = 0

end Runs

/-! ### What a bounce does -/

/-- The cache of a lobby, if there is one. -/
def Service.cache (service : Service) (lobbyId : ChatLobbyId) : Option (OrderedMap ChatLobbyMsgId Int) :=
  service.chatLobbys[lobbyId]?.map (·.msgCache)

theorem cache_setLobby (service : Service) (lobbyId other : ChatLobbyId) (lobby : ChatLobbyEntry) :
    (service.setLobby lobbyId lobby).cache other =
      if lobbyId = other then some lobby.msgCache else service.cache other := by
  unfold Service.cache Service.setLobby
  rw [OrderedMap.lookup_insert]
  split <;> rfl

theorem chatLobbys_bouncingObjectCheck (overLimit : Nat → Nat → Bool) (service : Service)
    (now : Int) (item : BouncingObject) (peerId : RsPeerId) :
    (service.bouncingObjectCheck overLimit now item peerId).2.chatLobbys = service.chatLobbys := by
  unfold Service.bouncingObjectCheck
  dsimp only
  split
  · rfl
  · split <;> rfl

/-- The id of the object enters the cache, or its time there moves on. A duplicate is not sent on,
any other object to different friends, none of them the one it came from. -/
theorem bounceLobbyObject_spec (overLimit : Nat → Nat → Bool) {service : Service} (now : Int)
    (connected : Finset RsPeerId) {item : BouncingObject} (peerId : RsPeerId)
    {lobby : ChatLobbyEntry} (hlobby : service.chatLobbys[item.lobbyId]? = some lobby) :
    let result := service.bounceLobbyObject overLimit now connected item peerId
    (∀ other, result.2.1.cache other =
      if item.lobbyId = other then some (lobby.msgCache.insert item.msgId now)
      else service.cache other) ∧
    (lobby.msgCache[item.msgId]?.isSome → result.1 = false ∧ result.2.2 = []) ∧
    ∃ friends : List RsPeerId, friends.Nodup ∧ peerId ∉ friends ∧
      result.2.2 = friends.flatMap (checkSizeAndSend item) := by
  unfold Service.bounceLobbyObject
  rw [hlobby]
  dsimp only
  generalize (if peerId ≠ service.ownId then insert peerId lobby.participatingFriends
    else lobby.participatingFriends) = friends
  split
  · next hcached =>
      exact ⟨fun other => cache_setLobby .., fun _ => ⟨rfl, rfl⟩,
        [], List.nodup_nil, List.not_mem_nil, rfl⟩
  · next hnew =>
      split
      · refine ⟨fun other => ?_, fun hcached => absurd hcached hnew,
          [], List.nodup_nil, List.not_mem_nil, rfl⟩
        unfold Service.cache
        rw [chatLobbys_bouncingObjectCheck]
        exact cache_setLobby ..
      · refine ⟨fun other => ?_, fun hcached => absurd hcached hnew, _, Finset.sort_nodup _ _, ?_,
          rfl⟩
        · rw [cache_setLobby]
          split
          · rfl
          · next hne =>
              unfold Service.cache
              rw [chatLobbys_bouncingObjectCheck]
              exact (cache_setLobby ..).trans (if_neg hne)
        · rw [Finset.mem_sort, Finset.mem_filter]
          exact fun hmem => hmem.2.1 rfl

/-! ### Counting events -/

section Counting

variable {lobbyId : ChatLobbyId} {item : BouncingObject} {key : MessageKey}

theorem flatMap_checkSizeAndSend (item : BouncingObject) (friends : List RsPeerId) :
    friends.flatMap (checkSizeAndSend item) =
      if 100000 < item.size then [] else friends.map (Event.forwarded item) := by
  unfold checkSizeAndSend
  split
  · exact List.flatMap_eq_nil_iff.mpr fun _ _ => rfl
  · exact List.map_eq_flatMap.symm

theorem countP_shows_forwards (friends : List RsPeerId) :
    (friends.flatMap (checkSizeAndSend item)).countP (Event.shows lobbyId key) = 0 := by
  rw [flatMap_checkSizeAndSend]
  split
  · rfl
  · rw [List.countP_map, List.countP_eq_zero]
    exact fun _ _ => Bool.false_ne_true

theorem countP_sends_forwards_le (friends : List RsPeerId) (friend : RsPeerId) :
    (friends.flatMap (checkSizeAndSend item)).countP (Event.sends lobbyId key friend) ≤
      if item.Carries lobbyId key then friends.count friend else 0 := by
  rw [flatMap_checkSizeAndSend]
  split
  · exact Nat.zero_le _
  · rw [List.countP_map]
    split
    · exact List.countP_mono_left fun peerId _ hsends => by
        simp only [Function.comp_apply, Event.sends, Bool.and_eq_true, decide_eq_true_eq] at hsends
        simp [hsends.2]
    · next hother =>
        rw [Nat.le_zero, List.countP_eq_zero]
        intro peerId _ hsends
        simp only [Function.comp_apply, Event.sends, Bool.and_eq_true, decide_eq_true_eq] at hsends
        exact hother hsends.1

/-- One item carries one message. -/
theorem BouncingObject.Carries.unique {other : MessageKey} (hkey : item.Carries lobbyId key)
    (hother : item.Carries lobbyId other) : key = other :=
  hkey.2.2.symm.trans hother.2.2

/-- Nothing has become of that message yet. -/
def Untouched (lobbyId : ChatLobbyId) (key : MessageKey) (log : List Event) : Prop :=
  log.countP (Event.shows lobbyId key) = 0 ∧
    ∀ friend, log.countP (Event.sends lobbyId key friend) = 0

theorem Untouched.append {log events : List Event} (hlog : Untouched lobbyId key log)
    (hevents : Untouched lobbyId key events) : Untouched lobbyId key (log ++ events) := by
  refine ⟨?_, fun friend => ?_⟩
  · rw [List.countP_append, hlog.1, hevents.1]
  · rw [List.countP_append, hlog.2, hevents.2]

/-- What a bounce may lead to when the object is new. -/
def freshEvents (item : BouncingObject) (peerId : RsPeerId) (friends : List RsPeerId)
    (shown : Bool) : List Event :=
  friends.flatMap (checkSizeAndSend item) ++ if shown then [.accepted item peerId] else []

variable {peerId : RsPeerId} {friends : List RsPeerId} {shown : Bool}

theorem countP_shows_freshEvents_le : (freshEvents item peerId friends shown).countP
    (Event.shows lobbyId key) ≤ if item.Carries lobbyId key then 1 else 0 := by
  unfold freshEvents
  rw [List.countP_append, countP_shows_forwards, Nat.zero_add]
  cases shown <;> simp [Event.shows, List.countP_cons]

theorem countP_sends_freshEvents_le (friend : RsPeerId) :
    (freshEvents item peerId friends shown).countP (Event.sends lobbyId key friend) ≤
      if item.Carries lobbyId key then friends.count friend else 0 := by
  have hnone : (if shown then [Event.accepted item peerId] else []).countP
      (Event.sends lobbyId key friend) = 0 := by
    cases shown <;> rfl
  unfold freshEvents
  rw [List.countP_append, hnone, Nat.add_zero]
  exact countP_sends_forwards_le friends friend

theorem untouched_freshEvents (hother : ¬item.Carries lobbyId key) :
    Untouched lobbyId key (freshEvents item peerId friends shown) := by
  refine ⟨Nat.le_zero.mp ?_, fun friend => Nat.le_zero.mp ?_⟩
  · exact countP_shows_freshEvents_le.trans_eq (if_neg hother)
  · exact (countP_sends_freshEvents_le friend).trans_eq (if_neg hother)

theorem accepted_mem_freshEvents {shownItem : BouncingObject} {friend : RsPeerId}
    (hmem : Event.accepted shownItem friend ∈ freshEvents item peerId friends shown) :
    friend = peerId := by
  unfold freshEvents at hmem
  rw [List.mem_append, flatMap_checkSizeAndSend] at hmem
  cases hmem with
  | inl hforward =>
      split at hforward
      · exact absurd hforward List.not_mem_nil
      · obtain ⟨_, _, heq⟩ := List.mem_map.mp hforward
        cases heq
  | inr hshown =>
      split at hshown
      · cases List.mem_singleton.mp hshown
        rfl
      · exact absurd hshown List.not_mem_nil

/-- A message of which nothing has become yet may be bounced. -/
theorem OnlyOnce.append {log : List Event} (honce : OnlyOnce lobbyId log)
    (hnew : ∀ key, item.Carries lobbyId key → Untouched lobbyId key log)
    (hnodup : friends.Nodup) (hsource : peerId ∉ friends) :
    OnlyOnce lobbyId (log ++ freshEvents item peerId friends shown) := by
  intro key
  simp only [List.countP_append]
  by_cases hcarries : item.Carries lobbyId key
  · obtain ⟨hshows, hsends⟩ := hnew key hcarries
    refine ⟨?_, fun friend => ?_, fun shownItem friend hshown hmem => ?_⟩
    · rw [hshows, Nat.zero_add]
      exact countP_shows_freshEvents_le.trans_eq (if_pos hcarries)
    · rw [hsends, Nat.zero_add]
      calc
        _ ≤ friends.count friend :=
          (countP_sends_freshEvents_le friend).trans_eq (if_pos hcarries)
        _ ≤ 1 := List.nodup_iff_count_le_one.mp hnodup friend
    · rw [hsends, Nat.zero_add]
      cases List.mem_append.mp hmem with
      | inl hold =>
          exact absurd (decide_eq_true hshown) (List.countP_eq_zero.mp hshows _ hold)
      | inr hfresh =>
          apply Nat.le_zero.mp
          calc
            _ ≤ friends.count friend :=
              (countP_sends_freshEvents_le friend).trans_eq (if_pos hcarries)
            _ = 0 := by
              rw [accepted_mem_freshEvents hfresh]
              exact List.count_eq_zero.mpr hsource
  · have huntouched : Untouched lobbyId key (freshEvents item peerId friends shown) :=
      untouched_freshEvents hcarries
    obtain ⟨hshows, hsends⟩ := huntouched
    obtain ⟨honeShown, honeSent, hback⟩ := honce key
    refine ⟨?_, fun friend => ?_, fun shownItem friend hshown hmem => ?_⟩
    · rw [hshows]
      exact honeShown
    · rw [hsends]
      exact honeSent friend
    · rw [hsends]
      cases List.mem_append.mp hmem with
      | inl hold => exact hback shownItem friend hshown hold
      | inr hfresh =>
          exact absurd (decide_eq_true hshown) (List.countP_eq_zero.mp hshows _ hfresh)

end Counting

/-! ### The invariant -/

/-- What a run keeps. A message seen is in the cache from then on, or it has been forgotten by a
cleaning more than 1200 seconds later. -/
structure Kept (lobbyId : ChatLobbyId) (watched : Watched) : Prop where
  cleaned : watched.lastClean ≤ watched.clock
  seen : ∀ key time, watched.lastSeen key = some time →
    time ≤ watched.clock ∧ key.2 ≤ time + 600
  cached : ∀ key time, watched.lastSeen key = some time →
    (∃ cache time', watched.service.cache lobbyId = some cache ∧ cache[key.1]? = some time' ∧
      time ≤ time') ∨ time + maxKeepMsgRecord < watched.lastClean
  unseen : ∀ key, watched.lastSeen key = none → Untouched lobbyId key watched.log
  once : OnlyOnce lobbyId watched.log

section Invariant

variable {overLimit : Nat → Nat → Bool} {lobbyId : ChatLobbyId} {watched : Watched}

theorem kept_start (ownId : RsPeerId) (start : Int) : Kept lobbyId (Watched.start ownId start) where
  cleaned := le_rfl
  seen := fun _ _ hseen => absurd hseen (Option.some_ne_none _).symm
  cached := fun _ _ hseen => absurd hseen (Option.some_ne_none _).symm
  unseen := fun _ _ => ⟨rfl, fun _ => rfl⟩
  once := fun _ => ⟨Nat.zero_le _, fun _ => Nat.zero_le _, fun _ _ _ _ => rfl⟩

/-- Nothing that the invariant speaks of has changed, but the clock may have moved on. -/
theorem Kept.quiet (hkept : Kept lobbyId watched) {service : Service} {clock : Int}
    (hcache : ∀ cache, watched.service.cache lobbyId = some cache →
      service.cache lobbyId = some cache)
    (htime : watched.clock ≤ clock) :
    Kept lobbyId { watched with service := service, clock := clock, log := watched.log ++ [] } where
  cleaned := hkept.cleaned.trans htime
  seen := fun key time hseen => ⟨(hkept.seen key time hseen).1.trans htime,
    (hkept.seen key time hseen).2⟩
  cached := fun key time hseen => by
    refine (hkept.cached key time hseen).imp_left ?_
    rintro ⟨cache, time', hold, hmem, hle⟩
    exact ⟨cache, time', hcache cache hold, hmem, hle⟩
  unseen := fun key hunseen => by
    rw [List.append_nil]
    exact hkept.unseen key hunseen
  once := by
    rw [List.append_nil]
    exact hkept.once

/-- After a bounce the message is in the cache, at that time. -/
theorem Kept.cached_bounce (hkept : Kept lobbyId watched) {now : Int} {item : BouncingObject}
    {lobby : ChatLobbyEntry} {service : Service} (htime : watched.clock ≤ now)
    (hlobby : watched.service.chatLobbys[item.lobbyId]? = some lobby)
    (hcache : ∀ other, service.cache other =
      if item.lobbyId = other then some (lobby.msgCache.insert item.msgId now)
      else watched.service.cache other)
    {key : MessageKey} {time : Int}
    (hseen : noteSeen lobbyId now item watched.lastSeen key = some time) :
    (∃ cache time', service.cache lobbyId = some cache ∧ cache[key.1]? = some time' ∧
      time ≤ time') ∨ time + maxKeepMsgRecord < watched.lastClean := by
  unfold noteSeen at hseen
  rw [hcache]
  split at hseen
  · next hcarries =>
      obtain ⟨_, hitem, rfl⟩ := hcarries
      cases hseen
      rw [if_pos hitem]
      exact .inl ⟨_, _, rfl, OrderedMap.lookup_insert_self .., le_rfl⟩
  · next hother =>
      refine (hkept.cached key time hseen).imp_left ?_
      rintro ⟨cache, time', hold, hmem, hle⟩
      split
      · next hitem =>
          have hsame : lobby.msgCache = cache := by
            unfold Service.cache at hold
            rw [← hitem, hlobby] at hold
            exact Option.some.inj hold
          refine ⟨_, if item.msgId = key.1 then now else time', rfl, ?_, ?_⟩
          · rw [OrderedMap.lookup_insert, hsame, hmem]
            split <;> rfl
          · split
            · exact (hkept.seen key time hseen).1.trans htime
            · exact hle
      · exact ⟨cache, time', hold, hmem, hle⟩

/-- A message whose id is not in the cache, and that the window lets through, is new. -/
theorem Kept.new_of_uncached (hkept : Kept lobbyId watched) {item : BouncingObject}
    {lobby : ChatLobbyEntry}
    (hlobby : watched.service.chatLobbys[item.lobbyId]? = some lobby)
    (hwindow : ∀ key, item.Carries lobbyId key → ∀ seen, watched.lastSeen key = some seen →
      watched.lastClean ≤ seen + maxKeepMsgRecord)
    (huncached : ¬lobby.msgCache[item.msgId]?.isSome) {key : MessageKey}
    (hcarries : item.Carries lobbyId key) : watched.lastSeen key = none := by
  apply Option.eq_none_iff_forall_ne_some.mpr
  intro time hseen
  cases hkept.cached key time hseen with
  | inl hcached =>
      obtain ⟨cache, time', hcache, hmem, _⟩ := hcached
      obtain ⟨_, hitem, rfl⟩ := hcarries
      unfold Service.cache at hcache
      rw [← hitem, hlobby] at hcache
      cases Option.some.inj hcache
      rw [hmem] at huncached
      exact huncached rfl
  | inr hforgotten => exact absurd (hwindow key hcarries time hseen) hforgotten.not_ge

variable (overLimit) in
/-- **A bounce keeps the invariant**, whether the object is shown afterwards or not. -/
theorem Kept.bounce (hkept : Kept lobbyId watched) {now : Int} {item : BouncingObject}
    {lobby : ChatLobbyEntry} (htime : watched.clock ≤ now) (hahead : item.sendTime ≤ now + 600)
    (hlobby : watched.service.chatLobbys[item.lobbyId]? = some lobby)
    (hwindow : ∀ key, item.Carries lobbyId key → ∀ seen, watched.lastSeen key = some seen →
      watched.lastClean ≤ seen + maxKeepMsgRecord)
    (connected : Finset RsPeerId) (peerId : RsPeerId) (shown : Bool) :
    let result := watched.service.bounceLobbyObject overLimit now connected item peerId
    Kept lobbyId { watched with
      service := result.2.1
      clock := now
      lastSeen := noteSeen lobbyId now item watched.lastSeen
      log := watched.log ++
        (result.2.2 ++ if result.1 && shown then [.accepted item peerId] else []) } := by
  obtain ⟨hcache, hduplicate, friends, hnodup, hsource, hevents⟩ :=
    bounceLobbyObject_spec overLimit now connected peerId hlobby
  intro result
  have hold : ∀ {key}, noteSeen lobbyId now item watched.lastSeen key = none →
      ¬item.Carries lobbyId key ∧ watched.lastSeen key = none := by
    intro key hnone
    unfold noteSeen at hnone
    split at hnone
    · cases hnone
    · next hother => exact ⟨hother, hnone⟩
  refine ⟨hkept.cleaned.trans htime, fun key time hseen => ?_,
    fun key time hseen => hkept.cached_bounce htime hlobby hcache hseen, fun key hunseen => ?_, ?_⟩
  · dsimp only at hseen ⊢
    unfold noteSeen at hseen
    split at hseen
    · next hcarries =>
        obtain ⟨_, _, rfl⟩ := hcarries
        cases hseen
        exact ⟨le_rfl, hahead⟩
    · exact ⟨(hkept.seen key time hseen).1.trans htime, (hkept.seen key time hseen).2⟩
  · obtain ⟨hother, hnone⟩ := hold hunseen
    apply (hkept.unseen key hnone).append
    rw [hevents]
    exact untouched_freshEvents hother
  · dsimp only
    by_cases hcached : lobby.msgCache[item.msgId]?.isSome
    · obtain ⟨hrefused, hnothing⟩ := hduplicate hcached
      rw [hrefused, hnothing]
      simpa using hkept.once
    · rw [hevents]
      exact hkept.once.append
        (fun key hcarries =>
          hkept.unseen key (hkept.new_of_uncached hlobby hwindow hcached hcarries))
        hnodup hsource

/-! ### Runs -/

variable (overLimit) in
/-- What a handler does with an object that it admits. -/
theorem handleRecv_admitted {service : Service} {checkTime : Int} (bounceTime : Int)
    {answers : Answers} {item : BouncingObject} (peerId : RsPeerId)
    (hadmits : service.admits checkTime answers item = true) :
    let result := service.bounceLobbyObject overLimit bounceTime answers.connected item peerId
    (service.handleRecvBouncingObject overLimit checkTime bounceTime answers item peerId).2 =
      (result.2.1, result.2.2 ++ if result.1 && true then [.accepted item peerId] else []) := by
  unfold Service.handleRecvBouncingObject
  rw [hadmits]
  generalize service.bounceLobbyObject overLimit bounceTime answers.connected item peerId = result
  obtain ⟨fresh, service', events⟩ := result
  cases fresh
  · exact congrArg _ (List.append_nil events).symm
  · rfl

theorem handleRecv_refused {service : Service} {checkTime bounceTime : Int} {answers : Answers}
    {item : BouncingObject} {peerId : RsPeerId}
    (hrefuses : service.admits checkTime answers item = false) :
    service.handleRecvBouncingObject overLimit checkTime bounceTime answers item peerId =
      (false, service, []) := by
  unfold Service.handleRecvBouncingObject
  rw [hrefuses]
  rfl

/-- Both handlers do the same up to here. -/
theorem run_receive (service : Service) (checkTime bounceTime : Int) (answers : Answers)
    (item : BouncingObject) (peerId : RsPeerId) :
    service.run overLimit (.receive checkTime bounceTime answers item peerId) =
      (service.handleRecvBouncingObject overLimit checkTime bounceTime answers item peerId).2 := by
  dsimp only [Service.run]
  cases item.kind <;> rfl

theorem sendTime_le_of_admits {service : Service} {checkTime : Int} {answers : Answers}
    {item : BouncingObject} (hadmits : service.admits checkTime answers item = true) :
    item.sendTime ≤ checkTime + 600 ∧ ∃ lobby, service.chatLobbys[item.lobbyId]? = some lobby := by
  simp only [Service.admits, outOfTime, Bool.and_eq_true, Bool.not_eq_true', Bool.or_eq_false_iff,
    decide_eq_false_iff_not, not_lt] at hadmits
  exact ⟨hadmits.1.1.1.1.2, Option.isSome_iff_exists.mp hadmits.1.2⟩

theorem Kept.receive (hkept : Kept lobbyId watched) {checkTime bounceTime : Int} {answers : Answers}
    {item : BouncingObject} {peerId : RsPeerId} {after : Watched}
    (hordinary : watched.Ordinary lobbyId (.receive checkTime bounceTime answers item peerId))
    (hwindow : watched.InWindow lobbyId (.receive checkTime bounceTime answers item peerId))
    (hstep : watched.step overLimit lobbyId (.receive checkTime bounceTime answers item peerId) =
      some after) : Kept lobbyId after := by
  obtain ⟨hcheck, hbounce⟩ := hordinary
  have htime := hcheck.trans hbounce
  unfold Watched.step at hstep
  rw [run_receive] at hstep
  cases hadmits : watched.service.admits checkTime answers item with
  | false =>
      rw [handleRecv_refused hadmits] at hstep
      dsimp only at hstep
      rw [hadmits] at hstep
      cases hstep
      exact hkept.quiet (fun _ => id) htime
  | true =>
      have hbounced := handleRecv_admitted overLimit bounceTime peerId hadmits
      dsimp only at hbounced
      rw [hbounced] at hstep
      dsimp only at hstep
      rw [hadmits] at hstep
      cases hstep
      obtain ⟨hahead, lobby, hlobby⟩ := sendTime_le_of_admits hadmits
      have hahead' : item.sendTime ≤ bounceTime + 600 := by omega
      exact hkept.bounce overLimit htime hahead' hlobby (hwindow hadmits) answers.connected peerId true

/-- An own object is drawn up after everything that was seen before. -/
theorem Kept.own_is_new (hkept : Kept lobbyId watched) {item : BouncingObject}
    (hdrawnUp : watched.clock ≤ item.sendTime)
    (huncached : ∀ lobby : ChatLobbyEntry, watched.service.chatLobbys[item.lobbyId]? = some lobby →
      lobby.msgCache[item.msgId]? = none)
    {key : MessageKey} (hcarries : item.Carries lobbyId key) : watched.lastSeen key = none := by
  apply Option.eq_none_iff_forall_ne_some.mpr
  intro time hseen
  obtain ⟨_, hahead⟩ := hkept.seen key time hseen
  have hcleaned := hkept.cleaned
  obtain ⟨_, hitem, rfl⟩ := hcarries
  cases hkept.cached _ time hseen with
  | inl hcached =>
      obtain ⟨cache, time', hcache, hmem, _⟩ := hcached
      unfold Service.cache at hcache
      obtain ⟨lobby, hlobby, rfl⟩ := Option.map_eq_some_iff.mp hcache
      rw [← hitem] at hlobby
      rw [huncached lobby hlobby] at hmem
      cases hmem
  | inr hforgotten =>
      dsimp only [maxKeepMsgRecord] at hahead hforgotten
      omega

theorem Kept.sendOwn (hkept : Kept lobbyId watched) {bounceTime : Int}
    {connected : Finset RsPeerId} {item : BouncingObject} {after : Watched}
    (hordinary : watched.Ordinary lobbyId (.sendOwn bounceTime connected item))
    (hstep : watched.step overLimit lobbyId (.sendOwn bounceTime connected item) = some after) :
    Kept lobbyId after := by
  obtain ⟨hdrawnUp, hbounce, huncached⟩ := hordinary
  have htime := hdrawnUp.trans hbounce
  dsimp only [Watched.step, Service.run, Service.sendOwnObject] at hstep
  cases hlobby : watched.service.chatLobbys[item.lobbyId]? with
  | none =>
      unfold Service.bounceLobbyObject at hstep
      rw [hlobby] at hstep
      cases hstep
      exact hkept.quiet (fun _ => id) htime
  | some lobby =>
      rw [hlobby] at hstep
      cases hstep
      have hahead : item.sendTime ≤ bounceTime + 600 := by omega
      have hwindow : ∀ key, item.Carries lobbyId key → ∀ seen,
          watched.lastSeen key = some seen → watched.lastClean ≤ seen + maxKeepMsgRecord := by
        intro key hcarries seen hseen
        rw [hkept.own_is_new hdrawnUp huncached hcarries] at hseen
        cases hseen
      have hbounced := hkept.bounce overLimit htime hahead hlobby hwindow connected
        watched.service.ownId false
      simpa using hbounced

/-- What a cleaning forgets was last seen more than 1200 seconds before. -/
theorem Kept.clean (hkept : Kept lobbyId watched) {now : Int} (htime : watched.clock ≤ now) :
    Kept lobbyId { watched with
      service := watched.service.cleanLobbyCaches now
      clock := now
      lastClean := now
      log := watched.log ++ [] } := by
  have hquiet : Kept lobbyId { watched with clock := now, log := watched.log ++ [] } :=
    hkept.quiet (fun _ => id) htime
  refine ⟨le_rfl, hquiet.seen, fun key time hseen => ?_, hquiet.unseen, hquiet.once⟩
  dsimp only at hseen ⊢
  have hcleaned := hkept.cleaned
  cases hkept.cached key time hseen with
  | inl hcached =>
      obtain ⟨cache, time', hcache, hmem, hle⟩ := hcached
      unfold Service.cache at hcache
      obtain ⟨lobby, hlobby, rfl⟩ := Option.map_eq_some_iff.mp hcache
      by_cases hkeeps : now ≤ time' + maxKeepMsgRecord
      · refine .inl ⟨(lobby.clean now).msgCache, time', ?_, ?_, hle⟩
        · unfold Service.cache Service.cleanLobbyCaches
          simp [hlobby]
        · unfold ChatLobbyEntry.clean
          rw [OrderedMap.lookup_filter, hmem]
          simp [Option.filter, hkeeps]
      · exact .inr (by omega)
  | inr hforgotten => exact .inr (by omega)

theorem cache_modifyLobby (service : Service) (changed : ChatLobbyId)
    {f : ChatLobbyEntry → ChatLobbyEntry} (hf : ∀ lobby, (f lobby).msgCache = lobby.msgCache) :
    (service.modifyLobby changed f).cache lobbyId = service.cache lobbyId := by
  unfold Service.modifyLobby
  cases hlobby : service.chatLobbys[changed]? with
  | none => rfl
  | some lobby =>
      dsimp only
      rw [cache_setLobby, hf]
      split
      · next heq =>
          subst heq
          unfold Service.cache
          rw [hlobby]
          rfl
      · rfl

/-- **Step.** Every operation that the environment may issue, in its window, keeps the invariant. -/
theorem Kept.step (hkept : Kept lobbyId watched) {op : Op} {after : Watched}
    (hordinary : watched.Ordinary lobbyId op) (hwindow : watched.InWindow lobbyId op)
    (hstep : watched.step overLimit lobbyId op = some after) : Kept lobbyId after := by
  cases op with
  | receive => exact hkept.receive hordinary hwindow hstep
  | sendOwn => exact hkept.sendOwn hordinary hstep
  | clean now =>
      cases hstep
      exact hkept.clean hordinary
  | subscribe added pgpSigned =>
      cases hstep
      refine hkept.quiet (fun cache hcache => ?_) le_rfl
      split
      · exact hcache
      · next habsent =>
          rw [cache_setLobby]
          split
          · next heq =>
              unfold Service.cache at hcache
              rw [← heq, habsent] at hcache
              cases hcache
          · exact hcache
  | unsubscribe left =>
      cases hstep
      refine hkept.quiet (fun cache hcache => ?_) le_rfl
      unfold Service.cache at hcache ⊢
      rw [OrderedMap.lookup_erase_ne _ hordinary]
      exact hcache
  | setFriends changed friends =>
      cases hstep
      refine hkept.quiet (fun cache hcache => ?_) le_rfl
      rw [← hcache]
      exact cache_modifyLobby _ changed fun _ => rfl
  | setNicknames changed gxsIds =>
      cases hstep
      refine hkept.quiet (fun cache hcache => ?_) le_rfl
      rw [← hcache]
      exact cache_modifyLobby _ changed fun _ => rfl
  | setVisible changed count =>
      cases hstep
      exact hkept.quiet (fun _ => id) le_rfl

/-- A sender whose clock was at most 100 seconds ahead when the message was last seen keeps every
copy in the window. -/
theorem Kept.inWindow_of_punctual (hkept : Kept lobbyId watched) {op : Op}
    (hordinary : watched.Ordinary lobbyId op)
    (hpunctual : ∀ key seen, watched.lastSeen key = some seen → key.2 ≤ seen + 100) :
    watched.InWindow lobbyId op := by
  cases op with
  | receive checkTime bounceTime answers item peerId =>
      intro hadmits key hcarries seen hseen
      have hahead := hpunctual key seen hseen
      have hcleaned := hkept.cleaned
      obtain ⟨hcheck, _⟩ := hordinary
      obtain ⟨_, _, rfl⟩ := hcarries
      simp only [Service.admits, outOfTime, Bool.and_eq_true, Bool.not_eq_true',
        Bool.or_eq_false_iff, decide_eq_false_iff_not, not_lt] at hadmits
      have hyoung := hadmits.1.1.1.1.1
      dsimp only at hahead
      omega
  | _ => trivial

end Invariant

/-- The condition on one operation of a run. -/
def Watched.Windowed (lobbyId : ChatLobbyId) (watched : Watched) (op : Op) : Prop :=
  watched.Ordinary lobbyId op ∧ watched.InWindow lobbyId op

/-- **Objects are shown and forwarded at most once**, in every run in which no copy that still
passes the age test comes after its message has been cleaned from the cache. -/
theorem onlyOnce_of_reaches (overLimit : Nat → Nat → Bool) (lobbyId : ChatLobbyId)
    (ownId : RsPeerId) (start : Int) (watched : Watched)
    (hreach : Reaches (Watched.step overLimit lobbyId) (Watched.Windowed lobbyId)
      (Watched.start ownId start) watched) : OnlyOnce lobbyId watched.log :=
  (hreach.invariant (Kept lobbyId)
    (fun _ _ _ hkept hallowed hstep => hkept.step hallowed.1 hallowed.2 hstep)
    (kept_start ownId start)).once

/-! ### Copies out of the window -/

/-- Two friends, 2 and 3, who are connected; nothing is wrong with the identity of the author. -/
def untroubled : Answers := ⟨false, true, true, {2, 3}⟩

/-- A message of lobby 7, sent by somebody whose clock is nearly ten minutes ahead. -/
def aheadMessage : BouncingObject := ⟨.message, 7, 5, 590, 9, 100⟩

/-- The lobby is entered, the message comes from friend 2, then from friend 3. -/
def samplePrefix : List Op :=
  [.subscribe 7 false, .setFriends 7 {2, 3}, .receive 0 0 untroubled aheadMessage 2,
    .receive 10 10 untroubled aheadMessage 3]

/-- Quiet follows, the cache is cleaned, and another copy comes from friend 3. -/
def laterCopy : List Op := [.clean 1300, .receive 1400 1400 untroubled aheadMessage 3]

/-- The state that these operations lead to, where the limit against flooding is not reached. -/
def Watched.following (ops : List Op) : Watched :=
  ops.foldl (fun watched op => (watched.step (fun _ _ => false) 7 op).getD watched)
    (.start 1 0)

/-- Both copies are in the window. -/
theorem windowed_samplePrefix :
    Reaches (Watched.step (fun _ _ => false) 7) (Watched.Windowed 7) (.start 1 0)
      (.following samplePrefix) := by
  have hsubscribed : Reaches (Watched.step (fun _ _ => false) 7) (Watched.Windowed 7)
      (.start 1 0) (.following (samplePrefix.take 1)) :=
    .next (.subscribe 7 false) (.refl _) ⟨trivial, trivial⟩ rfl
  have hfriends : Reaches (Watched.step (fun _ _ => false) 7) (Watched.Windowed 7)
      (.start 1 0) (.following (samplePrefix.take 2)) :=
    .next (.setFriends 7 {2, 3}) hsubscribed ⟨trivial, trivial⟩ rfl
  have hfirst : Reaches (Watched.step (fun _ _ => false) 7) (Watched.Windowed 7)
      (.start 1 0) (.following (samplePrefix.take 3)) := by
    refine .next (.receive 0 0 untroubled aheadMessage 2) hfriends ⟨⟨le_rfl, le_rfl⟩, ?_⟩ rfl
    intro _ _ _ _ hseen
    cases hseen
  refine .next (.receive 10 10 untroubled aheadMessage 3) hfirst ⟨⟨?_, le_rfl⟩, ?_⟩ rfl
  · exact (by decide : (0 : Int) ≤ 10)
  · intro _ key hcarries seen hseen
    obtain ⟨_, _, rfl⟩ := hcarries
    have hzero : (Watched.following (samplePrefix.take 3)).lastSeen (5, 590) = some 0 := by
      decide
    cases hzero.symm.trans hseen
    exact (by decide : (0 : Int) ≤ 0 + 1200)

theorem onlyOnce_sample : OnlyOnce 7 (Watched.following samplePrefix).log :=
  onlyOnce_of_reaches (fun _ _ => false) 7 1 0 _ windowed_samplePrefix

/-- The later copy is shown again. -/
theorem onlyOnce_counterexample :
    ¬ ∀ watched : Watched,
      Reaches (Watched.step (fun _ _ => false) 7) (Watched.Ordinary 7) (.start 1 0) watched →
        OnlyOnce 7 watched.log := by
  intro hall
  have hcleaned : Reaches (Watched.step (fun _ _ => false) 7) (Watched.Ordinary 7) (.start 1 0)
      (.following (samplePrefix ++ laterCopy.take 1)) :=
    .next (.clean 1300) (windowed_samplePrefix.mono fun _ _ => And.left)
      (by decide : (10 : Int) ≤ 1300) rfl
  have hcopy : Reaches (Watched.step (fun _ _ => false) 7) (Watched.Ordinary 7) (.start 1 0)
      (.following (samplePrefix ++ laterCopy)) :=
    .next (.receive 1400 1400 untroubled aheadMessage 3) hcleaned
      ⟨(by decide : (1300 : Int) ≤ 1400), le_rfl⟩ rfl
  have hshown : (Watched.following (samplePrefix ++ laterCopy)).log.countP
      (Event.shows 7 (5, 590)) = 2 := by
    decide +kernel
  have honce := (hall _ hcopy (5, 590)).1
  rw [hshown] at honce
  exact absurd honce (by decide)

end RetroShare.Chat
