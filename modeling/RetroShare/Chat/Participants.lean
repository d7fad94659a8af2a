import RetroShare.Chat.DistributedChat

/-!
# Participants of a lobby

`gxs_ids` lists who takes part in a lobby, and when each was heard of. An event may take its author off
the list again. The run of a service is watched here with the ids that were ever bounced, and with the
authors who left and have not come back since.
-/

namespace RetroShare.Chat

/-- `RS_CHAT_LOBBY_EVENT_PEER_LEFT`, `.._PEER_JOINED`, `.._KEEP_ALIVE`, and the types that are only
displayed. -/
inductive EventType
  | peerLeft
  | peerJoined
  | keepAlive
  | other
  deriving DecidableEq

/-- What an event does to its lobby. -/
def ChatLobbyEntry.actOn (lobby : ChatLobbyEntry) (now : Int) (keyId : RsGxsId) :
    EventType → ChatLobbyEntry
  | .peerLeft => { lobby with gxsIds := lobby.gxsIds.erase keyId }
  | .peerJoined => { lobby with gxsIds := lobby.gxsIds.insert keyId now }
  | .keepAlive => { lobby with gxsIds := lobby.gxsIds.insert keyId now }
  | .other => lobby

section Handlers

variable (overLimit : Nat → Nat → Bool)

/-- All of `handleRecvChatLobbyEventItem`; the clock is read a third time when the event is acted on. -/
def Service.processEvent (service : Service) (checkTime bounceTime actTime : Int) (answers : Answers)
    (item : BouncingObject) (eventType : EventType) (peerId : RsPeerId) : Bool × Service :=
  let handled :=
    service.handleRecvChatLobbyEventItem overLimit checkTime bounceTime answers item peerId
  if !handled.1 then (false, handled.2.1)
  else
    (true, handled.2.1.modifyLobby item.lobbyId fun lobby =>
      lobby.actOn actTime item.keyId eventType)

/-- The friend's own id is taken for that of an identity. -/
def Service.handleFriendUnsubscribeLobby (service : Service) (lobbyId : ChatLobbyId)
    (peerId : RsPeerId) : Service :=
  service.modifyLobby lobbyId fun lobby =>
    { lobby with
      participatingFriends := lobby.participatingFriends.erase peerId
      gxsIds := lobby.gxsIds.erase peerId }

/-! ### Runs -/

/-- A service, the ids that ever came to `bounceLobbyObject`, and who left: an author is in `out` from a
`PEER_LEFT` event that was acted on until an object with a new id is accepted. -/
structure World where
  service : Service
  seen : Finset (ChatLobbyId × ChatLobbyMsgId)
  out : Finset (ChatLobbyId × RsGxsId)

inductive LobbyOp
  | message (checkTime bounceTime : Int) (answers : Answers) (item : BouncingObject)
      (peerId : RsPeerId)
  | event (checkTime bounceTime actTime : Int) (answers : Answers) (item : BouncingObject)
      (eventType : EventType) (peerId : RsPeerId)
  | sendOwn (bounceTime : Int) (connected : Finset RsPeerId) (item : BouncingObject)
  | friendUnsubscribe (lobbyId : ChatLobbyId) (peerId : RsPeerId)
  | clean (now : Int)
  | subscribe (lobbyId : ChatLobbyId) (pgpSigned : Bool)
  | unsubscribe (lobbyId : ChatLobbyId)
  | setFriends (lobbyId : ChatLobbyId) (friends : Finset RsPeerId)
  | setVisible (lobbyId : ChatLobbyId) (count : Option Nat)

namespace World

/-- What is noted of an object: whether it came to `bounceLobbyObject`, whether it was accepted, and
whether it says that its author leaves. -/
def note (w : World) (item : BouncingObject) (after : Service) (reached accepted leaves : Bool) :
    World where
  service := after
  seen := if reached then insert (item.lobbyId, item.msgId) w.seen else w.seen
  out :=
    if !accepted then w.out
    else if leaves then insert (item.lobbyId, item.keyId) w.out
    else if (item.lobbyId, item.msgId) ∈ w.seen then w.out
    else w.out.erase (item.lobbyId, item.keyId)

def step (w : World) : LobbyOp → Option World
  | .message checkTime bounceTime answers item peerId =>
      let handled :=
        w.service.handleRecvChatLobbyMsgItem overLimit checkTime bounceTime answers item peerId
      some (w.note item handled.2.1 (w.service.admits checkTime answers item) handled.1 false)
  | .event checkTime bounceTime actTime answers item eventType peerId =>
      let handled :=
        w.service.processEvent overLimit checkTime bounceTime actTime answers item eventType peerId
      some (w.note item handled.2 (w.service.admits checkTime answers item) handled.1
        (eventType = .peerLeft))
  | .sendOwn bounceTime connected item =>
      let handled := w.service.sendOwnObject overLimit bounceTime connected item
      some (w.note item handled.2.1 w.service.chatLobbys[item.lobbyId]?.isSome handled.1 false)
  | .friendUnsubscribe lobbyId peerId =>
      some { w with service := w.service.handleFriendUnsubscribeLobby lobbyId peerId }
  | .clean now => some { w with service := (w.service.run overLimit (.clean now)).1 }
  | .subscribe lobbyId pgpSigned =>
      some { w with service := (w.service.run overLimit (.subscribe lobbyId pgpSigned)).1 }
  | .unsubscribe lobbyId =>
      some { w with service := (w.service.run overLimit (.unsubscribe lobbyId)).1 }
  | .setFriends lobbyId friends =>
      some { w with service := (w.service.run overLimit (.setFriends lobbyId friends)).1 }
  | .setVisible lobbyId count =>
      some { w with service := (w.service.run overLimit (.setVisible lobbyId count)).1 }

end World

end Handlers

end RetroShare.Chat
