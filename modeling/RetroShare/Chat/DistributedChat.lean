import RetroShare.Foundation.OrderedMap

/-!
# Chat lobbies

`DistributedChatService` passes the objects of a lobby on to all friends who take part in it. What
stops an object from going round for ever is `msg_cache`, the ids seen lately, and an age test on
the clock of the sender. The answers of the reputation, identity and connection services are
arguments here, as is the floating-point limit against flooding.
-/

namespace RetroShare.Chat

abbrev RsPeerId := Nat

abbrev RsGxsId := Nat

abbrev ChatLobbyId := Nat

abbrev ChatLobbyMsgId := Nat

/-- `MAX_KEEP_MSG_RECORD` -/
def maxKeepMsgRecord : Int := 1200

/-- `MAX_KEEP_INACTIVE_NICKNAME` -/
def maxKeepInactiveNickname : Int := 180

/-- `MAX_MESSAGES_PER_SECONDS_PERIOD` -/
def maxMessagesPerSecondsPeriod : Int := 10

/-! ### Objects -/

inductive Kind
  | message
  | event
  deriving DecidableEq

/-- `RsChatLobbyBouncingObject`, of one of the two kinds that there are, with its size as an item. -/
structure BouncingObject where
  kind : Kind
  lobbyId : ChatLobbyId
  msgId : ChatLobbyMsgId
  sendTime : Int
  keyId : RsGxsId
  size : Nat
  deriving DecidableEq

structure ChatLobbyEntry where
  pgpSigned : Bool
  msgCache : OrderedMap ChatLobbyMsgId Int
  participatingFriends : Finset RsPeerId
  gxsIds : OrderedMap RsGxsId Int
  lastActivity : Int
  connexionChallengeCount : Nat

structure Service where
  ownId : RsPeerId
  chatLobbys : OrderedMap ChatLobbyId ChatLobbyEntry
  /-- `total_number_of_peers` of the visible lobbies. -/
  visibleLobbies : OrderedMap ChatLobbyId Nat
  /-- Times of the latest objects, by the peer they came from and their lobby. -/
  messageCounts : OrderedMap (RsPeerId ×ₗ ChatLobbyId) (List Int)

/-- What other services say while an object is handled. -/
structure Answers where
  reputationLocallyNegative : Bool
  signatureChecks : Bool
  pgpLinked : Bool
  connected : Finset RsPeerId

/-- An object accepted for display, and one sent on to a friend. -/
inductive Event
  | accepted (item : BouncingObject) (peerId : RsPeerId)
  | forwarded (item : BouncingObject) (friend : RsPeerId)
  deriving DecidableEq

/-! ### Forwarding -/

section Handlers

-- `lst.size() > max_cnt`, where the limit grows with the number of peers in the lobby
variable (overLimit : Nat → Nat → Bool)

/-- Old time stamps go, and a new one is added unless there are too many. -/
def Service.bouncingObjectCheck (service : Service) (now : Int) (item : BouncingObject)
    (peerId : RsPeerId) : Bool × Service :=
  let lobbyCount :=
    service.visibleLobbies[item.lobbyId]?.or
      (service.chatLobbys[item.lobbyId]?.map fun lobby => lobby.gxsIds.size)
  match lobbyCount with
  | none => (false, service)
  | some lobbyCount =>
      let key := toLex (peerId, item.lobbyId)
      let recent := (service.messageCounts[key]?.getD []).dropWhile fun time =>
        time + maxMessagesPerSecondsPeriod < now
      if overLimit recent.length lobbyCount then
        (false, { service with messageCounts := service.messageCounts.insert key recent })
      else (true, { service with messageCounts := service.messageCounts.insert key (recent ++ [now]) })

/-- `checkSizeAndSendLobbyMessage` -/
def checkSizeAndSend (item : BouncingObject) (friend : RsPeerId) : List Event :=
  if 100000 < item.size then [] else [.forwarded item friend]

def Service.setLobby (service : Service) (lobbyId : ChatLobbyId) (lobby : ChatLobbyEntry) :
    Service :=
  { service with chatLobbys := service.chatLobbys.insert lobbyId lobby }

/-- `true` when the object is no duplicate, with the objects sent on. -/
def Service.bounceLobbyObject (service : Service) (now : Int) (connected : Finset RsPeerId)
    (item : BouncingObject) (peerId : RsPeerId) : Bool × Service × List Event :=
  match service.chatLobbys[item.lobbyId]? with
  | none => (false, service, [])
  | some lobby =>
      let lobby := { lobby with
        participatingFriends :=
          if peerId ≠ service.ownId then insert peerId lobby.participatingFriends
          else lobby.participatingFriends
        gxsIds := lobby.gxsIds.insert item.keyId now }
      if lobby.msgCache[item.msgId]?.isSome then
        -- the time of the last sighting is updated, to prevent echos
        (false, service.setLobby item.lobbyId
          { lobby with msgCache := lobby.msgCache.insert item.msgId now }, [])
      else
        let lobby := { lobby with
          msgCache := lobby.msgCache.insert item.msgId now
          lastActivity := now }
        let (unflooded, service) :=
          (service.setLobby item.lobbyId lobby).bouncingObjectCheck overLimit now item peerId
        if !unflooded then (false, service, [])
        else
          (true,
            service.setLobby item.lobbyId
              { lobby with connexionChallengeCount := lobby.connexionChallengeCount + 1 },
            ((lobby.participatingFriends.filter fun friend =>
              friend ≠ peerId ∧ friend ∈ connected).sort (· ≤ ·)).flatMap (checkSizeAndSend item))

/-- Too old, or from the future. -/
def outOfTime (now sendTime : Int) : Bool :=
  sendTime + maxKeepMsgRecord < now + 100 || now + 600 < sendTime

/-- The lobby asks for identities with a PGP signature, and this one has none. -/
def Service.lacksSignature (service : Service) (answers : Answers) (lobbyId : ChatLobbyId) : Bool :=
  service.chatLobbys[lobbyId]?.any (·.pgpSigned) && !answers.pgpLinked

/-- The tests that both handlers make before they bounce an object, each in its own order. -/
def Service.admits (service : Service) (checkTime : Int) (answers : Answers)
    (item : BouncingObject) : Bool :=
  !outOfTime checkTime item.sendTime && !answers.reputationLocallyNegative &&
    answers.signatureChecks && service.chatLobbys[item.lobbyId]?.isSome &&
    !service.lacksSignature answers item.lobbyId

/-- The clock is read for the age test and once more by `bounceLobbyObject`. -/
def Service.handleRecvBouncingObject (service : Service) (checkTime bounceTime : Int)
    (answers : Answers) (item : BouncingObject) (peerId : RsPeerId) : Bool × Service × List Event :=
  if !service.admits checkTime answers item then (false, service, [])
  else
    let (fresh, service, events) :=
      service.bounceLobbyObject overLimit bounceTime answers.connected item peerId
    if !fresh then (false, service, events)
    else (true, service, events ++ [.accepted item peerId])

/-- `true` when the message is to be shown. -/
def Service.handleRecvChatLobbyMsgItem : Service → Int → Int → Answers → BouncingObject → RsPeerId →
    Bool × Service × List Event :=
  Service.handleRecvBouncingObject overLimit

/-- Up to the point where the event is acted upon. -/
def Service.handleRecvChatLobbyEventItem : Service → Int → Int → Answers → BouncingObject →
    RsPeerId → Bool × Service × List Event :=
  Service.handleRecvBouncingObject overLimit

/-- `sendLobbyChat` and `sendLobbyStatusItem`, once the object has been drawn up and signed. -/
def Service.sendOwnObject (service : Service) (now : Int) (connected : Finset RsPeerId)
    (item : BouncingObject) : Bool × Service × List Event :=
  service.bounceLobbyObject overLimit now connected item service.ownId

/-- The first part of `cleanLobbyCaches`, for one lobby. -/
def ChatLobbyEntry.clean (lobby : ChatLobbyEntry) (now : Int) : ChatLobbyEntry :=
  { lobby with
    msgCache := lobby.msgCache.filter fun _ time => now ≤ time + maxKeepMsgRecord
    gxsIds := lobby.gxsIds.filter fun _ time => now ≤ time + maxKeepInactiveNickname }

def Service.cleanLobbyCaches (service : Service) (now : Int) : Service :=
  { service with chatLobbys := service.chatLobbys.map fun _ lobby => lobby.clean now }

/-! ### Runs -/

/-- What happens to the service. Objects carry the times at which the clock is read; the three last
operations stand for the handlers of lists, invitations, challenges and departures. -/
inductive Op
  | receive (checkTime bounceTime : Int) (answers : Answers) (item : BouncingObject)
      (peerId : RsPeerId)
  | sendOwn (bounceTime : Int) (connected : Finset RsPeerId) (item : BouncingObject)
  | clean (now : Int)
  | subscribe (lobbyId : ChatLobbyId) (pgpSigned : Bool)
  | unsubscribe (lobbyId : ChatLobbyId)
  | setFriends (lobbyId : ChatLobbyId) (friends : Finset RsPeerId)
  | setNicknames (lobbyId : ChatLobbyId) (gxsIds : OrderedMap RsGxsId Int)
  | setVisible (lobbyId : ChatLobbyId) (count : Option Nat)

def Service.modifyLobby (service : Service) (lobbyId : ChatLobbyId)
    (f : ChatLobbyEntry → ChatLobbyEntry) : Service :=
  match service.chatLobbys[lobbyId]? with
  | none => service
  | some lobby => service.setLobby lobbyId (f lobby)

def Service.run (service : Service) : Op → Service × List Event
  | .receive checkTime bounceTime answers item peerId =>
      match item.kind with
      | .message =>
          (service.handleRecvChatLobbyMsgItem overLimit checkTime bounceTime answers item peerId).2
      | .event =>
          (service.handleRecvChatLobbyEventItem overLimit checkTime bounceTime answers item peerId).2
  | .sendOwn bounceTime connected item =>
      (service.sendOwnObject overLimit bounceTime connected item).2
  | .clean now => (service.cleanLobbyCaches now, [])
  | .subscribe lobbyId pgpSigned =>
      (match service.chatLobbys[lobbyId]? with
        | some _ => service
        | none => service.setLobby lobbyId ⟨pgpSigned, ∅, ∅, ∅, 0, 0⟩, [])
  | .unsubscribe lobbyId =>
      ({ service with chatLobbys := service.chatLobbys.erase lobbyId }, [])
  | .setFriends lobbyId friends =>
      (service.modifyLobby lobbyId fun lobby => { lobby with participatingFriends := friends }, [])
  | .setNicknames lobbyId gxsIds =>
      (service.modifyLobby lobbyId fun lobby => { lobby with gxsIds := gxsIds }, [])
  | .setVisible lobbyId count =>
      ({ service with
        visibleLobbies := match count with
          | some count => service.visibleLobbies.insert lobbyId count
          | none => service.visibleLobbies.erase lobbyId }, [])

end Handlers

end RetroShare.Chat
