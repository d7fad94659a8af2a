import RetroShare.Foundation.Transition
import RetroShare.GxsTunnel.Service

/-!
# Nodes that exchange data items

Several tunnel services, each at its own node. An item that a node encrypts for a tunnel is on its way
to the node at the far end until it is delivered there or lost; nodes restart and lose what they had in
memory. Every data item that a node queues gets an origin of its own, which the packets made of it
carry as an observation: the program only knows the number it gave the item.
-/

namespace RetroShare.GxsTunnel

variable {Secret Node : Type}

/-- The place of a data item among all that its node ever queued. -/
structure Origin (Node : Type) where
  node : Node
  index : Nat
  deriving DecidableEq

/-- An item on its way; `origin` is known for data items. -/
structure Packet (Node : Type) where
  dest : Node
  tunnel : TunnelId
  item : Item
  origin : Option (Origin Node)

/-- A pending data item was removed because of an acknowledgement. -/
structure Removal (Node : Type) where
  origin : Origin Node
  itemTunnel : TunnelId
  ackTunnel : TunnelId

/-- What a number of a node stands for since it was last given to an item. -/
structure Numbered where
  index : Nat
  tunnel : TunnelId

structure Network (Node Secret : Type) where
  service : Node → Service Secret
  inFlight : List (Packet Node)
  numbered : Node → Nat → Numbered
  queued : Node → Nat
  arrived : List (Origin Node × Node)
  handed : List (Origin Node × Node)
  removed : List (Removal Node)

namespace Network

def initial : Network Node Secret :=
  { service := fun _ => Service.initial
    inFlight := []
    numbered := fun _ _ => { index := 0, tunnel := zeros }
    queued := fun _ => 0
    arrived := []
    handed := []
    removed := [] }

inductive Op (Node Secret : Type)
  | call (n : Node) (op : Service.Op Secret)
  | deliver (place : Nat) (env : Surroundings Secret)
  | lose (place : Nat)
  | restart (n : Node)

variable [DecidableEq Node] (c : Crypto Secret) (far : Node → TunnelId → Node)

/-- The packet made of an encrypted item. -/
def packetOf (n : Node) (numbered : Nat → Numbered) : Event → Option (Packet Node)
  | .encrypted tunnel _ _ item =>
      let origin := match item with
        | .data uniqueItemCounter _ _ _ => some ⟨n, (numbered uniqueItemCounter).index⟩
        | _ => none
      some { dest := far n tunnel, tunnel, item, origin }
  | _ => none

def isReceiveData : Event → Bool
  | .receiveData _ _ _ => true
  | _ => false

/-- The events of a call, oldest first. -/
def newEvents (s s' : Service Secret) : List Event := s'.events.drop s.events.length

def setService (w : Network Node Secret) (n : Node) (s : Service Secret) : Network Node Secret :=
  { w with service := Function.update w.service n s }

/-- A call that queued a data item names it. -/
def nameItem (w : Network Node Secret) (n : Node) (tunnel : TunnelId) : Network Node Secret :=
  { w with
    numbered := Function.update w.numbered n <|
      Function.update (w.numbered n) (w.service n).currentPacketCounter ⟨w.queued n, tunnel⟩
    queued := Function.update w.queued n (w.queued n + 1) }

def Queues (s : Service Secret) : Service.Op Secret → Option TunnelId
  | .sendData tunnel serviceId _ =>
      if s.contacts[tunnel]? ≠ none ∧ serviceId ∈ s.registeredServices then some tunnel else none
  | _ => none

def call (w : Network Node Secret) (n : Node) (op : Service.Op Secret) :
    Option (Network Node Secret) := do
  let s' ← (w.service n).step c op
  let named := match Queues (w.service n) op with
    | some tunnel => w.nameItem n tunnel
    | none => w
  let packets := (newEvents (w.service n) s').filterMap (packetOf far n (named.numbered n))
  some { named.setService n s' with inFlight := w.inFlight ++ packets }

/-- An acknowledgement that arrives removes what is pending under its number. -/
def removals (w : Network Node Secret) (p : Packet Node) : List (Removal Node) :=
  match p.item with
  | .dataAck uniqueItemCounter =>
      match (w.service p.dest).pendingDataItems[uniqueItemCounter]? with
      | some tdata =>
          [{ origin := ⟨p.dest, (w.numbered p.dest uniqueItemCounter).index⟩
             itemTunnel := tdata.peerId
             ackTunnel := p.tunnel }]
      | none => []
  | _ => []

/-- A packet that finds no contact for its tunnel is dropped. -/
def receive (w : Network Node Secret) (p : Packet Node) (env : Surroundings Secret) :
    Option (Network Node Secret) :=
  match (w.service p.dest).contacts[p.tunnel]? with
  | none => some w
  | some contact => do
      let s' ← ((w.service p.dest).raiseContact env p.tunnel contact).handleIncomingItem env p.tunnel
        p.item
      let arrival := p.origin.toList.map fun origin => (origin, p.dest)
      some
        { w.setService p.dest s' with
          arrived := w.arrived ++ arrival
          handed := w.handed ++
            if (newEvents (w.service p.dest) s').any isReceiveData then arrival else []
          removed := w.removed ++ w.removals p }

def step (w : Network Node Secret) : Op Node Secret → Option (Network Node Secret)
  | .call n op => w.call c far n op
  | .deliver place env => do
      let p ← w.inFlight[place]?
      { w with inFlight := w.inFlight.eraseIdx place }.receive p env
  | .lose place => some { w with inFlight := w.inFlight.eraseIdx place }
  | .restart n => some (w.setService n Service.initial)

/-! ### What holds of a run -/

/-- Every item that was removed because of an acknowledgement was handed to the client at the far end of
its tunnel exactly once, and the acknowledgement came through that tunnel. -/
def DeliveredOnce (w : Network Node Secret) : Prop :=
  ∀ r ∈ w.removed, r.ackTunnel = r.itemTunnel ∧
    w.handed.count (r.origin, far r.origin.node r.itemTunnel) = 1

/-- Packets in clear, which set up a tunnel, carry no item. -/
def CarriesNoItem : Service.Op Secret → Prop
  | .receiveTurtleData _ bytes _ => bytes.take 8 = List.replicate 8 0
  | _ => True

/-- A node gets items only by delivery. -/
def ByDelivery : Op Node Secret → Prop
  | .call _ op => CarriesNoItem op
  | _ => True

/-- Nothing is left of an earlier item of the node under the number: no data item or acknowledgement in
flight, no acknowledgement waiting at the far end of a tunnel, no print at the far end of this one. -/
structure NumberFree (w : Network Node Secret) (n : Node) (number : Nat) (tunnel : TunnelId) :
    Prop where
  data : ∀ p ∈ w.inFlight, ∀ origin, p.origin = some origin → origin.node = n →
    ∀ flags serviceId data, p.item ≠ .data number flags serviceId data
  ack : ∀ p ∈ w.inFlight, p.dest = n → p.item ≠ .dataAck number
  waiting : ∀ m tunnel', far m tunnel' = n →
    (tunnel', .dataAck number) ∉ (w.service m).pendingItems
  prints : ∀ (contact : PeerInfo), (w.service (far n tunnel)).contacts[tunnel]? = some contact →
    number ∉ contact.receivedDataPrints

/-- A number is given to a new item only when it is free. -/
def NumbersFresh (w : Network Node Secret) : Op Node Secret → Prop
  | .call n op => ∀ tunnel, Queues (w.service n) op = some tunnel →
      w.NumberFree far n (w.service n).currentPacketCounter tunnel
  | _ => True

/-- A data item that comes again finds its print; one that leaves no print in its way is for a service
that is registered and accepts it. -/
structure TakenBy (w : Network Node Secret) (env : Surroundings Secret) (p : Packet Node) : Prop where
  again : ∀ (contact : PeerInfo) number flags serviceId data origin,
    (w.service p.dest).contacts[p.tunnel]? = some contact →
      p.item = .data number flags serviceId data → p.origin = some origin →
        (origin, p.dest) ∈ w.arrived → number ∈ contact.receivedDataPrints
  first : ∀ (contact : PeerInfo) number flags serviceId data,
    (w.service p.dest).contacts[p.tunnel]? = some contact →
      p.item = .data number flags serviceId data → number ∉ contact.receivedDataPrints →
        serviceId ∈ (w.service p.dest).registeredServices ∧
          env.acceptDataFromPeer serviceId contact.toGxsId p.tunnel
            (contact.direction = .client) = true

def Taken (w : Network Node Secret) : Op Node Secret → Prop
  | .deliver place env => ∀ p, w.inFlight[place]? = some p → w.TakenBy env p
  | _ => True

end Network

end RetroShare.GxsTunnel
