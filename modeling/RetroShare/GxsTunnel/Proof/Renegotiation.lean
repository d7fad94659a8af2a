import RetroShare.GxsTunnel.Link
import RetroShare.GxsTunnel.Proof.Frames
import RetroShare.GxsTunnel.Proof.KeyAuthentication

/-!
# Renegotiation agrees and settles

Two ends of a tunnel refine the key exchange: the DH info of a virtual peer, together with the key of
the contact it is linked to, is an end of the exchange, and the public keys in the queues and on the
wire are those on their way.
-/

namespace RetroShare.GxsTunnel.Link

open KeyExchange Transition

variable {Secret : Type} (c : Crypto Secret)

/-- The key that `agreeOnKey` derives, when `DH_compute_key` gives a number of full size. -/
def agreedKey (secret : Secret) (publicKey : Nat) : Option AesKey :=
  if (c.computeKey secret publicKey).length = c.dhSize then
    some (firstSixteen (c.sha1sum (c.computeKey secret publicKey)))
  else none

def endOf (s : Service Secret) (peer : VirtualPeerId) : End Secret AesKey :=
  match s.virtualPeers[peer]? with
  | none => .absent
  | some dhinfo =>
      match dhinfo.dh, dhinfo.status with
      | .key secret, .halfKeyDone => .half secret
      | .key secret, .keyAvailable =>
          .available secret (s.contacts[dhinfo.tunnelId]?.getD .empty).aesKey
      | _, _ => .absent

/-- The item that an honest end makes of a public key. -/
def honestItem {c : Crypto Secret} (ids : Identities c) (id : GxsId) (publicKey : Nat) :
    DhPublicKeyItem :=
  { publicKey
    signature := ids.sign id (bn2bin publicKey)
    gxsKey := ids.key id }

def packetOf (item : DhPublicKeyItem) : List UInt8 :=
  List.replicate 8 0 ++ (c.serialise (.dhPublicKey item)).getD []

/-- The DH info of a virtual peer is in one of the three states of an end. -/
inductive DhOk (s : Service Secret) (id : GxsId) (dhinfo : DhInfo Secret) : Prop
  | absent (hdh : dhinfo.dh = .null) (hstatus : dhinfo.status = .uninitialized)
  | half (secret : Secret) (hdh : dhinfo.dh = .key secret) (hstatus : dhinfo.status = .halfKeyDone)
      (hown : dhinfo.ownGxsId = id)
  | available (secret : Secret) (hdh : dhinfo.dh = .key secret)
      (hstatus : dhinfo.status = .keyAvailable) (hown : dhinfo.ownGxsId = id)
      (hcontact : s.contacts[dhinfo.tunnelId]? ≠ none)

variable {c} (t : Tunnel) (ids : Identities c)

structure EndOk (side : Side) (s : Service Secret) : Prop where
  contact : ∀ (tunnel : TunnelId) (contact : PeerInfo), s.contacts[tunnel]? = some contact →
    contact.ownGxsId = t.identity side ∧ contact.status ≠ .remotelyClosed
  peer : ∀ dhinfo, s.virtualPeers[t.peer side]? = some dhinfo → DhOk s (t.identity side) dhinfo
  sent : s.sent = []

def pendingOf (side : Side) (keys : List Nat) : List (VirtualPeerId × DhPublicKeyItem) :=
  keys.map fun key => (t.peer side, honestItem ids (t.identity side) key)

/-- The link refines the exchange. -/
structure Tracks (link : Link Secret) (x : Exchange Secret Nat AesKey) : Prop where
  ends : ∀ side, x.ends side = endOf (link.service side) (t.peer side)
  ok : ∀ side, EndOk t side (link.service side)
  towards : ∀ side, ∃ flight pending,
    link.inFlight side =
        flight.map (fun key => packetOf c (honestItem ids (t.identity side.other) key)) ∧
      (link.service side.other).pendingDhItems = pendingOf t ids side.other pending ∧
        x.towards side = flight ++ pending

variable {t ids} {side : Side} {env : Surroundings Secret} {s s' : Service Secret}

/-! ### One end -/

/-- An honest end that starts has a new key pair and sends its public key. -/
theorem restart_spec (hhonest : HonestEnd ids t side env) :
    ∃ secret, env.initDhSessionKey = .key secret ∧
      Service.restartDhSession c env s (t.peer side) (t.identity side) =
        { s.setVirtualPeer (t.peer side)
            { s.virtualPeers[t.peer side]?.getD .empty with
              status := .halfKeyDone, ownGxsId := t.identity side, dh := .key secret } with
          pendingDhItems := s.pendingDhItems ++ pendingOf t ids side [c.publicKey secret] } := by
  obtain ⟨secret, hinit⟩ := hhonest.initDhSessionKey
  refine ⟨secret, hinit, ?_⟩
  simp only [Service.restartDhSession, hinit, Service.sendDhPublicKey, hhonest.signData,
    hhonest.getOwnKey]
  rfl

/-- After a start the end is half way, whatever it was before. -/
theorem restart_end (hok : EndOk t side s) (hhonest : HonestEnd ids t side env) :
    ∃ secret,
      EndOk t side (Service.restartDhSession c env s (t.peer side) (t.identity side)) ∧
      endOf (Service.restartDhSession c env s (t.peer side) (t.identity side)) (t.peer side) =
        .half secret ∧
      (Service.restartDhSession c env s (t.peer side) (t.identity side)).pendingDhItems =
        s.pendingDhItems ++ pendingOf t ids side [c.publicKey secret] := by
  obtain ⟨secret, -, heq⟩ := restart_spec (s := s) hhonest
  rw [heq]
  refine ⟨secret, ⟨hok.contact, ?_, hok.sent⟩, ?_, rfl⟩
  · intro dhinfo hpeer
    simp only [Service.setVirtualPeer, OrderedMap.lookup_insert_self, Option.some.injEq] at hpeer
    subst hpeer
    exact .half secret rfl rfl rfl
  · simp [endOf, Service.setVirtualPeer]

/-- What an end being half way says about the DH info. -/
theorem dhinfo_of_half (hok : EndOk t side s) {secret : Secret}
    (hend : endOf s (t.peer side) = .half secret) :
    ∃ dhinfo, s.virtualPeers[t.peer side]? = some dhinfo ∧ dhinfo.dh = .key secret ∧
      dhinfo.status = .halfKeyDone ∧ dhinfo.ownGxsId = t.identity side := by
  unfold endOf at hend
  cases hpeer : s.virtualPeers[t.peer side]? with
  | none =>
      rw [hpeer] at hend
      cases hend
  | some dhinfo =>
      cases hok.peer dhinfo hpeer with
      | absent hdh hstatus => simp [hpeer, hdh] at hend
      | half own hdh hstatus hown =>
          simp only [hpeer, hdh, hstatus, End.half.injEq] at hend
          exact ⟨dhinfo, rfl, hend ▸ hdh, hstatus, hown⟩
      | available own hdh hstatus hown hcontact => simp [hpeer, hdh, hstatus] at hend

/-- An end that is half way computes the key of what it receives. -/
theorem agreeOnKey_end (env : Surroundings Secret) (hok : EndOk t side s) {secret : Secret}
    (hend : endOf s (t.peer side) = .half secret) (item : DhPublicKeyItem) :
    ∃ s', Service.agreeOnKey c env s (t.peer side) item = some s' ∧ EndOk t side s' ∧
      endOf s' (t.peer side) = .conclude (agreedKey c) secret item.publicKey ∧
      s'.pendingDhItems = s.pendingDhItems := by
  obtain ⟨dhinfo, hpeer, hdh, hstatus, hown⟩ := dhinfo_of_half hok hend
  unfold Service.agreeOnKey
  simp only [hpeer, hdh]
  by_cases hsize : (c.computeKey secret item.publicKey).length = c.dhSize
  · refine ⟨_, if_neg (not_not.mpr hsize), ⟨?_, ?_, hok.sent⟩, ?_, rfl⟩
    · intro tunnel contact hlookup
      simp only [Service.pushItem, Service.setContact, Service.setVirtualPeer,
        OrderedMap.lookup_insert] at hlookup
      split at hlookup
      · cases hlookup
        exact ⟨hown, by simp⟩
      · exact hok.contact tunnel contact hlookup
    · intro dhinfo' hpeer'
      simp only [Service.pushItem, Service.setContact, Service.setVirtualPeer,
        OrderedMap.lookup_insert_self, Option.some.injEq] at hpeer'
      subst hpeer'
      exact .available secret rfl rfl hown (by simp [Service.pushItem, Service.setContact])
    · simp [endOf, Service.pushItem, Service.setContact, Service.setVirtualPeer, End.conclude,
        agreedKey, hsize]
  · refine ⟨_, if_pos hsize, ⟨hok.contact, ?_, hok.sent⟩, ?_, rfl⟩
    · intro dhinfo' hpeer'
      simp only [Service.setVirtualPeer, OrderedMap.lookup_insert_self, Option.some.injEq] at hpeer'
      subst hpeer'
      exact .half secret rfl hstatus hown
    · simp [endOf, Service.setVirtualPeer, End.conclude, agreedKey, hsize, hstatus]

theorem endOk_record (hok : EndOk t side s) (events : List Event) :
    EndOk t side (s.record events) where
  contact := hok.contact
  peer := fun dhinfo hpeer => by
    cases hok.peer dhinfo hpeer with
    | absent hdh hstatus => exact .absent hdh hstatus
    | half secret hdh hstatus hown => exact .half secret hdh hstatus hown
    | available secret hdh hstatus hown hcontact => exact .available secret hdh hstatus hown hcontact
  sent := hok.sent

/-- An honest item passes the checks of its signature. -/
theorem signatureKey_honestItem (hhonest : HonestEnd ids t side env) (key : Nat) :
    Service.signatureKey c env (honestItem ids (t.identity side.other) key) =
      some (ids.key (t.identity side.other)) := by
  unfold Service.signatureKey
  simp only [honestItem, ids.keyId_sign]
  rcases hhonest.getKey with hkey | hkey
  · have hfilter : (some (ids.key (t.identity side.other))).filter
        (fun key => decide (key.keyData ≠ [])) = some (ids.key (t.identity side.other)) :=
      Option.filter_eq_some_iff.mpr ⟨rfl, decide_eq_true (ids.keyData_key _)⟩
    rw [hkey, hfilter]
  · simp [hkey, ids.checkPublicKey_key, ids.keyId_key]

/-- What a public key from the other end does, case by case of the end that it reaches. -/
theorem handleRecvDhPublicKey_end (hok : EndOk t side s) (hhonest : HonestEnd ids t side env)
    (key : Nat) :
    ∃ s', Service.handleRecvDhPublicKey c env s (t.peer side)
        (honestItem ids (t.identity side.other) key) = some s' ∧ EndOk t side s' ∧
      ((endOf s (t.peer side) = .absent ∧ endOf s' (t.peer side) = .absent ∧
          s'.pendingDhItems = s.pendingDhItems) ∨
        (∃ secret, endOf s (t.peer side) = .half secret ∧
          endOf s' (t.peer side) = .conclude (agreedKey c) secret key ∧
          s'.pendingDhItems = s.pendingDhItems) ∨
        ∃ old common fresh, endOf s (t.peer side) = .available old common ∧
          endOf s' (t.peer side) = .conclude (agreedKey c) fresh key ∧
          s'.pendingDhItems = s.pendingDhItems ++ pendingOf t ids side [c.publicKey fresh]) := by
  unfold Service.handleRecvDhPublicKey
  simp only [signatureKey_honestItem hhonest]
  have hvalid : c.validateSignature (bn2bin (honestItem ids (t.identity side.other) key).publicKey)
      (ids.key (t.identity side.other))
      (honestItem ids (t.identity side.other) key).signature = true :=
    ids.validate_sign _ _
  cases hpeer : s.virtualPeers[t.peer side]? with
  | none => exact ⟨s, rfl, hok, .inl ⟨by simp [endOf, hpeer], by simp [endOf, hpeer], rfl⟩⟩
  | some dhinfo =>
      simp only [hvalid, not_true_eq_false, ↓reduceIte]
      have hrecorded := endOk_record hok
        [.verified (honestItem ids (t.identity side.other) key) (ids.key (t.identity side.other))]
      cases hok.peer dhinfo hpeer with
      | absent hdh hstatus =>
          have hend : endOf s (t.peer side) = .absent := by simp [endOf, hpeer, hdh]
          simp only [hdh]
          exact ⟨_, rfl, hrecorded, .inl ⟨hend, hend, rfl⟩⟩
      | half secret hdh hstatus hown =>
          have hend : endOf s (t.peer side) = .half secret := by simp [endOf, hpeer, hdh, hstatus]
          obtain ⟨s', hagree, hok', hend', hpending⟩ := agreeOnKey_end env hrecorded hend
            (honestItem ids (t.identity side.other) key)
          simp only [hdh, hstatus, reduceCtorEq, ↓reduceIte]
          exact ⟨s', hagree, hok', .inr (.inl ⟨secret, hend, hend', hpending⟩)⟩
      | available old hdh hstatus hown hcontact =>
          obtain ⟨fresh, hrestarted, hhalf, hanswer⟩ := restart_end (s := s.record
            [.verified (honestItem ids (t.identity side.other) key)
              (ids.key (t.identity side.other))]) hrecorded hhonest
          obtain ⟨s', hagree, hok', hend', hpending⟩ := agreeOnKey_end env hrestarted hhalf
            (honestItem ids (t.identity side.other) key)
          simp only [hdh, hstatus, ↓reduceIte, hown]
          refine ⟨s', hagree, hok', .inr (.inr ⟨old,
            (s.contacts[dhinfo.tunnelId]?.getD .empty).aesKey, fresh, ?_, hend',
            hpending.trans hanswer⟩)⟩
          simp [endOf, hpeer, hdh, hstatus]

/-- A new virtual peer gives up an exchange that was going on before it may start one. -/
theorem endOk_reset (hok : EndOk t side s) {dhinfo : DhInfo Secret} (hdh : dhinfo.dh = .null)
    (hstatus : dhinfo.status = .uninitialized) :
    EndOk t side (s.setVirtualPeer (t.peer side) dhinfo) ∧
      endOf (s.setVirtualPeer (t.peer side) dhinfo) (t.peer side) = .absent := by
  refine ⟨⟨hok.contact, ?_, hok.sent⟩, by simp [endOf, Service.setVirtualPeer, hdh]⟩
  intro dhinfo' hpeer
  simp only [Service.setVirtualPeer, OrderedMap.lookup_insert_self, Option.some.injEq] at hpeer
  subst hpeer
  exact .absent hdh hstatus

theorem destinationGxsIdFromHash_hash (t : Tunnel) :
    destinationGxsIdFromHash t.hash = t.identity .right := by
  apply Subtype.ext
  exact List.drop_left' t.randomBytes.2

/-- The end after a new virtual peer: the exchange is given up, and started again where it may be. -/
theorem addVirtualPeer_cases (c : Crypto Secret) (env : Surroundings Secret) (hok : EndOk t side s) :
    ∃ dhinfo : DhInfo Secret, dhinfo.dh = .null ∧ dhinfo.status = .uninitialized ∧
      (s.addVirtualPeer c env t.hash (t.peer side) (direction side) =
          s.setVirtualPeer (t.peer side) dhinfo ∨
        Starts t s side ∧ s.addVirtualPeer c env t.hash (t.peer side) (direction side) =
          Service.restartDhSession c env (s.setVirtualPeer (t.peer side) dhinfo) (t.peer side)
            (t.identity side)) := by
  refine ⟨{ s.virtualPeers[t.peer side]?.getD .empty with
      gxsId := zeros
      dh := .null
      direction := direction side
      hash := t.hash
      status := .uninitialized
      tunnelId := zeros }, rfl, rfl, ?_⟩
  unfold Service.addVirtualPeer
  cases side with
  | right =>
      right
      refine ⟨trivial, ?_⟩
      rw [← destinationGxsIdFromHash_hash t]
      rfl
  | left =>
      rw [if_neg (show direction .left ≠ .client from nofun)]
      dsimp only
      split
      · exact .inl rfl
      · next tunnel contact hfind =>
          split
          · exact .inl rfl
          · next htalk =>
              have hown : contact.ownGxsId = t.identity .left :=
                (hok.contact tunnel contact (Service.contact_find hfind)).1
              rw [hown]
              exact .inr ⟨⟨_, hfind, htalk⟩, rfl⟩

theorem addVirtualPeer_end (hok : EndOk t side s) (hhonest : HonestEnd ids t side env) :
    ∃ s', s.addVirtualPeer c env t.hash (t.peer side) (direction side) = s' ∧ EndOk t side s' ∧
      ((∃ secret, Starts t s side ∧ endOf s' (t.peer side) = .half secret ∧
          s'.pendingDhItems = s.pendingDhItems ++ pendingOf t ids side [c.publicKey secret]) ∨
        (endOf s' (t.peer side) = .absent ∧ s'.pendingDhItems = s.pendingDhItems)) := by
  refine ⟨_, rfl, ?_⟩
  obtain ⟨dhinfo, hdh, hstatus, hcases⟩ := addVirtualPeer_cases c env hok
  obtain ⟨hreset, habsent⟩ := endOk_reset hok hdh hstatus
  rcases hcases with heq | ⟨hstarts, heq⟩
  · rw [heq]
    exact ⟨hreset, .inr ⟨habsent, rfl⟩⟩
  · obtain ⟨secret, hrestarted, hhalf, hsent⟩ := restart_end (c := c) hreset hhonest
    rw [heq]
    exact ⟨hrestarted, .inl ⟨secret, hstarts, hhalf, hsent⟩⟩

/-! ### Flushing -/

theorem flushDhItems_spec (hd : DiffieHellman c) (s : Service Secret) :
    s.flushDhItems c =
      { s with
        pendingDhItems := []
        sent := s.sent ++ s.pendingDhItems.map fun entry => (entry.1, packetOf c entry.2) } := by
  unfold Service.flushDhItems
  have hloop : ∀ (entries : List (VirtualPeerId × DhPublicKeyItem)) (s' : Service Secret),
      entries.foldl (Service.flushDhItem c) s' =
      { s' with sent := s'.sent ++ entries.map fun entry => (entry.1, packetOf c entry.2) } := by
    intro entries
    induction entries with
    | nil => simp
    | cons entry entries ih =>
        intro s'
        obtain ⟨bytes, hbytes, -⟩ := hd.deserialise_serialise entry.2
        have hpacket : packetOf c entry.2 = List.replicate 8 0 ++ bytes := by
          rw [packetOf, hbytes, Option.getD_some]
        rw [List.foldl_cons, ih]
        simp [Service.flushDhItem, Service.sendClearTunnelData, hbytes, Service.sendTurtleData,
          hpacket]
  rw [hloop]

/-- What a flush leaves of the contacts is enough for an end. -/
theorem flushed_end (hok : EndOk t side s) {middle : Service Secret}
    (hcontacts : middle.contacts = s.contacts) (hpeers : middle.virtualPeers = s.virtualPeers)
    (hflushed : Service.Flushed middle s') :
    EndOk t side { s' with sent := [] } ∧ endOf s' (t.peer side) = endOf s (t.peer side) := by
  have hstays := hflushed.stays
  have hkept := hflushed.kept
  rw [hcontacts] at hstays hkept
  have hvirtual := hflushed.virtualPeers.trans hpeers
  have hkeys : ∀ (tunnel : TunnelId) (contact : PeerInfo), s.contacts[tunnel]? = some contact →
      ∃ contact', s'.contacts[tunnel]? = some contact' ∧ contact'.aesKey = contact.aesKey := by
    intro tunnel contact hlookup
    obtain ⟨contact', hlookup'⟩ := Option.ne_none_iff_exists'.mp
      (hstays tunnel contact hlookup (hok.contact tunnel contact hlookup).2)
    obtain ⟨old, hold, hkeeps⟩ := hkept tunnel contact' hlookup'
    rw [hlookup, Option.some.injEq] at hold
    exact ⟨contact', hlookup', hold ▸ hkeeps.aesKey⟩
  refine ⟨⟨?_, ?_, rfl⟩, ?_⟩
  · intro tunnel contact' hlookup'
    obtain ⟨contact, hlookup, hkeeps⟩ := hkept tunnel contact' hlookup'
    obtain ⟨hown, hopen⟩ := hok.contact tunnel contact hlookup
    refine ⟨hkeeps.ownGxsId.trans hown, ?_⟩
    rcases hkeeps.status with hsame | hdown
    · rwa [hsame]
    · rw [hdown]
      nofun
  · intro dhinfo hpeer
    rw [hvirtual] at hpeer
    cases hok.peer dhinfo hpeer with
    | absent hdh hstatus => exact .absent hdh hstatus
    | half secret hdh hstatus hown => exact .half secret hdh hstatus hown
    | available secret hdh hstatus hown hcontact =>
        obtain ⟨contact, hlookup⟩ := Option.ne_none_iff_exists'.mp hcontact
        obtain ⟨contact', hlookup', -⟩ := hkeys _ contact hlookup
        exact .available secret hdh hstatus hown (by simp [hlookup'])
  · unfold endOf
    rw [hvirtual]
    cases hpeer : s.virtualPeers[t.peer side]? with
    | none => rfl
    | some dhinfo =>
        cases hok.peer dhinfo hpeer with
        | absent hdh hstatus => simp [hdh]
        | half secret hdh hstatus hown => simp [hdh, hstatus]
        | available secret hdh hstatus hown hcontact =>
            obtain ⟨contact, hlookup⟩ := Option.ne_none_iff_exists'.mp hcontact
            obtain ⟨contact', hlookup', hkey⟩ := hkeys _ contact hlookup
            simp [hdh, hstatus, hlookup, hlookup', hkey]

theorem flush_end (env : Surroundings Secret) (hd : DiffieHellman c) (hok : EndOk t side s) {keys : List Nat}
    (hpending : s.pendingDhItems = pendingOf t ids side keys) :
    EndOk t side { s.flush c env with sent := [] } ∧
      endOf (s.flush c env) (t.peer side) = endOf s (t.peer side) ∧
      (s.flush c env).pendingDhItems = [] ∧
      clearPackets t side (s.flush c env) =
        keys.map fun key => packetOf c (honestItem ids (t.identity side) key) := by
  have hflushed := Service.flush_flushed c env s
  rw [flushDhItems_spec hd] at hflushed
  obtain ⟨hok', hend⟩ := flushed_end hok (by rfl) (by rfl) hflushed
  have hclear : (s.flush c env).sent.filter Service.isClear =
      keys.map fun key => (t.peer side, packetOf c (honestItem ids (t.identity side) key)) := by
    have hsent := hflushed.sent
    simp only [hok.sent, List.nil_append, hpending, pendingOf, List.map_map] at hsent
    rw [hsent, List.filter_eq_self.mpr]
    · rfl
    · intro packet hmem
      obtain ⟨key, -, rfl⟩ := List.mem_map.mp hmem
      simp [Service.isClear, packetOf]
  refine ⟨hok', hend, hflushed.pendingDhItems, ?_⟩
  have hpackets : clearPackets t side (s.flush c env) =
      (((s.flush c env).sent.filter Service.isClear).filter (·.1 = t.peer side)).map Prod.snd := by
    rw [clearPackets, List.filter_filter]
    congr 2
    funext packet
    simp [Service.isClear]
  rw [hpackets, hclear, List.filter_eq_self.mpr, List.map_map]
  · rfl
  · intro packet hmem
    obtain ⟨key, -, rfl⟩ := List.mem_map.mp hmem
    simp

/-! ### Both ends -/

section Simulation

variable {link link' : Link Secret} {x : Exchange Secret Nat AesKey}

@[simp]
theorem service_setService (link : Link Secret) (side : Side) (s : Service Secret) :
    (link.setService side s).service side = s := Function.update_self ..

@[simp]
theorem service_setService_other (link : Link Secret) (side : Side) (s : Service Secret) :
    (link.setService side s).service side.other = link.service side.other :=
  Function.update_of_ne side.other_ne ..

@[simp]
theorem inFlight_setInFlight (link : Link Secret) (side : Side) (packets : List (List UInt8)) :
    (link.setInFlight side packets).inFlight side = packets := Function.update_self ..

@[simp]
theorem inFlight_setInFlight_other (link : Link Secret) (side : Side)
    (packets : List (List UInt8)) :
    (link.setInFlight side packets).inFlight side.other = link.inFlight side.other :=
  Function.update_of_ne side.other_ne ..

/-- A change of one end that appends to its public keys. -/
theorem Tracks.setService (htracks : Tracks t ids link x) (hok : EndOk t side s')
    {keys : List Nat} (hpending : s'.pendingDhItems =
      (link.service side).pendingDhItems ++ pendingOf t ids side keys) :
    Tracks t ids (link.setService side s')
      ((x.setEnd side (endOf s' (t.peer side))).setTowards side.other
        (x.towards side.other ++ keys)) where
  ends := by
    rw [Exchange.forall_side side]
    exact ⟨by simp, by simp [htracks.ends]⟩
  ok := by
    rw [Exchange.forall_side side]
    exact ⟨by simpa using hok, by simpa using htracks.ok side.other⟩
  towards := by
    rw [Exchange.forall_side side]
    constructor
    · obtain ⟨flight, pending, hflight, hold, htowards⟩ := htracks.towards side
      exact ⟨flight, pending, hflight, by simpa using hold, by simpa using htowards⟩
    · obtain ⟨flight, pending, hflight, hold, htowards⟩ := htracks.towards side.other
      rw [Side.other_other] at hold
      refine ⟨flight, pending ++ keys, hflight, ?_, ?_⟩
      · rw [Side.other_other, service_setService, hpending, hold, pendingOf, pendingOf, pendingOf,
          List.map_append]
      · rw [Exchange.towards_setTowards, htowards, List.append_assoc]

/-- The same for a change that appends nothing. -/
theorem Tracks.setService_quiet (htracks : Tracks t ids link x) (hok : EndOk t side s')
    (hpending : s'.pendingDhItems = (link.service side).pendingDhItems) :
    Tracks t ids (link.setService side s') (x.setEnd side (endOf s' (t.peer side))) := by
  have happended : s'.pendingDhItems =
      (link.service side).pendingDhItems ++ pendingOf t ids side [] := by
    simpa [pendingOf] using hpending
  have hset := htracks.setService hok happended
  rwa [List.append_nil, Exchange.setTowards_self] at hset
  rfl

theorem Tracks.addVirtualPeer (htracks : Tracks t ids link x) (hhonest : HonestEnd ids t side env)
    (hstep : link.step c t (.addVirtualPeer side env) = some link') :
    ∃ x', Tracks t ids link' x' ∧
      ((∃ secret, Starts t (link.service side) side ∧ x' = x.start c.publicKey side secret) ∨
        x' = x.setEnd side .absent) := by
  cases hstep
  obtain ⟨s', heq, hok, hcases⟩ := addVirtualPeer_end (htracks.ok side) hhonest
  rw [heq]
  rcases hcases with ⟨secret, hstarts, hend, hpending⟩ | ⟨hend, hpending⟩
  · exact ⟨_, htracks.setService hok hpending, .inl ⟨secret, hstarts, by rw [hend]; rfl⟩⟩
  · exact ⟨_, htracks.setService_quiet hok hpending, .inr (by rw [hend])⟩

/-- An encrypted packet that fails to open makes the end start again. -/
theorem receiveTurtleData_failing {bytes : List UInt8} (hok : EndOk t side (link.service side))
    (hfails : link.FailsToOpen c t side bytes) :
    (link.service side).receiveTurtleData c env bytes (t.peer side) =
      some (Service.restartDhSession c env (link.service side) (t.peer side) (t.identity side)) := by
  obtain ⟨hlength, dhinfo, contact, iv, hiv, hpeer, hcontact, hopen⟩ := hfails
  have hown := (hok.contact _ contact hcontact).1
  have hencrypted : bytes.take 8 ≠ List.replicate 8 0 := hiv ▸ iv.2.2
  have hsame : (⟨bytes.take 8, hiv ▸ iv.2⟩ : Iv) = iv := Subtype.ext hiv.symm
  unfold Service.receiveTurtleData
  rw [dif_neg (by omega), dif_pos hencrypted]
  unfold Service.handleEncryptedData
  simp only [hpeer, hcontact]
  rw [if_neg (by omega), if_neg (by omega), hsame, hopen, hown]

theorem Tracks.encrypted {bytes : List UInt8} (htracks : Tracks t ids link x)
    (hhonest : HonestEnd ids t side env) (hfails : link.FailsToOpen c t side bytes)
    (hstep : link.step c t (.encrypted side env bytes) = some link') :
    ∃ secret, Tracks t ids link' (x.start c.publicKey side secret) := by
  simp only [step, receiveTurtleData_failing (htracks.ok side) hfails, Option.bind_eq_bind,
    Option.bind_some, Option.some.injEq] at hstep
  obtain ⟨secret, hok, hend, hpending⟩ := restart_end (c := c) (htracks.ok side) hhonest
  refine ⟨secret, ?_⟩
  have hset := htracks.setService hok hpending
  rw [hend] at hset
  rw [← hstep]
  exact hset

theorem Tracks.flush (hd : DiffieHellman c) (htracks : Tracks t ids link x)
    (hstep : link.step c t (.flush side env) = some link') : Tracks t ids link' x := by
  cases hstep
  obtain ⟨flight, pending, hflight, hold, htowards⟩ := htracks.towards side.other
  rw [Side.other_other] at hflight hold
  obtain ⟨hok, hend, hempty, hclear⟩ := flush_end env hd (htracks.ok side) hold
  refine ⟨?_, ?_, ?_⟩
  · rw [Exchange.forall_side side]
    constructor
    · rw [htracks.ends side, ← hend]
      simp [setInFlight, endOf]
    · rw [htracks.ends side.other]
      simp [setInFlight]
  · rw [Exchange.forall_side side]
    exact ⟨by simpa [setInFlight] using hok, by simpa [setInFlight] using htracks.ok side.other⟩
  · rw [Exchange.forall_side side]
    constructor
    · obtain ⟨flight, pending, hflight, hold, htowards⟩ := htracks.towards side
      refine ⟨flight, pending, ?_, by simpa [setInFlight] using hold, htowards⟩
      rw [← hflight]
      exact Function.update_of_ne side.other_ne.symm ..
    · refine ⟨flight ++ pending, [], ?_, ?_, by simpa using htowards⟩
      · rw [Side.other_other, inFlight_setInFlight, hclear, hflight, List.map_append]
      · rw [Side.other_other]
        simpa [setInFlight, pendingOf] using hempty

/-- What the router carries arrives as the item that was sent. -/
theorem receiveTurtleData_packetOf (hd : DiffieHellman c) (s : Service Secret)
    (item : DhPublicKeyItem) (peer : VirtualPeerId) :
    s.receiveTurtleData c env (packetOf c item) peer =
      s.handleRecvDhPublicKey c env peer item := by
  obtain ⟨bytes, hbytes, hitem⟩ := hd.deserialise_serialise item
  have hpacket : packetOf c item = List.replicate 8 0 ++ bytes := by
    rw [packetOf, hbytes, Option.getD_some]
  have hiv : (List.replicate 8 (0 : UInt8) ++ bytes).take 8 = List.replicate 8 0 :=
    List.take_left' rfl
  have hrest : (List.replicate 8 (0 : UInt8) ++ bytes).drop 8 = bytes := List.drop_left' rfl
  unfold Service.receiveTurtleData
  rw [hpacket, dif_neg (by simp), dif_neg (not_not.mpr hiv), hrest, hitem]

/-- A packet on its way to a side is delivered, and the exchange does the same. -/
theorem Tracks.deliver (hd : DiffieHellman c) (htracks : Tracks t ids link x)
    (hhonest : HonestEnd ids t side env) {bytes : List UInt8} {rest : List (List UInt8)}
    (hflying : link.inFlight side = bytes :: rest) :
    ∃ link' x' fresh, link.step c t (.deliver side env) = some link' ∧ Tracks t ids link' x' ∧
      x.deliver c.publicKey (agreedKey c) side fresh = some x' := by
  obtain ⟨flight, pending, hflight, hold, htowards⟩ := htracks.towards side
  cases flight with
  | nil =>
      rw [hflying] at hflight
      cases hflight
  | cons key flight =>
      rw [hflying, List.map_cons, List.cons.injEq] at hflight
      have hpopped : Tracks t ids (link.setInFlight side rest)
          (x.setTowards side (flight ++ pending)) := by
        refine ⟨htracks.ends, htracks.ok, ?_⟩
        rw [Exchange.forall_side side]
        constructor
        · exact ⟨flight, pending, by simpa using hflight.2, hold, by simp⟩
        · obtain ⟨flight', pending', hflight', hold', htowards'⟩ := htracks.towards side.other
          exact ⟨flight', pending', by simpa using hflight', hold', by simpa using htowards'⟩
      obtain ⟨s', hrecv, hok, hcases⟩ := handleRecvDhPublicKey_end (htracks.ok side) hhonest key
      have hstep : link.step c t (.deliver side env) =
          some ((link.setInFlight side rest).setService side s') := by
        simp only [step, hflying, hflight.1, receiveTurtleData_packetOf hd, hrecv]
        rfl
      rw [← htracks.ends side] at hcases
      rcases hcases with ⟨hend, hend', hpending⟩ | ⟨secret, hend, hend', hpending⟩ |
        ⟨old, common, fresh, hend, hend', hpending⟩
      · obtain ⟨fresh, -⟩ := hhonest.initDhSessionKey
        refine ⟨_, _, fresh, hstep, hpopped.setService_quiet hok hpending, ?_⟩
        rw [hend', Exchange.setEnd_self _ _ _ (by simpa using hend)]
        simp [Exchange.deliver, htowards, hend]
      · refine ⟨_, _, secret, hstep, hpopped.setService_quiet hok hpending, ?_⟩
        rw [hend']
        simp [Exchange.deliver, htowards, hend, Exchange.conclude]
      · refine ⟨_, _, fresh, hstep, hpopped.setService hok hpending, ?_⟩
        rw [hend', ← Exchange.conclude_start]
        simp [Exchange.deliver, htowards, hend]

theorem Tracks.deliver_of_step (hd : DiffieHellman c) (htracks : Tracks t ids link x)
    (hhonest : HonestEnd ids t side env)
    (hstep : link.step c t (.deliver side env) = some link') :
    ∃ x' fresh, Tracks t ids link' x' ∧
      x.deliver c.publicKey (agreedKey c) side fresh = some x' := by
  cases hflying : link.inFlight side with
  | nil => simp [step, hflying] at hstep
  | cons bytes rest =>
      obtain ⟨link'', x', fresh, hstep', htracks', hdeliver⟩ := htracks.deliver hd hhonest hflying
      rw [hstep, Option.some.injEq] at hstep'
      exact ⟨x', fresh, hstep' ▸ htracks', hdeliver⟩

theorem tracks_initial (c : Crypto Secret) (ids : Identities c) (t : Tunnel)
    (env : Surroundings Secret) (serviceId : Nat) :
    Tracks t ids (initial c t env serviceId) { ends := fun _ => .absent, towards := fun _ => [] } where
  ends := fun side => by
    cases side with
    | left =>
        simp only [initial, Service.requestSecuredTunnel, Service.startClientGxsTunnelConnection]
        split <;> rfl
    | right => rfl
  ok := fun side => by
    cases side with
    | left =>
        simp only [initial, Service.requestSecuredTunnel, Service.startClientGxsTunnelConnection]
        split
        · refine ⟨fun tunnel contact hlookup => ?_, fun dhinfo hpeer => ?_, rfl⟩
          · simp only [Service.initial, Service.setContact, Service.record,
              OrderedMap.lookup_insert, Std.ExtTreeMap.getElem?_empty] at hlookup
            split at hlookup
            · cases hlookup
              exact ⟨rfl, by simp⟩
            · cases hlookup
          · simp [Service.initial, Service.setContact, Service.record] at hpeer
        · exact ⟨fun _ _ hlookup => by simp [Service.initial] at hlookup,
            fun _ hpeer => by simp [Service.initial] at hpeer, rfl⟩
    | right =>
        exact ⟨fun _ _ hlookup => by simp [initial, Service.initial] at hlookup,
          fun _ hpeer => by simp [initial, Service.initial] at hpeer, rfl⟩
  towards := fun side => by
    refine ⟨[], [], rfl, ?_, rfl⟩
    cases side with
    | left => rfl
    | right =>
        simp only [initial, Side.other, Service.requestSecuredTunnel,
          Service.startClientGxsTunnelConnection]
        split <;> rfl

/-! ### Reading the exchange off the link -/

def statusOf : End Secret AesKey → DhStatus
  | .absent => .uninitialized
  | .half _ => .halfKeyDone
  | .available _ _ => .keyAvailable

theorem Tracks.dhStatus (htracks : Tracks t ids link x) (side : Side) :
    link.dhStatus t side = statusOf (x.ends side) := by
  rw [htracks.ends side, Link.dhStatus, endOf]
  cases hpeer : (link.service side).virtualPeers[t.peer side]? with
  | none => rfl
  | some dhinfo =>
      cases (htracks.ok side).peer dhinfo hpeer with
      | absent hdh hstatus => simp [hdh, hstatus, statusOf]
      | half secret hdh hstatus hown => simp [hdh, hstatus, statusOf]
      | available secret hdh hstatus hown hcontact => simp [hdh, hstatus, statusOf]

theorem Tracks.outstanding (htracks : Tracks t ids link x) : link.outstanding = x.outstanding := by
  obtain ⟨flightL, pendingL, hflightL, holdL, htowardsL⟩ := htracks.towards .left
  obtain ⟨flightR, pendingR, hflightR, holdR, htowardsR⟩ := htracks.towards .right
  simp only [Side.other] at holdL holdR
  rw [Link.outstanding, Exchange.outstanding, hflightL, hflightR, holdL, holdR, htowardsL, htowardsR]
  simp [pendingOf]

theorem Tracks.room (htracks : Tracks t ids link x) (hroom : link.Room t side) :
    x.ends side.other = .absent ∨ x.outstanding ≤ (x.ends side.other).waiting := by
  rw [Room, htracks.dhStatus, htracks.outstanding] at hroom
  cases hend : x.ends side.other with
  | absent => exact .inl rfl
  | half secret => exact .inr (by simpa [hend, statusOf] using hroom)
  | available secret key => exact .inr (by simpa [hend, statusOf] using hroom)

theorem Tracks.aesKey (htracks : Tracks t ids link x) {secret : Secret} {key : AesKey}
    (hend : x.ends side = .available secret key) : link.aesKey t side = some key := by
  rw [htracks.ends side, endOf] at hend
  cases hpeer : (link.service side).virtualPeers[t.peer side]? with
  | none => simp [hpeer] at hend
  | some dhinfo =>
      cases (htracks.ok side).peer dhinfo hpeer with
      | absent hdh hstatus => simp [hpeer, hdh] at hend
      | half own hdh hstatus hown => simp [hpeer, hdh, hstatus] at hend
      | available own hdh hstatus hown hcontact =>
          obtain ⟨contact, hlookup⟩ := Option.ne_none_iff_exists'.mp hcontact
          simp only [hpeer, hdh, hstatus, hlookup, Option.getD_some, End.available.injEq] at hend
          simp [Link.aesKey, hpeer, hlookup, hend.2]

theorem agreedKey_comm (hd : DiffieHellman c) (a b : Secret) :
    agreedKey c a (c.publicKey b) = agreedKey c b (c.publicKey a) := by
  rw [agreedKey, agreedKey, hd.computeKey_comm a b]

theorem Tracks.agreesAtRest (hd : DiffieHellman c) (htracks : Tracks t ids link x)
    (hsynced : x.Synced c.publicKey (agreedKey c)) : AgreesAtRest t link := by
  intro hquiet havailable
  rw [htracks.outstanding, Exchange.outstanding] at hquiet
  have hempty (side : Side) : x.towards side = [] := by
    cases side with
    | left => exact List.eq_nil_of_length_eq_zero (by omega)
    | right => exact List.eq_nil_of_length_eq_zero (by omega)
  have hends (side : Side) : ∃ secret key, x.ends side = .available secret key := by
    have hstatus := havailable side
    rw [htracks.dhStatus] at hstatus
    cases hend : x.ends side with
    | absent => simp [hend, statusOf] at hstatus
    | half secret => simp [hend, statusOf] at hstatus
    | available secret key => exact ⟨secret, key, rfl⟩
  obtain ⟨a, ka, hleft⟩ := hends .left
  obtain ⟨b, kb, hright⟩ := hends .right
  have hsame : ka = kb := hsynced.agreement (agreedKey_comm hd) (hempty .left) (hempty .right) hleft
    hright
  refine ⟨ka, fun side => ?_⟩
  cases side with
  | left => exact htracks.aesKey hleft
  | right => exact hsame ▸ htracks.aesKey hright

/-- Every delivery uses up potential. -/
theorem Tracks.settles (hd : DiffieHellman c) (htracks : Tracks t ids link x)
    (hbalanced : x.Balanced) : Settles t ids link := by
  refine ⟨x.potential, fun n link' hcarries => ?_⟩
  have hspent : ∃ x', Tracks t ids link' x' ∧ x'.Balanced ∧ n + x'.potential ≤ x.potential := by
    induction hcarries with
    | refl => exact ⟨x, htracks, hbalanced, by omega⟩
    | flush hcarries hhonest hstep ih =>
        obtain ⟨x', htracks', hbalanced', hspent⟩ := ih
        exact ⟨x', htracks'.flush hd hstep, hbalanced', hspent⟩
    | deliver hcarries hhonest hstep ih =>
        obtain ⟨x', htracks', hbalanced', hspent⟩ := ih
        obtain ⟨x'', fresh, htracks'', hdeliver⟩ := htracks'.deliver_of_step hd hhonest hstep
        have hless := hbalanced'.potential_deliver hdeliver
        exact ⟨x'', htracks'', hbalanced'.deliver hdeliver, by omega⟩
  obtain ⟨x', -, -, hspent⟩ := hspent
  omega

/-- What every step of honest ends does to the exchange. -/
theorem Tracks.step (hd : DiffieHellman c) {op : Op Secret} (htracks : Tracks t ids link x)
    (hsynced : x.Synced c.publicKey (agreedKey c)) (hhonest : Honest t ids link op)
    (hstep : link.step c t op = some link') :
    ∃ x', Tracks t ids link' x' ∧ x'.Synced c.publicKey (agreedKey c) ∧
      (x.Genuine c.publicKey → x'.Genuine c.publicKey) ∧
      (x.Balanced → StartsWithRoom t link op → x'.Balanced) := by
  cases op with
  | addVirtualPeer side env =>
      obtain ⟨x', htracks', ⟨secret, hstarts, rfl⟩ | rfl⟩ := htracks.addVirtualPeer hhonest hstep
      · exact ⟨_, htracks', hsynced.start side secret, fun hgenuine => hgenuine.start side secret,
          fun _ hroom => Exchange.balanced_start (htracks.room (hroom hstarts))⟩
      · exact ⟨_, htracks', hsynced.giveUp side, id, fun _ _ => Exchange.balanced_giveUp x side⟩
  | encrypted side env bytes =>
      obtain ⟨secret, htracks'⟩ := htracks.encrypted hhonest.1 hhonest.2 hstep
      exact ⟨_, htracks', hsynced.start side secret, fun hgenuine => hgenuine.start side secret,
        fun _ hroom => Exchange.balanced_start (htracks.room hroom)⟩
  | flush side env =>
      exact ⟨x, htracks.flush hd hstep, hsynced, id, fun hbalanced _ => hbalanced⟩
  | deliver side env =>
      obtain ⟨x', fresh, htracks', hdeliver⟩ := htracks.deliver_of_step hd hhonest hstep
      exact ⟨x', htracks', hsynced.deliver hdeliver, fun hgenuine => hgenuine.deliver hdeliver,
        fun hbalanced _ => hbalanced.deliver hdeliver⟩

theorem synced_nothing : Exchange.Synced c.publicKey (agreedKey c)
    { ends := fun _ => .absent, towards := fun _ => [] } := by
  intro side secret hsecret
  cases hsecret

/-- Honest ends refine an exchange, room or not. -/
theorem tracks_of_reaches (hd : DiffieHellman c) (ids : Identities c) (t : Tunnel)
    (env : Surroundings Secret) (serviceId : Nat) {link : Link Secret}
    (hrun : Reaches (step c t) (Honest t ids) (initial c t env serviceId) link) :
    ∃ x, Tracks t ids link x ∧ x.Synced c.publicKey (agreedKey c) ∧ x.Genuine c.publicKey := by
  apply hrun.invariant fun link =>
    ∃ x, Tracks t ids link x ∧ x.Synced c.publicKey (agreedKey c) ∧ x.Genuine c.publicKey
  · rintro before op after ⟨x, htracks, hsynced, hgenuine⟩ hhonest hstep
    obtain ⟨x', htracks', hsynced', hkeeps, -⟩ := htracks.step hd hsynced hhonest hstep
    exact ⟨x', htracks', hsynced', hkeeps hgenuine⟩
  · exact ⟨_, tracks_initial c ids t env serviceId, synced_nothing, fun side key hmem =>
      absurd hmem (by simp)⟩

/-- Agreement needs no room: honest ends agree whenever they are at rest. -/
theorem agreesAtRest_of_reaches (hd : DiffieHellman c) (ids : Identities c) (t : Tunnel)
    (env : Surroundings Secret) (serviceId : Nat) {link : Link Secret}
    (hrun : Reaches (step c t) (Honest t ids) (initial c t env serviceId) link) :
    AgreesAtRest t link := by
  obtain ⟨x, htracks, hsynced, -⟩ := tracks_of_reaches hd ids t env serviceId hrun
  exact htracks.agreesAtRest hd hsynced

/-- **Renegotiation agrees and settles** where exchanges are started only with room for them. -/
theorem renegotiation_of_reaches (hd : DiffieHellman c) (ids : Identities c) (t : Tunnel)
    (env : Surroundings Secret) (serviceId : Nat) {link : Link Secret}
    (hrun : Reaches (step c t) (fun link op => Honest t ids link op ∧ StartsWithRoom t link op)
      (initial c t env serviceId) link) :
    AgreesAtRest t link ∧ Settles t ids link := by
  have htracked : ∃ x, Tracks t ids link x ∧ x.Synced c.publicKey (agreedKey c) ∧ x.Balanced := by
    apply hrun.invariant fun link =>
      ∃ x, Tracks t ids link x ∧ x.Synced c.publicKey (agreedKey c) ∧ x.Balanced
    · rintro before op after ⟨x, htracks, hsynced, hbalanced⟩ ⟨hhonest, hroom⟩ hstep
      obtain ⟨x', htracks', hsynced', -, hkeeps⟩ := htracks.step hd hsynced hhonest hstep
      exact ⟨x', htracks', hsynced', hkeeps hbalanced hroom⟩
    · exact ⟨_, tracks_initial c ids t env serviceId, synced_nothing, fun side => .inl rfl⟩
  obtain ⟨x, htracks, hsynced, hbalanced⟩ := htracked
  exact ⟨htracks.agreesAtRest hd hsynced, htracks.settles hd hbalanced⟩

/-! ### Without room -/

theorem flush_pending (hd : DiffieHellman c) (htracks : Tracks t ids link x)
    (hstep : link.step c t (.flush side env) = some link') :
    (link'.service side).pendingDhItems = [] := by
  cases hstep
  obtain ⟨flight, pending, -, hold, -⟩ := htracks.towards side.other
  rw [Side.other_other] at hold
  simpa [setInFlight] using (flush_end env hd (htracks.ok side) hold).2.2.1

/-- A crowded link can always carry one more public key, and stays crowded. -/
theorem exists_carries_succ (hd : DiffieHellman c)
    (hagree : ∀ a b, agreedKey c a (c.publicKey b) ≠ none)
    (henv : ∀ side, ∃ env, HonestEnd ids t side env) {start : Link Secret} {n : Nat}
    (hcarries : Carries t ids start n link) (htracks : Tracks t ids link x) (hcrowded : x.Crowded)
    (hgenuine : x.Genuine c.publicKey) :
    ∃ link' x', Carries t ids start (n + 1) link' ∧ Tracks t ids link' x' ∧ x'.Crowded ∧
      x'.Genuine c.publicKey := by
  obtain ⟨side, hside⟩ := hcrowded.exists_towards
  obtain ⟨sender, hsender⟩ := henv side.other
  obtain ⟨env, hhonest⟩ := henv side
  have hflush : ∃ middle, link.step c t (.flush side.other sender) = some middle := ⟨_, rfl⟩
  obtain ⟨middle, hflush⟩ := hflush
  have htracked := htracks.flush hd hflush
  obtain ⟨flight, pending, hflight, hold, htowards⟩ := htracked.towards side
  have hempty : pending = [] := by
    have hpending := flush_pending hd htracks hflush
    rw [hold] at hpending
    exact List.map_eq_nil_iff.mp hpending
  rw [hempty, List.append_nil] at htowards
  cases flight with
  | nil => exact absurd htowards hside
  | cons key flight =>
      obtain ⟨link', x', fresh, hstep, htracks', hdeliver⟩ :=
        htracked.deliver hd hhonest (by rw [hflight, List.map_cons])
      exact ⟨link', x', .deliver (.flush hcarries hsender hflush) hhonest hstep, htracks',
        hcrowded.deliver hgenuine hagree hdeliver, hgenuine.deliver hdeliver⟩

theorem Tracks.crowded (htracks : Tracks t ids link x)
    (hhalf : ∀ side, link.dhStatus t side = .halfKeyDone) (hmore : 2 < link.outstanding) :
    x.Crowded := by
  have hends (side : Side) : ∃ secret, x.ends side = .half secret := by
    have hstatus := hhalf side
    rw [htracks.dhStatus] at hstatus
    cases hend : x.ends side with
    | absent => simp [hend, statusOf] at hstatus
    | half secret => exact ⟨secret, rfl⟩
    | available secret key => simp [hend, statusOf] at hstatus
  refine ⟨fun side => ?_, ?_⟩
  · obtain ⟨secret, hend⟩ := hends side
    rw [hend, End.present_half]
  · obtain ⟨a, hleft⟩ := hends .left
    obtain ⟨b, hright⟩ := hends .right
    rw [htracks.outstanding] at hmore
    rw [Exchange.waiting, hleft, hright]
    exact hmore

/-- More public keys outstanding than half keys, with an exchange at both ends, are carried for ever. -/
theorem not_settles_of_crowded (hd : DiffieHellman c)
    (hagree : ∀ a b, agreedKey c a (c.publicKey b) ≠ none)
    (henv : ∀ side, ∃ env, HonestEnd ids t side env) (htracks : Tracks t ids link x)
    (hcrowded : x.Crowded) (hgenuine : x.Genuine c.publicKey) : ¬ Settles t ids link := by
  have hrun : ∀ n, ∃ link' x', Carries t ids link n link' ∧ Tracks t ids link' x' ∧ x'.Crowded ∧
      x'.Genuine c.publicKey := by
    intro n
    induction n with
    | zero => exact ⟨link, x, .refl link, htracks, hcrowded, hgenuine⟩
    | succ n ih =>
        obtain ⟨link', x', hcarries, htracks', hcrowded', hgenuine'⟩ := ih
        exact exists_carries_succ hd hagree henv hcarries htracks' hcrowded' hgenuine'
  rintro ⟨bound, hbound⟩
  obtain ⟨link', -, hcarries, -⟩ := hrun (bound + 1)
  exact absurd (hbound _ _ hcarries) (by omega)

end Simulation

/-! ### A tunnel between two identities -/

def sampleIdentities : Identities Service.sampleCrypto where
  key := Service.sampleKey
  sign := fun id data => { keyId := id, signData := id.1 ++ data }
  keyId_key := fun _ => rfl
  keyData_key := fun id hempty => by
    have hsize := id.2
    rw [show id.1 = [] from hempty] at hsize
    cases hsize
  checkPublicKey_key := fun _ => by simp [Service.sampleCrypto, Service.sampleKey]
  keyId_sign := fun _ _ => rfl
  validate_sign := fun _ _ => by simp [Service.sampleCrypto, Service.sampleKey]

theorem length_sampleRandom : (List.replicate 4 (3 : UInt8)).length = 4 := List.length_replicate

def sampleTunnel : Tunnel where
  identity := fun
    | .left => Service.sampleId 1
    | .right => Service.sampleId 2
  peer := fun
    | .left => Service.sampleId 8
    | .right => Service.sampleId 9
  randomBytes := ⟨List.replicate 4 3, length_sampleRandom⟩

theorem diffieHellman_sampleCrypto : DiffieHellman Service.sampleCrypto where
  computeKey_comm := fun a b => by
    have hpow : (5 ^ b % 23) ^ a % 23 = (5 ^ a % 23) ^ b % 23 := by
      rw [← Nat.pow_mod, ← Nat.pow_mod, ← pow_mul, ← pow_mul, Nat.mul_comm]
    simp only [Service.sampleCrypto, hpow]
  deserialise_serialise := fun item =>
    ⟨_, rfl, Service.sampleDeserialise_sampleSerialise (.dhPublicKey item)⟩

theorem honestEnd_sample (side : Side) (secret : Nat) :
    HonestEnd sampleIdentities sampleTunnel side (Service.sampleSurroundings secret) where
  getOwnKey := rfl
  getKey := .inl rfl
  signData := fun _ => rfl
  initDhSessionKey := ⟨secret, rfl⟩

theorem agreedKey_sampleCrypto (a b : Nat) :
    agreedKey Service.sampleCrypto a (Service.sampleCrypto.publicKey b) ≠ none := by
  have hvalue : (5 ^ b % 23) ^ a % 23 = 5 ^ (b * a) % 23 := by rw [← Nat.pow_mod, ← pow_mul]
  have hpos : 5 ^ (b * a) % 23 ≠ 0 := by
    intro hzero
    have hdvd : 23 ∣ 5 ^ (b * a) := Nat.dvd_of_mod_eq_zero hzero
    exact absurd (Nat.Prime.dvd_of_dvd_pow (by norm_num) hdvd) (by norm_num)
  have hlt : 5 ^ (b * a) % 23 < 256 := lt_trans (Nat.mod_lt _ (by norm_num)) (by norm_num)
  have hdigits : Nat.digits 256 (5 ^ (b * a) % 23) = [5 ^ (b * a) % 23] :=
    Nat.digits_of_lt 256 _ hpos hlt
  simp [agreedKey, Service.sampleCrypto, bn2bin, hvalue, hdigits]

set_option maxRecDepth 4000 in
/-- A handshake in which both ends start, and both come to rest with a key. -/
theorem renegotiation_sample :
    ∃ link, Reaches (step Service.sampleCrypto sampleTunnel)
        (fun link op =>
          Honest sampleTunnel sampleIdentities link op ∧ StartsWithRoom sampleTunnel link op)
        (initial Service.sampleCrypto sampleTunnel (Service.sampleSurroundings 0) 7) link ∧
      (AgreesAtRest sampleTunnel link ∧ Settles sampleTunnel sampleIdentities link) ∧
      link.outstanding = 0 ∧ ∀ side, link.dhStatus sampleTunnel side = .keyAvailable := by
  have hrun : ∃ link, Reaches (step Service.sampleCrypto sampleTunnel)
        (fun link op =>
          Honest sampleTunnel sampleIdentities link op ∧ StartsWithRoom sampleTunnel link op)
        (initial Service.sampleCrypto sampleTunnel (Service.sampleSurroundings 0) 7) link ∧
      link.outstanding = 0 ∧ ∀ side, link.dhStatus sampleTunnel side = .keyAvailable := by
    refine ⟨_, .next (.deliver .right (Service.sampleSurroundings 0))
      (.next (.deliver .left (Service.sampleSurroundings 0))
        (.next (.flush .right (Service.sampleSurroundings 0))
          (.next (.flush .left (Service.sampleSurroundings 0))
            (.next (.addVirtualPeer .right (Service.sampleSurroundings 4))
              (.next (.addVirtualPeer .left (Service.sampleSurroundings 3)) (.refl _)
                ⟨honestEnd_sample .left 3, fun _ => .inl rfl⟩ rfl)
              ⟨honestEnd_sample .right 4, fun _ => .inr (by decide)⟩ rfl)
            ⟨honestEnd_sample .left 0, trivial⟩ rfl)
          ⟨honestEnd_sample .right 0, trivial⟩ rfl)
        ⟨honestEnd_sample .left 0, trivial⟩ rfl)
      ⟨honestEnd_sample .right 0, trivial⟩ rfl, by decide, fun side => ?_⟩
    cases side with
    | left => decide
    | right => decide
  obtain ⟨link, hrun, hrest⟩ := hrun
  exact ⟨link, hrun, renegotiation_of_reaches diffieHellman_sampleCrypto sampleIdentities sampleTunnel
    (Service.sampleSurroundings 0) 7 hrun, hrest⟩

/-- The left end starts twice before the right end starts: three public keys for two half keys. -/
theorem renegotiation_counterexample :
    ∃ link, Reaches (step Service.sampleCrypto sampleTunnel) (Honest sampleTunnel sampleIdentities)
        (initial Service.sampleCrypto sampleTunnel (Service.sampleSurroundings 0) 7) link ∧
      ¬ Settles sampleTunnel sampleIdentities link := by
  have hrun : ∃ link, Reaches (step Service.sampleCrypto sampleTunnel)
        (Honest sampleTunnel sampleIdentities)
        (initial Service.sampleCrypto sampleTunnel (Service.sampleSurroundings 0) 7) link ∧
      (∀ side, link.dhStatus sampleTunnel side = .halfKeyDone) ∧ 2 < link.outstanding := by
    refine ⟨_, .next (.addVirtualPeer .right (Service.sampleSurroundings 5))
      (.next (.addVirtualPeer .left (Service.sampleSurroundings 4))
        (.next (.addVirtualPeer .left (Service.sampleSurroundings 3)) (.refl _)
          (honestEnd_sample .left 3) rfl)
        (honestEnd_sample .left 4) rfl)
      (honestEnd_sample .right 5) rfl, fun side => ?_, by decide⟩
    cases side with
    | left => decide
    | right => decide
  obtain ⟨link, hrun, hhalf, hmore⟩ := hrun
  obtain ⟨x, htracks, -, hgenuine⟩ := tracks_of_reaches diffieHellman_sampleCrypto sampleIdentities
    sampleTunnel (Service.sampleSurroundings 0) 7 hrun
  exact ⟨link, hrun, not_settles_of_crowded diffieHellman_sampleCrypto agreedKey_sampleCrypto
    (fun side => ⟨_, honestEnd_sample side 0⟩) htracks (htracks.crowded hhalf hmore) hgenuine⟩

end RetroShare.GxsTunnel.Link
