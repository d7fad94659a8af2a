import RetroShare.Foundation.Transition
import RetroShare.Gxs.PublishKeys

/-!
# Which publish keys are genuine

A key that is stored passes the handler's checks, and these compare its id with the group's public keys
only. `Genuine` is what the signer relies on: the current fingerprint, and a public key with the publish
flag. A run stores genuine keys exactly when each key that it stores is one.
-/

namespace RetroShare.Gxs

open Transition

variable (lib : RsaLibrary)

/-- The key belongs to a public key of the group that carries the publish flag. -/
def RsTlvSecurityKeySet.Genuine (keys : RsTlvSecurityKeySet) (k : RsGxsId)
    (key : RsTlvPrivateRSAKey) : Prop :=
  (∃ pubkey, lib.publicPart key = some pubkey ∧ lib.fingerprint pubkey = k) ∧
    ∃ listed, keys.publicKeys[k]? = some listed ∧
      listed.keyFlags &&& keyDistribPublish ≠ 0 ∧ listed.keyFlags &&& keyDistribAdmin = 0

theorem RsTlvSecurityKeySet.Genuine.of_publicKeys {lib : RsaLibrary} {keys keys' : RsTlvSecurityKeySet}
    {k : RsGxsId} {key : RsTlvPrivateRSAKey} (hgenuine : keys.Genuine lib k key)
    (hsame : keys'.publicKeys = keys.publicKeys) : keys'.Genuine lib k key := by
  obtain ⟨hfingerprint, hlisted⟩ := hgenuine
  exact ⟨hfingerprint, by rwa [hsame]⟩

theorem mem_of_lookup {V : Type} {entries : OrderedMap Nat V} {k : Nat} {v : V}
    (hlookup : entries[k]? = some v) : k ∈ entries :=
  Std.ExtTreeMap.mem_iff_isSome_getElem?.mpr (Option.isSome_of_eq_some hlookup)

namespace PublishKeyStore

/-! ### One item -/

/-- The item passes every check, and the change is committed. -/
structure Stores (s : PublishKeyStore) (delivery : Delivery) (grpMeta : RsGxsGrpMetaData) : Prop where
  valid : lib.checkKey delivery.item.privateKey
  known : s.groups[delivery.item.grpId]? = some grpMeta
  notAdmin : ¬ (delivery.item.privateKey.keyFlags &&& keyDistribAdmin ≠ 0 ∧
    delivery.item.privateKey.keyFlags &&& keyTypeFull ≠ 0)
  publishes : delivery.item.privateKey.keyFlags &&& keyDistribPublish ≠ 0 ∧
    delivery.item.privateKey.keyFlags &&& keyTypeFull ≠ 0
  listed : delivery.item.privateKey.keyId ∈ grpMeta.keys.publicKeys
  fresh : delivery.item.privateKey.keyId ∉ grpMeta.keys.privateKeys
  committed : delivery.committed

/-- If its key is stored, the key is what it claims to be. -/
def Honest (s : PublishKeyStore) (delivery : Delivery) : Prop :=
  ∀ grpMeta, s.Stores lib delivery grpMeta →
    grpMeta.keys.Genuine lib delivery.item.privateKey.keyId delivery.item.privateKey

/-- The group after its key is stored. -/
def withKey (grpMeta : RsGxsGrpMetaData) (key : RsTlvPrivateRSAKey) : RsGxsGrpMetaData :=
  ⟨grpMeta.keys.storePrivate key, grpMeta.read.mSubscribeFlags ||| groupSubscribePublish⟩

variable {lib} {s m s' : PublishKeyStore} {delivery : Delivery}

theorem groups_receive_of_stores {grpMeta : RsGxsGrpMetaData}
    (hstores : s.Stores lib delivery grpMeta) :
    (s.receive lib delivery).groups =
      s.groups.insert delivery.item.grpId (withKey grpMeta delivery.item.privateKey) := by
  have hlisted : delivery.item.privateKey.keyId ∈ grpMeta.read.keys.publicKeys := hstores.listed
  have hfresh : delivery.item.privateKey.keyId ∉ grpMeta.read.keys.privateKeys := hstores.fresh
  rw [receive, if_pos hstores.valid, handleRecvPublishKeys, hstores.known, Option.map_some]
  dsimp only
  rw [if_neg (not_not.mpr ⟨hstores.notAdmin, hstores.publishes⟩), if_neg (not_not.mpr hlisted),
    if_neg hfresh, updateGroupKeys, if_pos hstores.committed]
  rfl

/-- Nothing changes where a check fails. -/
theorem receive_of_not_stores (hrefused : ∀ grpMeta, ¬ s.Stores lib delivery grpMeta) :
    s.receive lib delivery = s := by
  rw [receive]
  split
  case isFalse => rfl
  case isTrue hvalid =>
    rw [handleRecvPublishKeys]
    cases hknown : s.groups[delivery.item.grpId]? with
    | none => rfl
    | some grpMeta =>
        rw [Option.map_some]
        dsimp only
        split
        · rfl
        next hpublishes =>
        split
        · rfl
        next hlisted =>
        split
        · rfl
        next hfresh =>
        obtain ⟨hadmin, hpublishes⟩ := not_not.mp hpublishes
        have hcommitted : ¬ delivery.committed := fun hcommitted =>
          hrefused grpMeta
            ⟨hvalid, hknown, hadmin, hpublishes, not_not.mp hlisted, hfresh, hcommitted⟩
        rw [updateGroupKeys, if_neg hcommitted]
        rfl

/-! ### What a run may change -/

/-- Groups only gain private keys. -/
structure Extends (s s' : PublishKeyStore) : Prop where
  groups : ∀ grpId, grpId ∈ s'.groups → grpId ∈ s.groups
  keeps : ∀ (grpId : RsGxsGroupId) (before : RsGxsGrpMetaData), s.groups[grpId]? = some before →
    ∃ after, s'.groups[grpId]? = some after ∧ after.keys.publicKeys = before.keys.publicKeys ∧
      ∀ (k : RsGxsId) (key : RsTlvPrivateRSAKey), before.keys.privateKeys[k]? = some key →
        after.keys.privateKeys[k]? = some key

theorem Extends.refl (s : PublishKeyStore) : Extends s s :=
  ⟨fun _ hmem => hmem, fun _ before hlookup => ⟨before, hlookup, rfl, fun _ _ hkey => hkey⟩⟩

theorem Extends.trans (hfirst : Extends s m) (hsecond : Extends m s') : Extends s s' where
  groups grpId hmem := hfirst.groups grpId (hsecond.groups grpId hmem)
  keeps grpId before hbefore := by
    obtain ⟨middle, hmiddle, hpublic, hprivate⟩ := hfirst.keeps grpId before hbefore
    obtain ⟨after, hafter, hpublic', hprivate'⟩ := hsecond.keeps grpId middle hmiddle
    exact ⟨after, hafter, hpublic'.trans hpublic,
      fun k key hkey => hprivate' k key (hprivate k key hkey)⟩

/-- The private keys that were not there before are genuine. -/
def GenuineSince (lib : RsaLibrary) (s s' : PublishKeyStore) : Prop :=
  ∀ (grpId : RsGxsGroupId) (before after : RsGxsGrpMetaData), s.groups[grpId]? = some before →
    s'.groups[grpId]? = some after →
      ∀ (k : RsGxsId) (key : RsTlvPrivateRSAKey), after.keys.privateKeys[k]? = some key →
        before.keys.privateKeys[k]? = some key ∨ before.keys.Genuine lib k key

theorem genuineSince_self (s : PublishKeyStore) : GenuineSince lib s s := by
  intro grpId before after hbefore hafter k key hkey
  obtain rfl : before = after := Option.some.inj (hbefore.symm.trans hafter)
  exact .inl hkey

/-- A key that is stored stays, so that each part of a run can be judged on its own. -/
theorem genuineSince_iff_of_extends (hfirst : Extends s m) (hsecond : Extends m s') :
    GenuineSince lib s s' ↔ GenuineSince lib s m ∧ GenuineSince lib m s' := by
  constructor
  · intro hall
    constructor
    · intro grpId before middle hbefore hmiddle k key hkey
      obtain ⟨after, hafter, -, hprivate⟩ := hsecond.keeps grpId middle hmiddle
      exact hall grpId before after hbefore hafter k key (hprivate k key hkey)
    · intro grpId middle after hmiddle hafter k key hkey
      have hmem : grpId ∈ s.groups := hfirst.groups grpId (mem_of_lookup hmiddle)
      obtain ⟨before, hbefore⟩ := Option.isSome_iff_exists.mp
        (Std.ExtTreeMap.mem_iff_isSome_getElem?.mp hmem)
      obtain ⟨middle', hmiddle', hpublic, hprivate⟩ := hfirst.keeps grpId before hbefore
      obtain rfl : middle' = middle := Option.some.inj (hmiddle'.symm.trans hmiddle)
      exact (hall grpId before after hbefore hafter k key hkey).imp (hprivate k key)
        fun hgenuine => hgenuine.of_publicKeys hpublic
  · rintro ⟨hbegin, hend⟩ grpId before after hbefore hafter k key hkey
    obtain ⟨middle, hmiddle, hpublic, -⟩ := hfirst.keeps grpId before hbefore
    cases hend grpId middle after hmiddle hafter k key hkey with
    | inl hkey => exact hbegin grpId before middle hbefore hmiddle k key hkey
    | inr hgenuine => exact .inr (hgenuine.of_publicKeys hpublic.symm)

theorem extends_receive (s : PublishKeyStore) (delivery : Delivery) :
    Extends s (s.receive lib delivery) := by
  by_cases hstores : ∃ grpMeta, s.Stores lib delivery grpMeta
  · obtain ⟨grpMeta, hstores⟩ := hstores
    constructor
    · intro grpId hmem
      rw [groups_receive_of_stores hstores, Std.ExtTreeMap.mem_insert] at hmem
      cases hmem with
      | inl heq =>
          rw [← compare_eq_iff_eq.mp heq]
          exact mem_of_lookup hstores.known
      | inr hmem => exact hmem
    · intro grpId before hbefore
      rw [groups_receive_of_stores hstores, OrderedMap.lookup_insert]
      by_cases heq : delivery.item.grpId = grpId
      · subst heq
        obtain rfl : before = grpMeta := Option.some.inj (hbefore.symm.trans hstores.known)
        refine ⟨_, if_pos rfl, rfl, fun k key hkey => ?_⟩
        have hne : delivery.item.privateKey.keyId ≠ k := by
          rintro rfl
          exact hstores.fresh (mem_of_lookup hkey)
        exact (OrderedMap.lookup_insert_ne _ _ hne).trans hkey
      · exact ⟨before, (if_neg heq).trans hbefore, rfl, fun _ _ hkey => hkey⟩
  · rw [receive_of_not_stores (not_exists.mp hstores)]
    exact Extends.refl s

/-- One item adds a genuine key or none exactly if it is honest. -/
theorem genuineSince_receive_iff (s : PublishKeyStore) (delivery : Delivery) :
    GenuineSince lib s (s.receive lib delivery) ↔ s.Honest lib delivery := by
  constructor
  · intro hgenuine grpMeta hstores
    have hafter : (s.receive lib delivery).groups[delivery.item.grpId]? =
        some (withKey grpMeta delivery.item.privateKey) := by
      rw [groups_receive_of_stores hstores, OrderedMap.lookup_insert_self]
    have hstored : (withKey grpMeta delivery.item.privateKey).keys.privateKeys[
        delivery.item.privateKey.keyId]? = some delivery.item.privateKey :=
      OrderedMap.lookup_insert_self _ _ _
    refine (hgenuine _ _ _ hstores.known hafter _ _ hstored).resolve_left fun hold => ?_
    exact hstores.fresh (mem_of_lookup hold)
  · intro hhonest
    by_cases hstores : ∃ grpMeta, s.Stores lib delivery grpMeta
    · obtain ⟨grpMeta, hstores⟩ := hstores
      intro grpId before after hbefore hafter k key hkey
      rw [groups_receive_of_stores hstores, OrderedMap.lookup_insert] at hafter
      split at hafter
      · next heq =>
          subst heq
          obtain rfl : before = grpMeta := Option.some.inj (hbefore.symm.trans hstores.known)
          cases hafter
          have hkey : (before.keys.privateKeys.insert delivery.item.privateKey.keyId
              delivery.item.privateKey)[k]? = some key := hkey
          rw [OrderedMap.lookup_insert] at hkey
          split at hkey
          · next heq =>
              cases hkey
              exact .inr (heq ▸ hhonest before hstores)
          · exact .inl hkey
      · obtain rfl : before = after := Option.some.inj (hbefore.symm.trans hafter)
        exact .inl hkey
    · rw [receive_of_not_stores (not_exists.mp hstores)]
      exact genuineSince_self s

/-! ### Runs -/

/-- The items in the order in which they come. -/
def receiveAll (lib : RsaLibrary) (s : PublishKeyStore) (deliveries : List Delivery) :
    PublishKeyStore :=
  deliveries.foldl (receive lib) s

theorem extends_receiveAll (deliveries : List Delivery) :
    ∀ s : PublishKeyStore, Extends s (s.receiveAll lib deliveries) := by
  induction deliveries with
  | nil => exact Extends.refl
  | cons delivery rest ih => exact fun s => (extends_receive s delivery).trans (ih _)

/-- No item that is stored along the run is forged. -/
def HonestRun (lib : RsaLibrary) (deliveries : List Delivery) (s : PublishKeyStore) : Prop :=
  Along (fun s delivery => some (receive lib s delivery)) (Honest lib) deliveries s

theorem genuineSince_receiveAll_iff (deliveries : List Delivery) :
    ∀ s : PublishKeyStore,
      GenuineSince lib s (s.receiveAll lib deliveries) ↔ HonestRun lib deliveries s := by
  induction deliveries with
  | nil => exact fun s => iff_of_true (genuineSince_self s) trivial
  | cons delivery rest ih =>
      intro s
      have hrest := ih (s.receive lib delivery)
      calc
        GenuineSince lib s (s.receiveAll lib (delivery :: rest)) ↔
            GenuineSince lib s (s.receive lib delivery) ∧
              GenuineSince lib (s.receive lib delivery)
                ((s.receive lib delivery).receiveAll lib rest) :=
          genuineSince_iff_of_extends (extends_receive s delivery) (extends_receiveAll rest _)
        _ ↔ s.Honest lib delivery ∧ HonestRun lib rest (s.receive lib delivery) :=
          and_congr (genuineSince_receive_iff s delivery) hrest
        _ ↔ HonestRun lib (delivery :: rest) s := by
          simp [HonestRun, Along]

/-! ### Signing -/

/-- The signer takes one of the stored publish keys. -/
theorem lookup_of_publishKey {keys : RsTlvSecurityKeySet} {key : RsTlvPrivateRSAKey}
    (hchosen : keys.publishKey = some key) :
    keys.privateKeys[key.keyId]? = some key ∧ key.keyFlags = keyDistribPublish ||| keyTypeFull := by
  obtain ⟨entry, hfound, rfl⟩ := Option.map_eq_some_iff.mp hchosen
  have hlookup := (OrderedMap.mem_toList _).mp (List.mem_of_find?_eq_some hfound)
  have hflags := List.find?_some hfound
  rw [keys.keyed _ _ hlookup]
  exact ⟨hlookup, by simpa using hflags⟩

/-- The publish keys that a group already has are genuine. -/
def GenuineKeys (lib : RsaLibrary) (grpMeta : RsGxsGrpMetaData) : Prop :=
  ∀ (k : RsGxsId) (key : RsTlvPrivateRSAKey), grpMeta.keys.privateKeys[k]? = some key →
    key.keyFlags = keyDistribPublish ||| keyTypeFull → grpMeta.keys.Genuine lib k key

/-- What a run keeps to. -/
structure Keeps (lib : RsaLibrary) (s : PublishKeyStore) (deliveries : List Delivery) : Prop where
  extended : Extends s (s.receiveAll lib deliveries)
  genuine : GenuineSince lib s (s.receiveAll lib deliveries)
  signed : ∀ (grpId : RsGxsGroupId) (before after : RsGxsGrpMetaData),
    s.groups[grpId]? = some before → GenuineKeys lib before →
      (s.receiveAll lib deliveries).groups[grpId]? = some after →
        ∀ key, after.read.keys.publishKey = some key → before.keys.Genuine lib key.keyId key
  refused : ∀ delivery,
    (∀ grpMeta, ¬ (s.receiveAll lib deliveries).Stores lib delivery grpMeta) →
      s.receiveAll lib (deliveries ++ [delivery]) = s.receiveAll lib deliveries

theorem signed_of_genuineSince {deliveries : List Delivery}
    (hgenuine : GenuineSince lib s (s.receiveAll lib deliveries)) {grpId : RsGxsGroupId}
    {before after : RsGxsGrpMetaData} (hbefore : s.groups[grpId]? = some before)
    (hold : GenuineKeys lib before)
    (hafter : (s.receiveAll lib deliveries).groups[grpId]? = some after) {key : RsTlvPrivateRSAKey}
    (hchosen : after.read.keys.publishKey = some key) : before.keys.Genuine lib key.keyId key := by
  obtain ⟨hlookup, hflags⟩ := lookup_of_publishKey hchosen
  exact (hgenuine grpId before after hbefore hafter key.keyId key hlookup).elim
    (fun hkey => hold key.keyId key hkey hflags) id

/-- **Shared publish keys.** A run keeps to genuine keys, and signs with them, exactly if none of the
keys that pass the handler's checks along it is forged. -/
theorem publishKeys_iff (lib : RsaLibrary) (s : PublishKeyStore) (deliveries : List Delivery) :
    Keeps lib s deliveries ↔ HonestRun lib deliveries s := by
  rw [← genuineSince_receiveAll_iff]
  refine ⟨fun hkeeps => hkeeps.genuine, fun hgenuine => ⟨extends_receiveAll deliveries s, hgenuine,
    fun _ _ _ hbefore hold hafter _ hchosen =>
      signed_of_genuineSince hgenuine hbefore hold hafter hchosen, fun delivery hrefused => ?_⟩⟩
  rw [receiveAll, List.foldl_append]
  exact receive_of_not_stores hrefused

/-! ### A forged key -/

/-- Key data is a modulus of 16 bytes and an exponent, and a checksum reverses its bytes. -/
def sampleLibrary : RsaLibrary where
  d2iRSAPrivateKey data := if 16 < data.length then some ⟨data.take 16, data.drop 16⟩ else none
  rsaPublicKeyDup rsa := some rsa
  sha1sum bytes := bytes.reverse

/-- A key that may be faked: its id is the first 16 bytes of its own modulus. -/
def forgedKey : RsTlvPrivateRSAKey :=
  ⟨⟨Bytes.ofBigEndian (List.replicate 16 5), keyDistribPublish ||| keyTypeFull, 0, 0,
    List.replicate 16 5 ++ [3]⟩⟩

/-- A group with a publish key and no private key. -/
def sampleGroup : RsGxsGrpMetaData where
  keys :=
    { publicKeys := (∅ : OrderedMap RsGxsId RsTlvPublicRSAKey).insert forgedKey.keyId
        ⟨⟨forgedKey.keyId, keyDistribPublish ||| keyTypePublicOnly, 0, 0, []⟩⟩
      privateKeys := ∅
      keyed := by simp }
  mSubscribeFlags := 4

def sampleStore : PublishKeyStore :=
  { groups := (∅ : OrderedMap RsGxsGroupId RsGxsGrpMetaData).insert 7 sampleGroup
    mNewPublishKeysToNotify := ∅ }

/-- The publish key of the group is not the one that is stored, and that signs from then on. -/
theorem publishKeys_counterexample :
    ¬ ∀ (lib : RsaLibrary) (s : PublishKeyStore) (deliveries : List Delivery),
      Keeps lib s deliveries := by
  intro hall
  have hgenuine := (hall sampleLibrary sampleStore [⟨⟨1, 7, forgedKey⟩, true⟩]).genuine
  have hstores : sampleStore.Stores sampleLibrary ⟨⟨1, 7, forgedKey⟩, true⟩ sampleGroup :=
    { valid := by decide
      known := OrderedMap.lookup_insert_self _ _ _
      notAdmin := by decide
      publishes := by decide
      listed := Std.ExtTreeMap.mem_insert_self
      fresh := Std.ExtTreeMap.not_mem_empty
      committed := rfl }
  obtain ⟨⟨pubkey, hpubkey, hfingerprint⟩, -⟩ :=
    (genuineSince_receive_iff _ _).mp hgenuine sampleGroup hstores
  obtain rfl : (⟨List.replicate 16 5, [3]⟩ : Rsa) = pubkey := Option.some.inj hpubkey
  exact absurd hfingerprint (by decide)

end PublishKeyStore

end RetroShare.Gxs
