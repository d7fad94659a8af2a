import RetroShare.Foundation.Bytes
import RetroShare.Gxs.Transactions

/-!
# Shared publish keys

A member who may publish in a group sends the group's private publish key to other peers.
`handleRecvPublishKeys` takes such a key from any peer, and the service signs messages with the first
publish key that it has stored for the group.
-/

namespace RetroShare.Gxs

/-! ### Keys -/

/-- `RSTLV_KEY_TYPE_MASK` -/
def keyTypeMask : UInt32 := 0x000f

/-- `RSTLV_KEY_TYPE_PUBLIC_ONLY` -/
def keyTypePublicOnly : UInt32 := 0x0001

/-- `RSTLV_KEY_TYPE_FULL` -/
def keyTypeFull : UInt32 := 0x0002

/-- `RSTLV_KEY_DISTRIB_PUBLISH` -/
def keyDistribPublish : UInt32 := 0x0020

/-- `RSTLV_KEY_DISTRIB_ADMIN` -/
def keyDistribAdmin : UInt32 := 0x0040

/-- `CERTSIGNLEN` -/
def certSignLen : Nat := 16

/-- Modulus and public exponent, as `BN_bn2bin` writes them. -/
structure Rsa where
  n : List UInt8
  e : List UInt8
  deriving DecidableEq

/-- `getRsaKeyFingerprint_old_insecure_method`; a shorter modulus fails an assertion. -/
def Rsa.fingerprintOldInsecureMethod (pubkey : Rsa) : Option RsGxsId :=
  if certSignLen ≤ pubkey.n.length then some (Bytes.ofBigEndian (pubkey.n.take certSignLen))
  else none

/-- What is asked of the cryptographic library. -/
structure RsaLibrary where
  d2iRSAPrivateKey : List UInt8 → Option Rsa
  rsaPublicKeyDup : Rsa → Option Rsa
  sha1sum : List UInt8 → List UInt8

structure RsTlvRSAKey where
  keyId : RsGxsId
  keyFlags : UInt32
  startTS : Nat
  endTS : Nat
  keyData : List UInt8
  deriving DecidableEq

structure RsTlvPublicRSAKey extends RsTlvRSAKey
  deriving DecidableEq

structure RsTlvPrivateRSAKey extends RsTlvRSAKey
  deriving DecidableEq

namespace RsaLibrary

variable (lib : RsaLibrary)

/-- `getRsaKeyFingerprint` -/
def fingerprint (pubkey : Rsa) : RsGxsId :=
  Bytes.ofBigEndian ((lib.sha1sum (pubkey.n ++ pubkey.e)).take certSignLen)

/-- The public part of the key data. -/
def publicPart (key : RsTlvPrivateRSAKey) : Option Rsa :=
  (lib.d2iRSAPrivateKey key.keyData).bind lib.rsaPublicKeyDup

/-- `GxsSecurity::checkPrivateKey` -/
def checkPrivateKey (key : RsTlvPrivateRSAKey) : Bool :=
  if key.keyFlags &&& keyTypeMask ≠ keyTypeFull then false
  else
    match lib.publicPart key with
    | none => false
    | some pubkey =>
        -- "The policy is to *accept* these private keys"
        lib.fingerprint pubkey = key.keyId ∨ pubkey.fingerprintOldInsecureMethod = some key.keyId

/-- `RsTlvPrivateRSAKey::checkKey`, without which no key is read from an item. -/
def checkKey (key : RsTlvPrivateRSAKey) : Bool :=
  key.keyFlags &&& keyTypeFull ≠ 0 && key.keyFlags &&& keyTypePublicOnly = 0 &&
    lib.checkPrivateKey key

end RsaLibrary

/-- Each private key is under its own id. -/
structure RsTlvSecurityKeySet where
  publicKeys : OrderedMap RsGxsId RsTlvPublicRSAKey
  privateKeys : OrderedMap RsGxsId RsTlvPrivateRSAKey
  keyed : ∀ (k : RsGxsId) (key : RsTlvPrivateRSAKey), privateKeys[k]? = some key → key.keyId = k

/-- `keys.private_keys[key.keyId] = key` -/
def RsTlvSecurityKeySet.storePrivate (keys : RsTlvSecurityKeySet) (key : RsTlvPrivateRSAKey) :
    RsTlvSecurityKeySet where
  publicKeys := keys.publicKeys
  privateKeys := keys.privateKeys.insert key.keyId key
  keyed := by
    intro k stored hlookup
    rw [OrderedMap.lookup_insert] at hlookup
    split at hlookup
    · next heq =>
        cases hlookup
        exact heq
    · exact keys.keyed k stored hlookup

/-! ### The data store -/

/-- `GROUP_SUBSCRIBE_ADMIN` -/
def groupSubscribeAdmin : UInt32 := 0x01

/-- `GROUP_SUBSCRIBE_PUBLISH` -/
def groupSubscribePublish : UInt32 := 0x02

structure RsGxsGrpMetaData where
  keys : RsTlvSecurityKeySet
  mSubscribeFlags : UInt32

/-- A flag that is set exactly if a private key with these flags is there. -/
def RsTlvSecurityKeySet.adjustFlag (keys : RsTlvSecurityKeySet) (keyFlags flag : UInt32)
    (subscribeFlags : UInt32) : UInt32 :=
  if keys.privateKeys.toList.any (·.2.keyFlags = keyFlags) then subscribeFlags ||| flag
  else subscribeFlags &&& ~~~flag

/-- The end of `locked_getGrpMeta`: "make sure that flags and keys are actually consistent". -/
def RsGxsGrpMetaData.read (row : RsGxsGrpMetaData) : RsGxsGrpMetaData :=
  { row with
    mSubscribeFlags :=
      row.keys.adjustFlag (keyDistribPublish ||| keyTypeFull) groupSubscribePublish
        (row.keys.adjustFlag (keyDistribAdmin ||| keyTypeFull) groupSubscribeAdmin
          row.mSubscribeFlags) }

structure PublishKeyStore where
  groups : OrderedMap RsGxsGroupId RsGxsGrpMetaData
  mNewPublishKeysToNotify : Finset (RsGxsGroupId × RsPeerId)

/-- `updateGroupKeys`, where the database may refuse to commit. -/
def PublishKeyStore.updateGroupKeys (s : PublishKeyStore) (grpId : RsGxsGroupId)
    (keys : RsTlvSecurityKeySet) (subscribeFlags : UInt32) (committed : Bool) :
    Bool × PublishKeyStore :=
  if committed then (true, { s with groups := s.groups.insert grpId ⟨keys, subscribeFlags⟩ })
  else (false, s)

/-! ### The service -/

structure RsNxsGroupPublishKeyItem where
  peerId : RsPeerId
  grpId : RsGxsGroupId
  privateKey : RsTlvPrivateRSAKey
  deriving DecidableEq

def PublishKeyStore.handleRecvPublishKeys (s : PublishKeyStore) (item : RsNxsGroupPublishKeyItem)
    (committed : Bool) : PublishKeyStore :=
  let key := item.privateKey
  match (s.groups[item.grpId]?).map RsGxsGrpMetaData.read with
  | none => s
  | some grpMeta =>
      let admin := key.keyFlags &&& keyDistribAdmin ≠ 0 ∧ key.keyFlags &&& keyTypeFull ≠ 0
      let publi := key.keyFlags &&& keyDistribPublish ≠ 0 ∧ key.keyFlags &&& keyTypeFull ≠ 0
      if ¬ (¬ admin ∧ publi) then s
      -- "Key not found in known group keys": only the id is looked up
      else if key.keyId ∉ grpMeta.keys.publicKeys then s
      else if key.keyId ∈ grpMeta.keys.privateKeys then s
      else
        let (ret, s) := s.updateGroupKeys item.grpId (grpMeta.keys.storePrivate key)
          (grpMeta.mSubscribeFlags ||| groupSubscribePublish) committed
        if ret then
          { s with mNewPublishKeysToNotify :=
              insert (item.grpId, item.peerId) s.mNewPublishKeysToNotify }
        else s

/-- An item from a peer, and whether the database will commit a change. -/
structure Delivery where
  item : RsNxsGroupPublishKeyItem
  committed : Bool
  deriving DecidableEq

/-- Without a valid key there is no item. -/
def PublishKeyStore.receive (lib : RsaLibrary) (s : PublishKeyStore) (delivery : Delivery) :
    PublishKeyStore :=
  if lib.checkKey delivery.item.privateKey then
    s.handleRecvPublishKeys delivery.item delivery.committed
  else s

/-- The key that `createMsgSignatures` signs with. -/
def RsTlvSecurityKeySet.publishKey (keys : RsTlvSecurityKeySet) : Option RsTlvPrivateRSAKey :=
  (keys.privateKeys.toList.find? fun entry =>
    entry.2.keyFlags = keyDistribPublish ||| keyTypeFull).map Prod.snd

end RetroShare.Gxs
