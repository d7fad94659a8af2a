import RetroShare.FileSharing.SyncResponses
import RetroShare.Foundation.Transition

/-!
# Directory sync responses arrive intact

What is left of a response on its way determines what must be stored of it already. Nothing stored
may precede the first part of a response, and the code does not see to that: a response that was cut
short stays where the next one for the same directory looks.
-/

namespace RetroShare.FileSharing

open Transition

/-! ### Splitting -/

/-- The flags of what is left to send once a part has been sent. -/
def remainderFlags (flags : BitVec 32) (rest : List UInt8) : BitVec 32 :=
  if rest.length ≤ maxDirSyncResponseDataSize then flags ||| flagsSyncPartial ||| flagsSyncPartialEnd
  else flags ||| flagsSyncPartial

/-- What is left to send of a response once a part of it has been. -/
def SyncResponse.remainder (ritem : SyncResponse) (rest : List UInt8) : SyncResponse :=
  { ritem with flags := remainderFlags ritem.flags rest, data := rest }

/-- What is stored of a response once a part of it has arrived. -/
def SyncResponse.begun (ritem : SyncResponse) (taken : List UInt8) : SyncResponse :=
  { ritem with flags := ritem.flags ||| flagsSyncPartial, data := taken }

theorem splitParts_small {ritem : SyncResponse} (passes : Nat)
    (hsmall : ritem.data.length ≤ maxDirSyncResponseDataSize) :
    splitParts passes ritem = [ritem] := by
  cases passes with
  | zero => rfl
  | succ passes => rw [splitParts, if_neg (Nat.not_lt.mpr hsmall)]

theorem splitParts_large {ritem : SyncResponse} (passes : Nat)
    (hlarge : maxDirSyncResponseDataSize < ritem.data.length) :
    splitParts (passes + 1) ritem =
      ritem.begun (ritem.data.take maxDirSyncResponseDataSize) ::
        splitParts passes (ritem.remainder (ritem.data.drop maxDirSyncResponseDataSize)) := by
  rw [splitParts, if_pos hlarge]
  unfold SyncResponse.remainder SyncResponse.begun remainderFlags
  dsimp only
  split <;> rfl

theorem splitParts_ne_nil (passes : Nat) (ritem : SyncResponse) :
    splitParts passes ritem ≠ [] := by
  cases passes with
  | zero => exact List.cons_ne_nil _ _
  | succ passes =>
      rw [splitParts]
      split
      · exact List.cons_ne_nil _ _
      · exact List.cons_ne_nil _ _

theorem observeParts_cons (response item : SyncResponse) (first : Bool)
    {items : List SyncResponse} (hne : items ≠ []) :
    observeParts response first (item :: items) =
      ⟨item, first, none⟩ :: observeParts response false items := by
  cases items with
  | nil => exact absurd rfl hne
  | cons next items => rfl

theorem SyncResponse.remainder_remainder (ritem : SyncResponse) {rest : List UInt8}
    (hlarge : maxDirSyncResponseDataSize < rest.length) (rest' : List UInt8) :
    (ritem.remainder rest).remainder rest' = ritem.remainder rest' := by
  have hflags : (ritem.remainder rest).flags = ritem.flags ||| flagsSyncPartial :=
    if_neg (Nat.not_le.mpr hlarge)
  have hsame : remainderFlags (ritem.remainder rest).flags rest' =
      remainderFlags ritem.flags rest' := by
    unfold remainderFlags
    rw [hflags, BitVec.or_assoc ritem.flags, BitVec.or_self]
  exact congrArg (fun flags => { ritem with flags := flags, data := rest' }) hsame

/-! ### One response -/

/-- Neither partial flag is set, and the length fits its 32-bit field. -/
structure SyncResponse.Whole (ritem : SyncResponse) : Prop where
  flags_partial : ritem.flags &&& flagsSyncPartial = 0
  flags_partialEnd : ritem.flags &&& flagsSyncPartialEnd = 0
  length_lt : ritem.data.length < 2 ^ 32

theorem SyncResponse.begun_flags_and (ritem : SyncResponse) (taken : List UInt8) :
    (ritem.begun taken).flags &&& flagsSyncPartial ≠ 0 := by
  intro hzero
  have hbit := congrArg (·.getLsbD 5) hzero
  simp [begun, flagsSyncPartial] at hbit

theorem SyncResponse.Whole.begun_not_ending {ritem : SyncResponse} (hwhole : ritem.Whole)
    (taken : List UInt8) : (ritem.begun taken).flags &&& flagsSyncPartialEnd = 0 := by
  unfold begun
  rw [BitVec.and_or_distrib_right, hwhole.flags_partialEnd]
  rfl

theorem SyncResponse.remainder_flags_and (ritem : SyncResponse) (rest : List UInt8) :
    (ritem.remainder rest).flags &&& flagsSyncPartial ≠ 0 := by
  intro hzero
  have hbit := congrArg (·.getLsbD 5) hzero
  unfold remainder remainderFlags at hbit
  split at hbit
  · simp [flagsSyncPartial] at hbit
  · simp [flagsSyncPartial] at hbit

theorem SyncResponse.remainder_ending (ritem : SyncResponse) {rest : List UInt8}
    (hsmall : rest.length ≤ maxDirSyncResponseDataSize) :
    (ritem.remainder rest).flags &&& flagsSyncPartialEnd ≠ 0 := by
  intro hzero
  have hbit := congrArg (·.getLsbD 6) hzero
  simp [remainder, remainderFlags, hsmall, flagsSyncPartialEnd] at hbit

theorem and_not_of_and_eq_zero {w : Nat} {x y : BitVec w} (hdisjoint : x &&& y = 0) :
    x &&& ~~~y = x := by
  calc x &&& ~~~y = (x &&& ~~~y) ||| (x &&& y) := by rw [hdisjoint]; simp
    _ = x &&& (~~~y ||| y) := BitVec.and_or_distrib_left.symm
    _ = x := by rw [BitVec.not_or_self, BitVec.and_allOnes]

theorem SyncResponse.Whole.clear_partial {ritem : SyncResponse} (hwhole : ritem.Whole) :
    (ritem.flags ||| flagsSyncPartial) &&& ~~~flagsSyncPartialEnd &&& ~~~flagsSyncPartial =
      ritem.flags := by
  have hend : (ritem.flags ||| flagsSyncPartial) &&& ~~~flagsSyncPartialEnd =
      ritem.flags ||| flagsSyncPartial := by
    apply and_not_of_and_eq_zero
    rw [BitVec.and_or_distrib_right, hwhole.flags_partialEnd]
    rfl
  rw [hend, BitVec.and_or_distrib_right, BitVec.and_not_self,
    and_not_of_and_eq_zero hwhole.flags_partial]
  exact BitVec.or_zero

/-! ### What is on its way for one request id -/

def SyncResponse.parts (ritem : SyncResponse) : List Part :=
  observeParts ritem true (splitParts ritem.data.length ritem)

def SyncResponse.partsAfter (ritem : SyncResponse) (passes : Nat) (rest : List UInt8) : List Part :=
  observeParts ritem false (splitParts passes (ritem.remainder rest))

theorem SyncResponse.parts_small {ritem : SyncResponse}
    (hsmall : ritem.data.length ≤ maxDirSyncResponseDataSize) :
    ritem.parts = [⟨ritem, true, some ritem⟩] := by
  rw [parts, splitParts_small _ hsmall]
  rfl

theorem SyncResponse.parts_large {ritem : SyncResponse}
    (hlarge : maxDirSyncResponseDataSize < ritem.data.length) :
    ritem.parts = ⟨ritem.begun (ritem.data.take maxDirSyncResponseDataSize), true, none⟩ ::
      ritem.partsAfter (ritem.data.length - 1) (ritem.data.drop maxDirSyncResponseDataSize) := by
  obtain ⟨passes, hpasses⟩ := Nat.exists_eq_succ_of_ne_zero (Nat.ne_zero_of_lt hlarge)
  rw [parts, partsAfter, hpasses, splitParts_large passes hlarge]
  exact observeParts_cons _ _ _ (splitParts_ne_nil _ _)

theorem SyncResponse.partsAfter_small (ritem : SyncResponse) (passes : Nat) {rest : List UInt8}
    (hsmall : rest.length ≤ maxDirSyncResponseDataSize) :
    ritem.partsAfter passes rest = [⟨ritem.remainder rest, false, some ritem⟩] := by
  rw [partsAfter, splitParts_small passes hsmall]
  rfl

theorem SyncResponse.partsAfter_large (ritem : SyncResponse) {passes : Nat} {rest : List UInt8}
    (hlarge : maxDirSyncResponseDataSize < rest.length) (hpasses : rest.length ≤ passes) :
    ritem.partsAfter passes rest =
      ⟨ritem.begun (rest.take maxDirSyncResponseDataSize), false, none⟩ ::
        ritem.partsAfter (passes - 1) (rest.drop maxDirSyncResponseDataSize) := by
  obtain ⟨passes, rfl⟩ := Nat.exists_eq_succ_of_ne_zero
    (Nat.ne_zero_of_lt (Nat.lt_of_lt_of_le hlarge hpasses))
  have hbegun : (ritem.remainder rest).begun (rest.take maxDirSyncResponseDataSize) =
      ritem.begun (rest.take maxDirSyncResponseDataSize) := by
    have hflags : remainderFlags ritem.flags rest ||| flagsSyncPartial =
        ritem.flags ||| flagsSyncPartial := by
      rw [remainderFlags, if_neg (Nat.not_le.mpr hlarge), BitVec.or_assoc, BitVec.or_self]
    exact congrArg (fun flags => { ritem with
      flags := flags, data := rest.take maxDirSyncResponseDataSize }) hflags
  calc ritem.partsAfter (passes + 1) rest
      = observeParts ritem false
          ((ritem.remainder rest).begun (rest.take maxDirSyncResponseDataSize) :: splitParts passes
            ((ritem.remainder rest).remainder (rest.drop maxDirSyncResponseDataSize))) := by
        rw [partsAfter, splitParts_large passes (show _ < (ritem.remainder rest).data.length from
          hlarge)]
        rfl
    _ = observeParts ritem false (ritem.begun (rest.take maxDirSyncResponseDataSize) ::
          splitParts passes (ritem.remainder (rest.drop maxDirSyncResponseDataSize))) := by
        rw [hbegun, ritem.remainder_remainder hlarge]
    _ = _ := observeParts_cons _ _ _ (splitParts_ne_nil _ _)

/-- Whole responses are on their way, or the rest of one whose first parts are stored comes first. -/
inductive Channel (id : Nat) (stored : Option SyncResponse) : List Part → Prop
  | between (responses : List SyncResponse)
      (hwhole : ∀ ritem ∈ responses, ritem.Whole ∧ ritem.requestId = id) :
      Channel id stored (responses.flatMap SyncResponse.parts)
  | within (ritem : SyncResponse) (taken rest : List UInt8) (passes : Nat)
      (responses : List SyncResponse) (hritem : ritem.Whole ∧ ritem.requestId = id)
      (hwhole : ∀ ritem ∈ responses, ritem.Whole ∧ ritem.requestId = id)
      (hstored : stored = some (ritem.begun taken)) (hdata : taken ++ rest = ritem.data)
      (hpasses : rest.length ≤ passes) :
      Channel id stored (ritem.partsAfter passes rest ++ responses.flatMap SyncResponse.parts)

/-- The receiver has no part of an earlier response when the first part of a longer one comes in. -/
def Part.Fresh (part : Part) (partialItems : OrderedMap Nat SyncResponse) : Prop :=
  part.first = true → part.last = none → partialItems[part.item.requestId]? = none

theorem Channel.append {id : Nat} {stored : Option SyncResponse} {parts : List Part}
    (hchannel : Channel id stored parts) {ritem : SyncResponse} (hritem : ritem.Whole)
    (hid : ritem.requestId = id) : Channel id stored (parts ++ ritem.parts) := by
  have hsnoc : ∀ responses : List SyncResponse,
      (∀ other ∈ responses, other.Whole ∧ other.requestId = id) →
        ∀ other ∈ responses ++ [ritem], other.Whole ∧ other.requestId = id := by
    intro responses hwhole other hother
    rcases List.mem_append.mp hother with hother | hother
    · exact hwhole other hother
    · rw [List.mem_singleton.mp hother]
      exact ⟨hritem, hid⟩
  have hflat : ∀ responses : List SyncResponse,
      responses.flatMap SyncResponse.parts ++ ritem.parts =
        (responses ++ [ritem]).flatMap SyncResponse.parts := by simp
  cases hchannel with
  | between responses hwhole =>
      rw [hflat]
      exact .between _ (hsnoc responses hwhole)
  | within other taken rest passes responses hother hwhole hstored hdata hpasses =>
      rw [List.append_assoc, hflat]
      exact .within other taken rest passes _ hother (hsnoc responses hwhole) hstored hdata hpasses

/-! ### Receiving one part -/

theorem recvAndRebuildItem_whole {ritem : SyncResponse} (hritem : ritem.Whole)
    (partialItems : OrderedMap Nat SyncResponse) :
    recvAndRebuildItem ritem partialItems = some (some ritem, partialItems) :=
  if_pos hritem.flags_partial

theorem recvAndRebuildItem_first {ritem : SyncResponse} (hritem : ritem.Whole) (taken : List UInt8)
    {partialItems : OrderedMap Nat SyncResponse} (hfresh : partialItems[ritem.requestId]? = none) :
    recvAndRebuildItem (ritem.begun taken) partialItems =
      some (none, partialItems.insert ritem.requestId (ritem.begun taken)) := by
  have hlookup : partialItems[(ritem.begun taken).requestId]? = none := hfresh
  unfold recvAndRebuildItem
  rw [if_neg (ritem.begun_flags_and taken), hlookup]
  exact if_neg (not_not.mpr (hritem.begun_not_ending taken))

theorem recvAndRebuildItem_stored {item stored : SyncResponse}
    {partialItems : OrderedMap Nat SyncResponse} (hflag : item.flags &&& flagsSyncPartial ≠ 0)
    (hlookup : partialItems[item.requestId]? = some stored)
    (hchecksum : stored.checksum = item.checksum)
    (hfits : (stored.data ++ item.data).length < 2 ^ 32) :
    recvAndRebuildItem item partialItems =
      if item.flags &&& flagsSyncPartialEnd ≠ 0 then
        some (some { stored with
          data := stored.data ++ item.data
          flags := stored.flags &&& ~~~flagsSyncPartialEnd &&& ~~~flagsSyncPartial },
          partialItems.erase item.requestId)
      else some (none, partialItems.insert item.requestId
        { stored with data := stored.data ++ item.data }) := by
  rw [List.length_append] at hfits
  unfold recvAndRebuildItem
  rw [if_neg hflag, hlookup]
  dsimp only
  rw [if_neg (not_not.mpr hchecksum), if_neg (Nat.not_le.mpr hfits)]

theorem recvAndRebuildItem_next {ritem : SyncResponse} (hritem : ritem.Whole)
    {taken chunk : List UInt8} (hfits : (taken ++ chunk).length < 2 ^ 32)
    {partialItems : OrderedMap Nat SyncResponse}
    (hstored : partialItems[ritem.requestId]? = some (ritem.begun taken)) :
    recvAndRebuildItem (ritem.begun chunk) partialItems =
      some (none, partialItems.insert ritem.requestId (ritem.begun (taken ++ chunk))) :=
  calc recvAndRebuildItem (ritem.begun chunk) partialItems
      = _ := recvAndRebuildItem_stored (ritem.begun_flags_and chunk) hstored rfl hfits
    _ = _ := if_neg (not_not.mpr (hritem.begun_not_ending chunk))

theorem recvAndRebuildItem_last {ritem : SyncResponse} (hritem : ritem.Whole)
    {taken rest : List UInt8} (hdata : taken ++ rest = ritem.data)
    (hsmall : rest.length ≤ maxDirSyncResponseDataSize)
    {partialItems : OrderedMap Nat SyncResponse}
    (hstored : partialItems[ritem.requestId]? = some (ritem.begun taken)) :
    recvAndRebuildItem (ritem.remainder rest) partialItems =
      some (some ritem, partialItems.erase ritem.requestId) := by
  have hfits : (taken ++ rest).length < 2 ^ 32 := by
    rw [hdata]
    exact hritem.length_lt
  have hitem : { ritem.begun taken with
      data := (ritem.begun taken).data ++ (ritem.remainder rest).data
      flags := (ritem.begun taken).flags &&& ~~~flagsSyncPartialEnd &&& ~~~flagsSyncPartial } =
      ritem := by
    calc _ = { ritem with data := taken ++ rest, flags := ritem.flags } :=
          congrArg (fun flags => { ritem with data := taken ++ rest, flags := flags })
            hritem.clear_partial
      _ = ritem := by rw [hdata]
  calc recvAndRebuildItem (ritem.remainder rest) partialItems
      = _ := recvAndRebuildItem_stored (ritem.remainder_flags_and rest) hstored rfl hfits
    _ = _ := if_pos (ritem.remainder_ending hsmall)
    _ = _ := congrArg (fun item => some (some item, partialItems.erase ritem.requestId)) hitem

/-- **One part.** What comes out is the response the part is the last of, and the rest of the channel
still fits what is stored. -/
theorem Channel.receive {id : Nat} {part : Part} {rest : List Part}
    {partialItems : OrderedMap Nat SyncResponse}
    (hchannel : Channel id partialItems[id]? (part :: rest)) (hfresh : part.Fresh partialItems) :
    ∃ partialItems', recvAndRebuildItem part.item partialItems = some (part.last, partialItems') ∧
      (∀ other : Nat, other ≠ id → partialItems'[other]? = partialItems[other]?) ∧
      Channel id partialItems'[id]? rest := by
  generalize hparts : part :: rest = parts at hchannel
  cases hchannel with
  | between responses hwhole =>
      cases responses with
      | nil => cases hparts
      | cons ritem responses =>
          obtain ⟨⟨hritem, rfl⟩, hwhole⟩ := List.forall_mem_cons.mp hwhole
          rw [List.flatMap_cons] at hparts
          rcases Nat.lt_or_ge maxDirSyncResponseDataSize ritem.data.length with hlarge | hsmall
          · rw [SyncResponse.parts_large hlarge, List.cons_append] at hparts
            obtain ⟨rfl, rfl⟩ := List.cons.inj hparts
            refine ⟨_, recvAndRebuildItem_first hritem _ (hfresh rfl rfl), fun other hother =>
              OrderedMap.lookup_insert_ne _ _ (Ne.symm hother), ?_⟩
            rw [OrderedMap.lookup_insert_self]
            refine .within ritem _ _ _ responses ⟨hritem, rfl⟩ hwhole rfl
              (List.take_append_drop _ _) ?_
            rw [List.length_drop]
            exact Nat.sub_le_sub_left (by decide) _
          · rw [SyncResponse.parts_small hsmall] at hparts
            obtain ⟨rfl, rfl⟩ := List.cons.inj hparts
            exact ⟨_, recvAndRebuildItem_whole hritem _, fun _ _ => rfl, .between responses hwhole⟩
  | within ritem taken data passes responses hritem hwhole hstored hdata hpasses =>
      obtain ⟨hritem, rfl⟩ := hritem
      rcases Nat.lt_or_ge maxDirSyncResponseDataSize data.length with hlarge | hsmall
      · rw [SyncResponse.partsAfter_large ritem hlarge hpasses, List.cons_append] at hparts
        obtain ⟨rfl, rfl⟩ := List.cons.inj hparts
        have hdata' : taken ++ data.take maxDirSyncResponseDataSize ++
            data.drop maxDirSyncResponseDataSize = ritem.data := by
          rw [List.append_assoc, List.take_append_drop, hdata]
        have hfits : (taken ++ data.take maxDirSyncResponseDataSize).length < 2 ^ 32 := by
          have hlength := hritem.length_lt
          rw [← hdata', List.length_append] at hlength
          exact Nat.lt_of_le_of_lt (Nat.le_add_right _ _) hlength
        refine ⟨_, recvAndRebuildItem_next hritem hfits hstored, fun other hother =>
          OrderedMap.lookup_insert_ne _ _ (Ne.symm hother), ?_⟩
        rw [OrderedMap.lookup_insert_self]
        refine .within ritem _ _ _ responses ⟨hritem, rfl⟩ hwhole rfl hdata' ?_
        rw [List.length_drop]
        have hpos : 1 ≤ maxDirSyncResponseDataSize := by decide
        omega
      · rw [SyncResponse.partsAfter_small ritem passes hsmall] at hparts
        obtain ⟨rfl, rfl⟩ := List.cons.inj hparts
        exact ⟨_, recvAndRebuildItem_last hritem hdata hsmall hstored, fun other hother =>
          OrderedMap.lookup_erase_ne _ (Ne.symm hother), .between responses hwhole⟩

/-! ### Runs -/

/-- Friends answer what they were asked, with a response that is not yet split. -/
def SyncOp.Asked (asked : Set (PeerId × FileHash)) : SyncOp → Prop
  | .answer peerId ritem => (peerId, ritem.entryHash) ∈ asked ∧ ritem.Whole
  | .receive _ _ => True
  | .disconnect _ => True

namespace SyncState

/-- No part is stored under the id of a longer response when its first part comes in. -/
def Cleared (s : SyncState) : SyncOp → Prop
  | .answer _ _ => True
  | .receive peerId entryHash =>
      ∀ part ∈ (s.inFlight peerId entryHash).head?, part.Fresh s.mPartialResponseItems
  | .disconnect _ => True

section Runs

variable (sha1sum : List UInt8 → FileHash) (reqId : PeerId → FileHash → Nat)
  (asked : Set (PeerId × FileHash))

structure Intact (s : SyncState) : Prop where
  returned : s.returned = s.completed
  channel : ∀ peerId entryHash, (peerId, entryHash) ∈ asked →
    Channel (reqId peerId entryHash) s.mPartialResponseItems[reqId peerId entryHash]?
      (s.inFlight peerId entryHash)
  unasked : ∀ peerId entryHash, (peerId, entryHash) ∉ asked → s.inFlight peerId entryHash = []

variable {sha1sum reqId asked} {s t : SyncState}

theorem intact_new : Intact reqId asked new :=
  ⟨rfl, fun _ _ _ => .between [] nofun, fun _ _ _ => rfl⟩

theorem response_whole {ritem : SyncResponse} (hritem : ritem.Whole) (peerId : PeerId) :
    (response sha1sum reqId peerId ritem).Whole :=
  ⟨hritem.flags_partial, hritem.flags_partialEnd, hritem.length_lt⟩

theorem inFlight_send (s : SyncState) (peerId : PeerId) (ritem : SyncResponse) (peerId' : PeerId)
    (entryHash : FileHash) :
    (s.send sha1sum reqId peerId ritem).inFlight peerId' entryHash =
      if peerId' = peerId ∧ entryHash = ritem.entryHash then
        s.inFlight peerId' entryHash ++ (response sha1sum reqId peerId ritem).parts
      else s.inFlight peerId' entryHash := by
  unfold send
  dsimp only
  by_cases hpeer : peerId' = peerId
  · subst hpeer
    by_cases hhash : entryHash = ritem.entryHash
    · subst hhash
      rw [Function.update_self, Function.update_self, if_pos ⟨rfl, rfl⟩]
      rfl
    · rw [Function.update_self, Function.update_of_ne hhash, if_neg fun h => hhash h.2]
  · rw [Function.update_of_ne hpeer, if_neg fun h => hpeer h.1]

theorem Intact.send (hintact : Intact reqId asked s) {peerId : PeerId} {ritem : SyncResponse}
    (hasked : (peerId, ritem.entryHash) ∈ asked) (hritem : ritem.Whole) :
    Intact reqId asked (s.send sha1sum reqId peerId ritem) where
  returned := hintact.returned
  channel peerId' entryHash hmem := by
    rw [inFlight_send]
    split
    · next h =>
        obtain ⟨rfl, rfl⟩ := h
        exact (hintact.channel peerId' _ hmem).append (response_whole hritem peerId') rfl
    · exact hintact.channel peerId' entryHash hmem
  unasked peerId' entryHash hmem := by
    rw [inFlight_send, if_neg, hintact.unasked peerId' entryHash hmem]
    rintro ⟨rfl, rfl⟩
    exact hmem hasked

theorem Intact.disconnect (hintact : Intact reqId asked s) (peerId : PeerId) :
    Intact reqId asked
      { s with inFlight := Function.update s.inFlight peerId fun _ => [] } where
  returned := hintact.returned
  channel peerId' entryHash hmem := by
    dsimp only
    by_cases hpeer : peerId' = peerId
    · subst hpeer
      rw [Function.update_self]
      exact .between [] nofun
    · rw [Function.update_of_ne hpeer]
      exact hintact.channel peerId' entryHash hmem
  unasked peerId' entryHash hmem := by
    dsimp only
    by_cases hpeer : peerId' = peerId
    · subst hpeer
      rw [Function.update_self]
    · rw [Function.update_of_ne hpeer]
      exact hintact.unasked peerId' entryHash hmem

theorem receive_eq {peerId : PeerId} {entryHash : FileHash} {part : Part} {rest : List Part}
    (hparts : s.inFlight peerId entryHash = part :: rest) {item : Option SyncResponse}
    {partialItems : OrderedMap Nat SyncResponse}
    (hrecv : recvAndRebuildItem part.item s.mPartialResponseItems = some (item, partialItems)) :
    s.receive peerId entryHash = some
      { mPartialResponseItems := partialItems
        inFlight := Function.update s.inFlight peerId
          (Function.update (s.inFlight peerId) entryHash rest)
        completed := s.completed ++ part.last.toList
        returned := s.returned ++ item.toList } := by
  unfold receive
  rw [hparts]
  dsimp only
  rw [hrecv]
  rfl

theorem receive_nil {peerId : PeerId} {entryHash : FileHash}
    (hparts : s.inFlight peerId entryHash = []) : s.receive peerId entryHash = none := by
  unfold receive
  rw [hparts]

/-- A response for another directory or from another friend has another id, so its entry stays. -/
theorem Intact.receive (hintact : Intact reqId asked s)
    (hids : Set.InjOn (fun request : PeerId × FileHash => reqId request.1 request.2) asked)
    {peerId : PeerId} {entryHash : FileHash} {part : Part} {rest : List Part}
    (hparts : s.inFlight peerId entryHash = part :: rest)
    (hfresh : part.Fresh s.mPartialResponseItems) :
    ∃ t, s.receive peerId entryHash = some t ∧ Intact reqId asked t := by
  have hasked : (peerId, entryHash) ∈ asked := by
    by_contra hmem
    rw [hintact.unasked peerId entryHash hmem] at hparts
    cases hparts
  have hchannel := hintact.channel peerId entryHash hasked
  rw [hparts] at hchannel
  obtain ⟨partialItems, hrecv, hothers, hrest⟩ := hchannel.receive hfresh
  have hinFlight : ∀ peerId' entryHash', (peerId', entryHash') ≠ (peerId, entryHash) →
      Function.update s.inFlight peerId (Function.update (s.inFlight peerId) entryHash rest)
        peerId' entryHash' = s.inFlight peerId' entryHash' := by
    intro peerId' entryHash' hne
    by_cases hpeer : peerId' = peerId
    · subst hpeer
      have hhash : entryHash' ≠ entryHash := fun h => hne (by rw [h])
      rw [Function.update_self, Function.update_of_ne hhash]
    · rw [Function.update_of_ne hpeer]
  refine ⟨_, receive_eq hparts hrecv, ?_⟩
  constructor
  · exact congrArg (· ++ part.last.toList) hintact.returned
  · intro peerId' entryHash' hmem
    dsimp only
    by_cases hsame : (peerId', entryHash') = (peerId, entryHash)
    · obtain ⟨rfl, rfl⟩ := Prod.mk.inj hsame
      rw [Function.update_self, Function.update_self]
      exact hrest
    · have hid : reqId peerId' entryHash' ≠ reqId peerId entryHash :=
        fun heq => hsame (hids hmem hasked heq)
      rw [hinFlight _ _ hsame, hothers _ hid]
      exact hintact.channel peerId' entryHash' hmem
  · intro peerId' entryHash' hmem
    dsimp only
    rw [hinFlight _ _ fun hsame => hmem (hsame ▸ hasked)]
    exact hintact.unasked peerId' entryHash' hmem

theorem Intact.step
    (hids : Set.InjOn (fun request : PeerId × FileHash => reqId request.1 request.2) asked)
    (op : SyncOp) (hintact : Intact reqId asked s) (hasked : op.Asked asked)
    (hcleared : s.Cleared op) (hstep : s.step sha1sum reqId op = some t) :
    Intact reqId asked t := by
  cases op with
  | answer peerId ritem =>
      cases hstep
      exact hintact.send hasked.1 hasked.2
  | disconnect peerId =>
      cases hstep
      exact hintact.disconnect peerId
  | receive peerId entryHash =>
      cases hparts : s.inFlight peerId entryHash with
      | nil => cases (receive_nil hparts).symm.trans hstep
      | cons part rest =>
          have hfresh := hcleared part
          rw [hparts] at hfresh
          obtain ⟨u, hreceive, hu⟩ := hintact.receive hids hparts (hfresh rfl)
          cases hreceive.symm.trans hstep
          exact hu

theorem intact_of_reaches
    (hids : Set.InjOn (fun request : PeerId × FileHash => reqId request.1 request.2) asked)
    (hreach : Reaches (step sha1sum reqId) (fun s op => op.Asked asked ∧ s.Cleared op) new s) :
    Intact reqId asked s :=
  hreach.invariant (Intact reqId asked)
    (fun _ op _ hbefore hallowed => hbefore.step hids op hallowed.1 hallowed.2) intact_new

end Runs

/-- **Large responses are rebuilt intact** as long as nothing stored precedes the first part of one:
what was returned is, in order, what arrived completely, and no part makes a buffer overflow. -/
theorem syncResponses_intact (sha1sum : List UInt8 → FileHash) (randomBias : Nat)
    (asked : Set (PeerId × FileHash))
    (hids : Set.InjOn (fun request : PeerId × FileHash =>
      makeDirSyncReqId sha1sum randomBias request.1 request.2) asked)
    (s : SyncState)
    (hreach : Reaches (step sha1sum (makeDirSyncReqId sha1sum randomBias))
      (fun s op => op.Asked asked ∧ s.Cleared op) new s) :
    s.returned = s.completed ∧
      ∀ peerId entryHash, s.inFlight peerId entryHash ≠ [] →
        s.Cleared (.receive peerId entryHash) → (s.receive peerId entryHash).isSome := by
  have hintact := intact_of_reaches hids hreach
  refine ⟨hintact.returned, fun peerId entryHash hne hcleared => ?_⟩
  obtain ⟨part, rest, hparts⟩ := List.exists_cons_of_ne_nil hne
  have hfresh := hcleared part
  rw [hparts] at hfresh
  obtain ⟨t, hreceive, -⟩ := hintact.receive hids hparts (hfresh rfl)
  rw [hreceive]
  rfl

def samplePeerId : PeerId := ⟨List.replicate 16 0, List.length_replicate⟩

theorem length_sampleHash : (List.replicate 20 (0 : UInt8)).length = 20 := List.length_replicate

def sampleHash : FileHash := ⟨List.replicate 20 0, length_sampleHash⟩

/-- The content of a directory of so many bytes. -/
def sampleResponse (size : Nat) : SyncResponse where
  peerId := samplePeerId
  entryHash := sampleHash
  checksum := sampleHash
  flags := 0x0006
  lastKnownRecursModfTS := 1
  requestId := 0
  tlvtype := 0
  data := List.replicate size 0

theorem sampleResponse_whole {size : Nat} (hsize : size < 2 ^ 32) :
    (sampleResponse size).Whole where
  flags_partial := show (0x0006 : BitVec 32) &&& flagsSyncPartial = 0 by decide
  flags_partialEnd := show (0x0006 : BitVec 32) &&& flagsSyncPartialEnd = 0 by decide
  length_lt := List.length_replicate.trans_lt hsize

section Samples

variable {sha1sum : List UInt8 → FileHash} {reqId : PeerId → FileHash → Nat}

/-- A run in which the one request is answered again and again. -/
def SampleRun (sha1sum : List UInt8 → FileHash) (reqId : PeerId → FileHash → Nat)
    (allowed : SyncState → SyncOp → Prop) (s : SyncState) : Prop :=
  Reaches (step sha1sum reqId)
    (fun s op => op.Asked {(samplePeerId, sampleHash)} ∧ allowed s op) new s

variable {allowed : SyncState → SyncOp → Prop} {s : SyncState}

theorem SampleRun.answer (hrun : SampleRun sha1sum reqId allowed s) {size : Nat}
    (hsize : size < 2 ^ 32) (hallowed : allowed s (.answer samplePeerId (sampleResponse size))) :
    SampleRun sha1sum reqId allowed
      (s.send sha1sum reqId samplePeerId (sampleResponse size)) := by
  have hasked : (SyncOp.answer samplePeerId (sampleResponse size)).Asked
      {(samplePeerId, sampleHash)} := ⟨rfl, sampleResponse_whole hsize⟩
  exact Reaches.tail hrun ⟨hasked, hallowed⟩ rfl

theorem SampleRun.receive (hrun : SampleRun sha1sum reqId allowed s) {part : Part}
    {rest : List Part} (hparts : s.inFlight samplePeerId sampleHash = part :: rest)
    {item : Option SyncResponse} {partialItems : OrderedMap Nat SyncResponse}
    (hrecv : recvAndRebuildItem part.item s.mPartialResponseItems = some (item, partialItems))
    (hallowed : allowed s (.receive samplePeerId sampleHash)) :
    ∃ t, SampleRun sha1sum reqId allowed t ∧ t.mPartialResponseItems = partialItems ∧
      t.inFlight samplePeerId sampleHash = rest ∧
      t.completed = s.completed ++ part.last.toList ∧ t.returned = s.returned ++ item.toList := by
  have hasked : (SyncOp.receive samplePeerId sampleHash).Asked {(samplePeerId, sampleHash)} :=
    trivial
  refine ⟨_, Reaches.tail hrun ⟨hasked, hallowed⟩ (receive_eq hparts hrecv), rfl, ?_, rfl, rfl⟩
  dsimp only
  rw [Function.update_self, Function.update_self]

theorem SampleRun.disconnect (hrun : SampleRun sha1sum reqId allowed s)
    (hallowed : allowed s (.disconnect samplePeerId)) :
    ∃ t, SampleRun sha1sum reqId allowed t ∧ t.mPartialResponseItems = s.mPartialResponseItems ∧
      t.inFlight samplePeerId sampleHash = [] ∧ t.completed = s.completed ∧
      t.returned = s.returned := by
  have hasked : (SyncOp.disconnect samplePeerId).Asked {(samplePeerId, sampleHash)} := trivial
  refine ⟨_, Reaches.tail hrun ⟨hasked, hallowed⟩ rfl, rfl, ?_, rfl, rfl⟩
  dsimp only
  rw [Function.update_self]

theorem inFlight_send_sample (size : Nat) :
    (s.send sha1sum reqId samplePeerId (sampleResponse size)).inFlight samplePeerId sampleHash =
      s.inFlight samplePeerId sampleHash ++
        (response sha1sum reqId samplePeerId (sampleResponse size)).parts :=
  (inFlight_send s samplePeerId _ samplePeerId sampleHash).trans (if_pos ⟨rfl, rfl⟩)

end Samples

theorem syncResponses_intact_sample : ∃ s : SyncState, s.completed ≠ [] ∧
    s.returned = s.completed ∧
      ∀ peerId entryHash, s.inFlight peerId entryHash ≠ [] →
        s.Cleared (.receive peerId entryHash) → (s.receive peerId entryHash).isSome := by
  let reqId := makeDirSyncReqId (fun _ => sampleHash) 0
  let ritem := response (fun _ => sampleHash) reqId samplePeerId (sampleResponse 3)
  let sent := new.send (fun _ => sampleHash) reqId samplePeerId (sampleResponse 3)
  have hritem : ritem.Whole := response_whole (sampleResponse_whole (by decide)) samplePeerId
  have hsent : SampleRun (fun _ => sampleHash) reqId Cleared sent :=
    SampleRun.answer (.refl new) (by decide) trivial
  have hparts : sent.inFlight samplePeerId sampleHash = [⟨ritem, true, some ritem⟩] := by
    calc sent.inFlight samplePeerId sampleHash = [] ++ ritem.parts := inFlight_send_sample 3
      _ = _ := SyncResponse.parts_small (by decide)
  have hcleared : sent.Cleared (.receive samplePeerId sampleHash) := by
    intro part hpart
    rw [hparts] at hpart
    cases hpart
    exact fun _ hlast => nomatch hlast
  obtain ⟨s, hrun, -, -, hcompleted, -⟩ := hsent.receive hparts
    (recvAndRebuildItem_whole hritem sent.mPartialResponseItems) hcleared
  refine ⟨s, ?_, syncResponses_intact (fun _ => sampleHash) 0 _ (Set.injOn_singleton _ _) s hrun⟩
  rw [hcompleted]
  exact List.cons_ne_nil _ _

/-- A response of two parts is cut short after the first one and sent again: what is returned has the
first part twice. -/
theorem exists_run_twice (sha1sum : List UInt8 → FileHash) (reqId : PeerId → FileHash → Nat)
    {size : Nat} (hlarge : maxDirSyncResponseDataSize < size)
    (hsmall : size ≤ 2 * maxDirSyncResponseDataSize) :
    ∃ s item, SampleRun sha1sum reqId (fun _ _ => True) s ∧ s.returned = [item] ∧
      item.data.length = maxDirSyncResponseDataSize + size ∧
      s.completed = [response sha1sum reqId samplePeerId (sampleResponse size)] := by
  have hsize : size < 2 ^ 32 := hsmall.trans_lt (by decide)
  have hritem : (response sha1sum reqId samplePeerId (sampleResponse size)).Whole :=
    response_whole (sampleResponse_whole hsize) samplePeerId
  have hlength : (response sha1sum reqId samplePeerId (sampleResponse size)).data.length = size :=
    List.length_replicate
  have hsend : ∀ s : SyncState, s.inFlight samplePeerId sampleHash = [] →
      (s.send sha1sum reqId samplePeerId (sampleResponse size)).inFlight samplePeerId sampleHash =
        (response sha1sum reqId samplePeerId (sampleResponse size)).parts := by
    intro s hempty
    rw [inFlight_send_sample, hempty, List.nil_append]
  generalize hr : response sha1sum reqId samplePeerId (sampleResponse size) = ritem at *
  have hfirst : (ritem.data.take maxDirSyncResponseDataSize).length =
      maxDirSyncResponseDataSize := by
    rw [List.length_take, hlength]
    exact min_eq_left hlarge.le
  have hlast : (ritem.data.drop maxDirSyncResponseDataSize).length =
      size - maxDirSyncResponseDataSize := by
    rw [List.length_drop, hlength]
  rw [SyncResponse.parts_large (hlarge.trans_eq hlength.symm), ritem.partsAfter_small _
    (hlast.trans_le (by omega))] at hsend
  generalize ritem.data.take maxDirSyncResponseDataSize = first at *
  generalize ritem.data.drop maxDirSyncResponseDataSize = last at *
  -- The first response loses its last part.
  have hsent : SampleRun sha1sum reqId (fun _ _ => True)
      (new.send sha1sum reqId samplePeerId (sampleResponse size)) :=
    .answer (.refl new) hsize trivial
  obtain ⟨s, hs, hitems, -, hcompleted, hreturned⟩ := hsent.receive (hsend new rfl)
    (recvAndRebuildItem_first hritem first rfl) trivial
  obtain ⟨s', hs', hitems', hinFlight, hcompleted', hreturned'⟩ := hs.disconnect trivial
  rw [hitems] at hitems'
  -- The second one arrives.
  have hagain := hs'.answer hsize trivial
  have hlookup : (s'.send sha1sum reqId samplePeerId (sampleResponse size)).mPartialResponseItems[
      ritem.requestId]? = some (ritem.begun first) := by
    calc _ = s'.mPartialResponseItems[ritem.requestId]? := rfl
      _ = _ := by rw [hitems', OrderedMap.lookup_insert_self]
  have hfits : (first ++ first ++ last).length < 2 ^ 32 := by
    rw [List.length_append, List.length_append, hfirst, hlast]
    exact Nat.lt_of_le_of_lt (show _ ≤ 3 * maxDirSyncResponseDataSize by omega) (by decide)
  obtain ⟨t, ht, htitems, htinFlight, htcompleted, htreturned⟩ := hagain.receive
    (hsend s' hinFlight) (recvAndRebuildItem_next hritem
      (by rw [List.length_append] at hfits; omega) hlookup) trivial
  have htlookup : t.mPartialResponseItems[ritem.requestId]? =
      some (ritem.begun (first ++ first)) := by
    rw [htitems, OrderedMap.lookup_insert_self]
  obtain ⟨u, hu, -, -, hucompleted, hureturned⟩ := ht.receive htinFlight
    ((recvAndRebuildItem_stored (ritem.remainder_flags_and last) htlookup rfl hfits).trans
      (if_pos (ritem.remainder_ending (hlast.trans_le (by omega))))) trivial
  have hnoneReturned : t.returned = [] := by
    calc t.returned = s'.returned ++ [] := htreturned
      _ = [] := by rw [List.append_nil, hreturned', hreturned]; rfl
  have hnoneCompleted : t.completed = [] := by
    calc t.completed = s'.completed ++ [] := htcompleted
      _ = [] := by rw [List.append_nil, hcompleted', hcompleted]; rfl
  rw [hnoneReturned] at hureturned
  rw [hnoneCompleted] at hucompleted
  refine ⟨u, _, hu, hureturned, ?_, hucompleted⟩
  calc (first ++ first ++ last).length
      = maxDirSyncResponseDataSize + maxDirSyncResponseDataSize +
          (size - maxDirSyncResponseDataSize) := by
        rw [List.length_append, List.length_append, hfirst, hlast]
    _ = maxDirSyncResponseDataSize + size := by omega

theorem syncResponses_counterexample :
    ¬ ∃ (sha1sum : List UInt8 → FileHash) (randomBias : Nat), ∀ s : SyncState,
      SampleRun sha1sum (makeDirSyncReqId sha1sum randomBias) (fun _ _ => True) s →
        s.returned = s.completed := by
  rintro ⟨sha1sum, randomBias, hintact⟩
  obtain ⟨s, item, hrun, hreturned, hlength, hcompleted⟩ := exists_run_twice sha1sum
    (makeDirSyncReqId sha1sum randomBias) (show maxDirSyncResponseDataSize < 20001 by decide)
    (by decide)
  have heq := hintact s hrun
  rw [hreturned, hcompleted, List.singleton_inj] at heq
  have hsize : item.data.length = 20001 := by
    rw [heq]
    exact List.length_replicate
  rw [hsize] at hlength
  exact absurd hlength (by decide)

end SyncState

end RetroShare.FileSharing
