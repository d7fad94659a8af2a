import RetroShare.Util.MemCache

/-!
# The two maps of the cache

The order of access holds every cached key once, under the time of its entry, as long as no entry that
was installed with a time of 0 is touched again: its old time says that the key is new, and the key is
put into the order a second time.
-/

namespace RetroShare.Util.RsMemCache

open OrderedMap Transition

variable {Key Value : Type} [LinearOrder Key] {s : RsMemCache Key Value} {key : Key}
  {entry : CacheData Key Value} {now : Int}

/-- The entries of the order of access that a map calls for. -/
def lruEntries (map : OrderedMap Key (CacheData Key Value)) : List (Int × Key) :=
  map.toList.map fun e => (e.2.ts, e.1)

/-- The two maps and the count, which has 32 bits, go together. -/
structure Consistent (s : RsMemCache Key Value) : Prop where
  count : s.mDataCount = s.mDataMap.size
  fits : s.mDataMap.size < 2 ^ 32
  lru : s.mLruMap.entries.Perm (lruEntries s.mDataMap)

/-- At most `mMaxSize` entries are left, and what was removed is not newer than what was kept. -/
structure Evicts (s s' : RsMemCache Key Value) : Prop where
  size_le : s'.mDataMap.size ≤ s.mMaxSize
  kept : ∀ (key : Key) (entry : CacheData Key Value), s'.mDataMap[key]? = some entry →
    s.mDataMap[key]? = some entry
  oldest : ∀ (key : Key) (entry : CacheData Key Value), s.mDataMap[key]? = some entry →
    s'.mDataMap[key]? = none → ∀ (other : Key) (entry' : CacheData Key Value),
      s'.mDataMap[other]? = some entry' → entry.ts ≤ entry'.ts

/-- **What keeps the cache consistent.** No call touches an entry with a time of 0, and no counter leaves
the numbers it can hold. -/
def Sound (s : RsMemCache Key Value) : Op Key Value → Prop
  | .store key _ _ | .ref key _ =>
      (∀ entry : CacheData Key Value, s.mDataMap[key]? = some entry → entry.ts ≠ 0) ∧
        (s.mDataMap[key]? = none → s.mDataMap.size + 1 < 2 ^ 32)
  | .fetch key _ | .erase key =>
      ∀ entry : CacheData Key Value, s.mDataMap[key]? = some entry → entry.ts ≠ 0
  | .resize => s.mDataMap.size < s.mMaxSize + 2 ^ 31

/-! ### The order of access -/

theorem lruEntries_perm {map : OrderedMap Key (CacheData Key Value)}
    (hlookup : map[key]? = some entry) :
    (lruEntries map).Perm ((entry.ts, key) :: lruEntries (map.erase key)) :=
  (toList_perm_cons_erase map hlookup).map fun e : Key × CacheData Key Value => (e.2.ts, e.1)

theorem lruEntries_insert (map : OrderedMap Key (CacheData Key Value)) (key : Key)
    (entry : CacheData Key Value) :
    (lruEntries (map.insert key entry)).Perm ((entry.ts, key) :: lruEntries (map.erase key)) := by
  have hperm := lruEntries_perm (lookup_insert_self map key entry)
  rwa [erase_insert] at hperm

theorem erase_of_absent {map : OrderedMap Key (CacheData Key Value)} (habsent : map[key]? = none) :
    map.erase key = map := by
  apply Std.ExtTreeMap.ext_getElem?
  intro a
  rw [lookup_erase]
  split
  · next heq => rw [← heq, habsent]
  · rfl

theorem mem_lruEntries {map : OrderedMap Key (CacheData Key Value)} {ts : Int} :
    (ts, key) ∈ lruEntries map ↔
      ∃ entry : CacheData Key Value, map[key]? = some entry ∧ entry.ts = ts := by
  rw [lruEntries, List.mem_map]
  constructor
  · rintro ⟨⟨key', entry⟩, hmem, heq⟩
    cases heq
    exact ⟨entry, (mem_toList map).mp hmem, rfl⟩
  · rintro ⟨entry, hlookup, rfl⟩
    exact ⟨(key, entry), (mem_toList map).mpr hlookup, rfl⟩

theorem size_insert_eq (map : OrderedMap Key (CacheData Key Value)) (key : Key)
    (entry : CacheData Key Value) : (map.insert key entry).size = (map.erase key).size + 1 := by
  have hlength := (toList_perm_cons_erase _ (lookup_insert_self map key entry)).length_eq
  rwa [erase_insert, List.length_cons, Std.ExtTreeMap.length_toList,
    Std.ExtTreeMap.length_toList] at hlength

theorem size_erase_of_lookup {map : OrderedMap Key (CacheData Key Value)}
    (hlookup : map[key]? = some entry) : (map.erase key).size + 1 = map.size := by
  have hlength := (toList_perm_cons_erase map hlookup).length_eq
  rw [List.length_cons, Std.ExtTreeMap.length_toList, Std.ExtTreeMap.length_toList] at hlength
  exact hlength.symm

/-- The first entry that is equal to a given one is taken out. -/
theorem eraseFirst_perm {lru : Multimap Int Key} {ts : Int} (hmem : (ts, key) ∈ lru.entries) :
    lru.entries.Perm
      ((ts, key) :: (lru.eraseFirst fun e => e.1 = ts ∧ e.2 = key).entries) := by
  have htest : (fun e : Int × Key => decide (e.1 = ts ∧ e.2 = key)) = fun e => (ts, key) == e := by
    funext e
    rw [Bool.eq_iff_iff, decide_eq_true_iff, beq_iff_eq, Prod.ext_iff, eq_comm,
      @eq_comm _ e.2 key]
  have heq : (lru.eraseFirst fun e => e.1 = ts ∧ e.2 = key).entries = lru.entries.erase (ts, key) := by
    rw [List.erase_eq_eraseP, Multimap.eraseFirst, htest]
  rw [heq]
  exact List.perm_cons_erase hmem

/-- The order of access after a known key got another time, or none. -/
theorem updateLrumap_perm (hs : Consistent s) (hlookup : s.mDataMap[key]? = some entry)
    (hts : entry.ts ≠ 0) (map : OrderedMap Key (CacheData Key Value)) (newTs : Int) :
    (updateLrumap { s with mDataMap := map } key entry.ts newTs).mLruMap.entries.Perm
      (if newTs ≠ 0 then (newTs, key) :: lruEntries (s.mDataMap.erase key)
        else lruEntries (s.mDataMap.erase key)) := by
  have hmem : (entry.ts, key) ∈ s.mLruMap.entries :=
    hs.lru.mem_iff.mpr (mem_lruEntries.mpr ⟨entry, hlookup, rfl⟩)
  have hrest : (s.mLruMap.eraseFirst fun e => e.1 = entry.ts ∧ e.2 = key).entries.Perm
      (lruEntries (s.mDataMap.erase key)) :=
    ((eraseFirst_perm hmem).symm.trans (hs.lru.trans (lruEntries_perm hlookup))).cons_inv
  rw [updateLrumap, if_neg hts, if_pos hmem]
  dsimp only
  split
  · exact (Multimap.insert_perm _ _ _).trans (hrest.cons _)
  · exact hrest

@[simp]
theorem updateLrumap_dataMap (s : RsMemCache Key Value) (key : Key) (oldTs newTs : Int) :
    (updateLrumap s key oldTs newTs).mDataMap = s.mDataMap := by
  unfold updateLrumap
  split
  · rfl
  · split <;> rfl

@[simp]
theorem updateLrumap_dataCount (s : RsMemCache Key Value) (key : Key) (oldTs newTs : Int) :
    (updateLrumap s key oldTs newTs).mDataCount = s.mDataCount := by
  unfold updateLrumap
  split
  · rfl
  · split <;> rfl

@[simp]
theorem updateLrumap_maxSize (s : RsMemCache Key Value) (key : Key) (oldTs newTs : Int) :
    (updateLrumap s key oldTs newTs).mMaxSize = s.mMaxSize := by
  unfold updateLrumap
  split
  · rfl
  · split <;> rfl

/-! ### Calls -/

/-- An entry that is there is written with a new time. -/
theorem consistent_replaced (hs : Consistent s) (hlookup : s.mDataMap[key]? = some entry)
    (hts : entry.ts ≠ 0) (entry' : CacheData Key Value) (hnow : entry'.ts ≠ 0) :
    Consistent (updateLrumap { s with mDataMap := s.mDataMap.insert key entry' } key entry.ts
      entry'.ts) where
  count := by
    rw [updateLrumap_dataCount, updateLrumap_dataMap]
    rw [size_insert_eq, size_erase_of_lookup hlookup]
    exact hs.count
  fits := by
    rw [updateLrumap_dataMap, size_insert_eq, size_erase_of_lookup hlookup]
    exact hs.fits
  lru := by
    have hperm := updateLrumap_perm hs hlookup hts (s.mDataMap.insert key entry') entry'.ts
    rw [if_pos hnow] at hperm
    rw [updateLrumap_dataMap]
    exact hperm.trans (lruEntries_insert s.mDataMap key entry').symm

/-- A key that is not there is installed. -/
theorem consistent_installed (hs : Consistent s) (habsent : s.mDataMap[key]? = none)
    (hsize : s.mDataMap.size + 1 < 2 ^ 32) (entry : CacheData Key Value) :
    Consistent (updateLrumap
      { s with
        mDataMap := s.mDataMap.insert key entry
        mDataCount := Word.add 32 s.mDataCount 1 } key 0 entry.ts) where
  count := by
    rw [updateLrumap_dataCount, updateLrumap_dataMap]
    rw [← hs.count] at hsize
    rw [size_insert_eq, erase_of_absent habsent, ← hs.count, Word.add_of_lt hsize]
  fits := by
    rw [updateLrumap_dataMap, size_insert_eq, erase_of_absent habsent]
    exact hsize
  lru := by
    rw [updateLrumap_dataMap, updateLrumap, if_pos rfl]
    have hold := hs.lru
    rw [← erase_of_absent habsent] at hold
    exact (Multimap.insert_perm _ _ _).trans
      ((hold.cons _).trans (lruEntries_insert s.mDataMap key entry).symm)

theorem consistent_touch (hs : Consistent s) (hlookup : s.mDataMap[key]? = some entry)
    (hts : entry.ts ≠ 0) (hnow : 0 < now) : Consistent (s.touch key entry now) :=
  consistent_replaced hs hlookup hts { entry with ts := now } hnow.ne'

theorem consistent_erased {s' : RsMemCache Key Value} (hs : Consistent s)
    (hlookup : s.mDataMap[key]? = some entry) (hmap : s'.mDataMap = s.mDataMap.erase key)
    (hcount : s'.mDataCount = Word.sub 32 s.mDataCount 1)
    (hlru : s'.mLruMap.entries.Perm (lruEntries (s.mDataMap.erase key))) : Consistent s' where
  count := by
    have hless := size_erase_of_lookup hlookup
    rw [hcount, hmap, hs.count, Word.sub_of_le (by omega) hs.fits]
    omega
  fits := by
    have hless := size_erase_of_lookup hlookup
    have hfits := hs.fits
    rw [hmap]
    omega
  lru := hmap ▸ hlru

theorem erase_of_lookup (hlookup : s.mDataMap[key]? = some entry) :
    (s.erase key).2 =
      { updateLrumap { s with mDataMap := s.mDataMap.erase key } key entry.ts 0 with
        mDataCount := Word.sub 32 s.mDataCount 1 } := by
  rw [erase, hlookup]
  dsimp only
  rw [updateLrumap_dataCount]

theorem consistent_erase (hs : Consistent s) (hsound : Sound s (.erase key)) : Consistent (s.erase key).2 := by
  cases hlookup : s.mDataMap[key]? with
  | none =>
      rw [erase, hlookup]
      exact hs
  | some entry =>
      have hperm := updateLrumap_perm hs hlookup (hsound entry hlookup) (s.mDataMap.erase key) 0
      rw [if_neg (not_not.mpr rfl)] at hperm
      rw [erase_of_lookup hlookup]
      apply consistent_erased hs hlookup
      · dsimp only
        rw [updateLrumap_dataMap]
      · dsimp only
      · exact hperm

/-! ### Eviction -/

omit [LinearOrder Key] in
/-- The first entry of the order of access. -/
theorem eraseFirst_true {lru : Multimap Int Key} {first : Int × Key} {rest : List (Int × Key)}
    (hentries : lru.entries = first :: rest) :
    (lru.eraseFirst fun _ => true).entries = rest := by
  change lru.entries.eraseP _ = rest
  rw [hentries, List.eraseP_cons_of_pos rfl]

/-- What a pass of the loop does to a consistent cache. -/
theorem discardLru_succ (hs : Consistent s) {ts : Int} {rest : List (Int × Key)}
    (hentries : s.mLruMap.entries = (ts, key) :: rest) (count : Nat) :
    ∃ entry : CacheData Key Value, s.mDataMap[key]? = some entry ∧ entry.ts = ts ∧
      rest.Perm (lruEntries (s.mDataMap.erase key)) ∧
      discardLru (count + 1) s =
        discardLru count
          { s with
            mDataMap := s.mDataMap.erase key
            mLruMap := s.mLruMap.eraseFirst fun _ => true
            mDataCount := Word.sub 32 s.mDataCount 1 } := by
  have hmem : (ts, key) ∈ lruEntries s.mDataMap :=
    hs.lru.mem_iff.mp (hentries ▸ List.mem_cons_self)
  obtain ⟨entry, hlookup, hts⟩ := mem_lruEntries.mp hmem
  refine ⟨entry, hlookup, hts, ?_, ?_⟩
  · have hperm := hs.lru.trans (lruEntries_perm hlookup)
    rw [hentries, hts] at hperm
    exact hperm.cons_inv
  · rw [discardLru, hentries]
    dsimp only
    rw [hlookup]

/-- Nothing is older than the first entry of the order of access. -/
theorem oldest_first (hs : Consistent s) {ts : Int} {rest : List (Int × Key)}
    (hentries : s.mLruMap.entries = (ts, key) :: rest) (other : Key)
    (entry : CacheData Key Value) (hlookup : s.mDataMap[other]? = some entry) : ts ≤ entry.ts := by
  have hmem : (entry.ts, other) ∈ s.mLruMap.entries :=
    hs.lru.mem_iff.mpr (mem_lruEntries.mpr ⟨entry, hlookup, rfl⟩)
  have hsorted := s.mLruMap.sorted
  rw [hentries] at hmem hsorted
  rcases List.mem_cons.mp hmem with heq | hmem
  · exact (congrArg Prod.fst heq).ge
  · exact (List.pairwise_cons.mp hsorted).1 _ hmem

/-- The loop removes as many entries as it is told to, the oldest first. -/
theorem discardLru_spec (count : Nat) :
    ∀ s : RsMemCache Key Value, Consistent s → count ≤ s.mDataMap.size →
      Consistent (discardLru count s) ∧
        (discardLru count s).mDataMap.size + count = s.mDataMap.size ∧
        (∀ (key : Key) (entry : CacheData Key Value),
          (discardLru count s).mDataMap[key]? = some entry → s.mDataMap[key]? = some entry) ∧
        ∀ (key : Key) (entry : CacheData Key Value), s.mDataMap[key]? = some entry →
          (discardLru count s).mDataMap[key]? = none →
          ∀ (other : Key) (entry' : CacheData Key Value),
            (discardLru count s).mDataMap[other]? = some entry' → entry.ts ≤ entry'.ts := by
  induction count with
  | zero =>
      intro s hs _
      refine ⟨hs, rfl, fun _ _ h => h, ?_⟩
      intro key entry hlookup hnone
      rw [discardLru, hlookup] at hnone
      cases hnone
  | succ count ih =>
      intro s hs hcount
      cases hentries : s.mLruMap.entries with
      | nil =>
          have hlength := hs.lru.length_eq
          rw [hentries, lruEntries, List.length_map, Std.ExtTreeMap.length_toList] at hlength
          rw [← hlength] at hcount
          exact absurd hcount (Nat.not_succ_le_zero _)
      | cons first rest =>
          obtain ⟨ts, key⟩ := first
          obtain ⟨entry, hlookup, hts, hperm, hpass⟩ := discardLru_succ hs hentries count
          rw [hpass]
          have hless := size_erase_of_lookup hlookup
          rw [← eraseFirst_true hentries] at hperm
          generalize hs' : ({ s with
            mDataMap := s.mDataMap.erase key
            mLruMap := s.mLruMap.eraseFirst fun _ => true
            mDataCount := Word.sub 32 s.mDataCount 1 } : RsMemCache Key Value) = s'
          have hmap : s'.mDataMap = s.mDataMap.erase key := by rw [← hs']
          have hnext : Consistent s' := by
            apply consistent_erased hs hlookup hmap
            · rw [← hs']
            · rw [← hs']
              exact hperm
          obtain ⟨hconsistent, hleft, hkept, holdest⟩ := ih s' hnext
            (by rw [hmap]; omega)
          rw [hmap] at hleft hkept holdest
          refine ⟨hconsistent, by omega, ?_, ?_⟩
          · intro key' entry' hlookup'
            have hbefore := hkept key' entry' hlookup'
            rw [lookup_erase] at hbefore
            split at hbefore
            · cases hbefore
            · exact hbefore
          · intro key' entry' hlookup' hnone other entry'' hother
            by_cases hkey : key = key'
            · rw [← hkey, hlookup] at hlookup'
              rw [← Option.some.inj hlookup', hts]
              exact oldest_first hs hentries other entry'' (by
                have hbefore := hkept other entry'' hother
                rw [lookup_erase] at hbefore
                split at hbefore
                · cases hbefore
                · exact hbefore)
            · exact holdest key' entry' (by rw [lookup_erase_ne _ hkey, hlookup']) hnone other entry''
                hother

/-- The number of entries to clear, as long as it is no negative `int`. -/
theorem resize_eq (hcount : s.mDataCount < s.mMaxSize + 2 ^ 31) :
    s.resize = discardLru (s.mDataCount - s.mMaxSize) s := by
  rw [resize]
  by_cases hover : s.mMaxSize < s.mDataCount
  · have hclear : toInt (s.mDataCount - s.mMaxSize) = (s.mDataCount - s.mMaxSize : Nat) :=
      if_pos (by omega)
    rw [if_pos hover, hclear, if_pos (by omega), Int.toNat_natCast]
  · rw [if_neg hover, Nat.sub_eq_zero_of_le (Nat.le_of_not_lt hover), discardLru]
    exact if_neg (lt_irrefl 0)

theorem resize_spec (hs : Consistent s) (hsound : Sound s .resize) :
    Consistent s.resize ∧ Evicts s s.resize := by
  change s.mDataMap.size < s.mMaxSize + 2 ^ 31 at hsound
  have hequation := resize_eq (by rw [hs.count]; exact hsound)
  obtain ⟨hconsistent, hleft, hkept, holdest⟩ :=
    discardLru_spec (s.mDataCount - s.mMaxSize) s hs (by rw [hs.count]; omega)
  rw [← hequation] at hconsistent hleft hkept holdest
  exact ⟨hconsistent, by rw [hs.count] at hleft; omega, hkept, holdest⟩

/-! ### What breaks the cache -/

theorem Consistent.length_lru (hs : Consistent s) :
    s.mLruMap.entries.length = s.mDataMap.size := by
  rw [hs.lru.length_eq, lruEntries, List.length_map, Std.ExtTreeMap.length_toList]

/-- A key with a time of 0 is put into the order of access once more. -/
theorem not_consistent_of_zero (hs : Consistent s) {map : OrderedMap Key (CacheData Key Value)}
    (hsize : map.size ≤ s.mDataMap.size) {newTs : Int} {s' : RsMemCache Key Value}
    (hmap : s'.mDataMap = map)
    (hlru : s'.mLruMap = (updateLrumap { s with mDataMap := map } key 0 newTs).mLruMap) :
    ¬ Consistent s' := by
  intro hs'
  have hlength := hs'.length_lru
  rw [hlru, updateLrumap, if_pos rfl, (Multimap.insert_perm _ _ _).length_eq, List.length_cons,
    hmap] at hlength
  change s.mLruMap.entries.length + 1 = _ at hlength
  rw [hs.length_lru] at hlength
  omega

theorem not_consistent_replaced (hs : Consistent s) (hlookup : s.mDataMap[key]? = some entry)
    (hts : entry.ts = 0) (entry' : CacheData Key Value) :
    ¬ Consistent (updateLrumap { s with mDataMap := s.mDataMap.insert key entry' } key entry.ts
      entry'.ts) := by
  refine not_consistent_of_zero hs ?_ (updateLrumap_dataMap _ _ _ _) (by rw [hts])
  dsimp only
  rw [size_insert_eq, size_erase_of_lookup hlookup]

theorem not_consistent_installed (habsent : s.mDataMap[key]? = none)
    (hsize : ¬ s.mDataMap.size + 1 < 2 ^ 32) (entry : CacheData Key Value) :
    ¬ Consistent (updateLrumap
      { s with
        mDataMap := s.mDataMap.insert key entry
        mDataCount := Word.add 32 s.mDataCount 1 } key 0 entry.ts) := by
  intro hs'
  have hfits := hs'.fits
  rw [updateLrumap_dataMap, size_insert_eq, erase_of_absent habsent] at hfits
  exact hsize hfits

theorem not_consistent_erase (hs : Consistent s) (hlookup : s.mDataMap[key]? = some entry)
    (hts : entry.ts = 0) : ¬ Consistent (s.erase key).2 := by
  have hless := size_erase_of_lookup hlookup
  have hle : (s.mDataMap.erase key).size ≤ s.mDataMap.size := by omega
  rw [erase_of_lookup hlookup]
  apply not_consistent_of_zero hs hle
  · dsimp only
    rw [updateLrumap_dataMap]
  · dsimp only
    rw [hts]

/-- The number to clear is a negative `int`, and nothing is cleared. -/
theorem not_evicts_resize (hs : Consistent s) (hsound : ¬ Sound s .resize) :
    ¬ Evicts s s.resize := by
  change ¬ s.mDataMap.size < s.mMaxSize + 2 ^ 31 at hsound
  have hfits := hs.fits
  have hcount := hs.count
  have hclear : toInt (s.mDataCount - s.mMaxSize) = (s.mDataCount - s.mMaxSize : Nat) - 2 ^ 32 :=
    if_neg (by omega)
  have hover : s.mMaxSize < s.mDataCount := by omega
  have hsame : s.resize = s := by
    rw [resize, if_pos hover, hclear]
    exact if_neg (by omega)
  intro hevicts
  have hle := hevicts.size_le
  rw [hsame] at hle
  omega

/-! ### Runs -/

variable [Inhabited Value]

omit [Inhabited Value] in
theorem consistent_new (maxSize : Nat) : Consistent (new maxSize : RsMemCache Key Value) where
  count := by simp [new]
  fits := by simp [new]
  lru := by simp [new, lruEntries, Multimap.empty]

/-- **One call.** -/
theorem consistent_step (hs : Consistent s) {op : Op Key Value} (htimely : op.Timely)
    (hsound : Sound s op) {s' : RsMemCache Key Value} (hstep : step s op = some s') :
    Consistent s' := by
  cases op with
  | store key data now =>
      cases hstep
      rw [store]
      cases hlookup : s.mDataMap[key]? with
      | none => exact consistent_installed hs hlookup (hsound.2 hlookup) ⟨key, data, now⟩
      | some entry =>
          exact consistent_replaced hs hlookup (hsound.1 entry hlookup) ⟨key, data, now⟩
            (ne_of_gt htimely)
  | fetch key now =>
      cases hstep
      rw [fetch]
      cases hlookup : s.mDataMap[key]? with
      | none => exact hs
      | some entry => exact consistent_touch hs hlookup (hsound entry hlookup) htimely
  | ref key now =>
      cases hstep
      rw [ref]
      cases hlookup : s.mDataMap[key]? with
      | none => exact consistent_installed hs hlookup (hsound.2 hlookup) ⟨key, default, 0⟩
      | some entry => exact consistent_touch hs hlookup (hsound.1 entry hlookup) htimely
  | erase key =>
      cases hstep
      exact consistent_erase hs hsound
  | resize =>
      cases hstep
      exact (resize_spec hs hsound).1

/-- A call at a positive time that keeps the cache consistent. -/
def Careful (s : RsMemCache Key Value) (op : Op Key Value) : Prop := op.Timely ∧ Sound s op

/-- What is asked of a call: the maps go together behind it, and resizing evicts the oldest entries. -/
def Keeps (s : RsMemCache Key Value) (op : Op Key Value) (s' : RsMemCache Key Value) : Prop :=
  Consistent s' ∧ (op = .resize → Evicts s s')

/-- **One call, exactly.** -/
theorem keeps_iff (hs : Consistent s) {op : Op Key Value} (htimely : op.Timely)
    {s' : RsMemCache Key Value} (hstep : step s op = some s') : Keeps s op s' ↔ Sound s op := by
  constructor
  · rintro ⟨hs', hevicts⟩
    cases op with
    | store key data now =>
        cases hstep
        rw [store] at hs'
        constructor
        · intro entry hlookup hts
          rw [hlookup] at hs'
          exact not_consistent_replaced hs hlookup hts ⟨key, data, now⟩ hs'
        · intro habsent
          rw [habsent] at hs'
          by_contra hsize
          exact not_consistent_installed habsent hsize ⟨key, data, now⟩ hs'
    | fetch key now =>
        cases hstep
        intro entry hlookup hts
        rw [fetch, hlookup] at hs'
        exact not_consistent_replaced hs hlookup hts { entry with ts := now } hs'
    | ref key now =>
        cases hstep
        rw [ref] at hs'
        constructor
        · intro entry hlookup hts
          rw [hlookup] at hs'
          exact not_consistent_replaced hs hlookup hts { entry with ts := now } hs'
        · intro habsent
          rw [habsent] at hs'
          by_contra hsize
          exact not_consistent_installed habsent hsize ⟨key, default, 0⟩ hs'
    | erase key =>
        cases hstep
        intro entry hlookup hts
        exact not_consistent_erase hs hlookup hts hs'
    | resize =>
        cases hstep
        by_contra hsound
        exact not_evicts_resize hs hsound (hevicts rfl)
  · intro hsound
    refine ⟨consistent_step hs htimely hsound hstep, ?_⟩
    rintro rfl
    cases hstep
    exact (resize_spec hs hsound).2

theorem cacheConsistent_of_reaches {maxSize : Nat}
    (hreach : Reaches step Careful (new maxSize : RsMemCache Key Value) s) : Consistent s :=
  hreach.invariant Consistent
    (fun _ _ _ hs hcareful hstep => consistent_step hs hcareful.1 hcareful.2 hstep)
    (consistent_new maxSize)

/-- **The cache.** In every run whose calls touch no entry with a time of 0, the two maps go together; and
the next call keeps that, and evicts the oldest entries if it resizes, exactly when it is of that kind
too. -/
theorem memCache_of_reaches {maxSize : Nat}
    (hreach : Reaches step Careful (new maxSize : RsMemCache Key Value) s) :
    Consistent s ∧ ∀ (op : Op Key Value) (s' : RsMemCache Key Value), op.Timely →
      step s op = some s' → (Keeps s op s' ↔ Sound s op) :=
  ⟨cacheConsistent_of_reaches hreach,
    fun _ _ htimely hstep => keeps_iff (cacheConsistent_of_reaches hreach) htimely hstep⟩

/-- Two entries, the older of which is evicted from a cache of one. -/
theorem memCache_sample :
    Keeps (((new 1 : RsMemCache Nat Nat).store 1 10 5).store 2 20 6) .resize
      (((new 1 : RsMemCache Nat Nat).store 1 10 5).store 2 20 6).resize := by
  have hfirst : Careful (new 1 : RsMemCache Nat Nat) (.store 1 10 5) := by
    refine ⟨show (0 : Int) < 5 by decide, ?_, fun _ => ?_⟩
    · intro entry hlookup
      simp [new] at hlookup
    · simp [new]
  have hsecond : Careful ((new 1 : RsMemCache Nat Nat).store 1 10 5) (.store 2 20 6) := by
    refine ⟨show (0 : Int) < 6 by decide, ?_, fun _ => ?_⟩
    · intro entry hlookup
      simp [new, store] at hlookup
    · simp [new, store, size_insert_eq]
  have hreach : Reaches step Careful (new 1)
      (((new 1 : RsMemCache Nat Nat).store 1 10 5).store 2 20 6) :=
    ((Reaches.refl _).next (.store 1 10 5) hfirst rfl).next (.store 2 20 6) hsecond rfl
  have hsound : Sound (((new 1 : RsMemCache Nat Nat).store 1 10 5).store 2 20 6) .resize := by
    simp [new, store, Sound, Std.ExtTreeMap.size_insert]
  exact ((memCache_of_reaches hreach).2 .resize _ trivial rfl).mpr hsound

/-- An entry that `ref` installs, and that is fetched. -/
theorem memCache_counterexample :
    ¬ ∀ s : RsMemCache Nat Nat, Reaches step (fun _ op => op.Timely) (new 100) s →
      Consistent s := by
  intro hall
  have hreach : Reaches step (fun _ op => op.Timely) (new 100)
      ((new 100 : RsMemCache Nat Nat).ref 1 5) :=
    (Reaches.refl _).next (.ref 1 5) (show (0 : Int) < 5 by decide) rfl
  have htimely : (Op.fetch 1 6 : Op Nat Nat).Timely := show (0 : Int) < 6 by decide
  have hlookup : ((new 100 : RsMemCache Nat Nat).ref 1 5).mDataMap[1]? = some ⟨1, default, 0⟩ := by
    simp [new, ref]
  have hsound := (keeps_iff (hall _ hreach) htimely rfl).mp
    ⟨hall _ (hreach.next (.fetch 1 6) htimely rfl), nofun⟩
  exact hsound _ hlookup rfl

end RetroShare.Util.RsMemCache
