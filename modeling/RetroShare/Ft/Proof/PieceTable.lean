import RetroShare.Foundation.Extent
import RetroShare.Ft.FileCreator

/-!
# The table of pending pieces

What `mChunks` and the reference counters say to each other, given which slices are pending. A piece
lies in the slice that its identifier names, pieces do not overlap, pieces of one slice share one
counter, and the counter holds their number. The statement does not mention the chunk map: the
slices come in as a function from identifiers to sizes, so each lemma below is about one change of
the table alone.
-/

namespace RetroShare.Ft

open RetroShare.Extent

variable {PeerId : Type}

/-- The number of pieces of slice `id`. -/
def pieceCount (table : OrderedMap Nat (FtChunk PeerId)) (id : Nat) : Nat :=
  OrderedMap.sumOver (fun _ chunk => if chunk.id = id then 1 else 0) table

structure Pieces (pending : Nat → Option Nat) (high : Nat)
    (table : OrderedMap Nat (FtChunk PeerId)) (heap : OrderedMap Nat Int) (next : Nat) : Prop where
  keyed : ∀ {key : Nat} {chunk : FtChunk PeerId}, table[key]? = some chunk → chunk.offset = key
  packed : Packed FtChunk.size 0 high table
  inside : ∀ {key : Nat} {chunk : FtChunk PeerId}, table[key]? = some chunk →
    ∃ n, pending chunk.id = some n ∧ chunk.id ≤ key ∧ key + chunk.size ≤ chunk.id + n
  counted : ∀ {key : Nat} {chunk : FtChunk PeerId}, table[key]? = some chunk →
    ∃ ref, chunk.refCnt = some ref ∧ ref < next ∧
      heap[ref]? = some (pieceCount table chunk.id : Int)
  shared : ∀ {key key' : Nat} {chunk chunk' : FtChunk PeerId}, table[key]? = some chunk →
    table[key']? = some chunk' → (chunk.refCnt = chunk'.refCnt ↔ chunk.id = chunk'.id)
  present : ∀ {id n : Nat}, pending id = some n → ∃ (key : Nat) (chunk : FtChunk PeerId),
    table[key]? = some chunk ∧ chunk.id = id

variable {pending pending' : Nat → Option Nat} {high next : Nat}
  {table table' : OrderedMap Nat (FtChunk PeerId)} {heap heap' : OrderedMap Nat Int}

theorem Pieces.empty :
    Pieces (fun _ => none) high (∅ : OrderedMap Nat (FtChunk PeerId)) ∅ next := by
  constructor
  case packed => exact Packed.empty
  all_goals simp

theorem pieceCount_pos {key : Nat} {chunk : FtChunk PeerId} (hmem : table[key]? = some chunk) :
    0 < pieceCount table chunk.id := by
  have := OrderedMap.le_sumOver (fun _ (c : FtChunk PeerId) => if c.id = chunk.id then 1 else 0) table hmem
  simp only [if_true] at this
  exact this

theorem pieceCount_erase {key : Nat} {chunk : FtChunk PeerId} (hmem : table[key]? = some chunk)
    (id : Nat) :
    pieceCount table id = (if chunk.id = id then 1 else 0) + pieceCount (table.erase key) id :=
  OrderedMap.sumOver_eq_add_erase (fun _ (c : FtChunk PeerId) => if c.id = id then 1 else 0) table hmem

theorem pieceCount_insert {key : Nat} (chunk : FtChunk PeerId) (habsent : table[key]? = none)
    (id : Nat) :
    pieceCount (table.insert key chunk) id =
      (if chunk.id = id then 1 else 0) + pieceCount table id :=
  OrderedMap.sumOver_insert_of_absent (fun _ (c : FtChunk PeerId) => if c.id = id then 1 else 0) table chunk habsent

theorem lookup_erase_imp {key dropped : Nat} {chunk : FtChunk PeerId}
    (hmem : (table.erase dropped)[key]? = some chunk) :
    dropped ≠ key ∧ table[key]? = some chunk := by
  rw [OrderedMap.lookup_erase] at hmem
  split at hmem
  · exact absurd hmem nofun
  · next hne => exact ⟨hne, hmem⟩

theorem lookup_insert_imp {key added : Nat} {chunk value : FtChunk PeerId}
    (hmem : (table.insert added value)[key]? = some chunk) :
    (added = key ∧ chunk = value) ∨ (added ≠ key ∧ table[key]? = some chunk) := by
  rw [OrderedMap.lookup_insert] at hmem
  split at hmem
  · next heq => exact Or.inl ⟨heq, (Option.some.inj hmem).symm⟩
  · next hne => exact Or.inr ⟨hne, hmem⟩

/-- A new slice enters as one piece with a new counter. -/
theorem Pieces.handOut (hpieces : Pieces pending high table heap next) (slice : FtChunk PeerId)
    (hid : slice.id = slice.offset) (href : slice.refCnt = some next) (hpos : 0 < slice.size)
    (hhigh : slice.offset + slice.size ≤ high) (hnew : pending slice.offset = none)
    (hpending : ∀ id, pending' id = if slice.offset = id then some slice.size else pending id)
    (hfree : ∀ id n, pending id = some n →
      id + n ≤ slice.offset ∨ slice.offset + slice.size ≤ id) :
    Pieces pending' high (table.insert slice.offset slice) (heap.insert next 1) (next + 1) := by
  have hold : ∀ {key : Nat} {chunk : FtChunk PeerId}, table[key]? = some chunk →
      slice.offset ≠ chunk.id := by
    intro key chunk hmem heq
    obtain ⟨n, hn, _⟩ := hpieces.inside hmem
    rw [← heq, hnew] at hn
    exact absurd hn nofun
  have huncovered : ∀ x, slice.offset ≤ x → x < slice.offset + slice.size →
      ¬ Covers FtChunk.size table x := by
    rintro x hlow hhigh ⟨key, chunk, hmem, hle, hlt⟩
    obtain ⟨n, hn, hstart, hend⟩ := hpieces.inside hmem
    rcases hfree chunk.id n hn with hbefore | hafter <;> omega
  have habsent := hpieces.packed.absent_of_free hpos huncovered
  have hcount := fun id => pieceCount_insert slice habsent id
  constructor
  · intro key chunk hmem
    rcases lookup_insert_imp hmem with ⟨heq, rfl⟩ | ⟨_, hmem⟩
    · exact heq
    · exact hpieces.keyed hmem
  · exact hpieces.packed.insert hpos huncovered (Nat.zero_le _) hhigh
  · intro key chunk hmem
    rcases lookup_insert_imp hmem with ⟨rfl, rfl⟩ | ⟨_, hmem⟩
    · refine ⟨chunk.size, ?_, hid.le, by omega⟩
      rw [hpending, if_pos hid.symm]
    · rw [hpending, if_neg (hold hmem)]
      exact hpieces.inside hmem
  · intro key chunk hmem
    rcases lookup_insert_imp hmem with ⟨rfl, rfl⟩ | ⟨_, hmem⟩
    · refine ⟨next, href, Nat.lt_succ_self _, ?_⟩
      have hzero : pieceCount table chunk.id = 0 := by
        rw [pieceCount, OrderedMap.sumOver_eq_zero]
        intro key other hother
        exact if_neg fun heq => hold hother (hid.symm.trans heq.symm)
      rw [OrderedMap.lookup_insert_self, hcount, hzero, if_pos rfl]
      rfl
    · obtain ⟨ref, hchunk, hlt, hheap⟩ := hpieces.counted hmem
      refine ⟨ref, hchunk, Nat.lt_succ_of_lt hlt, ?_⟩
      rw [OrderedMap.lookup_insert_ne _ _ hlt.ne', hheap, hcount,
        if_neg (hid ▸ hold hmem), Nat.zero_add]
  · intro key key' chunk chunk' hfirst hsecond
    rcases lookup_insert_imp hfirst with ⟨rfl, rfl⟩ | ⟨_, hmem⟩ <;>
      rcases lookup_insert_imp hsecond with ⟨rfl, rfl⟩ | ⟨_, hmem'⟩
    · exact ⟨fun _ => rfl, fun _ => rfl⟩
    · obtain ⟨ref, hchunk, hlt, _⟩ := hpieces.counted hmem'
      rw [href, hchunk, hid]
      refine ⟨fun heq => ?_, fun heq => absurd heq (hold hmem')⟩
      have := Option.some.inj heq
      omega
    · obtain ⟨ref, hchunk, hlt, _⟩ := hpieces.counted hmem
      rw [href, hchunk, hid]
      refine ⟨fun heq => ?_, fun heq => absurd heq.symm (hold hmem)⟩
      have := Option.some.inj heq
      omega
    · exact hpieces.shared hmem hmem'
  · intro id n hn
    rw [hpending] at hn
    split at hn
    · next heq =>
        exact ⟨slice.offset, slice, OrderedMap.lookup_insert_self _ _ _, hid.trans heq⟩
    · obtain ⟨key, chunk, hmem, hchunk⟩ := hpieces.present hn
      refine ⟨key, chunk, ?_, hchunk⟩
      rw [OrderedMap.lookup_insert_ne, hmem]
      rintro rfl
      rw [habsent] at hmem
      exact absurd hmem nofun

/-- The beginning of a piece arrived: the rest of it moves under its new offset. -/
theorem Pieces.shrink (hpieces : Pieces pending high table heap next) {key taken : Nat}
    {chunk : FtChunk PeerId} (hmem : table[key]? = some chunk) (hpos : 0 < taken)
    (hlt : taken < chunk.size) :
    Pieces pending high
      ((table.erase key).insert (key + taken)
        { chunk with offset := key + taken, size := chunk.size - taken }) heap next := by
  generalize hrest : ({ chunk with offset := key + taken, size := chunk.size - taken } :
    FtChunk PeerId) = rest
  have hsize : rest.size = chunk.size - taken := by rw [← hrest]
  have hid : rest.id = chunk.id := by rw [← hrest]
  have hrefs : rest.refCnt = chunk.refCnt := by rw [← hrest]
  have hoffset : rest.offset = key + taken := by rw [← hrest]
  have herased := hpieces.packed.erase key
  have huncovered : ∀ x, key + taken ≤ x → x < key + taken + rest.size →
      ¬ Covers FtChunk.size (table.erase key) x := by
    intro x hlow hhigh hcovers
    exact ((hpieces.packed.covers_erase hmem x).mp hcovers).2 ⟨by omega, by omega⟩
  have habsent := herased.absent_of_free (by omega) huncovered
  have hcount : ∀ id, pieceCount ((table.erase key).insert (key + taken) rest) id =
      pieceCount table id := by
    intro id
    rw [pieceCount_insert rest habsent, hid, pieceCount_erase hmem]
  have hupper := hpieces.packed.upper hmem
  constructor
  · intro k c hc
    rcases lookup_insert_imp hc with ⟨rfl, rfl⟩ | ⟨_, hc⟩
    · exact hoffset
    · exact hpieces.keyed (lookup_erase_imp hc).2
  · exact herased.insert (by omega) huncovered (Nat.zero_le _) (by omega)
  · intro k c hc
    rcases lookup_insert_imp hc with ⟨rfl, rfl⟩ | ⟨_, hc⟩
    · obtain ⟨n, hn, hle, hend⟩ := hpieces.inside hmem
      exact ⟨n, by rw [hid, hn], by omega, by omega⟩
    · exact hpieces.inside (lookup_erase_imp hc).2
  · intro k c hc
    rw [hcount]
    rcases lookup_insert_imp hc with ⟨rfl, rfl⟩ | ⟨_, hc⟩
    · rw [hid, hrefs]
      exact hpieces.counted hmem
    · exact hpieces.counted (lookup_erase_imp hc).2
  · intro k k' c c' hfirst hsecond
    rcases lookup_insert_imp hfirst with ⟨rfl, rfl⟩ | ⟨_, hc⟩ <;>
      rcases lookup_insert_imp hsecond with ⟨rfl, rfl⟩ | ⟨_, hc'⟩
    · exact ⟨fun _ => rfl, fun _ => rfl⟩
    · rw [hid, hrefs]
      exact hpieces.shared hmem (lookup_erase_imp hc').2
    · rw [hid, hrefs]
      exact hpieces.shared (lookup_erase_imp hc).2 hmem
    · exact hpieces.shared (lookup_erase_imp hc).2 (lookup_erase_imp hc').2
  · intro id n hn
    obtain ⟨k, c, hc, hcid⟩ := hpieces.present hn
    by_cases hk : key = k
    · subst hk
      rw [hmem] at hc
      cases hc
      exact ⟨key + taken, rest, OrderedMap.lookup_insert_self _ _ _, hid.trans hcid⟩
    · have hkept : (table.erase key)[k]? = some c := by
        rw [OrderedMap.lookup_erase_ne _ hk, hc]
      refine ⟨k, c, ?_, hcid⟩
      rw [OrderedMap.lookup_insert_ne, hkept]
      rintro rfl
      rw [habsent] at hkept
      exact absurd hkept nofun

theorem covers_shrink (hpacked : Packed FtChunk.size 0 high table) {key taken : Nat}
    {chunk : FtChunk PeerId} (hmem : table[key]? = some chunk) (hlt : taken < chunk.size) (x : Nat) :
    Covers FtChunk.size ((table.erase key).insert (key + taken)
        { chunk with offset := key + taken, size := chunk.size - taken }) x ↔
      Covers FtChunk.size table x ∧ ¬ (key ≤ x ∧ x < key + taken) := by
  have herased := hpacked.covers_erase hmem
  rw [(hpacked.erase key).covers_insert (by simp only; omega)]
  · rw [herased]
    simp only
    constructor
    · rintro (⟨hold, hout⟩ | ⟨hlow, hhigh⟩)
      · exact ⟨hold, by omega⟩
      · exact ⟨⟨key, chunk, hmem, by omega, by omega⟩, by omega⟩
    · rintro ⟨hold, hout⟩
      by_cases hin : key ≤ x ∧ x < key + chunk.size
      · exact Or.inr ⟨by omega, by omega⟩
      · exact Or.inl ⟨hold, hin⟩
  · intro y hlow hhigh hcovers
    simp only at hhigh
    exact ((herased y).mp hcovers).2 ⟨by omega, by omega⟩

/-- A piece is cut in two at a position strictly inside it. -/
theorem Pieces.split (hpieces : Pieces pending high table heap next) {key cut ref : Nat}
    {chunk : FtChunk PeerId} (hmem : table[key]? = some chunk) (hlow : key < cut)
    (hhigh : cut < key + chunk.size) (href : chunk.refCnt = some ref) {count : Int}
    (hheap : heap[ref]? = some count) :
    Pieces pending high
      ((table.insert key { chunk with size := cut - key }).insert cut
        { chunk with offset := cut, size := chunk.size - (cut - key) })
      (heap.insert ref (count + 1)) next ∧
    (table.insert key { chunk with size := cut - key })[cut]? = none ∧
    ∀ x, Covers FtChunk.size ((table.insert key { chunk with size := cut - key }).insert cut
        { chunk with offset := cut, size := chunk.size - (cut - key) }) x ↔
      Covers FtChunk.size table x := by
  generalize hfirst : ({ chunk with size := cut - key } : FtChunk PeerId) = first
  generalize hsecond : ({ chunk with offset := cut, size := chunk.size - (cut - key) } :
    FtChunk PeerId) = second
  have hfirstSize : first.size = cut - key := by rw [← hfirst]
  have hsecondSize : second.size = chunk.size - (cut - key) := by rw [← hsecond]
  have hfirstId : first.id = chunk.id := by rw [← hfirst]
  have hsecondId : second.id = chunk.id := by rw [← hsecond]
  have hfirstRef : first.refCnt = chunk.refCnt := by rw [← hfirst]
  have hsecondRef : second.refCnt = chunk.refCnt := by rw [← hsecond]
  have hupper := hpieces.packed.upper hmem
  have hreplace : table.insert key first = (table.erase key).insert key first := by
    apply Std.ExtTreeMap.ext_getElem?
    intro k
    rw [OrderedMap.lookup_insert, OrderedMap.lookup_insert, OrderedMap.lookup_erase]
    split <;> rfl
  -- First the old piece goes, then its two halves come one after the other.
  have herased := hpieces.packed.erase key
  have hcoversErased := hpieces.packed.covers_erase hmem
  have hfirstFree : ∀ x, key ≤ x → x < key + first.size →
      ¬ Covers FtChunk.size (table.erase key) x := by
    intro x hx hx' hcovers
    exact ((hcoversErased x).mp hcovers).2 ⟨hx, by omega⟩
  have hpacked := herased.insert (by omega) hfirstFree (Nat.zero_le _) (by omega)
  have hcoversFirst := herased.covers_insert (by omega) hfirstFree
  have hsecondFree : ∀ x, cut ≤ x → x < cut + second.size →
      ¬ Covers FtChunk.size ((table.erase key).insert key first) x := by
    intro x hx hx' hcovers
    rcases (hcoversFirst x).mp hcovers with hold | hin
    · exact ((hcoversErased x).mp hold).2 ⟨by omega, by omega⟩
    · omega
  have habsentKey : (table.erase key)[key]? = none := by
    rw [OrderedMap.lookup_erase, if_pos rfl]
  have habsent := hpacked.absent_of_free (by omega) hsecondFree
  have hcount : ∀ id, pieceCount (((table.erase key).insert key first).insert cut second) id =
      (if chunk.id = id then 1 else 0) + pieceCount table id := by
    intro id
    rw [pieceCount_insert second habsent, pieceCount_insert first habsentKey, hsecondId, hfirstId,
      pieceCount_erase hmem]
  -- Every piece after the split is an old one or a half of the one that was split.
  have hcases : ∀ {k : Nat} {c : FtChunk PeerId},
      (((table.erase key).insert key first).insert cut second)[k]? = some c →
      (k = cut ∧ c = second) ∨ (k = key ∧ c = first) ∨ (k ≠ key ∧ table[k]? = some c) := by
    intro k c hc
    rcases lookup_insert_imp hc with ⟨heq, hval⟩ | ⟨_, hc⟩
    · exact Or.inl ⟨heq.symm, hval⟩
    · rcases lookup_insert_imp hc with ⟨heq, hval⟩ | ⟨hne, hc⟩
      · exact Or.inr (Or.inl ⟨heq.symm, hval⟩)
      · exact Or.inr (Or.inr ⟨hne.symm, (lookup_erase_imp hc).2⟩)
  have hold : ∀ {k : Nat} {c : FtChunk PeerId},
      (((table.erase key).insert key first).insert cut second)[k]? = some c →
      ∃ (k' : Nat) (c' : FtChunk PeerId), table[k']? = some c' ∧ c.id = c'.id ∧
        c.refCnt = c'.refCnt := by
    intro k c hc
    rcases hcases hc with ⟨_, rfl⟩ | ⟨_, rfl⟩ | ⟨_, hc⟩
    · exact ⟨key, chunk, hmem, hsecondId, hsecondRef⟩
    · exact ⟨key, chunk, hmem, hfirstId, hfirstRef⟩
    · exact ⟨k, c, hc, rfl, rfl⟩
  rw [hreplace]
  refine ⟨?_, habsent, ?_⟩
  · constructor
    · intro k c hc
      rcases hcases hc with ⟨rfl, rfl⟩ | ⟨rfl, rfl⟩ | ⟨_, hc⟩
      · rw [← hsecond]
      · rw [← hpieces.keyed hmem, ← hfirst]
      · exact hpieces.keyed hc
    · exact hpacked.insert (by omega) hsecondFree (Nat.zero_le _) (by omega)
    · intro k c hc
      obtain ⟨n, hn, hle, hend⟩ := hpieces.inside hmem
      rcases hcases hc with ⟨rfl, rfl⟩ | ⟨rfl, rfl⟩ | ⟨_, hc⟩
      · exact ⟨n, by rw [hsecondId, hn], by omega, by omega⟩
      · exact ⟨n, by rw [hfirstId, hn], by omega, by omega⟩
      · exact hpieces.inside hc
    · intro k c hc
      obtain ⟨k', c', hc', hid, hrefs⟩ := hold hc
      obtain ⟨r, hr, hlt, hcounter⟩ := hpieces.counted hc'
      refine ⟨r, hrefs.trans hr, hlt, ?_⟩
      rw [hcount, hid, OrderedMap.lookup_insert]
      have hsame := hpieces.shared hmem hc'
      rw [href, hr] at hsame
      split
      · next heq =>
          subst heq
          rw [hheap] at hcounter
          rw [if_pos (hsame.mp rfl), Option.some.inj hcounter]
          congr 1
          push_cast
          ring
      · next hne =>
          rw [if_neg fun heq => hne (Option.some.inj (hsame.mpr heq)), Nat.zero_add, hcounter]
    · intro k k' c c' hc hc'
      obtain ⟨_, _, hb, hid, hrefs⟩ := hold hc
      obtain ⟨_, _, hb', hid', hrefs'⟩ := hold hc'
      rw [hid, hid', hrefs, hrefs']
      exact hpieces.shared hb hb'
    · intro id n hn
      obtain ⟨k, c, hc, hcid⟩ := hpieces.present hn
      by_cases hk : key = k
      · subst hk
        rw [hmem] at hc
        cases hc
        exact ⟨cut, second, OrderedMap.lookup_insert_self _ _ _, hsecondId.trans hcid⟩
      · refine ⟨k, c, ?_, hcid⟩
        have hkept : ((table.erase key).insert key first)[k]? = some c := by
          rw [OrderedMap.lookup_insert_ne _ _ hk, OrderedMap.lookup_erase_ne _ hk, hc]
        rw [OrderedMap.lookup_insert_ne, hkept]
        rintro rfl
        rw [habsent] at hkept
        exact absurd hkept nofun
  · intro x
    rw [hpacked.covers_insert (by omega) hsecondFree, hcoversFirst, hcoversErased]
    constructor
    · rintro ((⟨hcovers, _⟩ | hin) | hin)
      · exact hcovers
      · exact ⟨key, chunk, hmem, by omega, by omega⟩
      · exact ⟨key, chunk, hmem, by omega, by omega⟩
    · intro hcovers
      by_cases hin : key ≤ x ∧ x < key + chunk.size
      · by_cases hx : x < cut
        · exact Or.inl (Or.inr ⟨hin.1, by omega⟩)
        · exact Or.inr ⟨by omega, by omega⟩
      · exact Or.inl (Or.inl ⟨hcovers, hin⟩)

/-- A piece leaves while others of its slice remain. -/
theorem Pieces.dropOne (hpieces : Pieces pending high table heap next) {key ref : Nat}
    {chunk : FtChunk PeerId} (hmem : table[key]? = some chunk) (href : chunk.refCnt = some ref)
    {count : Int} (hheap : heap[ref]? = some count) (hmore : count - 1 ≠ 0) :
    Pieces pending high (table.erase key) (heap.insert ref (count - 1)) next := by
  have hcount := pieceCount_erase hmem
  obtain ⟨r, hr, _, hcounter⟩ := hpieces.counted hmem
  obtain rfl : ref = r := Option.some.inj (href.symm.trans hr)
  obtain rfl : count = pieceCount table chunk.id := Option.some.inj (hheap.symm.trans hcounter)
  constructor
  · exact fun hc => hpieces.keyed (lookup_erase_imp hc).2
  · exact hpieces.packed.erase key
  · exact fun hc => hpieces.inside (lookup_erase_imp hc).2
  · intro k c hc
    obtain ⟨_, hc⟩ := lookup_erase_imp hc
    obtain ⟨r, hr, hlt, hcounter⟩ := hpieces.counted hc
    refine ⟨r, hr, hlt, ?_⟩
    have hsame := hpieces.shared hmem hc
    rw [href, hr] at hsame
    have hnew := hcount c.id
    rw [OrderedMap.lookup_insert]
    split
    · next heq =>
        subst heq
        rw [← hsame.mp rfl, hcount chunk.id, if_pos rfl]
        congr 1
        push_cast
        ring
    · next hne =>
        rw [if_neg fun heq => hne (Option.some.inj (hsame.mpr heq))] at hnew
        rw [hcounter, hnew, Nat.zero_add]
  · exact fun hc hc' => hpieces.shared (lookup_erase_imp hc).2 (lookup_erase_imp hc').2
  · intro id n hn
    obtain ⟨k, c, hc, hcid⟩ := hpieces.present hn
    by_cases hk : key = k
    · subst hk
      rw [hmem] at hc
      cases hc
      have hrest : pieceCount (table.erase key) chunk.id ≠ 0 := by
        have := hcount chunk.id
        rw [if_pos rfl] at this
        omega
      rw [pieceCount, ne_eq, OrderedMap.sumOver_eq_zero] at hrest
      push Not at hrest
      obtain ⟨k', c', hc', hone⟩ := hrest
      refine ⟨k', c', hc', ?_⟩
      by_contra hne
      exact hone (if_neg fun heq => hne (heq.trans hcid))
    · exact ⟨k, c, by rw [OrderedMap.lookup_erase_ne _ hk, hc], hcid⟩

/-- The last piece of a slice leaves, and the slice is no longer pending. -/
theorem Pieces.dropLast (hpieces : Pieces pending high table heap next) {key ref : Nat}
    {chunk : FtChunk PeerId} (hmem : table[key]? = some chunk) (href : chunk.refCnt = some ref)
    {count : Int} (hheap : heap[ref]? = some count) (hlast : count - 1 = 0)
    (hpending : ∀ id, pending' id = if chunk.id = id then none else pending id) :
    Pieces pending' high (table.erase key) (heap.erase ref) next := by
  obtain ⟨r, hr, _, hcounter⟩ := hpieces.counted hmem
  obtain rfl : ref = r := Option.some.inj (href.symm.trans hr)
  obtain rfl : count = pieceCount table chunk.id := Option.some.inj (hheap.symm.trans hcounter)
  have hcount := pieceCount_erase hmem
  have hother : ∀ {k : Nat} {c : FtChunk PeerId}, (table.erase key)[k]? = some c →
      chunk.id ≠ c.id := by
    intro k c hc heq
    have hpos := pieceCount_pos hc
    have hself := hcount chunk.id
    rw [if_pos rfl] at hself
    rw [← heq] at hpos
    omega
  constructor
  · exact fun hc => hpieces.keyed (lookup_erase_imp hc).2
  · exact hpieces.packed.erase key
  · intro k c hc
    rw [hpending, if_neg (hother hc)]
    exact hpieces.inside (lookup_erase_imp hc).2
  · intro k c hc
    have hne := hother hc
    obtain ⟨_, hc⟩ := lookup_erase_imp hc
    obtain ⟨r, hr, hlt, hcounter⟩ := hpieces.counted hc
    have hsame := hpieces.shared hmem hc
    rw [href, hr] at hsame
    have hnew := hcount c.id
    rw [if_neg hne, Nat.zero_add] at hnew
    refine ⟨r, hr, hlt, ?_⟩
    rw [OrderedMap.lookup_erase_ne, hcounter, hnew]
    exact fun heq => hne (hsame.mp (congrArg some heq))
  · exact fun hc hc' => hpieces.shared (lookup_erase_imp hc).2 (lookup_erase_imp hc').2
  · intro id n hn
    rw [hpending] at hn
    split at hn
    · exact absurd hn nofun
    · next hne =>
        obtain ⟨k, c, hc, hcid⟩ := hpieces.present hn
        refine ⟨k, c, ?_, hcid⟩
        rw [OrderedMap.lookup_erase_ne, hc]
        rintro rfl
        rw [hmem] at hc
        cases hc
        exact hne hcid

/-- Time stamps do not matter. -/
theorem Pieces.retime (hpieces : Pieces pending high table heap next) {key : Nat}
    {chunk : FtChunk PeerId} (hmem : table[key]? = some chunk) (ts : Int) :
    Pieces pending high (table.insert key { chunk with ts := ts }) heap next ∧
      ∀ x, Covers FtChunk.size (table.insert key { chunk with ts := ts }) x ↔
        Covers FtChunk.size table x := by
  have hcases : ∀ {k : Nat} {c : FtChunk PeerId},
      (table.insert key { chunk with ts := ts })[k]? = some c →
      ∃ c', table[k]? = some c' ∧ c.offset = c'.offset ∧ c.size = c'.size ∧ c.id = c'.id ∧
        c.refCnt = c'.refCnt := by
    intro k c hc
    rcases lookup_insert_imp hc with ⟨rfl, rfl⟩ | ⟨_, hc⟩
    · exact ⟨chunk, hmem, rfl, rfl, rfl, rfl⟩
    · exact ⟨c, hc, rfl, rfl, rfl, rfl⟩
  have hcount : ∀ id, pieceCount (table.insert key { chunk with ts := ts }) id =
      pieceCount table id := by
    intro id
    have := OrderedMap.sumOver_insert_of_present
      (fun _ (c : FtChunk PeerId) => if c.id = id then 1 else 0) table
      { chunk with ts := ts } hmem
    rw [pieceCount, pieceCount]
    exact Nat.add_right_cancel this
  refine ⟨⟨?_, hpieces.packed.replace hmem rfl, ?_, ?_, ?_, ?_⟩,
    hpieces.packed.covers_replace hmem rfl⟩
  · intro k c hc
    obtain ⟨c', hc', hoffset, _⟩ := hcases hc
    rw [hoffset]
    exact hpieces.keyed hc'
  · intro k c hc
    obtain ⟨c', hc', _, hsize, hid, _⟩ := hcases hc
    rw [hsize, hid]
    exact hpieces.inside hc'
  · intro k c hc
    obtain ⟨c', hc', _, _, hid, hrefs⟩ := hcases hc
    rw [hcount, hid, hrefs]
    exact hpieces.counted hc'
  · intro k k' c c' hc hc'
    obtain ⟨b, hb, _, _, hid, hrefs⟩ := hcases hc
    obtain ⟨b', hb', _, _, hid', hrefs'⟩ := hcases hc'
    rw [hid, hid', hrefs, hrefs']
    exact hpieces.shared hb hb'
  · intro id n hn
    obtain ⟨k, c, hc, hcid⟩ := hpieces.present hn
    by_cases hk : key = k
    · subst hk
      rw [hmem] at hc
      cases hc
      exact ⟨key, _, OrderedMap.lookup_insert_self _ _ _, hcid⟩
    · exact ⟨k, c, by rw [OrderedMap.lookup_insert_ne _ _ hk, hc], hcid⟩

end RetroShare.Ft
