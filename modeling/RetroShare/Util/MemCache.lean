import RetroShare.Foundation.Multimap
import RetroShare.Foundation.OrderedMap
import RetroShare.Foundation.Transition
import RetroShare.Foundation.Word

/-!
# Memory cache

`RsMemCache` keeps its data in a map and, beside it, the keys in the order of their last access. The
function that moves a key in that order takes a time of 0 for a key that is new, or is to be removed.
-/

namespace RetroShare.Util

structure CacheData (Key Value : Type) where
  key : Key
  data : Value
  ts : Int

structure RsMemCache (Key Value : Type) [LinearOrder Key] where
  mDataMap : OrderedMap Key (CacheData Key Value)
  mLruMap : Multimap Int Key
  mDataCount : Nat
  mMaxSize : Nat

namespace RsMemCache

variable {Key Value : Type} [LinearOrder Key]

def new (maxSize : Nat) : RsMemCache Key Value :=
  { mDataMap := ∅, mLruMap := .empty, mDataCount := 0, mMaxSize := maxSize }

/-- Nothing is added in the place of an entry that is not found. -/
def updateLrumap (s : RsMemCache Key Value) (key : Key) (oldTs newTs : Int) :
    RsMemCache Key Value :=
  if oldTs = 0 then { s with mLruMap := s.mLruMap.insert newTs key }
  else if (oldTs, key) ∈ s.mLruMap.entries then
    let lru := s.mLruMap.eraseFirst fun entry => entry.1 = oldTs ∧ entry.2 = key
    { s with mLruMap := if newTs ≠ 0 then lru.insert newTs key else lru }
  else s

/-- An entry that is there gets a new time. -/
def touch (s : RsMemCache Key Value) (key : Key) (entry : CacheData Key Value) (now : Int) :
    RsMemCache Key Value :=
  updateLrumap { s with mDataMap := s.mDataMap.insert key { entry with ts := now } } key entry.ts now

def fetch (s : RsMemCache Key Value) (key : Key) (now : Int) : Option Value × RsMemCache Key Value :=
  match s.mDataMap[key]? with
  | none => (none, s)
  | some entry => (some entry.data, s.touch key entry now)

def erase (s : RsMemCache Key Value) (key : Key) : Bool × RsMemCache Key Value :=
  match s.mDataMap[key]? with
  | none => (false, s)
  | some entry =>
      let s := updateLrumap { s with mDataMap := s.mDataMap.erase key } key entry.ts 0
      (true, { s with mDataCount := Word.sub 32 s.mDataCount 1 })

/-- A missing entry is installed with empty data and a time of 0. -/
def ref [Inhabited Value] (s : RsMemCache Key Value) (key : Key) (now : Int) :
    RsMemCache Key Value :=
  match s.mDataMap[key]? with
  | none =>
      updateLrumap
        { s with
          mDataMap := s.mDataMap.insert key ⟨key, default, 0⟩
          mDataCount := Word.add 32 s.mDataCount 1 } key 0 0
  | some entry => s.touch key entry now

def store (s : RsMemCache Key Value) (key : Key) (data : Value) (now : Int) :
    RsMemCache Key Value :=
  match s.mDataMap[key]? with
  | none =>
      updateLrumap
        { s with
          mDataMap := s.mDataMap.insert key ⟨key, data, now⟩
          mDataCount := Word.add 32 s.mDataCount 1 } key 0 now
  | some entry =>
      updateLrumap { s with mDataMap := s.mDataMap.insert key ⟨key, data, now⟩ } key entry.ts now

def discardLru : Nat → RsMemCache Key Value → RsMemCache Key Value
  | 0, s => s
  | count + 1, s =>
      match s.mLruMap.entries with
      | [] => s
      | (_, key) :: _ =>
          let s := { s with mLruMap := s.mLruMap.eraseFirst fun _ => true }
          match s.mDataMap[key]? with
          | none => s
          | some _ =>
              discardLru count
                { s with
                  mDataMap := s.mDataMap.erase key
                  mDataCount := Word.sub 32 s.mDataCount 1 }

/-- What an `unsigned` becomes as an `int`. -/
def toInt (n : Nat) : Int := if n < 2 ^ 31 then n else n - 2 ^ 32

def resize (s : RsMemCache Key Value) : RsMemCache Key Value :=
  let countToClear := if s.mMaxSize < s.mDataCount then toInt (s.mDataCount - s.mMaxSize) else 0
  if 0 < countToClear then discardLru countToClear.toNat s else s

/-! ### Runs -/

/-- A call, with the time it is made at. -/
inductive Op (Key Value : Type)
  | store (key : Key) (data : Value) (now : Int)
  | fetch (key : Key) (now : Int)
  | ref (key : Key) (now : Int)
  | erase (key : Key)
  | resize

def step [Inhabited Value] (s : RsMemCache Key Value) : Op Key Value → Option (RsMemCache Key Value)
  | .store key data now => some (s.store key data now)
  | .fetch key now => some (s.fetch key now).2
  | .ref key now => some (s.ref key now)
  | .erase key => some (s.erase key).2
  | .resize => some s.resize

/-- Times are positive. -/
def Op.Timely : Op Key Value → Prop
  | .store _ _ now | .fetch _ now | .ref _ now => 0 < now
  | .erase _ | .resize => True

end RsMemCache

end RetroShare.Util
