import Bittorrent.Lib.AssocMap
import Bittorrent.Lib.World
import Bittorrent.Dht.Node

/-!
Contact information by info hash. The items are kept twice: under their hash, and in the order in
which they expire.
-/
namespace DhtStorage
open Rust Action DhtNode

def maxItemsStored : Nat := 500

def expirationTime : Int := 24 * 60 * 60 * 1000000000

/-- An `AnnounceItem` is nothing but its expiration. -/
structure ItemExpiration where
  address : SocketAddr
  inserted : Int
  infoHash : InfoHash
  deriving DecidableEq

/-- Equality of the source, which leaves out the time. -/
def ItemExpiration.same (a b : ItemExpiration) : Bool :=
  a.address = b.address ∧ a.infoHash = b.infoHash

def ItemExpiration.isExpired (item : ItemExpiration) (now : Int) : Bool :=
  expirationTime ≤ now - item.inserted

structure AnnounceStorage where
  storage : List (InfoHash × List ItemExpiration)
  expires : List ItemExpiration

namespace AnnounceStorage

def new : AnnounceStorage := ⟨[], []⟩

/-- Takes one expired item out of the list of its hash, and an empty list out of the map. -/
def dropItem (storage : List (InfoHash × List ItemExpiration)) (item : ItemExpiration) :
    List (InfoHash × List ItemExpiration) :=
  match AssocMap.get item.infoHash storage with
  | some items =>
    let items := items.filter fun a => !a.same item
    if items.isEmpty then AssocMap.remove item.infoHash storage
    else AssocMap.insert item.infoHash items storage
  | none => storage

def removeExpiredItems (s : AnnounceStorage) (currTime : Int) : AnnounceStorage :=
  let expired := s.expires.takeWhile (·.isExpired currTime)
  ⟨expired.foldl dropItem s.storage, s.expires.drop expired.length⟩

/-- Whether the item was there before, and nothing if there is no room for it. -/
def insertContact (s : AnnounceStorage) (item : ItemExpiration) : Option Bool × AnnounceStorage :=
  let items := (AssocMap.get item.infoHash s.storage).getD []
  let alreadyInList := items.any (·.same item)
  if alreadyInList then (some true, s)
  else if s.expires.length < maxItemsStored then
    (some false, { s with storage := AssocMap.insert item.infoHash (items ++ [item]) s.storage })
  else (none, s)

section Operations
variable {ν ε : Type}

def add (s : AnnounceStorage) (infoHash : InfoHash) (address : SocketAddr) (currTime : Int) :
    Action (World ν) ε (Bool × AnnounceStorage) := do
  let s := s.removeExpiredItems currTime
  let inserted ← utcNow
  let item : ItemExpiration := ⟨address, inserted, infoHash⟩
  match s.insertContact item with
  | (some true, s) =>
    pure (true, { s with expires := (s.expires.filter fun i => !i.same item) ++ [item] })
  | (some false, s) => pure (true, { s with expires := s.expires ++ [item] })
  | (none, s) => pure (false, s)

def addItem (s : AnnounceStorage) (infoHash : InfoHash) (address : SocketAddr) :
    Action (World ν) ε (Bool × AnnounceStorage) := do
  let currTime ← utcNow
  s.add infoHash address currTime

/-- The addresses for which the closure is called, in order. -/
def find (s : AnnounceStorage) (infoHash : InfoHash) (currTime : Int) :
    List SocketAddr × AnnounceStorage :=
  let s := s.removeExpiredItems currTime
  (((AssocMap.get infoHash s.storage).getD []).map (·.address), s)

def findItems (s : AnnounceStorage) (infoHash : InfoHash) :
    Action (World ν) ε (List SocketAddr × AnnounceStorage) := do
  let currTime ← utcNow
  pure (s.find infoHash currTime)

variable (s : AnnounceStorage)

variable (infoHash : InfoHash)

theorem add_returns (address : SocketAddr)
    (w : World ν) : ∃ added s' w',
      (s.addItem infoHash address : Action (World ν) ε _) w = (.ok (added, s'), w') := by
  unfold addItem add
  rw [Action.bind_run (show utcNow w = (.ok (w.utc 0), _) from rfl),
    Action.bind_run (show utcNow _ = (.ok (w.utc 1), _) from rfl)]
  generalize (s.removeExpiredItems (w.utc 0)).insertContact _ = result
  obtain ⟨_ | _ | _, s'⟩ := result <;> exact ⟨_, _, _, rfl⟩

variable {E : Prop} {o : Outside}

end Operations

end AnnounceStorage

end DhtStorage
