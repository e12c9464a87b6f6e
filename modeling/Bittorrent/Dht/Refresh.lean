import Bittorrent.Dht.Bootstrap

/-!
The refresh: one bucket at a time, round and round, for as long as the table lives.
-/
namespace DhtRefresh
open Rust Action DhtNode DhtTable DhtMessage DhtTransaction DhtWorker DhtBootstrap

def refreshIntervalTimeout : Nat := fromMillis 6000
def refreshZeroTimeout : Nat := fromMillis 3000
def refreshConcurrency : Nat := 4

inductive RefreshStatus where
  | refreshing | failed
  deriving DecidableEq

structure TableRefresh where
  idGenerator : MIDGenerator
  currRefreshBucket : Nat
  sendMessageNum : Nat

section Model
variable {ε : Type}

/-- The two filters of `refresh_next_bucket`. -/
def refreshable (n : Node) : Timed ε Bool := do
  let s ← n.status
  if s = .questionable then do
    let recent ← n.recentlyRequestedFrom
    pure (!recent)
  else
    pure false

namespace TableRefresh

def new (idGenerator : MIDGenerator) : TableRefresh := ⟨idGenerator, 0, 0⟩

def requestNodes (tableId targetId : NodeId) :
    List NodeHandle → TableRefresh → Action Shared ε (RefreshStatus × TableRefresh)
  | [], r => pure (.refreshing, r)
  | node :: rest, r => do
    let (transId, idGenerator) ← generate r.idGenerator
    let r := { r with idGenerator := idGenerator }
    if ← sendOut (FindNodeRequest.encode ⟨transId.asRef, tableId, targetId⟩) node.addr then do
      localRequest node
      requestNodes tableId targetId rest { r with sendMessageNum := r.sendMessageNum + 1 }
    else
      pure (.failed, r)

def refreshNextBucket (r : TableRefresh) : Action Shared ε (RefreshStatus × TableRefresh) := do
  let r := { r with
    sendMessageNum := 0
    currRefreshBucket := if r.currRefreshBucket = maxBuckets then 0 else r.currRefreshBucket }
  let s ← Action.get
  let targetId ← Action.lift (flipIdBitAtIndex s.table.nodeId r.currRefreshBucket)
  let nodes ← closestWhere refreshable targetId refreshConcurrency
  requestNodes s.table.nodeId targetId nodes r

def continueRefresh (r : TableRefresh) : Action Shared ε (RefreshStatus × TableRefresh) := do
  let (status, r) ← r.refreshNextBucket
  if status = .failed then
    pure (.failed, r)
  else do
    let (transId, idGenerator) ← generate r.idGenerator
    let delay := if r.sendMessageNum ≠ 0 then refreshIntervalTimeout else refreshZeroTimeout
    let _ ← scheduleIn delay (.checkTableRefresh transId)
    pure (.refreshing, { r with
      idGenerator := idGenerator
      currRefreshBucket := r.currRefreshBucket + 1 })

end TableRefresh

end Model

section Sound
variable {ε : Type} {E : Prop} {o : Outside}

namespace TableRefresh

end TableRefresh

end Sound

end DhtRefresh
