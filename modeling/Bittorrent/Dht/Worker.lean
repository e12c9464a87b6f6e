import Bittorrent.Lib.AssocMap
import Bittorrent.Util.Timer
import Bittorrent.Dht.Message
import Bittorrent.Dht.Transaction
import Bittorrent.Dht.Update

/-!
What the parts of the DHT worker share: the routing table, the timer, and the world outside with
the channel for outgoing datagrams. `Ready` is the condition under which all of it works.
-/
namespace DhtWorker
open Rust Action UtilSha UtilTimer DhtNode DhtTable DhtPlacement DhtClosest DhtVisit DhtUpdate
  DhtTransaction

inductive ScheduledTask where
  | checkTableRefresh (transId : TransactionID)
  | checkBootstrapTimeout (transId : TransactionID)
  | checkLookupTimeout (transId : TransactionID)
  | checkLookupEndGame (transId : TransactionID)

inductive ShutdownCause where
  | bootstrapFailed | clientInitiated | unspecified
  deriving DecidableEq

inductive DhtEvent where
  | bootstrapCompleted
  | lookupCompleted (infoHash : InfoHash)
  | lookupAnFail (infoHash : InfoHash)
  | shuttingDown (cause : ShutdownCause)
  deriving DecidableEq

inductive DhtStatus where
  | init | bootStrapIng | fail | completed
  deriving DecidableEq

structure DhtValues where
  dhtId : NodeId
  dhtAddress : SocketAddr
  dhtStatus : DhtStatus
  goodNodeCount : Nat
  questionableNodeCount : Nat
  bucketCount : Nat

inductive Item where
  | datagram (bytes : Bytes) (addr : SocketAddr)
  | status (bootstrapped : Bool)
  | event (event : DhtEvent)
  | values (values : DhtValues)
  | peer (addr : SocketAddr)

def messageOut : Channel := 0

structure Shared where
  table : RoutingTable
  timer : Timer ScheduledTask
  world : World Item

section Operations
variable {ε α : Type}

def inWorld (m : Action (World Item) ε α) : Action Shared ε α :=
  Action.zoom Shared.world (fun s world => { s with world := world }) m

def readTable (f : RoutingTable → Timed ε α) : Action Shared ε α := do
  let s ← Action.get
  inWorld (timed (f s.table))

def onTable (f : RoutingTable → Timed ε RoutingTable) : Action Shared ε Unit := do
  let table ← readTable f
  Action.modify fun s => { s with table := table }

def addNode (node : Node) : Action Shared ε Unit := onTable fun t => t.addNode node

def localRequest (node : NodeHandle) : Action Shared ε Unit :=
  onTable fun t => t.updateNode node Node.localRequest

def sendOut (bytes : Bytes) (addr : SocketAddr) : Action Shared ε Bool :=
  inWorld (World.send messageOut (.datagram bytes addr))

def scheduleIn (delay : Nat) (task : ScheduledTask) : Action Shared ε Timeout := do
  let t ← inWorld (timed now)
  let s ← Action.get
  let (timeout, timer) := s.timer.scheduleAt (t + delay) task
  Action.modify fun s => { s with timer := timer }
  pure timeout

def cancel (timeout : Timeout) : Action Shared ε Unit :=
  Action.modify fun s => { s with timer := (s.timer.cancel timeout).2 }

def generate (g : MIDGenerator) : Action Shared ε (TransactionID × MIDGenerator) :=
  inWorld g.generate

def fromMillis (n : Nat) : Nat := n * 1000000

/-- Indexing outside of the id panics. -/
def flipIdBitAtIndex (nodeId : NodeId) (index : Nat) : Outcome ε NodeId :=
  if inside : index / 8 < shaHashLen then
    .ok ⟨nodeId.hash.set (index / 8)
      (nodeId.hash[index / 8] ^^^ ((1 : UInt8) <<< UInt8.ofNat (7 - index % 8))) inside⟩
  else .panic

def hasStatus (status : NodeStatus) (n : Node) : Timed ε Bool := do
  let s ← n.status
  pure (s = status)

/-- The handles of the nodes that `closest_nodes(target).filter(wanted).take(count)` yields. -/
def closestWhere (wanted : Node → Timed ε Bool) (target : NodeId) (count : Nat) :
    Action Shared ε (List NodeHandle) :=
  readTable fun t => do
    let walk ← Action.lift (closestNodes t target)
    let nodes ← walk.takeWhere wanted walkFuel count
    pure (nodes.map (·.handle))

/-- `closest_nodes(own id).filter(status).count()` -/
def countNodes (status : NodeStatus) : Action Shared ε Nat :=
  readTable fun t => do
    let walk ← Action.lift (closestNodes t t.nodeId)
    walk.countWhere (hasStatus status) walkFuel

end Operations

section Ready
variable {ε α : Type} {E : Prop} {o : Outside}

structure Ready (o : Outside) (s : Shared) : Prop where
  placed : Placed s.table
  reached : Reached o s.world

/-- Ready, with a table of which something is known. -/
structure ReadyWith (o : Outside) (T : RoutingTable → Prop) (s : Shared) : Prop where
  ready : Ready o s
  table : T s.table

variable {T : RoutingTable → Prop}

theorem runs_in_world_with {m : Action (World Item) ε α} {F : α → Prop}
    (main : Gives ε E (Reached o) m fun a => F a) :
    Gives ε E (ReadyWith o T) (inWorld m) fun a => F a := by
  apply runs_zoom main
  · exact fun s known => known.ready.reached
  · intro s a w known after
    exact ⟨after.1, ⟨known.ready.placed, after.2⟩, known.table⟩

theorem runs_read_table_with {f : RoutingTable → Timed ε α} {Q : α → Prop}
    (main : ∀ t, Placed t → T t → Timely o.since (f t) fun a _ => Q a) :
    Gives ε E (ReadyWith o T) (readTable f) fun a => Q a := by
  apply runs_get_bind
  intro s known
  apply runs_in_world_with
  apply runs_post (runs_timed (main s.table known.ready.placed known.table))
  rintro a w ⟨⟨⟨time, later, value⟩, _⟩, reached⟩
  exact ⟨value, reached⟩

variable {f : RoutingTable → Timed ε RoutingTable}

theorem runs_read_table {f : RoutingTable → Timed ε α} {Q : α → Prop}
    (main : ∀ t, Placed t → Timely o.since (f t) fun a _ => Q a) :
    Gives ε E (Ready o) (readTable f) fun a => Q a := by
  have reads : Runs E (ReadyWith o fun _ => True) (readTable f)
      fun a s => Q a ∧ ReadyWith o (fun _ => True) s :=
    runs_read_table_with fun t placed _ => main t placed
  apply runs_weaken reads
  · exact fun s ready => ⟨ready, trivial⟩
  · exact fun a s after => ⟨after.1, after.2.ready⟩

theorem has_status_timely (status : NodeStatus) (n : Node) (since : Instant) :
    Timely since (hasStatus status n : Timed ε Bool) fun _ _ => True := by
  apply timely_bind (Node.timely_status n)
  intro s time _ _
  exact timely_pure trivial

theorem closest_nodes_timely {since : Instant} {t : RoutingTable} (placed : Placed t) (target : NodeId) :
    Timely since (Action.lift (closestNodes t target) : Timed ε ClosestNodes)
      fun walk _ => walk = startOf t target := by
  rw [closest_nodes_ok placed target]
  exact timely_pure rfl

theorem runs_closest_where {wanted : Node → Timed ε Bool}
    (asks : ∀ n since, Timely since (wanted n) fun _ _ => True) (target : NodeId) (count : Nat) :
    Gives ε E (Ready o) (closestWhere wanted target count)
      fun nodes => nodes.Nodup := by
  apply runs_read_table
  intro t placed
  apply timely_bind (closest_nodes_timely placed target)
  rintro walk time _ rfl
  have apart : (good time (left (startOf t target))).Pairwise fun m n => m.handle ≠ n.handle :=
    ((remaining_perm placed target time).pairwise_iff fun different same => different same.symm).mpr
      (good_handles placed time)
  apply timely_bind (take_where_timely asks walkFuel count _ time (start_walking t target)
    (left_length t target))
  intro nodes time' _ walked
  exact timely_pure (List.pairwise_map.mpr (apart.sublist walked))

end Ready

end DhtWorker
