import Bittorrent.Dht.Datagram
import Bittorrent.Dht.Krpc

/-!
Which datagrams a handler survives. What comes next from outside (clock readings, random numbers,
whether a receiver is still there) is not under its control, so a datagram is survived if the
handler returns whatever comes, and the clock does not run backwards.
-/
namespace DhtRobust
open Rust Action UtilSha UtilTimer BencodeDecode BencodePanic DhtNode DhtTable DhtPlacement
  DhtMessage DhtTransaction DhtStorage DhtToken DhtWorker DhtBootstrap DhtRefresh DhtLookup
  DhtHandler DhtServing DhtParsing DhtDatagram DhtKrpc

/-- What holds of every handler in use. -/
structure Sound (h : Handler) : Prop where
  placed : Placed h.shared.table
  actions : ∀ entry ∈ h.tableActions, soundAction entry.2
  future : ∀ action ∈ h.futureActions, soundFuture action

section Reachable
variable (sha : Bytes → ShaHash)

/-- One event of the loop. A timeout comes out of the timer, which is then as the poll left it. -/
inductive Step : Handler → Handler → Prop where
  | command {h h' : Handler} (command : OneshotTask)
      (ended : (handleCommand command h : Outcome Unit Unit × Handler) = (.ok (), h')) : Step h h'
  | closed {h h' : Handler} (ended : (shutdown h : Outcome Unit Unit × Handler) = (.ok (), h')) :
      Step h h'
  | datagram {h h' : Handler} (buffer : Bytes) (fits : buffer.length ≤ isizeMax)
      (addr : SocketAddr)
      (ended : (handleIncoming sha buffer addr h : Outcome Unit Unit × Handler) = (.ok (), h')) :
      Step h h'
  | timeout {h h' : Handler} (task : ScheduledTask) (timer : Timer ScheduledTask)
      (ended : (handleTimeout task { h with shared := { h.shared with timer := timer } } :
        Outcome Unit Unit × Handler) = (.ok (), h')) : Step h h'

inductive Reachable : Handler → Prop where
  | start {h : Handler} (nodeId : NodeId) (readOnly : Bool) (localAddr : SocketAddr)
      (announcePort : Option UInt16) (world : World Item) (steady : Reached (.after 0) world)
      (created : (new (RoutingTable.new nodeId) readOnly localAddr announcePort world :
        Outcome Unit Handler) = .ok h) : Reachable h
  | step {h h' : Handler} (before : Reachable h) (step : Step sha h h') : Reachable h'

end Reachable

variable {h : Handler} {buffer : Bytes} {r : BencodeValue.BencodeRef} {m : MessageType}

section Survival
variable {E : Prop} {o : Outside} {w : List Channel}

/-- What a message must be like so that it is survived, by a handler with this mode, table and
    waiting clients, from this time on. -/
def Harmless (readOnly : Bool) (table : RoutingTable) (waiting : List Channel) (now : Instant) :
    MessageType → Prop
  | .request request => readOnly = true ∨ (waiting = [] ∧
      ∀ target, asksFor request = some target → ∀ time, now ≤ time → V4Only table target time)
  | .response (.findNode f) => f.transId.length = transactionIdBytes ∧ waiting = [] ∧
      (f.nodes.nodes = [] ∨ quarterHour ≤ now)
  | .response (.getPeers g) => g.transId.length = transactionIdBytes ∧
      (bringsNodes g.infoType → waiting = [])
  | _ => True

variable (sha : Bytes → ShaHash)

theorem handle_incoming_message (decoded : BencodeRef.decode buffer .default = .ok r)
    (read : MessageType.new r.kind = .ok m) (addr : SocketAddr) (h : Handler) :
    (handleIncoming sha buffer addr h : Outcome Unit Unit × Handler) =
      if handleIncomingPreprocess h.readOnly (.ok m) then handleMessage sha m addr h
      else (.ok (), h) := by
  unfold handleIncoming
  rw [decoded]
  dsimp only
  rw [read]
  change (if handleIncomingPreprocess h.readOnly (.ok m) = true then
    handleMessage sha m addr else pure () : Action Handler Unit Unit) h = _
  split <;> rfl

end Survival

section Reached
variable {o : Outside}

variable {table : RoutingTable} {world : World Item}

variable {parts : (AIDGenerator × TableRefresh × TransactionID) × TokenStore}

end Reached

section Condition
variable {sha : Bytes → ShaHash} {readOnly : Bool} {table : RoutingTable} {waiting : List Channel}
  {now : Instant} {addr : SocketAddr}

/-- A handler returns, whatever comes from outside, from every state with these components. -/
def Survives (sha : Bytes → ShaHash) (readOnly : Bool) (table : RoutingTable)
    (waiting : List Channel) (now : Instant) (buffer : Bytes) (addr : SocketAddr) : Prop :=
  ∀ h : Handler, Sound h → h.readOnly = readOnly → h.shared.table = table →
    h.statusTx = waiting → Reached (.after now) h.shared.world →
    ∃ h', (handleIncoming sha buffer addr h : Outcome Unit Unit × Handler) = (.ok (), h')

def deadWorld (time : Instant) : World Item := ⟨fixed time, fun _ => 0, fun _ => 0, fun _ => false, []⟩

/-- A handler with these components and actions in such a world. -/
def stranded (readOnly : Bool) (table : RoutingTable) (waiting : List Channel)
    (actions : List (ActionID × TableAction)) (time : Instant) : Handler where
  status := .bootStrapIng
  statusTx := waiting
  tableActions := actions
  readOnly := readOnly
  localAddr := .v4 0 0 0 0 0
  announcePort := none
  tokenStore := ⟨0, 0, 0⟩
  aidGenerator := ⟨⟨0, 0, []⟩⟩
  activeStores := AnnounceStorage.new
  futureActions := []
  eventNotifiers := []
  shared := ⟨table, Timer.new, deadWorld time⟩

variable (transId : TransactionID)

end Condition

theorem message_arrives (m : MessageType) (fits : (encodeMessage m).length ≤ isizeMax)
    (held : tokenless m = false) :
    ∃ r, BencodeRef.decode (encodeMessage m) .default = .ok r ∧
      MessageType.new r.kind = .ok (readAs m) := by
  obtain ⟨r, decoded, value⟩ := message_decoded m fits
  rw [← message_read m held, ← value]
  exact ⟨r, decoded, rfl⟩

end DhtRobust
