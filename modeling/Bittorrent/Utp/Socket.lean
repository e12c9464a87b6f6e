import Bittorrent.Lib.Action
import Bittorrent.Lib.Net
import Bittorrent.Utp.Receive

/-!
The `UtpSocket` state machine with everything it asks of its surroundings: datagrams, read
timeouts and errors come from a script, so do the results of sending, the clock and the random
numbers. Floating point is left to `FloatOps`, the rest of the congestion control is as in the
source. The functions call each other in a circle (`recv`, `handle_packet`, `resend_lost_packet`,
`send_packet`, `recv`), which is cut by giving them the inner `recv` as an argument; `recv` ties
the knot with fuel. A `trace` records what touches the receiving half and what is sent.
-/
namespace UtpSocket
open Rust UtpPacket UtpReceive

inductive SocketState where
  | new | connected | synSent | finSent | resetReceived | closed
  deriving DecidableEq, Repr

inductive SocketError where
  | connectionClosed
  | connectionReset
  | connectionTimedOut
  | invalidReply
  | unimplemented (state : SocketState) (ty : PacketType)
  | io
  deriving DecidableEq, Repr

structure DelayDifferenceSample where
  receivedAt : UInt32
  difference : Int
  deriving DecidableEq, Repr

structure Socket extends ReceiveSide where
  connectedTo : SocketAddr
  senderConnectionId : UInt16
  receiverConnectionId : UInt16
  seqNr : UInt16
  state : SocketState
  sendWindow : List Packet
  unsentQueue : List Packet
  duplicateAckCount : Nat
  lastAcked : UInt16
  lastAckedTimestamp : UInt32
  rtt : Int
  rttVariance : Int
  currWindow : Nat
  remoteWndSize : UInt32
  baseDelays : List Int
  currentDelays : List DelayDifferenceSample
  theirDelay : Int
  lastRollover : UInt32
  congestionTimeout : Nat
  cwnd : Nat
  maxRetransmissionRetries : Nat

/-- What a read of the UDP socket returns; a datagram that is no valid packet is `none`. -/
inductive NetEvent where
  | datagram (packet : Option Packet) (src : SocketAddr)
  | timeout
  | failure

/-- `follow`: `handle_packet` started on this packet. `store`: it went into the incoming buffer.
    `flush`: up to `room` bytes were read, for the caller of the socket or into a buffer that the
    socket throws away. `send`: a packet was handed to UDP. -/
inductive Event where
  | follow (packet : Packet)
  | store (packet : Packet)
  | flush (room : Nat) (caller : Bool)
  | send (packet : Packet)

structure World where
  socket : Socket
  net : List NetEvent
  sendOk : List Bool
  clock : List UInt32
  random : List UInt16
  /-- newest first -/
  trace : List Event

abbrev Sock := Action World SocketError

/-- The two results the socket computes in `f64`: the filtered delay of the samples, and the
    congestion window from the old one, the queuing delay and the bytes newly acknowledged. -/
structure FloatOps where
  filteredDelay : List Int → Int
  congestionWindow : Nat → Nat → Nat → Nat

def bufSize : Nat := 1500
def allowedIncrease : Nat := 1
def mss : Nat := 1400
def minCwnd : Nat := 2
def initCwnd : Nat := 2
def initialCongestionTimeout : Nat := 2000
def minCongestionTimeout : Nat := 500
def maxCongestionTimeout : Nat := 60000
def baseHistory : Nat := 10
def windowSize : UInt32 := 1024 * 1024
def preSendTimeout : Int := 500000
def maxBaseDelayAge : Int := 60000000

def sock : Sock Socket := do
  let w ← Action.get
  pure w.socket

def update (f : Socket → Socket) : Sock Unit :=
  Action.modify fun w => { w with socket := f w.socket }

def record (e : Event) : Sock Unit := Action.modify fun w => { w with trace := e :: w.trace }

/-- A change of the receiving half, with the event that says what it was. -/
def receiveStep (e : Event) (f : ReceiveSide → ReceiveSide) : Sock Unit :=
  Action.modify fun w => { w with
    socket := { w.socket with toReceiveSide := f w.socket.toReceiveSide }
    trace := e :: w.trace }

def u32Add (a b : Nat) : Sock Nat := if a + b < 2 ^ 32 then pure (a + b) else Action.abort
def u32Sub (a b : Nat) : Sock Nat := if b ≤ a then pure (a - b) else Action.abort
def u64Mul (a b : Nat) : Sock Nat := if a * b < 2 ^ 64 then pure (a * b) else Action.abort
def i32 (n : Int) : Sock Int := if -2 ^ 31 ≤ n ∧ n < 2 ^ 31 then pure n else Action.abort

def nowMicroseconds : Sock UInt32 := fun w =>
  match w.clock with
  | [] => (.ok 0, w)
  | t :: rest => (.ok t, { w with clock := rest })

def randomU16 : Sock UInt16 := fun w =>
  match w.random with
  | [] => (.ok 0, w)
  | n :: rest => (.ok n, { w with random := rest })

def udpSend (packet : Packet) : Sock Unit := do
  record (.send packet)
  fun w =>
    match w.sendOk with
    | false :: rest => (.err .io, { w with sendOk := rest })
    | true :: rest => (.ok (), { w with sendOk := rest })
    | [] => (.ok (), w)

/-- `socket.recv_from` on the UDP socket; with nothing left in the script it does not return. -/
def udpRecv : Sock NetEvent := fun w =>
  match w.net with
  | [] => (.unfinished, w)
  | e :: rest => (.ok e, { w with net := rest })

def timeSub (a b : UInt32) : Int := (a.toNat : Int) - b.toNat

def absDiff (a b : UInt32) : Int := if b < a then timeSub a b else timeSub b a

def delayU32 (d : Int) : Nat := (d % 2 ^ 32).toNat

def delayTimestamp (d : Int) : UInt32 := UInt32.ofNat (delayU32 d)

def prepareReply (original : Packet) (t : PacketType) : Sock Packet := do
  let s ← sock
  let now ← nowMicroseconds
  pure { Packet.new with
    ty := t
    timestamp := now
    timestampDifference := delayTimestamp (absDiff now original.timestamp)
    connectionId := s.senderConnectionId
    seqNr := s.seqNr
    ackNr := s.ackNr }

def finPacket (s : Socket) (now : UInt32) : Packet :=
  { Packet.new with
    ty := .fin
    timestamp := now
    connectionId := s.senderConnectionId
    seqNr := s.seqNr
    ackNr := s.ackNr }

/-- Three State packets in a row, whatever becomes of each. -/
def sendFastResendRequest : Sock Unit :=
  Action.forEach (fun _ => do
    let s ← sock
    let now ← nowMicroseconds
    Action.ignore (udpSend { Packet.new with
      ty := .state
      timestamp := now
      timestampDifference := delayTimestamp s.theirDelay
      connectionId := s.senderConnectionId
      seqNr := s.seqNr
      ackNr := s.ackNr })) [(), (), ()]

def handleReceiveTimeout : Sock Unit := do
  let doubled ← u64Mul (← sock).congestionTimeout 2
  update fun s => { s with congestionTimeout := doubled, cwnd := mss }
  let s ← sock
  match s.sendWindow with
  | [] =>
    if s.state = .finSent then do
      let now ← nowMicroseconds
      udpSend (finPacket s now)
    else if s.state ≠ .new then
      sendFastResendRequest
    else
      pure ()
  | first :: rest => do
    let now ← nowMicroseconds
    let packet := { first with timestamp := now }
    update fun s => { s with sendWindow := packet :: rest }
    udpSend packet

/-- The receive loop of `recv`, with the retries left. -/
def awaitDatagram : Nat → Sock (Option Packet × SocketAddr)
  | 0 => do
    update fun s => { s with state := .closed }
    Action.fail .connectionTimedOut
  | retries + 1 => do
    let s ← sock
    -- a read timeout of zero is an error, and `expect` makes it a panic
    if s.state ≠ .new ∧ s.congestionTimeout = 0 then
      Action.abort
    else
      match ← udpRecv with
      | .datagram packet src => pure (packet, src)
      | .failure => Action.fail .io
      | .timeout => do
        handleReceiveTimeout
        awaitDatagram retries

def flushBuffer (room : Nat) (caller : Bool) : Sock Bytes := do
  let s ← sock
  let (out, r) ← Action.lift (s.toReceiveSide.flushIncomingBuffer room)
  receiveStep (.flush room caller) fun _ => r
  pure out

section Congestion
variable (ops : FloatOps)

def updateBaseDelay (baseDelay : Int) (now : UInt32) : Sock Unit := update fun s =>
  match s.baseDelays.getLast? with
  | none => { s with lastRollover := now, baseDelays := [baseDelay] }
  | some last =>
    if maxBaseDelayAge < timeSub now s.lastRollover then
      let kept := if s.baseDelays.length = baseHistory then s.baseDelays.drop 1 else s.baseDelays
      { s with lastRollover := now, baseDelays := kept ++ [baseDelay] }
    else if baseDelay < last then
      { s with baseDelays := s.baseDelays.dropLast ++ [baseDelay] }
    else s

def updateCurrentDelay (v : Int) (now : UInt32) : Sock Unit := update fun s =>
  let kept := s.currentDelays.dropWhile fun d => s.rtt * 100 < timeSub now d.receivedAt
  { s with currentDelays := kept ++ [⟨now, v⟩] }

def updateCongestionTimeout (currentDelay : Int) : Sock Unit := do
  let s ← sock
  let delta ← i32 (s.rtt - currentDelay)
  let distance ← i32 delta.natAbs
  let change ← i32 (distance - s.rttVariance)
  let variance ← i32 (s.rttVariance + change.tdiv 4)
  let drift ← i32 (currentDelay - s.rtt)
  let rtt ← i32 (s.rtt + drift.tdiv 8)
  let weighted ← i32 (variance * 4)
  let total ← i32 (rtt + weighted)
  -- the cast to u64 turns a negative sum into a huge one
  let timeout := min (max (total % 2 ^ 64).toNat minCongestionTimeout) maxCongestionTimeout
  update fun s => { s with rtt := rtt, rttVariance := variance, congestionTimeout := timeout }

def queuingDelay (s : Socket) : Int :=
  ops.filteredDelay (s.currentDelays.map (·.difference)) - (s.baseDelays.min?).getD 0

def updateCongestionWindow (queuing bytesNewlyAcked : Nat) : Sock Unit := do
  let s ← sock
  let grown := ops.congestionWindow s.cwnd queuing bytesNewlyAcked
  let maxAllowed ← u32Add s.currWindow (allowedIncrease * mss)
  update fun s => { s with cwnd := max (min grown maxAllowed) (minCwnd * mss) }

/-- The estimates updated when an acknowledgement matches a packet of the send window. -/
def measure (packet : Packet) : Sock Unit := do
  let s ← sock
  match s.sendWindow.findIdx? fun p => packet.ackNr = p.seqNr with
  | none => pure ()
  | some index => do
    let acked := ((s.sendWindow.take (index + 1)).map Packet.len).sum
    let now ← nowMicroseconds
    let ourDelay := timeSub now ((s.sendWindow[index]?).map (·.timestamp) |>.getD 0)
    updateBaseDelay ourDelay now
    updateCurrentDelay ourDelay now
    let queuing := queuingDelay ops (← sock)
    updateCongestionWindow ops (delayU32 queuing) (acked % 2 ^ 32)
    let roundTrip := delayU32 (ourDelay - queuingDelay ops (← sock)) / 1000
    updateCongestionTimeout roundTrip

end Congestion

section Circle
variable (ops : FloatOps) (inner : Nat → Sock Bytes)

/-- The rate control loop of `send_packet`. What the inner `recv` reads goes into a buffer that
    is thrown away. -/
def awaitWindow (maxInflight : Nat) (start : UInt32) : Nat → Sock Unit
  | 0 => Action.cutOff
  | rounds + 1 => do
    let s ← sock
    if s.currWindow < maxInflight then
      pure ()
    else do
      let now ← nowMicroseconds
      if timeSub now start < preSendTimeout then do
        let _ ← inner bufSize
        awaitWindow maxInflight start rounds
      else
        pure ()

def sendPacket (rounds : Nat) (packet : Packet) : Sock Packet := do
  let s ← sock
  let maxInflight := max (minCwnd * mss) (min s.cwnd s.remoteWndSize.toNat)
  let start ← nowMicroseconds
  awaitWindow inner maxInflight start rounds
  let now ← nowMicroseconds
  let s ← sock
  let packet := { packet with timestamp := now, timestampDifference := delayTimestamp s.theirDelay }
  udpSend packet
  pure packet

def resendLostPacket (rounds : Nat) (lostPacketNr : UInt16) : Sock Unit := do
  let s ← sock
  match s.sendWindow.find? fun p => p.seqNr = lostPacketNr with
  | none => pure ()
  | some packet => Action.ignore (sendPacket inner rounds packet)

/-- The packets a selective acknowledgement leaves out, one by one, up to the last one sent. -/
def resendMissing (rounds : Nat) (ackNr lastSeqNr : UInt16) : Nat → List Bool → Sock Bool
  | _, [] => pure false
  | idx, received :: rest => do
    if received then
      resendMissing rounds ackNr lastSeqNr (idx + 1) rest
    else do
      let second ← Action.lift (u16Add ackNr 2)
      let seqNr ← Action.lift (u16Add second (UInt16.ofNat idx))
      if seqNr < lastSeqNr then do
        resendLostPacket inner rounds seqNr
        let _ ← resendMissing rounds ackNr lastSeqNr (idx + 1) rest
        pure true
      else
        pure false

/-- Three packets received past the missing one count as its loss. -/
def resendFirst (rounds : Nat) (ackNr : UInt16) (lossDetected : Bool) (extension : Extension) :
    Sock Bool := do
  if 3 ≤ extension.countOnes then do
    let next ← Action.lift (u16Add ackNr 1)
    resendLostPacket inner rounds next
    pure true
  else
    pure lossDetected

def processExtension (rounds : Nat) (ackNr : UInt16) (lossDetected : Bool)
    (extension : Extension) : Sock Bool := do
  if extension.ty ≠ .selectiveAck then
    pure lossDetected
  else do
    let lost ← resendFirst inner rounds ackNr lossDetected extension
    match (← sock).sendWindow.getLast? with
    | none => pure lost
    | some last => do
      let missing ← resendMissing inner rounds ackNr last.seqNr 0 extension.iter
      pure (lost || missing)

def processExtensions (rounds : Nat) (ackNr : UInt16) : Bool → List Extension → Sock Bool
  | lost, [] => pure lost
  | lost, e :: rest => do
    let lost' ← processExtension inner rounds ackNr lost e
    processExtensions rounds ackNr lost' rest

/-- The `for` loop of `advance_send_window` over the packets to forget. -/
def forget : List Packet → Sock Unit
  | [] => pure ()
  | packet :: rest => do
    update fun s => { s with sendWindow := s.sendWindow.drop 1 }
    let left ← u32Sub (← sock).currWindow packet.len
    update fun s => { s with currWindow := left }
    forget rest

def advanceSendWindow : Sock Unit := do
  let s ← sock
  match s.sendWindow.findIdx? fun p => p.seqNr = s.lastAcked with
  | none => pure ()
  | some position => forget (s.sendWindow.take (position + 1))

def countAck (packet : Packet) : Sock Unit := do
  let s ← sock
  if packet.ackNr = s.lastAcked then do
    let count ← u32Add s.duplicateAckCount 1
    update fun s => { s with duplicateAckCount := count }
  else do
    let now ← nowMicroseconds
    update fun s => { s with
      lastAcked := packet.ackNr, lastAckedTimestamp := now, duplicateAckCount := 1 }

/-- Three duplicate acknowledgements without a selective one ask for a fast resend. -/
def fastResend (rounds : Nat) (packet : Packet) : Sock Unit := do
  let s ← sock
  if s.sendWindow ≠ [] ∧ s.duplicateAckCount = 3 ∧
      packet.extensions.any (fun e => e.ty = .selectiveAck) = false then do
    let next ← Action.lift (u16Add packet.ackNr 1)
    resendLostPacket inner rounds next
  else
    pure ()

def halveWindow (lossDetected : Bool) : Sock Unit :=
  if lossDetected then
    update fun s => { s with cwnd := max (s.cwnd / 2) (minCwnd * mss) }
  else
    pure ()

def handleStatePacket (rounds : Nat) (packet : Packet) : Sock Unit := do
  countAck packet
  measure ops packet
  let s ← sock
  let lossDetected := decide (s.sendWindow ≠ [] ∧ s.duplicateAckCount = 3)
  let lossDetected ← processExtensions inner rounds packet.ackNr lossDetected packet.extensions
  fastResend inner rounds packet
  halveWindow lossDetected
  advanceSendWindow

/-- The selective acknowledgement that a reply carries when the packet is out of order. -/
def withSack (packet reply : Packet) : Sock Packet := do
  let s ← sock
  if 1 < packet.seqNr - s.ackNr then do
    let sack ← Action.lift s.toReceiveSide.buildSelectiveAck
    if sack ≠ [] then Action.lift (reply.setSack sack) else pure reply
  else
    pure reply

def handleDataPacket (packet : Packet) : Sock Packet := do
  let s ← sock
  let reply ← prepareReply packet (if s.state = .finSent then .fin else .state)
  withSack packet reply

/-- The `match` of `handle_packet` on the state and the type. -/
def dispatch (rounds : Nat) (packet : Packet) (src : SocketAddr) :
    SocketState → PacketType → Sock (Option Packet)
  | .new, .syn => do
    let seqNr ← randomU16
    let receiverId ← Action.lift (u16Add packet.connectionId 1)
    update fun s => { s with
      connectedTo := src
      ackNr := packet.seqNr
      seqNr := seqNr
      receiverConnectionId := receiverId
      senderConnectionId := packet.connectionId
      state := .connected
      lastDropped := packet.seqNr }
    let reply ← prepareReply packet .state
    pure (some reply)
  | _, .syn => do
    let reply ← prepareReply packet .reset
    pure (some reply)
  | .synSent, .state => do
    let before ← Action.lift (u16Sub packet.seqNr 1)
    let next ← Action.lift (u16Add (← sock).seqNr 1)
    let now ← nowMicroseconds
    update fun s => { s with
      connectedTo := src
      ackNr := before
      seqNr := next
      state := .connected
      lastAcked := packet.ackNr
      lastAckedTimestamp := now }
    pure none
  | .synSent, _ => Action.fail .invalidReply
  | .connected, .data | .finSent, .data => do
    let reply ← handleDataPacket packet
    pure (some reply)
  | .connected, .state => do
    handleStatePacket ops inner rounds packet
    pure none
  | .connected, .fin | .finSent, .fin => do
    let reply ← prepareReply packet .state
    let reply ← withSack packet reply
    update fun s => { s with state := .closed }
    pure (some reply)
  | .closed, .fin => do
    let reply ← prepareReply packet .state
    pure (some reply)
  | .finSent, .state => do
    if packet.ackNr = (← sock).seqNr then
      update fun s => { s with state := .closed }
    else
      handleStatePacket ops inner rounds packet
    pure none
  | _, .reset => do
    update fun s => { s with state := .resetReceived }
    Action.fail .connectionReset
  | state, ty => Action.fail (.unimplemented state ty)

def noteHeader (packet : Packet) : Sock Unit := do
  update fun s => { s with remoteWndSize := packet.wndSize }
  let now ← nowMicroseconds
  update fun s => { s with theirDelay := absDiff now packet.timestamp }

/-- `handle_packet` behind its first statement. -/
def answerPacket (rounds : Nat) (packet : Packet) (src : SocketAddr) : Sock (Option Packet) := do
  let s ← sock
  if packet.ty ≠ .syn ∧ s.state ≠ .synSent ∧
      ¬ (packet.connectionId = s.senderConnectionId ∨
        packet.connectionId = s.receiverConnectionId) then do
    let reply ← prepareReply packet .reset
    pure (some reply)
  else do
    noteHeader packet
    dispatch ops inner rounds packet src s.state packet.ty

def handlePacket (rounds : Nat) (packet : Packet) (src : SocketAddr) : Sock (Option Packet) := do
  receiveStep (.follow packet) fun r => r.follow packet
  answerPacket ops inner rounds packet src

def sendReply : Option Packet → Sock Unit
  | some reply => udpSend { reply with wndSize := windowSize }
  | none => pure ()

/-- A data packet goes into the buffer unless it repeats the last one taken out. -/
def storePacket (packet : Packet) : Sock Unit := do
  let s ← sock
  if packet.ty = .data ∧ 0 < packet.seqNr - s.lastDropped then
    receiveStep (.store packet) fun r => r.insertIntoBuffer packet
  else
    pure ()

/-- `recv` after a datagram has come in, down to the flush of the incoming buffer. -/
def receivePacket (rounds : Nat) (packet : Packet) (src : SocketAddr) : Sock Unit := do
  let reply ← handlePacket ops inner rounds packet src
  sendReply reply
  storePacket packet

def recvWith (rounds room : Nat) (caller : Bool) : Sock Bytes := do
  let s ← sock
  let (decoded, src) ← awaitDatagram s.maxRetransmissionRetries
  match decoded with
  | none => pure []
  | some packet => do
    receivePacket ops inner rounds packet src
    flushBuffer room caller

end Circle

/-- `recv` into a buffer of `room` bytes. The fuel bounds how deep calls nest and how often the
    rate control loop of `send_packet` goes round. -/
def recv (ops : FloatOps) : Nat → Nat → Bool → Sock Bytes
  | 0, _, _ => Action.cutOff
  | fuel + 1, room, caller =>
    recvWith ops (fun room => recv ops fuel room false) fuel room caller

section Calls
variable (ops : FloatOps) (fuel : Nat)

def recvUntil (room : Nat) : Nat → Sock Bytes
  | 0 => Action.cutOff
  | rounds + 1 => do
    if (← sock).state = .closed then
      pure []
    else do
      let out ← recv ops fuel room true
      if out = [] then recvUntil room rounds else pure out

def recvFrom (room : Nat) : Sock Bytes := do
  let out ← flushBuffer room true
  if out ≠ [] then
    pure out
  else if (← sock).state = .resetReceived then
    Action.fail .connectionReset
  else
    recvUntil ops fuel room fuel

/-- The loop of `flush`, which waits for acknowledgements with an empty buffer. -/
def flushLoop : Nat → Sock Unit
  | 0 => Action.cutOff
  | rounds + 1 => do
    if (← sock).sendWindow = [] then
      pure ()
    else do
      let _ ← recv ops fuel 0 true
      flushLoop rounds

def flush : Sock Unit := flushLoop ops fuel fuel

def pushSent (packet : Packet) : Sock Unit := do
  let grown ← u32Add (← sock).currWindow packet.len
  update fun s => { s with currWindow := grown, sendWindow := s.sendWindow ++ [packet] }

def send : Nat → Sock Unit
  | 0 => Action.cutOff
  | rounds + 1 => do
    match (← sock).unsentQueue with
    | [] => pure ()
    | packet :: rest => do
      update fun s => { s with unsentQueue := rest }
      let sent ← sendPacket (fun room => recv ops fuel room false) fuel packet
      pushSent sent
      send rounds

/-- `buf.chunks(MSS - HEADER_SIZE)` -/
def chunks : Nat → Bytes → List Bytes
  | 0, _ => []
  | n + 1, buf =>
    if buf = [] then [] else buf.take (mss - headerSize) :: chunks n (buf.drop (mss - headerSize))

def enqueue (chunk : Bytes) : Sock Unit := do
  let s ← sock
  let room ← u32Sub windowSize.toNat (s.sendWindow.length % 2 ^ 32)
  update fun s => { s with
    unsentQueue := s.unsentQueue ++ [{ Packet.withPayload chunk with
      wndSize := UInt32.ofNat room
      seqNr := s.seqNr
      ackNr := s.ackNr
      connectionId := s.senderConnectionId }]
    seqNr := s.seqNr + 1 }

def sendTo (buf : Bytes) : Sock Nat := do
  if (← sock).state = .closed then
    Action.fail .connectionClosed
  else do
    Action.forEach enqueue (chunks buf.length buf)
    send ops fuel fuel
    pure buf.length

/-- The loop of `close`: what is read goes into a buffer that is thrown away. -/
def closeLoop : Nat → Sock Unit
  | 0 => Action.cutOff
  | rounds + 1 => do
    if (← sock).state = .closed then
      pure ()
    else do
      let _ ← recv ops fuel bufSize false
      closeLoop rounds

def close : Sock Unit := do
  let s ← sock
  if s.state = .closed ∨ s.state = .new ∨ s.state = .synSent then
    pure ()
  else do
    flush ops fuel
    let now ← nowMicroseconds
    udpSend (finPacket (← sock) now)
    update fun s => { s with state := .finSent }
    closeLoop ops fuel fuel

inductive Call where
  | recvFrom (room : Nat)
  | recv (room : Nat)
  | flush
  | sendTo (buf : Bytes)
  | close

/-- One call with the bytes it returns to its caller. -/
def Call.run : Call → Sock Bytes
  | .recvFrom room => UtpSocket.recvFrom ops fuel room
  | .recv room => UtpSocket.recv ops fuel room true
  | .flush => do
    UtpSocket.flush ops fuel
    pure []
  | .sendTo buf => do
    let _ ← UtpSocket.sendTo ops fuel buf
    pure []
  | .close => do
    UtpSocket.close ops fuel
    pure []

/-- Calls one after the other, with all bytes returned. An error goes to the caller, who may call
    again; a panic or a call that does not return is the last one. -/
def runCalls : List Call → World → Bytes × World
  | [], w => ([], w)
  | c :: rest, w =>
    match c.run ops fuel w with
    | (.ok bytes, w') => (bytes ++ (runCalls rest w').1, (runCalls rest w').2)
    | (.err _, w') => runCalls rest w'
    | (.panic, w') => ([], w')
    | (.unfinished, w') => ([], w')

end Calls

/-- A new socket around the given identifiers, as `from_raw_parts` makes it. -/
def fromRawParts (src : SocketAddr) (receiverId senderId : UInt16) : Socket where
  connectedTo := src
  receiverConnectionId := receiverId
  senderConnectionId := senderId
  seqNr := 1
  ackNr := 0
  state := .new
  incomingBuffer := []
  sendWindow := []
  unsentQueue := []
  duplicateAckCount := 0
  lastAcked := 0
  lastAckedTimestamp := 0
  lastDropped := 0
  rtt := 0
  rttVariance := 0
  pendingData := []
  currWindow := 0
  remoteWndSize := 0
  currentDelays := []
  baseDelays := []
  theirDelay := 0
  lastRollover := 0
  congestionTimeout := initialCongestionTimeout
  cwnd := initCwnd * mss
  maxRetransmissionRetries := 5

end UtpSocket
