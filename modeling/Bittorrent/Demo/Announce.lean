import Bittorrent.Tracker.Codec

/-!
The announce request that the demo client sends to a tracker, as the tracker of the library reads it. All
numbers are written least significant byte first, and the event takes eight bytes.
-/
namespace DemoAnnounce
open Rust Outcome NomParse UtilSha TrackerMessages TrackerCodec
variable {ε : Type}

def toLeBytes (width n : Nat) : Bytes := (beBytes width n).reverse

/-- The parts between the dots of the printed address, each read as a byte. The text of an IPv6 address has
    a colon in it, and what cannot be read is unwrapped. -/
def ipParts : IpAddr → Outcome ε Bytes
  | .v4 a b c d => .ok [a, b, c, d]
  | .v6 _ => .panic

def port : SocketAddr → UInt16
  | .v4 _ _ _ _ port => port
  | .v6 _ port _ _ => port

/-- `announce_param` with what it takes out of the parameters and the torrent, and with the random key. -/
def announceParam (connectId : UInt32) (serverId : Bytes) (socketAddr : SocketAddr)
    (infoHash peerId : Bytes) (left : UInt64) (random : UInt32) : Outcome ε Bytes := do
  let ip ← ipParts socketAddr.ip
  return [serverId, [0, 0, 0, 1], toLeBytes 4 connectId.toNat, infoHash, peerId, toLeBytes 8 0,
    toLeBytes 8 left.toNat, toLeBytes 8 0, toLeBytes 8 2, ip, toLeBytes 4 random.toNat, toLeBytes 4 1,
    toLeBytes 4 1, toLeBytes 2 (port socketAddr).toNat, text "/announce"].flatten

section Reading

@[simp] theorem to_le_bytes_length (width n : Nat) : (toLeBytes width n).length = width := by
  simp [toLeBytes]

variable (rest : Bytes)

theorem be_u32_front {raw : Bytes} (size : raw.length = 4) :
    beU32 (raw ++ rest) = .ok (.ofNat (beNat raw), rest) := by
  rw [beU32, take_append rest size]
  rfl

theorem be_u64_front {raw : Bytes} (size : raw.length = 8) :
    beU64 (raw ++ rest) = .ok (.ofNat (beNat raw), rest) := by
  rw [beU64, take_append rest size]
  rfl

theorem be_i64_front {raw : Bytes} (size : raw.length = 8) :
    beI64 (raw ++ rest) = .ok ((UInt64.ofNat (beNat raw)).toInt64, rest) := by
  rw [beI64, be_u64_front rest size]
  rfl

/-- The event that was meant is read as the number 33554432. -/
theorem parse_event_refused : parseEvent (toLeBytes 8 2 ++ rest) = .err .error := by
  have split : toLeBytes 8 2 ++ rest = writeU32 33554432 ++ ([0, 0, 0, 0] ++ rest) := rfl
  rw [parseEvent, beI32, split, be_u32_write]
  rfl

theorem parse_state_refused (left : Nat) :
    parseState (toLeBytes 8 0 ++ (toLeBytes 8 left ++ (toLeBytes 8 0 ++ (toLeBytes 8 2 ++ rest)))) =
      .err .error := by
  simp [parseState, be_i64_front, parse_event_refused]

end Reading

/-- Whatever is announced, the datagram is refused. -/
theorem announce_param_refused (connectId : UInt32) (serverId : Vector UInt8 8) (a b c d : UInt8)
    (port : UInt16) (infoHash peerId : ShaHash) (left : UInt64) (random : UInt32) :
    ∃ datagram, (announceParam connectId serverId.toList (.v4 a b c d port) infoHash.asRef peerId.asRef
      left random : Outcome ε Bytes) = .ok datagram ∧ parseRequest datagram = .err .error := by
  refine ⟨_, rfl, ?_⟩
  have action : UInt32.ofNat (beNat [0, 0, 0, 1]) = announceIpv4ActionId := rfl
  simp only [List.flatten_cons]
  rw [parseRequest, be_u64_front _ (by simp), ok_bind]
  dsimp only
  rw [be_u32_front _ rfl, ok_bind, action]
  dsimp only
  rw [be_u32_front _ (to_le_bytes_length 4 _), ok_bind, if_neg (by simp +decide), if_pos rfl,
    parseAnnounceRequest, parse_written_hash, ok_bind]
  dsimp only
  rw [parse_written_hash, ok_bind, parse_state_refused]
  rfl

/-- Nothing is read from an ordinary announce. -/
theorem started_refused : (accepted (do parseRequest (← announceParam 7 [0, 0, 0, 0, 0, 0, 0, 5]
    (.v4 127 0 0 1 6881) (List.replicate 20 1) (List.replicate 20 2) 100 9))).isNone := by
  decide +kernel

end DemoAnnounce
