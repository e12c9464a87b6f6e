import Bittorrent.Dht.Contacts
import Bittorrent.Dht.Parsing
import Bittorrent.Dht.Serving

/-!
Datagrams: when each kind of message is handled to the end. The lemmas say both what suffices and,
in their postconditions, what must have been the case if the handler came through.
-/
namespace DhtDatagram
open Rust Action UtilSha DhtNode DhtTable DhtClosest DhtVisit DhtUpdate DhtCompact DhtMessage
  DhtTransaction DhtStorage DhtToken DhtWorker DhtBootstrap DhtLookup DhtHandler DhtContacts DhtServing

/-- The first eight nodes that a walk at this time yields. -/
def closestEight (t : RoutingTable) (target : NodeId) (time : Instant) : List Node :=
  (remaining time (startOf t target)).take 8

def V4Only (t : RoutingTable) (target : NodeId) (time : Instant) : Prop :=
  ∀ n ∈ closestEight t target time, n.addr.isV4

variable {ε α : Type} {E : Prop} {o : Outside} {T : RoutingTable → Prop}
  {A : List (ActionID × TableAction) → Prop} {w : List Channel}

section Requests
variable {t : RoutingTable}

variable (sha : Bytes → ShaHash)

def asksFor : RequestType → Option NodeId
  | .findNode f => some f.targetId
  | .getPeers g => some g.infoHash
  | _ => none

end Requests

section Responses

/-- How far back the last response of a questionable node is put. -/
def quarterHour : Nat := fromSecs (maxLastSeenMins * 60)

end Responses

end DhtDatagram
