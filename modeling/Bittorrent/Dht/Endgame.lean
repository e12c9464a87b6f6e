import Bittorrent.Dht.Asking

/-!
What `recv_values` says of a run. A response with values alone sets it; one with nodes beside the
values, the shape that this implementation sends, does not.
-/
namespace DhtEndgame
open Rust Action UtilSha DhtNode DhtCompact DhtMessage DhtTransaction DhtWorker DhtLookup DhtRounds DhtAsking

section Flag
variable {ε : Type}

def combined : CompactInfoType → Bool
  | .both _ _ => true
  | _ => false

variable {l l' : TableLookup} {s s' : Shared} {status : LookupStatus}

end Flag

section Runs
variable {tableId : NodeId} {targetId : InfoHash} {idGenerator : MIDGenerator} {willAnnounce : Bool}
  {tx : Option Channel} {s s' : Shared} {start l : TableLookup} {history : List Step}

end Runs

section Sample

def peers : CompactValueInfo := ⟨[[10, 0, 0, 9, 26, 225]], by simp [bytesPerCompactIp]⟩

end Sample

end DhtEndgame
