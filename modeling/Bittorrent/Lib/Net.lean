import Bittorrent.Lib.Bytes

/-!
Addresses of the two families, byte by byte.
-/
namespace Rust

inductive IpAddr where
  | v4 (a b c d : UInt8)
  | v6 (ip : Vector UInt8 16)
  deriving DecidableEq, Repr

inductive SocketAddr where
  | v4 (a b c d : UInt8) (port : UInt16)
  | v6 (ip : Vector UInt8 16) (port : UInt16) (flowinfo scopeId : UInt32)
  deriving DecidableEq, Repr

def IpAddr.octets : IpAddr → Bytes
  | .v4 a b c d => [a, b, c, d]
  | .v6 ip => ip.toList

namespace SocketAddr

def ip : SocketAddr → IpAddr
  | .v4 a b c d _ => .v4 a b c d
  | .v6 ip _ _ _ => .v6 ip

def withPort : SocketAddr → UInt16 → SocketAddr
  | .v4 a b c d _, port => .v4 a b c d port
  | .v6 ip _ flowinfo scopeId, port => .v6 ip port flowinfo scopeId

def isV4 : SocketAddr → Bool
  | .v4 .. => true
  | .v6 .. => false

end SocketAddr

end Rust
