import Bittorrent.Lib.World
import Bittorrent.Dht.Node

/-!
Tokens: the hash of an address and a secret. The secret changes every ten minutes, when a token
is next asked for, and the one before is still honoured. The hash function is a parameter.
-/
namespace DhtToken
open Rust Action UtilSha

def refreshIntervalMins : Int := 10

abbrev Token := ShaHash

def Token.new (bytes : Bytes) : Option Token := fromHash bytes

structure TokenStore where
  currSecret : UInt32
  lastSecret : UInt32
  lastRefresh : Int

/-- Both divisions drop the fraction. -/
def intervalsPassed (lastRefresh currTime : Int) : Int :=
  ((currTime - lastRefresh).tdiv (60 * 1000000000)).tdiv refreshIntervalMins

def fourBytesToArray (n : UInt32) : Bytes :=
  [(n >>> 24).toUInt8, (n >>> 16).toUInt8, (n >>> 8).toUInt8, n.toUInt8]

theorem four_bytes_to_array_injective : Function.Injective fourBytesToArray := by
  intro n m same
  unfold fourBytesToArray at same
  simp only [List.cons.injEq, ← UInt8.toNat_inj, UInt32.toNat_toUInt8, UInt32.toNat_shiftRight,
    and_true] at same
  simp only [Nat.shiftRight_eq_div_pow, UInt32.toNat_ofNat, UInt32.toNat_inj.symm, Nat.reducePow,
    Nat.reduceMod] at same ⊢
  have small := n.toNat_lt
  have small' := m.toNat_lt
  omega

section Store
variable {ν ε : Type} (sha : Bytes → ShaHash)

def generateTokenFromAddr (addr : IpAddr) (secret : UInt32) : Token :=
  sha (addr.octets ++ fourBytesToArray secret)

def validateTokenFromAddr (addr : IpAddr) (token : Token) (secretOne secretTwo : UInt32) : Bool :=
  generateTokenFromAddr sha addr secretOne = token ∨ generateTokenFromAddr sha addr secretTwo = token

namespace TokenStore

def randomSecret : Action (World ν) ε UInt32 := do
  let n ← drawNat
  pure (UInt32.ofNat n)

def new : Action (World ν) ε TokenStore := do
  let currSecret ← randomSecret
  let lastSecret ← randomSecret
  let lastRefresh ← utcNow
  pure ⟨currSecret, lastSecret, lastRefresh⟩

def refreshCheck (s : TokenStore) : Action (World ν) ε TokenStore := do
  let currTime ← utcNow
  let passed := intervalsPassed s.lastRefresh currTime
  if passed = 0 then
    pure s
  else if passed = 1 then do
    let currSecret ← randomSecret
    let lastRefresh ← utcNow
    pure ⟨currSecret, s.currSecret, lastRefresh⟩
  else do
    let lastSecret ← randomSecret
    let currSecret ← randomSecret
    let lastRefresh ← utcNow
    pure ⟨currSecret, lastSecret, lastRefresh⟩

def checkout (s : TokenStore) (addr : IpAddr) : Action (World ν) ε (Token × TokenStore) := do
  let s ← s.refreshCheck
  pure (generateTokenFromAddr sha addr s.currSecret, s)

def checkin (s : TokenStore) (addr : IpAddr) (token : Token) :
    Action (World ν) ε (Bool × TokenStore) := do
  let s ← s.refreshCheck
  pure (validateTokenFromAddr sha addr token s.currSecret s.lastSecret, s)

variable {E : Prop} {o : Outside}

end TokenStore

end Store

end DhtToken
