import Bittorrent.Lib.Bytes
import Bittorrent.Lib.World

/-!
Transaction ids: five bytes for the action, three for the message. Both halves are handed out
from blocks of 2048 numbers that are shuffled when they are allocated.
-/
namespace DhtTransaction
open Rust Action

def transactionIdBytes : Nat := 8
def messageIdShift : UInt64 := 24
def maxActionId : Nat := 2 ^ 40
def maxMessageId : Nat := 2 ^ 24

/-- `ACTION_ID_PREALLOC_LEN` and `MESSAGE_ID_PREALLOC_LEN` -/
def preallocLen : Nat := 2048

def eightBytesToArray (n : UInt64) : Bytes :=
  [(n >>> 56).toUInt8, (n >>> 48).toUInt8, (n >>> 40).toUInt8, (n >>> 32).toUInt8,
    (n >>> 24).toUInt8, (n >>> 16).toUInt8, (n >>> 8).toUInt8, n.toUInt8]

/-- The bytes are a function of the number. -/
structure TransactionID where
  transId : UInt64
  deriving DecidableEq, Repr

structure ActionID where
  actionId : UInt64
  deriving DecidableEq, Repr

namespace TransactionID

def asRef (t : TransactionID) : Bytes := eightBytesToArray t.transId

def fromBytes (bytes : Bytes) : Option TransactionID :=
  if bytes.length ≠ transactionIdBytes then none
  else some ⟨bytes.foldl (fun id byte => (id <<< 8) ||| byte.toUInt64) 0⟩

def actionId (t : TransactionID) : ActionID := ⟨t.transId >>> messageIdShift⟩

end TransactionID

section Generators
variable {ν ε : Type}

/-- `generate_aids` and `generate_mids`: the block behind the last one, or the first again. -/
def generateIds (limit nextAlloc : Nat) : Nat × List Nat :=
  let start := if nextAlloc = limit then 0 else nextAlloc
  (start + preallocLen, (List.range preallocLen).map (start + ·))

def swap (list : List Nat) (i j : Nat) : List Nat :=
  (list.set i (list.getD j 0)).set j (list.getD i 0)

/-- The last turns of `fisher_shuffle`, as many as are still to be made. -/
def shuffleLast : Nat → List Nat → Action (World ν) ε (List Nat)
  | 0, list => pure list
  | turns + 1, list => do
    let i := list.length - (turns + 1)
    let r ← drawNat
    shuffleLast turns (swap list i (r % 2 ^ 64 % (list.length - i) + i))

def fisherShuffle (list : List Nat) : Action (World ν) ε (List Nat) :=
  shuffleLast list.length list

/-- A block of numbers and the place of the next one. -/
structure IdBlock where
  nextAlloc : Nat
  currIndex : Nat
  ids : List Nat

/-- `generate` calls itself once it has a new block. -/
def IdBlock.nextWithin (limit : Nat) : Nat → IdBlock → Action (World ν) ε (Nat × IdBlock)
  | 0, _ => Action.cutOff
  | fuel + 1, b =>
    match b.ids[b.currIndex]? with
    | some id => pure (id, { b with currIndex := b.currIndex + 1 })
    | none => do
      let (nextAlloc, ids) := generateIds limit b.nextAlloc
      let ids ← fisherShuffle ids
      nextWithin limit fuel ⟨nextAlloc, 0, ids⟩

def IdBlock.next (limit : Nat) (b : IdBlock) : Action (World ν) ε (Nat × IdBlock) :=
  b.nextWithin limit 2

structure AIDGenerator where
  block : IdBlock

/-- The action id is already shifted. -/
structure MIDGenerator where
  shiftedId : UInt64
  block : IdBlock

def MIDGenerator.new (shiftedId : UInt64) : MIDGenerator :=
  ⟨shiftedId, ⟨0, preallocLen, List.replicate preallocLen 0⟩⟩

def MIDGenerator.actionId (g : MIDGenerator) : ActionID := TransactionID.actionId ⟨g.shiftedId⟩

def MIDGenerator.generate (g : MIDGenerator) :
    Action (World ν) ε (TransactionID × MIDGenerator) := do
  let (id, block) ← g.block.next maxMessageId
  pure (⟨g.shiftedId ||| UInt64.ofNat id⟩, { g with block := block })

def AIDGenerator.new : Action (World ν) ε AIDGenerator := do
  let (nextAlloc, ids) := generateIds maxActionId 0
  let ids ← fisherShuffle ids
  pure ⟨⟨nextAlloc, 0, ids⟩⟩

def AIDGenerator.generate (g : AIDGenerator) :
    Action (World ν) ε (MIDGenerator × AIDGenerator) := do
  let (id, block) ← g.block.next maxActionId
  pure (MIDGenerator.new (UInt64.ofNat id <<< messageIdShift), ⟨block⟩)

variable {E : Prop} {o : Outside}

end Generators

end DhtTransaction
