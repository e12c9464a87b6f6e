import Bittorrent.Disk.Checker

/-!
What merging does to the blocks that wait: a condition on single blocks that holds of two blocks
and of what they merge to holds of every block that is left.
-/
namespace DiskMerging
open Rust Outcome MetainfoInfo DiskAccessor DiskChecker List
variable {ε : Type}

def stopOf (message : BlockMetadata) : Nat := message.blockOffset.toNat + message.blockLength.toNat

/-- Two blocks of one piece without a gap between them. -/
structure Touch (a b : BlockMetadata) : Prop where
  hash : a.infoHash = b.infoHash
  index : a.pieceIndex = b.pieceIndex
  before : b.blockOffset.toNat ≤ stopOf a
  after : a.blockOffset.toNat ≤ stopOf b

/-- The smallest block around two. -/
structure Join (a b merged : BlockMetadata) : Prop where
  hash : merged.infoHash = a.infoHash
  index : merged.pieceIndex = a.pieceIndex
  start : merged.blockOffset.toNat = min a.blockOffset.toNat b.blockOffset.toNat
  stop : stopOf merged = max (stopOf a) (stopOf b)

section Pair
variable {a b : BlockMetadata}

theorem block_end_ok {message : BlockMetadata} (stop : stopOf message ≤ u64Max) :
    (blockEnd message : Outcome ε Nat) = .ok (stopOf message) := if_pos stop

theorem block_end_le {message : BlockMetadata} {stop : Nat}
    (ended : (blockEnd message : Outcome ε Nat) = .ok stop) :
    stop = stopOf message ∧ stop ≤ u64Max := by
  dsimp only [blockEnd] at ended
  split at ended
  next fits =>
    cases ended
    exact ⟨rfl, fits⟩
  next => cases ended

theorem join_from {offset : UInt64} {stop : Nat} (stopA : stopOf a ≤ u64Max)
    (stopB : stopOf b ≤ u64Max) (start : offset.toNat = min a.blockOffset.toNat b.blockOffset.toNat)
    (last : stop = max (stopOf a) (stopOf b)) :
    Join a b ⟨a.infoHash, a.pieceIndex, offset, UInt64.ofNat (stop - offset.toNat)⟩ := by
  refine ⟨rfl, rfl, start, ?_⟩
  have size : (UInt64.ofNat (stop - offset.toNat)).toNat = stop - offset.toNat := by
    rw [UInt64.toNat_ofNat']
    apply Nat.mod_eq_of_lt
    unfold u64Max at stopA stopB
    omega
  have inside : offset.toNat ≤ stopOf a := by
    unfold stopOf
    omega
  change offset.toNat + (UInt64.ofNat (stop - offset.toNat)).toNat = _
  rw [size]
  omega

theorem merge_pair_cases (a b : BlockMetadata) (stopA : stopOf a ≤ u64Max)
    (stopB : stopOf b ≤ u64Max) :
    (¬ Touch a b ∧ (mergePieceMessages a b : Outcome ε _) = .ok none) ∨
      ∃ merged, Touch a b ∧ Join a b merged ∧
        (mergePieceMessages a b : Outcome ε _) = .ok (some merged) := by
  unfold mergePieceMessages
  rw [block_end_ok stopA, block_end_ok stopB]
  simp only [ok_bind]
  split
  next other =>
    refine .inl ⟨?_, rfl⟩
    intro touch
    exact other.elim (· touch.hash) (· touch.index)
  next same =>
    have hash : a.infoHash = b.infoHash := by_contra fun other => same (.inl other)
    have index : a.pieceIndex = b.pieceIndex := by_contra fun other => same (.inr other)
    have stops : a.blockOffset.toNat ≤ stopOf a ∧ b.blockOffset.toNat ≤ stopOf b :=
      ⟨Nat.le_add_right .., Nat.le_add_right ..⟩
    split
    next below =>
      exact .inr ⟨_, ⟨hash, index, below.2, by omega⟩, join_from stopA stopB (by omega) rfl, rfl⟩
    split
    next above =>
      exact .inr ⟨_, ⟨hash, index, by omega, above.2⟩, join_from stopA stopB (by omega) rfl, rfl⟩
    next below above =>
      refine .inl ⟨?_, rfl⟩
      intro touch
      have := touch.before
      have := touch.after
      omega

theorem merge_pair_some {merged : BlockMetadata}
    (same : (mergePieceMessages a b : Outcome ε _) = .ok (some merged)) :
    Touch a b ∧ Join a b merged ∧ stopOf a ≤ u64Max ∧ stopOf b ≤ u64Max := by
  have stops : stopOf a ≤ u64Max ∧ stopOf b ≤ u64Max := by
    unfold mergePieceMessages at same
    split at same
    next => cases same
    next =>
      obtain ⟨endA, first, same⟩ := bind_eq_ok.mp same
      obtain ⟨endB, second, _⟩ := bind_eq_ok.mp same
      obtain ⟨rfl, stopA⟩ := block_end_le first
      obtain ⟨rfl, stopB⟩ := block_end_le second
      exact ⟨stopA, stopB⟩
  rcases @merge_pair_cases ε a b stops.1 stops.2 with ⟨_, apart⟩ | ⟨one, touch, join, ran⟩
  · rw [apart] at same
    cases same
  · rw [ran] at same
    cases same
    exact ⟨touch, join, stops⟩

end Pair

section Closed
variable {total : Prop} {P : BlockMetadata → Prop}

/-- Two blocks that meet the condition merge to one that does, and without a panic where this is
    asked for. -/
def Closed (ε : Type) (total : Prop) (P : BlockMetadata → Prop) : Prop :=
  ∀ a b, P a → P b →
    Ends total (mergePieceMessages a b : Outcome ε _) fun merged => ∀ message ∈ merged, P message

theorem closed_partial (join : ∀ a b merged, P a → P b → Touch a b → Join a b merged → P merged) :
    Closed ε False P := by
  intro a b first second
  refine ⟨False.elim, ?_⟩
  rintro _ same message rfl
  obtain ⟨touch, joined, _⟩ := merge_pair_some same
  exact join a b message first second touch joined

theorem merge_back_all (closed : Closed ε total P) (before : List BlockMetadata) :
    ∀ {last : BlockMetadata}, (∀ message ∈ last :: before, P message) →
      Ends total (mergeBack before last : Outcome ε _) fun merged => ∀ message ∈ merged, P message := by
  induction before with
  | nil => exact fun own => ends_ok own
  | cons second rest ih =>
    intro last own
    refine ends_bind (closed second last (own second (by simp)) (own last (by simp))) ?_
    intro step pair
    cases step with
    | none => exact ends_ok own
    | some one =>
      refine ih (forall_mem_cons.mpr ⟨pair one rfl, ?_⟩)
      exact fun message member => own message (by simp [member])

theorem merge_messages_all (closed : Closed ε total P) {messages : List BlockMetadata}
    (own : ∀ message ∈ messages, P message) :
    Ends total (mergeMessages messages : Outcome ε _) fun merged =>
      ∀ message ∈ merged, P message := by
  unfold mergeMessages
  split
  next => exact ends_ok (by simp)
  next last rest sorted =>
    have sortedOwn : ∀ message ∈ last :: rest, P message := by
      intro message member
      rw [← sorted, mem_reverse, sortBlocks, mem_insertionSort] at member
      exact own message member
    refine ends_bind (merge_back_all closed rest sortedOwn) fun merged back => ends_ok ?_
    exact fun message member => back message (mem_reverse.mp member)

end Closed

section Each
variable {total : Prop} {P : UInt64 → BlockMetadata → Prop} {pending : Pending}

/-- Every block that waits meets the condition for its key. -/
def Each (P : UInt64 → BlockMetadata → Prop) (pending : Pending) : Prop :=
  ∀ entry ∈ pending, ∀ message ∈ entry.2, P entry.1 message

theorem each_push {msg : BlockMetadata} (each : Each P pending) (own : P msg.pieceIndex msg) :
    Each P (pushBlock msg pending) := by
  induction pending with
  | nil =>
    intro entry member message inside
    cases mem_singleton.mp member
    cases mem_singleton.mp inside
    exact own
  | cons entry rest ih =>
    obtain ⟨key, messages⟩ := entry
    obtain ⟨first, later⟩ := forall_mem_cons.mp each
    rw [pushBlock]
    split
    next same =>
      refine forall_mem_cons.mpr ⟨?_, later⟩
      exact forall_mem_append.mpr ⟨first, forall_mem_singleton.mpr (same ▸ own)⟩
    next => exact forall_mem_cons.mpr ⟨first, ih later⟩

theorem each_clear (each : Each P pending) (key : UInt64) : Each P (clearBlocks key pending) := by
  intro entry member message inside
  obtain ⟨before, old, rfl⟩ := mem_map.mp member
  split at inside
  next => cases inside
  next other =>
    rw [if_neg other]
    exact each before old message inside

theorem each_perm {other : Pending} (each : Each P pending) (perm : pending.Perm other) :
    Each P other :=
  fun entry member => each entry (perm.mem_iff.mpr member)

theorem each_merge (closed : ∀ key, Closed ε total (P key)) (each : Each P pending) :
    Ends total (mergePieces pending : Outcome ε _) fun merged =>
      Each P merged ∧ merged.map Prod.fst = pending.map Prod.fst := by
  induction pending with
  | nil => exact ends_ok ⟨each, rfl⟩
  | cons entry rest ih =>
    obtain ⟨key, messages⟩ := entry
    obtain ⟨first, later⟩ := forall_mem_cons.mp each
    refine ends_bind (merge_messages_all (closed key) first) fun one own => ?_
    refine ends_bind (ih later) fun more others => ends_ok ?_
    exact ⟨forall_mem_cons.mpr ⟨own, others.1⟩, congrArg (key :: ·) others.2⟩

end Each

end DiskMerging
