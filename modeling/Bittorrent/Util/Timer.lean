import Mathlib.Algebra.Group.Nat.Defs
import Mathlib.Data.List.Nodup
import Mathlib.Data.Prod.Lex
import Bittorrent.Lib.SortedMap

/-!
The timer: pending values ordered by deadline and then by a running number. One of them, the
current one, has been taken out of the queue to be slept on.
-/
namespace UtilTimer
open List hiding isEmpty

abbrev Timeout := Nat ×ₗ Nat

structure Timer (τ : Type) where
  nextId : Nat
  current : Option (Timeout × τ)
  queue : List (Timeout × τ)

namespace Timer
variable {τ : Type}

def new : Timer τ := ⟨0, none, []⟩

def isEmpty (t : Timer τ) : Bool := t.current.isNone && t.queue.isEmpty

/-- An earlier deadline sends the current entry back into the queue. -/
def scheduleAt (t : Timer τ) (deadline : Nat) (value : τ) : Timeout × Timer τ :=
  let (current, queue) :=
    match t.current with
    | some (key, held) =>
      if deadline < (ofLex key).1 then (none, SortedMap.insert key held t.queue)
      else (some (key, held), t.queue)
    | none => (none, t.queue)
  let key : Timeout := toLex (deadline, t.nextId)
  (key, ⟨(t.nextId + 1) % 2 ^ 64, current, SortedMap.insert key value queue⟩)

def cancel (t : Timer τ) (timeout : Timeout) : Bool × Timer τ :=
  if t.current.map Prod.fst = some timeout then (true, { t with current := none })
  else ((SortedMap.lookup timeout t.queue).isSome,
    { t with queue := t.queue.filter fun e => e.1 ≠ timeout })

/-- `poll_next` while nothing is due: the first entry is slept on. -/
def poll (t : Timer τ) : Timer τ :=
  match t.current, t.queue with
  | none, entry :: rest => { t with current := some entry, queue := rest }
  | _, _ => t

/-- `poll_next` when the entry that is slept on is due. -/
def next (t : Timer τ) : Option (τ × Timer τ) :=
  (poll t).current.map fun entry => (entry.2, { poll t with current := none })

def pending (t : Timer τ) : List (Timeout × τ) := t.current.toList ++ t.queue

/-- No two entries have one key, and the running number is above all of theirs. It stays so for as long as
    the number does not wrap around. -/
structure Orderly (t : Timer τ) : Prop where
  distinct : (t.pending.map Prod.fst).Nodup
  below : ∀ e ∈ t.pending, (ofLex e.1).2 < t.nextId

theorem new_orderly : Orderly (new : Timer τ) := ⟨nodup_nil, by simp [pending, new]⟩

theorem cancel_next_id (t : Timer τ) (timeout : Timeout) : (t.cancel timeout).2.nextId = t.nextId := by
  unfold cancel
  split <;> rfl

variable {t t' : Timer τ} {deadline : Nat} {value : τ}

section
variable (orderly : Orderly t)
include orderly

theorem schedule_pending : (t.scheduleAt deadline value).2.pending.Perm
    (((t.scheduleAt deadline value).1, value) :: t.pending) := by
  have fresh : toLex (deadline, t.nextId) ∉ t.pending.map Prod.fst := by
    intro member
    obtain ⟨entry, inside, same⟩ := mem_map.mp member
    have bound := orderly.below entry inside
    rw [same] at bound
    exact Nat.lt_irrefl _ bound
  have distinct := orderly.distinct
  unfold pending at fresh distinct
  unfold scheduleAt pending
  cases held : t.current with
  | none =>
    rw [held] at fresh
    exact SortedMap.insert_perm fresh
  | some entry =>
    obtain ⟨key, value⟩ := entry
    rw [held] at fresh distinct
    simp only [Option.toList_some, singleton_append, map_cons, mem_cons, not_or,
      nodup_cons] at fresh distinct
    dsimp only
    split
    · -- the current entry goes back into the queue before the new one is put there
      have back := SortedMap.insert_perm (v := value) distinct.1
      refine (SortedMap.insert_perm ?_).trans (back.cons _)
      rw [(back.map Prod.fst).mem_iff, map_cons, mem_cons, not_or]
      exact fresh
    · exact ((SortedMap.insert_perm fresh.2).cons _).trans (List.Perm.swap _ _ _)

theorem schedule_orderly (room : t.nextId + 1 < 2 ^ 64) : Orderly (t.scheduleAt deadline value).2 := by
  have perm : (t.scheduleAt deadline value).2.pending.Perm _ := schedule_pending orderly
  have number : (t.scheduleAt deadline value).2.nextId = t.nextId + 1 := Nat.mod_eq_of_lt room
  have key : (ofLex (t.scheduleAt deadline value).1).2 = t.nextId := rfl
  constructor
  · rw [(perm.map Prod.fst).nodup_iff, map_cons, nodup_cons]
    refine ⟨?_, orderly.distinct⟩
    intro member
    obtain ⟨entry, inside, same⟩ := mem_map.mp member
    have bound := orderly.below entry inside
    rw [same, key] at bound
    exact Nat.lt_irrefl _ bound
  · intro entry member
    rw [number]
    rcases mem_cons.mp (perm.mem_iff.mp member) with new | old
    · rw [new, key]
      exact Nat.lt_succ_self _
    · exact Nat.lt_succ_of_lt (orderly.below entry old)

theorem cancel_pending (timeout : Timeout) :
    (t.cancel timeout).2.pending = t.pending.filter fun e => e.1 ≠ timeout := by
  have distinct := orderly.distinct
  unfold pending at distinct
  unfold cancel pending
  cases held : t.current with
  | none => simp
  | some entry =>
    rw [held] at distinct
    simp only [Option.toList_some, singleton_append, map_cons, nodup_cons] at distinct
    by_cases same : entry.1 = timeout
    · have kept : t.queue.filter (fun e => decide (e.1 ≠ timeout)) = t.queue := by
        rw [filter_eq_self]
        intro e member
        rw [← same, decide_eq_true_iff]
        exact fun twice => distinct.1 (twice ▸ mem_map_of_mem member)
      simpa [same] using kept.symm
    · simp [same]

theorem cancel_keeps {timeout key : Timeout} {other : τ} (held : (timeout, value) ∈ t.pending)
    (waits : (key, other) ∈ t.pending) (different : value ≠ other) :
    (key, other) ∈ (t.cancel timeout).2.pending := by
  rw [cancel_pending orderly, mem_filter, decide_eq_true_iff]
  refine ⟨waits, ?_⟩
  rintro rfl
  cases inj_on_of_nodup_map orderly.distinct held waits rfl
  exact different rfl

theorem cancel_orderly (timeout : Timeout) : Orderly (t.cancel timeout).2 := by
  have entries := cancel_pending orderly timeout
  constructor
  · rw [entries]
    exact orderly.distinct.sublist (filter_sublist.map _)
  · intro entry member
    rw [entries] at member
    rw [cancel_next_id]
    exact orderly.below entry (mem_of_mem_filter member)

end

theorem poll_pending (t : Timer τ) : t.poll.pending = t.pending := by
  unfold poll pending
  split
  · rename_i none queue
    rw [none, queue]
    rfl
  · rfl

theorem poll_next_id (t : Timer τ) : t.poll.nextId = t.nextId := by
  unfold poll
  split <;> rfl

theorem next_pending (due : t.next = some (value, t')) :
    ∃ timeout, t.pending = (timeout, value) :: t'.pending ∧ t'.nextId = t.nextId := by
  obtain ⟨⟨timeout, value'⟩, slept, same⟩ := Option.map_eq_some_iff.mp due
  cases same
  refine ⟨timeout, ?_, poll_next_id t⟩
  rw [← poll_pending]
  unfold pending
  rw [slept]
  rfl

theorem next_next_id (due : t.next = some (value, t')) : t'.nextId = t.nextId := by
  obtain ⟨_, _, number⟩ := next_pending due
  exact number

theorem next_keeps {timeout : Timeout} {other : τ} (due : t.next = some (value, t'))
    (waits : (timeout, other) ∈ t.pending) (different : value ≠ other) : (timeout, other) ∈ t'.pending := by
  obtain ⟨first, entries, _⟩ := next_pending due
  rw [entries] at waits
  rcases mem_cons.mp waits with same | later
  · cases same
    exact absurd rfl different
  · exact later

theorem poll_orderly (orderly : Orderly t) : Orderly t.poll := by
  constructor
  · rw [poll_pending]
    exact orderly.distinct
  · rw [poll_pending, poll_next_id]
    exact orderly.below

theorem next_orderly (orderly : Orderly t) (due : t.next = some (value, t')) : Orderly t' := by
  obtain ⟨timeout, entries, number⟩ := next_pending due
  have distinct := orderly.distinct
  rw [entries, map_cons, nodup_cons] at distinct
  refine ⟨distinct.2, ?_⟩
  intro entry member
  rw [number]
  exact orderly.below entry (entries ▸ .tail _ member)

end Timer

end UtilTimer
