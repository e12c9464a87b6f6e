import Bittorrent.Util.Timer

/-!
Calls on a timer in any order, and what became of every value that was scheduled: it was cancelled, it
was delivered, or it is still pending.
-/
namespace TimerDelivery
open UtilTimer UtilTimer.Timer SortedMap
open List hiding lookup

variable {τ : Type}

/-- `Poll<Option<T>>` -/
inductive Polled (τ : Type) where
  | ready (value : τ)
  | finished
  | pending

/-- `poll_next` at some time, where a sleep is over from its deadline on. -/
def pollNext (now : Nat) (t : Timer τ) : Polled τ × Timer τ :=
  match t.poll.current with
  | none => (.finished, t.poll)
  | some (key, value) =>
    if (ofLex key).1 ≤ now then (.ready value, { t.poll with current := none }) else (.pending, t.poll)

inductive Call (τ : Type) where
  | scheduleAt (deadline : Nat) (value : τ)
  | cancel (timeout : Timeout)
  | pollNext (now : Nat)

def Call.schedules : Call τ → Bool
  | .scheduleAt .. => true
  | _ => false

/-- Every value stands under the timeout it was scheduled with. -/
structure History (τ : Type) where
  timer : Timer τ
  scheduled : List (Timeout × τ)
  cancelled : List (Timeout × τ)
  delivered : List (Timeout × τ)

def History.step (h : History τ) : Call τ → History τ
  | .scheduleAt deadline value =>
    { h with
      timer := (h.timer.scheduleAt deadline value).2
      scheduled := ((h.timer.scheduleAt deadline value).1, value) :: h.scheduled }
  | .cancel timeout =>
    { h with
      timer := (h.timer.cancel timeout).2
      cancelled := h.timer.pending.filter (fun e => e.1 = timeout) ++ h.cancelled }
  | .pollNext now =>
    match pollNext now h.timer with
    | (.ready _, timer) =>
      { h with timer := timer, delivered := h.timer.poll.current.toList ++ h.delivered }
    | (_, timer) => { h with timer := timer }

def history (calls : List (Call τ)) : History τ := calls.foldl History.step ⟨.new, [], [], []⟩

section Calls
variable {t : Timer τ} {now : Nat}

theorem schedule_sorted {deadline : Nat} {value : τ} (sorted : Sorted t.pending)
    (below : ∀ e ∈ t.pending, (ofLex e.1).2 < t.nextId) : Sorted (t.scheduleAt deadline value).2.pending := by
  unfold pending at sorted below
  unfold scheduleAt pending
  cases held : t.current with
  | none =>
    rw [held] at sorted
    exact insert_sorted sorted
  | some entry =>
    obtain ⟨key, value⟩ := entry
    rw [held] at sorted below
    obtain ⟨first, rest⟩ := pairwise_cons.mp sorted
    dsimp only
    split
    · exact insert_sorted (insert_sorted rest)
    · rename_i later
      refine pairwise_cons.mpr ⟨?_, insert_sorted rest⟩
      intro e member
      rcases mem_insert member with new | old
      · -- of two timeouts with one deadline the one scheduled first is the smaller one
        rw [new, Prod.Lex.lt_iff]
        have number := below (key, value) (by simp)
        have ordered : (ofLex key).1 ≤ deadline := not_lt.mp later
        rcases ordered.lt_or_eq with earlier | same
        · exact .inl earlier
        · exact .inr ⟨same, number⟩
      · exact first e old

theorem nothing_to_sleep_on (slept : t.poll.current = none) : t.pending = [] := by
  unfold poll at slept
  unfold pending
  cases held : t.current with
  | none =>
    cases queued : t.queue with
    | nil => rfl
    | cons entry rest => simp [held, queued] at slept
  | some entry => simp [held] at slept

/-- The first pending value comes as soon as it is due, and nothing else does. -/
theorem poll_next_eq (now : Nat) (t : Timer τ) :
    (∃ entry rest, t.pending = entry :: rest ∧ (ofLex entry.1).1 ≤ now ∧ t.poll.current = some entry ∧
      pollNext now t = (.ready entry.2, { t.poll with current := none }) ∧
      Timer.pending { t.poll with current := none } = rest) ∨
    ((∀ value, (pollNext now t).1 ≠ .ready value) ∧ (pollNext now t).2 = t.poll ∧
      ∀ entry rest, t.pending = entry :: rest → now < (ofLex entry.1).1) := by
  rw [← poll_pending t]
  unfold pollNext
  cases slept : t.poll.current with
  | none =>
    refine .inr ⟨by simp, rfl, ?_⟩
    intro entry rest first
    rw [poll_pending, nothing_to_sleep_on slept] at first
    cases first
  | some entry =>
    have first : t.poll.pending = entry :: t.poll.queue := by simp [pending, slept]
    dsimp only
    split
    · rename_i due
      exact .inl ⟨entry, t.poll.queue, first, due, rfl, rfl, rfl⟩
    · rename_i early
      refine .inr ⟨by simp, rfl, ?_⟩
      intro other rest same
      rw [first] at same
      cases same
      exact Nat.lt_of_not_le early

theorem cancel_true_iff (timeout : Timeout) :
    (t.cancel timeout).1 = true ↔ timeout ∈ t.pending.map Prod.fst := by
  have queued : (lookup timeout t.queue).isSome = true ↔ timeout ∈ t.queue.map Prod.fst := by
    rw [Option.isSome_iff_ne_none, ne_eq, lookup_eq_none]
    simp
  unfold cancel pending
  cases held : t.current with
  | none => simpa using queued
  | some entry =>
    by_cases same : entry.1 = timeout
    · simp [same]
    · simpa [same, Ne.symm same] using queued

end Calls

section Histories
variable {h : History τ} {calls : List (Call τ)}

structure Kept (h : History τ) : Prop where
  sorted : Sorted h.timer.pending
  numbered : h.timer.nextId = h.scheduled.length
  below : ∀ e ∈ h.scheduled, (ofLex e.1).2 < h.scheduled.length
  distinct : (h.scheduled.map Prod.fst).Nodup
  everything : h.scheduled.Perm (h.cancelled ++ h.delivered ++ h.timer.pending)

theorem Kept.orderly (kept : Kept h) : Orderly h.timer := by
  constructor
  · exact kept.sorted.map Prod.fst (fun _ _ less => ne_of_lt less)
  · intro e member
    rw [kept.numbered]
    exact kept.below e (kept.everything.mem_iff.mpr (mem_append_right _ member))

theorem step_schedule (kept : Kept h) (deadline : Nat) (value : τ) (room : h.scheduled.length + 1 < 2 ^ 64) :
    Kept (h.step (.scheduleAt deadline value)) := by
  have key : (ofLex (h.timer.scheduleAt deadline value).1).2 = h.scheduled.length := kept.numbered
  constructor
  · exact schedule_sorted kept.sorted kept.orderly.below
  · change (h.timer.nextId + 1) % 2 ^ 64 = h.scheduled.length + 1
    rw [kept.numbered, Nat.mod_eq_of_lt room]
  · intro e member
    rcases mem_cons.mp member with new | old
    · rw [new, key]
      exact Nat.lt_succ_self _
    · exact Nat.lt_succ_of_lt (kept.below e old)
  · refine nodup_cons.mpr ⟨?_, kept.distinct⟩
    intro twice
    obtain ⟨e, member, same⟩ := mem_map.mp twice
    have number := kept.below e member
    rw [same, key] at number
    exact Nat.lt_irrefl _ number
  · have pending : (h.timer.scheduleAt deadline value).2.pending.Perm _ := schedule_pending kept.orderly
    exact (kept.everything.cons _).trans (perm_middle.symm.trans (pending.symm.append_left _))

theorem step_cancel (kept : Kept h) (timeout : Timeout) : Kept (h.step (.cancel timeout)) := by
  have pending := cancel_pending kept.orderly timeout
  have number : (h.timer.cancel timeout).2.nextId = h.timer.nextId := by
    unfold cancel
    split <;> rfl
  refine ⟨?_, number.trans kept.numbered, kept.below, kept.distinct, ?_⟩
  · change Sorted (h.timer.cancel timeout).2.pending
    rw [pending]
    exact kept.sorted.filter _
  · have parts := filter_append_perm (fun e => decide (e.1 = timeout)) h.timer.pending
    change h.scheduled.Perm (h.timer.pending.filter _ ++ h.cancelled ++ h.delivered ++
      (h.timer.cancel timeout).2.pending)
    rw [pending]
    refine kept.everything.trans ((parts.symm.append_left _).trans ?_)
    simp only [append_assoc, ne_eq, decide_not]
    exact ((perm_append_comm_assoc _ _ _).append_left _).trans (perm_append_comm_assoc _ _ _)

theorem step_poll_cases (h : History τ) (now : Nat) :
    (∃ entry rest, h.timer.pending = entry :: rest ∧ (ofLex entry.1).1 ≤ now ∧
      h.step (.pollNext now) =
        { h with timer := { h.timer.poll with current := none }, delivered := entry :: h.delivered } ∧
      Timer.pending { h.timer.poll with current := none } = rest) ∨
    (h.step (.pollNext now) = { h with timer := h.timer.poll } ∧
      ∀ entry rest, h.timer.pending = entry :: rest → now < (ofLex entry.1).1) := by
  rcases poll_next_eq now h.timer with ⟨entry, rest, first, due, slept, ready, left⟩ | ⟨nothing, same, early⟩
  · refine .inl ⟨entry, rest, first, due, ?_, left⟩
    simp only [History.step, ready, slept]
    rfl
  · refine .inr ⟨?_, early⟩
    rcases polled : pollNext now h.timer with ⟨answer, timer⟩
    rw [polled] at nothing same
    dsimp only at same
    cases answer with
    | ready value => exact absurd rfl (nothing value)
    | finished | pending => simp only [History.step, polled, same]

theorem step_poll (kept : Kept h) (now : Nat) : Kept (h.step (.pollNext now)) := by
  have number := (poll_next_id h.timer).trans kept.numbered
  have sorted := kept.sorted
  have everything := kept.everything
  rcases step_poll_cases h now with ⟨entry, rest, first, -, stepped, left⟩ | ⟨stepped, -⟩
  · rw [first] at sorted everything
    rw [stepped]
    refine ⟨left ▸ (pairwise_cons.mp sorted).2, number, kept.below, kept.distinct, ?_⟩
    rw [left]
    refine everything.trans ?_
    simp only [append_assoc, cons_append]
    exact perm_middle.append_left _
  · rw [← poll_pending] at sorted everything
    rw [stepped]
    exact ⟨sorted, number, kept.below, kept.distinct, everything⟩

theorem history_kept (few : calls.countP Call.schedules < 2 ^ 64) :
    Kept (history calls) ∧ (history calls).scheduled.length = calls.countP Call.schedules := by
  induction calls using List.reverseRecOn with
  | nil => exact ⟨⟨.nil, rfl, by simp [history], nodup_nil, .refl _⟩, rfl⟩
  | append_singleton calls call ih =>
    rw [countP_append] at few
    obtain ⟨kept, count⟩ := ih (Nat.lt_of_le_of_lt (Nat.le_add_right _ _) few)
    have stepped : history (calls ++ [call]) = (history calls).step call := by simp [history]
    rw [stepped, countP_append, ← count]
    rw [← count] at few
    cases call with
    | scheduleAt deadline value => exact ⟨step_schedule kept deadline value few, rfl⟩
    | cancel timeout => exact ⟨step_cancel kept timeout, rfl⟩
    | pollNext now =>
      refine ⟨step_poll kept now, ?_⟩
      unfold History.step
      dsimp only
      split <;> rfl

/-- Each poll hands out the first of what is due, so as many polls as there are values are enough. -/
theorem polls_deliver {e : Timeout × τ} {now : Nat} (due : (ofLex e.1).1 ≤ now) : ∀ (n : Nat)
    (h : History τ), Kept h → (e ∈ h.timer.pending ∧ h.timer.pending.length ≤ n) ∨ e ∈ h.delivered →
    e ∈ ((List.replicate n (Call.pollNext now)).foldl History.step h).delivered
  | 0, h, _, inside => by
    refine inside.elim (fun ⟨waits, few⟩ => ?_) id
    rw [eq_nil_of_length_eq_zero (Nat.le_zero.mp few)] at waits
    cases waits
  | n + 1, h, kept, inside => by
    rw [replicate_succ, foldl_cons]
    refine polls_deliver due n _ (step_poll kept now) ?_
    rcases step_poll_cases h now with ⟨entry, rest, first, -, stepped, left⟩ | ⟨stepped, early⟩
    · rw [stepped, left]
      rw [first] at inside
      simp only [mem_cons, length_cons, Nat.add_le_add_iff_right] at inside ⊢
      tauto
    · rw [stepped]
      refine inside.imp (fun ⟨waits, _⟩ => ?_) id
      -- the first of the pending values is due no later than this one
      obtain ⟨entry, rest, first⟩ := exists_cons_of_ne_nil (ne_nil_of_mem waits)
      have sorted := kept.sorted
      rw [first] at waits sorted
      have before : entry.1 ≤ e.1 := by
        rcases mem_cons.mp waits with same | later
        · rw [same]
        · exact ((pairwise_cons.mp sorted).1 e later).le
      exact absurd (Nat.lt_of_lt_of_le (early entry rest first) (Prod.Lex.monotone_fst _ _ before))
        (Nat.not_lt.mpr due)

/-- What is delivered by a poll is the value with the smallest timeout of all that are pending then. -/
theorem timer_delivers (calls : List (Call τ)) (few : calls.countP Call.schedules < 2 ^ 64) :
    ((history calls).scheduled.map Prod.fst).Nodup ∧
    (history calls).scheduled.Perm
      ((history calls).cancelled ++ (history calls).delivered ++ (history calls).timer.pending) ∧
    (∀ timeout, ((history calls).timer.cancel timeout).1 = true ↔
      timeout ∈ (history calls).timer.pending.map Prod.fst) ∧
    (∀ now value t, pollNext now (history calls).timer = (.ready value, t) →
      ∃ timeout, (history calls).timer.pending = (timeout, value) :: t.pending ∧ (ofLex timeout).1 ≤ now ∧
        (∀ e ∈ t.pending, timeout < e.1) ∧
        (history (calls ++ [.pollNext now])).delivered = (timeout, value) :: (history calls).delivered) ∧
    (∀ now, ∀ e ∈ (history calls).timer.pending, (ofLex e.1).1 ≤ now →
      e ∈ (history (calls ++
        List.replicate (history calls).timer.pending.length (.pollNext now))).delivered) := by
  obtain ⟨kept, -⟩ := history_kept few
  refine ⟨kept.distinct, kept.everything, fun timeout => cancel_true_iff timeout, ?_, ?_⟩
  · intro now value t polled
    have stepped : history (calls ++ [.pollNext now]) = (history calls).step (.pollNext now) := by
      simp [history]
    rcases poll_next_eq now (history calls).timer with
      ⟨entry, rest, first, due, slept, ready, left⟩ | ⟨nothing, -, -⟩
    · rw [ready] at polled
      cases polled
      have sorted := kept.sorted
      rw [first] at sorted
      refine ⟨entry.1, ?_, due, ?_, ?_⟩
      · rw [left]
        exact first
      · rw [left]
        exact (pairwise_cons.mp sorted).1
      · rw [stepped]
        simp only [History.step, ready, slept]
        rfl
    · exact absurd (congrArg Prod.fst polled) (nothing value)
  · intro now e waits due
    have after := polls_deliver due _ _ kept (.inl ⟨waits, Nat.le_refl _⟩)
    rwa [history, foldl_append]

/-- The value scheduled second is due first. -/
theorem timer_delivers_in_order :
    let calls : List (Call Nat) := [.scheduleAt 5 1, .pollNext 0, .scheduleAt 3 2, .pollNext 4]
    calls.countP Call.schedules < 2 ^ 64 ∧ (history calls).delivered = [(toLex (3, 1), 2)] ∧
      ((history calls).scheduled.map Prod.fst).Nodup :=
  ⟨by decide, by decide, (timer_delivers _ (by decide)).1⟩

end Histories

end TimerDelivery
