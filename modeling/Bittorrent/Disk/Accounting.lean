import Mathlib.Data.Finset.Card
import Mathlib.Data.List.Dedup
import Mathlib.Data.List.Perm.Subperm
import Bittorrent.Disk.Filling

/-!
What the counters of a `PieceStateChecker` say, over all calls on one torrent. A piece that was
found good may come in again, and nothing moves `new_states` to the `old_states` that the check
looks at; so the count is right as long as no check meets such a piece.
-/
namespace DiskAccounting
open Rust Outcome Action UtilSha MetainfoInfo DiskAccessor DiskChecker DiskMerging
  DiskFlat DiskFilling

def goodIndex : PieceState → Option UInt64
  | .good index => some index
  | .bad _ => none

/-- The pieces whose hash check has succeeded, once for each success. -/
def verified (c : PieceStateChecker) : List UInt64 := c.newStates.filterMap goodIndex

section Keyed
open List

/-- One entry for each piece, and the blocks in it belong to the piece. -/
structure Keyed (pending : Pending) : Prop where
  distinct : (pending.map Prod.fst).Nodup
  own : ∀ entry ∈ pending, ∀ message ∈ entry.2, message.pieceIndex = entry.1

theorem keyed_nil : Keyed [] := ⟨nodup_nil, by simp⟩

theorem keyed_cons {key : UInt64} {messages : List BlockMetadata} {rest : Pending} :
    Keyed ((key, messages) :: rest) ↔
      key ∉ rest.map Prod.fst ∧ (∀ message ∈ messages, message.pieceIndex = key) ∧ Keyed rest := by
  constructor
  · rintro ⟨distinct, own⟩
    obtain ⟨fresh, others⟩ := nodup_cons.mp distinct
    obtain ⟨first, later⟩ := forall_mem_cons.mp own
    exact ⟨fresh, first, others, later⟩
  · rintro ⟨fresh, first, distinct, own⟩
    exact ⟨nodup_cons.mpr ⟨fresh, distinct⟩, forall_mem_cons.mpr ⟨first, own⟩⟩

theorem push_block_keys (msg : BlockMetadata) (pending : Pending) (key : UInt64) :
    key ∈ (pushBlock msg pending).map Prod.fst ↔
      key = msg.pieceIndex ∨ key ∈ pending.map Prod.fst := by
  induction pending with
  | nil => simp [pushBlock]
  | cons entry rest ih =>
    obtain ⟨k, messages⟩ := entry
    simp only [pushBlock]
    split
    next same =>
      subst same
      simp
    next =>
      simp only [map_cons, mem_cons, ih]
      tauto

theorem push_block_distinct (msg : BlockMetadata) {pending : Pending}
    (distinct : (pending.map Prod.fst).Nodup) : ((pushBlock msg pending).map Prod.fst).Nodup := by
  induction pending with
  | nil => exact nodup_singleton _
  | cons entry rest ih =>
    obtain ⟨key, messages⟩ := entry
    obtain ⟨fresh, others⟩ := nodup_cons.mp distinct
    simp only [pushBlock]
    split
    next => exact distinct
    next other =>
      refine nodup_cons.mpr ⟨?_, ih others⟩
      rw [push_block_keys]
      exact not_or.mpr ⟨other, fresh⟩

variable {pending : Pending}

theorem Keyed.each (keyed : Keyed pending) :
    Each (fun key message => message.pieceIndex = key) pending := keyed.own

theorem keyed_push (keyed : Keyed pending) (msg : BlockMetadata) : Keyed (pushBlock msg pending) :=
  ⟨push_block_distinct msg keyed.distinct, each_push keyed.each rfl⟩

theorem keyed_clear (keyed : Keyed pending) (key : UInt64) : Keyed (clearBlocks key pending) := by
  have keys : (clearBlocks key pending).map Prod.fst = pending.map Prod.fst := by
    simp only [clearBlocks, map_map]
    apply map_congr_left
    intro entry _
    simp only [Function.comp_apply]
    split <;> rfl
  exact ⟨keys ▸ keyed.distinct, each_clear keyed.each key⟩

theorem keyed_perm {other : Pending} (keyed : Keyed pending) (perm : pending.Perm other) :
    Keyed other where
  distinct := ((perm.map Prod.fst).nodup_iff).mp keyed.distinct
  own := each_perm keyed.each perm

theorem merge_pieces_keyed {ε : Type} {merged : Pending} (keyed : Keyed pending)
    (same : (mergePieces pending : Outcome ε _) = .ok merged) : Keyed merged := by
  have closed : ∀ key, Closed ε False fun message => message.pieceIndex = key := by
    intro key
    apply closed_partial
    intro a b merged first _ _ join
    exact join.index.trans first
  obtain ⟨own, keys⟩ := (each_merge closed keyed.each).2 merged same
  exact ⟨keys ▸ keyed.distinct, own⟩

end Keyed

section Invariant
open List
variable {σ φ ε : Type} (info : Info)

structure Sound (t : Torrent σ) : Prop where
  pieces : t.checker.totalPieces = info.pieces.length
  distinct : (verified t.checker).Nodup
  counted : t.checker.completeNum = (verified t.checker).length
  known : ∀ index ∈ verified t.checker, index.toNat < t.checker.totalPieces
  reported : ∀ index, t.sent.count (.foundGoodPiece info.infoHash index) ≤
    (verified t.checker).count index
  complete : t.checker.isComplete = true →
    ∀ i < t.checker.totalPieces, ∃ index ∈ verified t.checker, index.toNat = i
  keyed : Keyed t.checker.pendingBlocks

/-- Sound, with these results so far and this size of the last block. -/
structure SoundAt (last : Nat) (found : List UInt64) (t : Torrent σ) : Prop where
  sound : Sound info t
  size : t.checker.lastBlockSize = last
  results : verified t.checker = found

variable {info} {last : Nat} {found : List UInt64}

theorem all_verified {t : Torrent σ} (sound : Sound info t)
    (full : (verified t.checker).length = t.checker.totalPieces) :
    ∀ i < t.checker.totalPieces, ∃ index ∈ verified t.checker, index.toNat = i := by
  have distinct : ((verified t.checker).map UInt64.toNat).Nodup :=
    sound.distinct.map fun _ _ same => UInt64.toNat_inj.mp same
  have within : (verified t.checker).map UInt64.toNat ⊆ List.range t.checker.totalPieces := by
    intro i member
    obtain ⟨index, inside, rfl⟩ := mem_map.mp member
    exact mem_range.mpr (sound.known index inside)
  have perm := (distinct.subperm within).perm_of_length_le (by simp [full])
  intro i small
  exact mem_map.mp (perm.mem_iff.mpr (mem_range.mpr small))

theorem keeps_on_disk {α : Type} (m : Action σ ε α) :
    Keeps (SoundAt info last found) (onDisk m) := by
  apply keeps_zoom
  intro t disk at_
  exact { at_ with sound := { at_.sound with } }

/-- A message about a good piece needs a success that has not been reported. -/
theorem send_sound {t : Torrent σ} (at_ : SoundAt info last found t) {message : ODiskMessage}
    (room : ∀ index, message = .foundGoodPiece info.infoHash index → t.sent.count message < found.count index) :
    SoundAt info last found ((send message : Action (Torrent σ) ε Unit) t).2 := by
  unfold send
  split
  · refine { at_ with sound := { at_.sound with reported := ?_ } }
    intro index
    have before := at_.sound.reported index
    rw [count_append, count_singleton]
    split
    next same =>
      rw [beq_iff_eq] at same
      have more := room index same
      rw [same, ← at_.results] at more
      exact more
    next => exact before
  · exact at_

theorem keeps_send {message : ODiskMessage}
    (other : ∀ index, message ≠ .foundGoodPiece info.infoHash index) :
    Keeps (SoundAt info last found) (send message : Action (Torrent σ) ε Unit) :=
  fun _ at_ => send_sound at_ fun index same => absurd same (other index)

theorem keeps_report_pace :
    Keeps (SoundAt info last found) (reportPace info : Action (Torrent σ) ε Unit) := by
  apply keeps_bind
  · exact keeps_modify fun t at_ => { at_ with sound := { at_.sound with } }
  · intro _
    apply keeps_bind keeps_get
    intro t
    exact keeps_send fun index same => by cases same

theorem keeps_clear (key : UInt64) :
    Keeps (SoundAt info last found) (update fun c =>
      { c with pendingBlocks := clearBlocks key c.pendingBlocks } : Action (Torrent σ) ε Unit) :=
  keeps_modify fun t at_ =>
    { at_ with sound := { at_.sound with keyed := keyed_clear at_.sound.keyed key } }

theorem keeps_record_bad (index : UInt64) :
    Keeps (SoundAt info last found)
      (recordBad info index : Action (Torrent σ) ε Unit) := by
  apply keeps_bind
  · apply keeps_modify
    intro t at_
    have same : verified t.checker =
        verified { t.checker with newStates := t.checker.newStates ++ [.bad index] } := by
      simp [verified, goodIndex]
    obtain ⟨⟨pieces, distinct, counted, known, reported, complete, keyed⟩, size, results⟩ := at_
    rw [same] at distinct counted known reported complete results
    exact ⟨⟨pieces, distinct, counted, known, reported, complete, keyed⟩, size, results⟩
  · exact fun _ => keeps_send fun other same => by cases same

/-- A success is counted and reported together with the state that remembers it. -/
theorem record_good {index : UInt64} (fresh : index ∉ found)
    (known : index.toNat < info.pieces.length) :
    Triple (SoundAt info last found) (recordGood info index : Action (Torrent σ) ε Unit)
      fun _ t => SoundAt info last (found ++ [index]) t := by
  rintro t ⟨sound, size, rfl⟩
  have results : verified { t.checker with
      newStates := t.checker.newStates ++ [.good index], completeNum := t.checker.completeNum + 1 } =
      verified t.checker ++ [index] := by
    simp [verified, goodIndex]
  have counts : ∀ other, (verified t.checker ++ [index]).count other =
      (verified t.checker).count other + if index == other then 1 else 0 := by
    simp [count_append, count_singleton]
  apply send_sound
  · refine ⟨⟨sound.pieces, ?_, ?_, ?_, ?_, ?_, sound.keyed⟩, size, results⟩
    · rw [results]
      exact nodup_append.mpr ⟨sound.distinct, nodup_singleton _, by
        intro a member b single
        rw [mem_singleton.mp single]
        exact fun same => fresh (same ▸ member)⟩
    · rw [results, length_append]
      exact congrArg (· + 1) sound.counted
    · rw [results]
      intro other member
      rcases mem_append.mp member with old | new
      · exact sound.known other old
      · rw [mem_singleton.mp new]
        exact sound.pieces ▸ known
    · intro other
      rw [results, counts]
      exact Nat.le_add_right_of_le (sound.reported other)
    · intro done i small
      obtain ⟨other, member, same⟩ := sound.complete done i small
      rw [results]
      exact ⟨other, mem_append_left _ member, same⟩
  · rintro other ⟨⟩
    rw [counts, if_pos (beq_self_eq_true index)]
    exact Nat.lt_succ_of_le (sound.reported index)

end Invariant

section Check
variable {σ φ ε : Type} {sha : Bytes → ShaHash} {fs : FileSystem σ φ ε} {info : Info} {last : Nat}

/-- The results so far, and maybe one more piece. -/
def MaybeFound (info : Info) (last : Nat) (found : List UInt64) (index : UInt64) (t : Torrent σ) :
    Prop :=
  SoundAt info last found t ∨ SoundAt info last (found ++ [index]) t

variable {found : List UInt64}

theorem keeps_load_piece (message : BlockMetadata) (buffer : Bytes) :
    Keeps (SoundAt info last found) (loadPiece fs info message buffer) := by
  apply keeps_bind (keeps_lift _)
  intro part
  apply keeps_bind (keeps_on_disk _)
  exact fun data => keeps_pure _

theorem expected_known {index : UInt64} {hash : ShaHash}
    (found : (expectedHash info index : Outcome ε ShaHash) = .ok hash) :
    index.toNat < info.pieces.length := by
  unfold expectedHash at found
  split at found
  next same => exact (List.getElem?_eq_some_iff.mp same).1
  next => cases found

theorem check_piece (key : UInt64) {message : BlockMetadata} (fresh : message.pieceIndex ∉ found)
    (buffer : Bytes) :
    Triple (SoundAt info last found) (checkPiece sha fs info key message buffer)
      fun _ t => MaybeFound info last found message.pieceIndex t := by
  apply triple_then (keeps_load_piece message buffer) _ fun _ => .inl
  intro buffer
  apply triple_lift_bind _ fun _ => .inl
  intro expected hash
  -- the two ways to record the result end in the same actions, which keep either
  have after : ∀ results, Keeps (SoundAt info last results) (do
      reportPace info
      update fun c => { c with pendingBlocks := clearBlocks key c.pendingBlocks }
      return buffer : Action (Torrent σ) ε Bytes) := by
    intro results
    apply keeps_bind keeps_report_pace
    intro _
    apply keeps_bind (keeps_clear key)
    exact fun _ => keeps_pure _
  apply triple_ite
  · intro _
    apply triple_then (record_good fresh (expected_known hash)) _ fun _ => .inr
    exact fun _ => triple_weaken (after _) (fun _ at_ => at_) fun _ _ => .inr
  · intro _
    apply triple_then (keeps_record_bad _) _ fun _ => .inl
    exact fun _ => triple_weaken (after _) (fun _ at_ => at_) fun _ _ => .inl

/-- No entry that is whole belongs to one of these pieces. -/
def Unchecked (info : Info) (last : Nat) (found : List UInt64) (entries : Pending) : Prop :=
  ∀ key message rest, (key, message :: rest) ∈ entries →
    isWhole info.pieces.length last info.pieceLen.toNat message rest = true → key ∉ found

theorem unchecked_rest {entry : UInt64 × List BlockMetadata} {entries : Pending}
    (unchecked : Unchecked info last found (entry :: entries)) :
    Unchecked info last found entries :=
  fun key message rest member => unchecked key message rest (.tail _ member)

theorem unchecked_found {key : UInt64} {entries : Pending}
    (unchecked : Unchecked info last found entries) (fresh : key ∉ entries.map Prod.fst) :
    Unchecked info last (found ++ [key]) entries := by
  intro other message rest member whole inside
  rcases List.mem_append.mp inside with old | new
  · exact unchecked other message rest member whole old
  · rw [List.mem_singleton.mp new] at member
    exact fresh (List.mem_map.mpr ⟨_, member, rfl⟩)

theorem check_entries (entries : Pending) : ∀ {found : List UInt64} (buffer : Bytes),
    Keyed entries → Unchecked info last found entries →
    Triple (SoundAt info last found) (checkEntries sha fs info entries buffer)
      fun _ t => ∃ results, SoundAt info last results t := by
  induction entries with
  | nil => exact fun {found} _ _ _ => triple_pure fun _ at_ => ⟨found, at_⟩
  | cons entry rest ih =>
    obtain ⟨key, messages⟩ := entry
    intro found buffer keyed unchecked
    obtain ⟨fresh, own, others⟩ := keyed_cons.mp keyed
    have later := ih buffer others (unchecked_rest unchecked)
    apply triple_get_bind
    intro t at_
    rw [at_.size, at_.sound.pieces]
    have weaken : ∀ {m : Action (Torrent σ) ε Unit} {Q : Outcome ε Unit → Torrent σ → Prop},
        Triple (SoundAt info last found) m Q → Triple (fun s => s = t) m Q :=
      fun main => triple_weaken main (fun _ same => same ▸ at_) fun _ _ holds => holds
    apply weaken
    apply triple_lift_bind _ fun _ at_ => ⟨found, at_⟩
    intro complete value
    match complete, messages with
    | false, _ => exact later
    | true, [] => exact later
    | true, message :: more =>
      apply triple_ite
      · exact fun _ => later
      · intro _
        have index : message.pieceIndex = key := own message (.head _)
        have whole : isWhole info.pieces.length last info.pieceLen.toNat message more = true := by
          simp only [pieceIsComplete] at value
          split at value
          · cases value
          · exact Outcome.ok.inj value
        have unfound : message.pieceIndex ∉ found :=
          index ▸ unchecked key message more (.head _) whole
        apply triple_then (check_piece key unfound buffer)
        · intro buffer s either
          rcases either with same | one
          · exact ih buffer others (unchecked_rest unchecked) s same
          · exact ih buffer others (unchecked_found (unchecked_rest unchecked) (index ▸ fresh)) s one
        · intro s either
          exact either.elim (fun same => ⟨_, same⟩) fun one => ⟨_, one⟩

end Check

section Calls
variable {σ φ ε : Type} (sha : Bytes → ShaHash) (fs : FileSystem σ φ ε) (info : Info)

/-- The calls on one torrent. Other tasks use the files and drop receivers meanwhile, and the map
    may be iterated in any order. -/
inductive Call (σ : Type) where
  | addPendingBlock (msg : BlockMetadata)
  | fillCheckerState
  | runWithWholePieces
  | elsewhere (disk : σ) (listens : Nat → Bool)
  | reorder (pending : Pending)

inductive Step (t : Torrent σ) : Call σ → Torrent σ → Prop where
  | addPendingBlock (msg : BlockMetadata) :
      Step t (.addPendingBlock msg) { t with checker := addPendingBlock t.checker msg }
  | fillCheckerState {filled : PieceStateChecker}
      (ended : (fillCheckerState t.checker info : Outcome ε _) = .ok filled) :
      Step t .fillCheckerState { t with checker := filled }
  | runWithWholePieces : Step t .runWithWholePieces (runWithWholePieces sha fs info t).2
  | elsewhere (disk : σ) (listens : Nat → Bool) :
      Step t (.elsewhere disk listens) { t with disk := disk, listens := listens }
  | reorder {pending : Pending} (perm : t.checker.pendingBlocks.Perm pending) :
      Step t (.reorder pending) { t with checker := { t.checker with pendingBlocks := pending } }

/-- Where the calls on a torrent that was added can lead, if each meets a condition. -/
inductive Reached (meets : Torrent σ → Call σ → Prop) : Torrent σ → Prop where
  | start {disk disk' : σ} {checker : PieceStateChecker} (listens : Nat → Bool)
      (created : initStateChecker fs info disk = (.ok checker, disk')) :
      Reached meets ⟨checker, disk', [], listens⟩
  | step {t t' : Torrent σ} {call : Call σ} (before : Reached meets t) (met : meets t call)
      (next : Step sha fs info t call t') : Reached meets t'

/-- None of the pieces that a check will find whole has been found good before. -/
def NoneAgain (ε : Type) (t : Torrent σ) : Call σ → Prop
  | .runWithWholePieces =>
    ∀ merged, (mergePieces t.checker.pendingBlocks : Outcome ε Pending) = .ok merged →
      Unchecked info t.checker.lastBlockSize (verified t.checker) merged
  | _ => True

variable {sha fs info}

variable {t : Torrent σ}

theorem finish_sound (sound : Sound info t) :
    Sound info ((finish : Action (Torrent σ) ε Unit) t).2 := by
  change Sound info { t with checker := if t.checker.completeNum = t.checker.totalPieces then
    { t.checker with isComplete := true } else t.checker }
  by_cases full : t.checker.completeNum = t.checker.totalPieces
  · rw [if_pos full]
    have all := all_verified sound (sound.counted ▸ full)
    exact { sound with complete := fun _ => all }
  · rw [if_neg full]
    exact sound

theorem run_sound (sound : Sound info t) (none : NoneAgain info ε t .runWithWholePieces) :
    Sound info (runWithWholePieces sha fs info t).2 := by
  have run : Triple (fun s => s = t) (runWithWholePieces sha fs info)
      fun _ s => Sound info s := by
    apply triple_get_bind
    rintro s rfl
    apply triple_lift_bind _ fun _ same => same ▸ sound
    intro merged value
    have keyed := merge_pieces_keyed sound.keyed value
    apply triple_then (J := SoundAt info s.checker.lastBlockSize (verified s.checker))
    · apply triple_modify
      rintro _ rfl
      exact ⟨{ sound with keyed := keyed }, rfl, rfl⟩
    · intro _
      apply triple_lift_bind _ fun _ at_ => at_.sound
      intro buffer _
      apply triple_then (check_entries merged buffer keyed (none merged value))
      · rintro _ s' ⟨results, at_⟩
        exact finish_sound at_.sound
      · rintro s' ⟨results, at_⟩
        exact at_.sound
    · exact fun _ at_ => at_.sound
  exact run t rfl

theorem step_sound {t' : Torrent σ} {call : Call σ} (sound : Sound info t)
    (none : NoneAgain info ε t call) (step : Step sha fs info t call t') : Sound info t' := by
  cases step with
  | addPendingBlock msg => exact { sound with keyed := keyed_push sound.keyed msg }
  | fillCheckerState ended =>
    rw [fill_checker] at ended
    split at ended
    · cases ended
      rw [fold_add]
      exact { sound with
        keyed := List.foldlRecOn _ _ sound.keyed fun _ keyed msg _ => keyed_push keyed msg }
    · cases ended
  | runWithWholePieces => exact run_sound sound none
  | elsewhere disk listens => exact { sound with }
  | reorder perm => exact { sound with keyed := keyed_perm sound.keyed perm }

theorem new_sound (last : Nat) (disk : σ) (listens : Nat → Bool) :
    Sound info ⟨PieceStateChecker.new info.pieces.length last, disk, [], listens⟩ where
  pieces := rfl
  distinct := List.nodup_nil
  counted := rfl
  known := by simp [verified, PieceStateChecker.new]
  reported := by simp
  complete := fun done => by cases done
  keyed := keyed_nil

theorem created_new {disk disk' : σ} {checker : PieceStateChecker}
    (created : initStateChecker fs info disk = (.ok checker, disk')) :
    ∃ last, checker = PieceStateChecker.new info.pieces.length last := by
  have returns : Returns (fun c => ∃ last, c = PieceStateChecker.new info.pieces.length last)
      (initStateChecker fs info) := by
    apply returns_bind
    intro last
    apply returns_bind
    exact fun _ => returns_pure ⟨last, rfl⟩
  exact returns disk checker (congrArg Prod.fst created)

theorem reached_sound (reached : Reached sha fs info (NoneAgain info ε) t) : Sound info t := by
  induction reached with
  | start listens created =>
    obtain ⟨last, rfl⟩ := created_new created
    exact new_sound last _ listens
  | step _ none next ih => exact step_sound ih none next

/-- The counters over every run in which no check meets a piece that was found good before. -/
theorem checks_accounted (sha : Bytes → ShaHash) (fs : FileSystem σ φ ε) (info : Info)
    (t : Torrent σ) (reached : Reached sha fs info (NoneAgain info ε) t) :
    t.checker.completeNum = (verified t.checker).dedup.length ∧
      (t.checker.isComplete = true →
        ∀ i < t.checker.totalPieces, ∃ index ∈ verified t.checker, index.toNat = i) ∧
      ∀ index, t.sent.count (.foundGoodPiece info.infoHash index) ≤ 1 := by
  have sound := reached_sound reached
  refine ⟨?_, sound.complete, ?_⟩
  · rw [sound.distinct.dedup]
    exact sound.counted
  · intro index
    exact Nat.le_trans (sound.reported index) (List.nodup_iff_count_le_one.mp sound.distinct index)

end Calls

section Sample

/-- A stand-in for SHA-1 that tells the first byte. -/
def firstByte (bytes : Bytes) : ShaHash := ⟨Vector.replicate shaHashLen (bytes.headD 0)⟩

def halfGood : Info :=
  { infoOf 1 [(2, [97])] with pieces := List.replicate 2 ⟨Vector.replicate shaHashLen 1⟩ }

def halfGoodDisk : Rust.Path → Bytes := fun _ => [1, 0]

def added : Torrent (Rust.Path → Bytes) :=
  ⟨PieceStateChecker.new 2 0, halfGoodDisk, [], fun _ => true⟩

section
variable {meets : Torrent (Rust.Path → Bytes) → Call (Rust.Path → Bytes) → Prop}
  {t : Torrent (Rust.Path → Bytes)}

theorem added_reached : Reached firstByte memory halfGood meets added :=
  Reached.start (fun _ => true)
    (rfl : initStateChecker memory halfGood halfGoodDisk = (.ok (PieceStateChecker.new 2 0), _))

def filled (t : Torrent (Rust.Path → Bytes)) : Torrent (Rust.Path → Bytes) :=
  match (fillCheckerState t.checker halfGood : Outcome Unit PieceStateChecker) with
  | .ok checker => { t with checker := checker }
  | _ => t

theorem filled_step (t : Torrent (Rust.Path → Bytes)) :
    Step firstByte memory halfGood t .fillCheckerState (filled t) := by
  have ended : ∃ checker, (fillCheckerState t.checker halfGood : Outcome Unit _) = .ok checker :=
    ⟨_, rfl⟩
  obtain ⟨checker, same⟩ := ended
  unfold filled
  rw [same]
  exact .fillCheckerState same

def checkedTorrent (t : Torrent (Rust.Path → Bytes)) : Torrent (Rust.Path → Bytes) :=
  (runWithWholePieces firstByte memory halfGood (filled t)).2

theorem checked_reached (reached : Reached firstByte memory halfGood meets t)
    (fill : meets t .fillCheckerState) (check : meets (filled t) .runWithWholePieces) :
    Reached firstByte memory halfGood meets (checkedTorrent t) :=
  (reached.step fill (filled_step t)).step check .runWithWholePieces

end

theorem first_check_accounted :
    (checkedTorrent added).checker.completeNum =
        (verified (checkedTorrent added).checker).dedup.length ∧
      ((checkedTorrent added).checker.isComplete = true →
        ∀ i < (checkedTorrent added).checker.totalPieces,
          ∃ index ∈ verified (checkedTorrent added).checker, index.toNat = i) ∧
      ∀ index, (checkedTorrent added).sent.count (.foundGoodPiece halfGood.infoHash index) ≤ 1 := by
  apply checks_accounted firstByte memory halfGood
  apply checked_reached added_reached True.intro
  intro merged _ key message rest _ _
  have nothing : verified (filled added).checker = [] := rfl
  rw [nothing]
  exact List.not_mem_nil

/-- A second full check counts the good piece again, and the torrent is taken for complete. -/
theorem second_check_completes :
    ∃ t, Reached firstByte memory halfGood (fun _ _ => True) t ∧ t.checker.isComplete = true ∧
      t.checker.completeNum = 2 ∧ verified t.checker = [0, 0] ∧
      t.sent.count (.foundGoodPiece halfGood.infoHash 0) = 2 := by
  refine ⟨checkedTorrent (checkedTorrent added), ?_, ?_⟩
  · exact checked_reached (checked_reached added_reached True.intro trivial) trivial trivial
  · decide +kernel

end Sample

end DiskAccounting
