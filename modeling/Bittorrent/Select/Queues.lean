import Bittorrent.Select.Fetching

/-!
How much the metadata module keeps. The queue of peers' requests is never too long. The limit on our own
requests is only looked at after a message, and nothing comes of it: a poll sends the next request whatever
the number of those that are out.
-/
namespace SelectQueues
open Rust Action ListPatch HashTables UtilSha PeerMessage SelectMetadata SelectAccounts SelectLedger SelectFetching
open List

section Bounds
variable {sha : Bytes → ShaHash} {repair : Bytes → Str} {m m' : UtMetadataModule}

def Pressing (m : UtMetadataModule) : Prop :=
  ∃ hash pending rest message peer, Moved m hash pending rest message peer

/-- The states of a module which is not polled for a further request while the limit is reached. -/
inductive Paced (sha : Bytes → ShaHash) (repair : Bytes → Str) : UtMetadataModule → Prop where
  | start : Paced sha repair .new
  | next {m : UtMetadataModule} (event : Event) (before : Paced sha repair m)
      (room : ∀ random, event = .poll random → Pressing m → m.activeRequests.length < maxActiveRequests) :
      Paced sha repair (exec sha repair event m).2
  | reorder {m : UtMetadataModule} (table : HashTable InfoHash (Option PendingInfo))
      (before : Paced sha repair m) (perm : m.pendingMap.entries.Perm table.entries) :
      Paced sha repair { m with pendingMap := table }

def Bounded (m : UtMetadataModule) : Prop :=
  m.activeRequests.length ≤ maxActiveRequests ∧ m.peerRequests.length ≤ maxPeerRequests

theorem swap_remove_length (list : List ActiveRequest) (index : Nat) :
    (swapRemove list index).length ≤ list.length := by
  unfold swapRemove
  split
  · simp
  · exact le_refl _

theorem expire_queue (expired : List ActiveRequest) (m : UtMetadataModule) :
    (expired.foldl expire m).peerRequests = m.peerRequests :=
  List.foldlRecOn (motive := (UtMetadataModule.peerRequests · = _)) expired _ rfl fun _ same _ _ => same

theorem tick_bounded (bounded : Bounded m) (duration : Duration) : Bounded (applyTick duration m).2 := by
  constructor
  · exact (length_map _).trans_le ((length_filter_le _ _).trans bounded.1)
  · exact (congrArg List.length (expire_queue _ m)).trans_le bounded.2

theorem keeps_bounded_send (item : IDiscoveryMessage) : Keeps Bounded (send sha repair item) := by
  refine keeps_bind (keeps_dispatch (fun _ _ bounded => bounded) ?_ ?_ (fun _ _ _ bounded => bounded) ?_ ?_
    fun _ _ _ bounded => bounded) fun _ => ?_
  · exact fun m info _ => keeps_remove_peer (fun _ _ bounded _ => bounded) info m
  · exact fun m duration _ bounded => tick_bounded bounded duration
  · rintro m request room ⟨active, peers⟩
    refine ⟨active, ?_⟩
    rw [length_append, length_singleton]
    omega
  · exact fun m index bounded => ⟨(swap_remove_length _ _).trans bounded.1, bounded.2⟩
  · exact keeps_bind (keeps_check (fun _ _ _ bounded => bounded) fun _ bounded => bounded) fun _ => keeps_pure _

theorem closed_pressing (closed : Closed m m') (pressing : Pressing m') : Pressing m := by
  obtain ⟨hash, pending, rest, message, peer, moved⟩ := pressing
  obtain ⟨active, known, member⟩ := moved.peer
  exact ⟨hash, pending, rest, message, peer, closed_known closed moved.known, moved.messages, active,
    closed.peers known, member⟩

theorem poll_bounded (bounded : Bounded m)
    (room : Pressing m → m.activeRequests.length < maxActiveRequests) (random : UInt32) :
    Bounded (poll sha random m).2 := by
  have kept : ∀ m', Closed m m' → Bounded m' := by
    intro m' closed
    rwa [Bounded, closed.requests, closed.queue]
  have whole : Closed m (retrieveCompletedDownload sha (m.pendingMap.entries.length + 1) m).2 :=
    retrieve_completed_closes _ m
  unfold poll
  rw [get_bind]
  refine triple_then (P := (· = m)) (fun _ same => same ▸ whole) ?_ kept m rfl
  rintro (_ | message) m' closed
  · dsimp only
    rcases piece_request_cases random m' with nothing | ⟨hash, pending, rest, message, peer, moved, made⟩
    · rw [bind_run nothing]
      refine keeps_respond ?_ m'.peerRequests m' (kept m' closed) rfl
      exact fun m rest suffix bounded => ⟨bounded.1, suffix.length_le.trans bounded.2⟩
    · have less := room (closed_pressing closed ⟨hash, pending, rest, message, peer, moved⟩)
      rw [bind_run made]
      refine ⟨?_, (kept m' closed).2⟩
      change (m'.activeRequests ++ [_]).length ≤ maxActiveRequests
      rw [length_append, closed.requests]
      exact less
  · exact kept m' closed

/-- Both queues keep to their limits in a module that is not polled for too much. -/
theorem queues_bounded (paced : Paced sha repair m) :
    m.activeRequests.length ≤ maxActiveRequests ∧ m.peerRequests.length ≤ maxPeerRequests := by
  induction paced with
  | start => exact ⟨Nat.zero_le _, Nat.zero_le _⟩
  | @next m event before room ih =>
    cases event with
    | send item =>
      rw [exec, discard_state]
      exact keeps_bounded_send item m ih
    | onUpdate info extended =>
      rw [exec, onUpdate, discard_state]
      exact keeps_add_peer_apart (I := Bounded) (fun _ _ bounded => bounded) info extended m ih
    | poll random =>
      rw [exec, discard_state]
      exact poll_bounded ih (room random rfl) random
  | reorder table before perm ih => exact ih

theorem one_request_bounded : ∃ m, Paced (fun _ => someHash) (fun _ => .ofAscii "") m ∧
    m.activeRequests.length = 1 ∧
    (m.activeRequests.length ≤ maxActiveRequests ∧ m.peerRequests.length ≤ maxPeerRequests) := by
  have asked : Paced (fun _ => someHash) (fun _ => .ofAscii "") _ :=
    .next (.send (.downloadMetainfo someHash)) (.next (.onUpdate somePeer (sharing 5)) .start nofun) nofun
  have paced := asked.next (.poll 0) fun _ _ _ => by decide +kernel
  exact ⟨_, paced, by decide +kernel, queues_bounded paced⟩

end Bounds

section Growth
variable {sha : Bytes → ShaHash} {repair : Bytes → Str} {farInfo : PeerInfo} {size : Int64}

theorem polls_pile_up {left count : Nat} (more : 0 < left) (bytes : Bytes) : ∀ {active : List ActiveRequest}
    {history : List Event} {received : Received},
    Run sha repair history (nearWith farInfo size ⟨waiting count, left, bytes⟩ active) received →
    ∃ history m received, Run sha repair history m received ∧
      m.activeRequests.length = active.length + count := by
  induction count with
  | zero => exact fun run => ⟨_, _, _, run, rfl⟩
  | succ count ih =>
    intro active history received run
    have polled : poll sha 0 (nearWith farInfo size ⟨waiting (count + 1), left, bytes⟩ active) = _ :=
      near_asks more bytes active 0
    obtain ⟨history', m, received', run', number⟩ := ih (.next (.poll 0) run (bind_run polled))
    refine ⟨history', m, received', run', number.trans ?_⟩
    rw [length_append, length_singleton]
    omega

/-- A dictionary of 101 pieces, and a poll for each of them before the first answer. -/
theorem requests_pile_up : ∃ history m received,
    Run (fun _ => someHash) (fun _ => .ofAscii "") history m received ∧
      maxActiveRequests < m.activeRequests.length := by
  have offers : Offers (sharing (Int64.ofNat 1654784)) 1654784 := ⟨rfl, rfl, rfl⟩
  obtain ⟨near, updated, sent⟩ := near_begins (fun _ => someHash) (fun _ => .ofAscii "") somePeer offers
    (by decide) (by decide)
  have run := Run.next (.send (.downloadMetainfo someHash)) (.next (.onUpdate somePeer _) .start updated)
    (bind_run sent)
  obtain ⟨history, m, received, run, number⟩ := polls_pile_up (by decide) _ run
  exact ⟨history, m, received, run, by rw [number]; decide⟩

end Growth

end SelectQueues
