import Bittorrent.Metainfo.Fidelity
import Bittorrent.Select.Accounts

/-!
The books of the metadata module over whole runs. The sweeps after a message and the polls keep them
too, so they are right in every state, and counting down and writing to the buffer never go wrong.
-/
namespace SelectLedger
open Rust Outcome Action HashTables HashTable UtilSha MetainfoInfo PeerExtended PeerMessage
  SelectMetadata SelectAccounts

section Sweeps
variable {received : Received} {m m' m'' : UtMetadataModule} {sha : Bytes → ShaHash}
variable {pending : PendingInfo}

theorem placed_fresh {size : Int64}
    (fresh : (pendingInfoFromMetadataSize size : Outcome Empty PendingInfo) = .ok pending) :
    Placed pending [] [] := by
  unfold pendingInfoFromMetadataSize at fresh
  dsimp only at fresh
  split at fresh
  case isTrue fits =>
    cases fresh
    constructor
    · rw [List.length_replicate]
      simp [pieceIndices, List.map_map, Function.comp_def, UtMetadataRequestMessage.new]
    · simp
    · rw [List.length_replicate]
      exact fits
  case isFalse huge => cases fresh

variable {hash : InfoHash}

theorem tally_opened (tally : Tally received m) (waiting : m.pendingMap.get hash = some none)
    (placed : Placed pending [] []) :
    Tally received { m with pendingMap := m.pendingMap.adjust hash fun _ => some pending } := by
  constructor
  · exact tally.peers
  · intro hash'
    have account := tally.accounts hash'
    by_cases same : hash' = hash
    · subst same
      rw [waiting] at account
      rw [get_adjust, waiting, account.1, account.2]
      exact placed
    · rw [get_adjust_other _ _ same]
      exact account

theorem keeps_initialize_entry (hash : InfoHash) :
    Keeps (Tally received) (initializeEntry hash) := by
  intro m tally
  unfold initializeEntry
  rw [get_bind]
  rcases waiting : m.pendingMap.get hash with _ | _ | pending
  · exact tally
  · cases m.activePeers.get hash with
    | none => exact tally
    | some active =>
      dsimp only
      cases fresh : (pendingInfoFromMetadataSize active.metadataSize : Outcome Empty PendingInfo) with
      | ok pending => exact tally_opened tally waiting (placed_fresh fresh)
      | err e | panic | unfinished => exact tally
  · exact tally

theorem keeps_initialize_pending : Keeps (Tally received) initializePending := by
  apply keeps_bind keeps_get
  intro m
  exact keeps_for_each keeps_initialize_entry _

/-- Downloads that are whole were closed, and nothing else happened to the books. -/
structure Closed (m m' : UtMetadataModule) : Prop where
  queue : m'.peerRequests = m.peerRequests
  requests : m'.activeRequests = m.activeRequests
  peers : ∀ {hash active}, m'.activePeers.get hash = some active → m.activePeers.get hash = some active
  downloads : ∀ hash, m'.pendingMap.get hash = m.pendingMap.get hash ∨
    isStarted m' hash = false ∧ ∃ pending, m.pendingMap.get hash = some (some pending) ∧ pending.left = 0

theorem closed_refl (m : UtMetadataModule) : Closed m m where
  queue := rfl
  requests := rfl
  peers := id
  downloads := fun _ => .inl rfl

theorem closed_trans (first : Closed m m') (second : Closed m' m'') : Closed m m'' where
  queue := second.queue.trans first.queue
  requests := second.requests.trans first.requests
  peers := fun found => first.peers (second.peers found)
  downloads := by
    intro hash
    rcases first.downloads hash with same | ⟨stopped, whole⟩
    · rw [← same]
      exact second.downloads hash
    · rcases second.downloads hash with same | ⟨ended, _⟩
      · right
        refine ⟨?_, whole⟩
        unfold isStarted at stopped ⊢
        rw [same]
        exact stopped
      · exact .inr ⟨ended, whole⟩

theorem closed_known (closed : Closed m m') (known : m'.pendingMap.get hash = some (some pending)) :
    m.pendingMap.get hash = some (some pending) := by
  rcases closed.downloads hash with same | ⟨stopped, _⟩
  · rwa [same] at known
  · unfold isStarted at stopped
    rw [known] at stopped
    cases stopped

/-- The account of a closed download is empty, and its pieces are forgotten. -/
theorem tally_closed (tally : Tally received m) (closed : Closed m m') :
    Tally (clear m' received) m' := by
  constructor
  · exact fun hash active found => tally.peers hash active (closed.peers found)
  · intro hash
    have account := tally.accounts hash
    unfold clear
    rw [closed.requests]
    rcases closed.downloads hash with same | ⟨stopped, pending, known, whole⟩
    · unfold isStarted
      rw [same]
      rcases known : m.pendingMap.get hash with _ | _ | pending <;> rw [known] at account
      · exact ⟨account.1, rfl⟩
      · exact ⟨account.1, rfl⟩
      · exact account
    · rw [known] at account
      have left := account.left
      have nothing : activeFor m.activeRequests hash = [] := List.length_eq_zero_iff.mp (by omega)
      rw [stopped]
      unfold isStarted at stopped
      rcases after : m'.pendingMap.get hash with _ | _ | pending
      · exact ⟨nothing, rfl⟩
      · exact ⟨nothing, rfl⟩
      · rw [after] at stopped
        cases stopped

theorem validate_kept (valid : ¬ (pending.left = 0 ∧ sha pending.bytes ≠ hash)) :
    validateEntry sha hash (some pending) = some pending := by
  unfold validateEntry Option.filter
  dsimp only
  rw [if_pos (by simpa [imp_iff_not_or] using valid)]

theorem validate_closes (m : UtMetadataModule) : Closed m (validateDownloaded sha m).2 where
  queue := rfl
  requests := rfl
  peers := id
  downloads := by
    intro hash
    have after : (validateDownloaded sha m).2.pendingMap.get hash =
        (m.pendingMap.get hash).map (validateEntry sha hash) := get_map _ _ _
    unfold isStarted
    rw [after]
    rcases m.pendingMap.get hash with _ | _ | pending
    · exact .inl rfl
    · exact .inl rfl
    · by_cases bad : pending.left = 0 ∧ sha pending.bytes ≠ hash
      · right
        have reset : validateEntry sha hash (some pending) = none := by
          simp [validateEntry, Option.filter, bad.1, bad.2]
        rw [Option.map_some, reset]
        exact ⟨rfl, pending, rfl, bad.1⟩
      · left
        rw [Option.map_some, validate_kept bad]

theorem check_tally (tally : Tally received m)
    (returned : checkStreamUnblock sha m = (.ok (), m')) : Tally (clear m' received) m' := by
  obtain ⟨_, m₁, opened, validated⟩ := bind_ok returned
  have between := keeps_ended keeps_initialize_pending tally opened
  have closes : Closed m₁ (validateDownloaded sha m₁).2 := validate_closes m₁
  rw [validated] at closes
  exact tally_closed between closes

end Sweeps

section Retrieval
open List
variable {received : Received} {m : UtMetadataModule} {sha : Bytes → ShaHash}
variable {hash : InfoHash}

theorem complete_iff {opt : Option PendingInfo} :
    isComplete (hash, opt) = true ↔ ∃ pending, opt = some pending ∧ pending.left = 0 := by
  cases opt with
  | none | some pending => simp [isComplete]

/-- The module without a download that is whole. -/
def without (m : UtMetadataModule) (hash : InfoHash) : UtMetadataModule :=
  { m with pendingMap := m.pendingMap.remove hash, activePeers := m.activePeers.remove hash }

variable {pending : PendingInfo}

theorem without_closes (known : m.pendingMap.get hash = some (some pending))
    (whole : pending.left = 0) :
    Closed m (without m hash) where
  queue := rfl
  requests := rfl
  peers := found_remove
  downloads := by
    intro hash'
    unfold isStarted without
    by_cases same : hash' = hash
    · subst same
      rw [get_remove]
      exact .inr ⟨rfl, pending, known, whole⟩
    · exact .inl (get_remove_other _ same)

theorem retrieve_completed_none (bound : Nat) (nothing : m.pendingMap.entries.find? isComplete = none) :
    retrieveCompletedDownload sha (bound + 1) m = (.ok none, m) := by
  unfold retrieveCompletedDownload
  rw [get_bind, nothing]
  rfl

/-- Each round takes out a download that is whole. -/
theorem retrieve_completed_some (bound : Nat)
    (found : m.pendingMap.entries.find? isComplete = some (hash, some pending)) :
    retrieveCompletedDownload sha (bound + 1) m =
      match Info.fromBytes sha pending.bytes with
      | .ok info => (.ok (some (.downloadedMetainfo (.fromInfo info))), without m hash)
      | .err _ => retrieveCompletedDownload sha bound (without m hash)
      | .panic => (.panic, without m hash)
      | .unfinished => (.unfinished, without m hash) := by
  rw [retrieveCompletedDownload, get_bind, found]
  dsimp only
  rw [modify_bind]
  cases Info.fromBytes sha pending.bytes <;> rfl

theorem find_complete {entry : InfoHash × Option PendingInfo}
    (found : m.pendingMap.entries.find? isComplete = some entry) :
    ∃ pending, entry.2 = some pending ∧ pending.left = 0 ∧
      m.pendingMap.get entry.1 = some (some pending) := by
  obtain ⟨hash, opt⟩ := entry
  obtain ⟨known, complete⟩ := find_get found
  obtain ⟨pending, rfl, whole⟩ := complete_iff.mp complete
  exact ⟨pending, rfl, whole, known⟩

theorem retrieve_completed_closes (bound : Nat) (m : UtMetadataModule) :
    Closed m (retrieveCompletedDownload sha bound m).2 := by
  induction bound generalizing m with
  | zero => exact closed_refl m
  | succ bound ih =>
    cases found : m.pendingMap.entries.find? isComplete with
    | none =>
      rw [retrieve_completed_none bound found]
      exact closed_refl m
    | some entry =>
      obtain ⟨hash, opt⟩ := entry
      obtain ⟨pending, rfl, whole, known⟩ := find_complete found
      have closes := without_closes known whole
      rw [retrieve_completed_some bound found]
      cases Info.fromBytes sha pending.bytes with
      | ok info => exact closes
      | err e => exact closed_trans closes (ih _)
      | panic | unfinished => exact closes

/-- The buffers of the downloads are no larger than a vector can be. -/
def Small (m : UtMetadataModule) : Prop :=
  ∀ hash pending, m.pendingMap.get hash = some (some pending) → pending.bytes.length ≤ isizeMax

theorem tally_small (tally : Tally received m) : Small m := by
  intro hash pending known
  have account := tally.accounts hash
  rw [known] at account
  exact account.fits

/-- A request is taken from the end of a download's list and goes to one of its peers. -/
structure Moved (m : UtMetadataModule) (hash : InfoHash) (pending : PendingInfo)
    (rest : List UtMetadataRequestMessage) (message : UtMetadataRequestMessage) (peer : PeerInfo) : Prop where
  known : m.pendingMap.get hash = some (some pending)
  messages : pending.messages = rest ++ [message]
  peer : ∃ active, m.activePeers.get hash = some active ∧ peer ∈ active.peers

def requested (m : UtMetadataModule) (hash : InfoHash) (pending : PendingInfo)
    (rest : List UtMetadataRequestMessage) (message : UtMetadataRequestMessage) (peer : PeerInfo) :
    UtMetadataModule :=
  { m with
    pendingMap := m.pendingMap.adjust hash fun _ => some { pending with messages := rest }
    activeRequests := m.activeRequests ++ [generateActiveRequest message peer] }

theorem ready_iff {opt : Option PendingInfo} :
    isReady m (hash, opt) = true ↔ ∃ pending active, opt = some pending ∧ pending.messages ≠ [] ∧
      m.activePeers.get hash = some active ∧ active.peers ≠ [] := by
  unfold isReady
  cases opt with
  | none => simp
  | some pending => cases m.activePeers.get hash <;> simp

theorem piece_request_cases (random : UInt32) (m : UtMetadataModule) :
    retrievePieceRequest random m = (.ok none, m) ∨
      ∃ hash pending rest message peer, Moved m hash pending rest message peer ∧
        retrievePieceRequest random m = (.ok (some (.sendUtMetadataMessage peer (.request message))),
          requested m hash pending rest message peer) := by
  unfold retrievePieceRequest
  rw [get_bind]
  cases found : m.pendingMap.entries.find? (isReady m) with
  | none => exact .inl rfl
  | some entry =>
    obtain ⟨hash, opt⟩ := entry
    obtain ⟨known, ready⟩ := find_get found
    obtain ⟨pending, active, rfl, messages, peers, nonempty⟩ := ready_iff.mp ready
    right
    have inside : random.toNat % active.peers.length < active.peers.length :=
      Nat.mod_lt _ (length_pos_iff.mpr nonempty)
    obtain ⟨rest, message, split⟩ := eq_nil_or_concat' pending.messages |>.resolve_left messages
    refine ⟨hash, pending, rest, message, active.peers[random.toNat % active.peers.length],
      ⟨known, split, active, peers, getElem_mem inside⟩, ?_⟩
    dsimp only
    rw [peers, Option.map_some, Option.getD_some, List.getElem?_eq_getElem inside, split,
      List.getLast?_concat]
    rw [dropLast_concat]
    rfl

variable {rest : List UtMetadataRequestMessage} {message : UtMetadataRequestMessage}

theorem placed_requested {active : List ActiveRequest} {come : List Int64} (peer : PeerInfo)
    (placed : Placed pending active come) (messages : pending.messages = rest ++ [message]) :
    Placed { pending with messages := rest } (active ++ [generateActiveRequest message peer]) come := by
  have pieces := placed.pieces
  have left := placed.left
  rw [messages] at pieces left
  constructor
  · refine List.Perm.trans ?_ pieces
    apply List.Perm.append_right
    simp only [map_append, append_assoc]
    apply List.Perm.append_left
    exact perm_append_comm
  · simp only [length_append, length_singleton] at left ⊢
    omega
  · exact placed.fits

theorem started_requested {peer : PeerInfo} (known : m.pendingMap.get hash = some (some pending)) :
    isStarted (requested m hash pending rest message peer) = isStarted m := by
  funext hash'
  unfold isStarted requested
  by_cases same : hash' = hash
  · subst same
    rw [get_adjust, known]
    rfl
  · rw [get_adjust_other _ _ same]

theorem tally_requested {peer : PeerInfo} (tally : Tally received m)
    (moved : Moved m hash pending rest message peer) :
    Tally received (requested m hash pending rest message peer) := by
  obtain ⟨active, peers, member⟩ := moved.peer
  have own := tally.peers hash active peers peer member
  constructor
  · exact tally.peers
  · intro hash'
    have account := tally.accounts hash'
    unfold requested activeFor
    rw [filter_append]
    by_cases same : hash' = hash
    · subst same
      rw [moved.known] at account
      rw [get_adjust, moved.known, filter_cons_of_pos (by simp [generateActiveRequest, own])]
      exact placed_requested peer account moved.messages
    · have other : ¬ peer.hash = hash' := fun h => same (h.symm.trans own)
      rw [get_adjust_other _ _ same,
        filter_cons_of_neg (by simp [generateActiveRequest, other]), filter_nil, append_nil]
      exact account

/-- What is kept when a request goes out, when whole downloads are closed and when the queue of peers'
    requests changes is kept by polling. -/
theorem keeps_piece_request {I : UtMetadataModule → Prop}
    (step : ∀ m hash pending rest message peer, I m → Moved m hash pending rest message peer →
      I (requested m hash pending rest message peer)) (random : UInt32) :
    Keeps I (retrievePieceRequest random) := by
  intro m holds
  rcases piece_request_cases random m with nothing | ⟨hash, pending, rest, message, peer, moved, made⟩
  · rw [nothing]
    exact holds
  · rw [made]
    exact step m hash pending rest message peer holds moved

theorem keeps_poll {I : UtMetadataModule → Prop} (closes : ∀ m m', I m → Closed m m' → I m')
    (step : ∀ m hash pending rest message peer, I m → Moved m hash pending rest message peer →
      I (requested m hash pending rest message peer))
    (queued : ∀ m rest, rest <:+ m.peerRequests → I m → I { m with peerRequests := rest }) (random : UInt32) :
    Keeps I (poll sha random) := by
  apply keeps_bind keeps_get
  intro m
  apply keeps_bind
  · exact fun m' holds => closes m' _ holds (retrieve_completed_closes _ m')
  rintro (_ | message)
  · apply keeps_bind (keeps_piece_request step random)
    rintro (_ | message)
    · exact fun m' holds => keeps_respond queued m'.peerRequests m' holds rfl
    · exact keeps_pure _
  · exact keeps_pure _

theorem clear_closed {m' : UtMetadataModule} (closed : Closed m m') :
    clear m' (clear m received) = clear m' received := by
  funext hash
  unfold clear
  by_cases started : isStarted m' hash = true
  · have before : isStarted m hash = true := by
      rcases closed.downloads hash with same | ⟨stopped, _⟩
      · unfold isStarted at started ⊢
        rwa [same] at started
      · rw [started] at stopped
        cases stopped
    rw [if_pos started, if_pos started, if_pos before]
  · rw [if_neg started, if_neg started]

theorem keeps_tally_poll (random : UInt32) :
    Keeps (fun m => Tally (clear m received) m) (poll sha random) := by
  apply keeps_poll
  · intro m m' tally closed
    have after := tally_closed tally closed
    rwa [clear_closed closed] at after
  · intro m hash pending rest message peer tally moved
    have same : clear (requested m hash pending rest message peer) received = clear m received := by
      unfold clear
      rw [started_requested moved.known]
    rw [same]
    exact tally_requested tally moved
  · exact fun _ _ _ => tally_queue

end Retrieval

section Runs
variable {sha : Bytes → ShaHash} {repair : Bytes → Rust.Str} {received : Received}
  {m m' : UtMetadataModule}

theorem dispatch_tally (tally : Tally received m) (item : IDiscoveryMessage) :
    Tally (credit m (.send item) received) (dispatch repair item m).2 := by
  match item with
  | .control (.addTorrent metainfo) => exact keeps_add_torrent tally_torrents metainfo m tally
  | .control (.removeTorrent metainfo) => exact keeps_remove_torrent tally_torrents metainfo m tally
  | .control (.peerConnected _) => exact tally
  | .control (.peerDisconnected info) => exact keeps_remove_peer tally_gone info m tally
  | .control (.tick duration) => exact keeps_apply_tick duration m tally
  | .downloadMetainfo hash => exact keeps_download_metainfo hash m tally
  | .receivedUtMetadataMessage info (.request msg) =>
    exact keeps_recv_request (fun _ _ _ => tally_queue) info msg m tally
  | .receivedUtMetadataMessage info (.data msg) => exact (recv_data_tally tally info msg).2
  | .receivedUtMetadataMessage info (.reject msg) => exact tally

theorem exec_tally (tally : Tally received m) {event : Event}
    (returned : exec sha repair event m = (.ok (), m')) :
    Tally (clear m' (credit m event received)) m' := by
  cases event with
  | send item =>
    obtain ⟨answer, m₁, dispatched, checked⟩ := exec_send returned
    have between : Tally _ (dispatch repair item m).2 := dispatch_tally tally item
    rw [dispatched] at between
    exact check_tally between checked
  | onUpdate info extended =>
    obtain ⟨answer, added⟩ := exec_update returned
    have after := keeps_ended (keeps_add_peer info extended) tally added
    exact tally_closed after (closed_refl m')
  | poll random =>
    obtain ⟨out, polled⟩ := exec_poll returned
    have kept : Keeps (fun m => Tally (clear m received) m) (poll sha random) :=
      keeps_tally_poll random
    have after := keeps_ended kept (tally_closed tally (closed_refl m)) polled
    exact after

theorem run_tally {history : List Event} (run : Run sha repair history m received) : Tally received m := by
  induction run with
  | start => exact tally_start
  | next event before returned ih => exact exec_tally ih returned
  | reorder table before perm ih =>
    exact tally_same ih (fun hash => (get_perm perm hash).symm) rfl ih.peers

/-- A run by its calls, as long as they return. -/
def play (sha : Bytes → ShaHash) (repair : Bytes → Rust.Str) :
    UtMetadataModule → Received → List Event → Option (UtMetadataModule × Received)
  | m, received, [] => some (m, received)
  | m, received, event :: rest =>
    match exec sha repair event m with
    | (.ok (), m') => play sha repair m' (clear m' (credit m event received)) rest
    | _ => none

theorem play_run {events : List Event} : ∀ {history : List Event} {m : UtMetadataModule}
    {received received' : Received}, Run sha repair history m received →
    play sha repair m received events = some (m', received') →
      Run sha repair (history ++ events) m' received' := by
  induction events with
  | nil =>
    intro history m received received' before played
    cases played
    rw [List.append_nil]
    exact before
  | cons event rest ih =>
    intro history m received received' before played
    unfold play at played
    split at played
    next m₁ returned =>
      have whole := ih (.next event before returned) played
      rwa [List.append_assoc] at whole
    next => cases played

theorem piece_indices_nodup {size : Nat} (fits : size ≤ isizeMax) : (pieceIndices size).Nodup := by
  apply List.Nodup.map_on _ List.nodup_range
  intro i first j second same
  have small : ∀ k ∈ List.range (numPieces size), (Int64.ofNat k).toUInt64.toNat = k := by
    intro k member
    have inside := num_pieces_gt.mp (List.mem_range.mp member)
    exact index_value inside fits
  rw [← small i first, ← small j second, same]

/-- In every state that can be reached, the pieces of a download that has started are each in one place:
    waiting, requested or received. What is left counts the first two. So a piece that comes in finds
    something to count down, and its offset is inside the buffer. -/
theorem pieces_accounted {history : List Event} (run : Run sha repair history m received) :
    (∀ hash pending, m.pendingMap.get hash = some (some pending) →
      (pending.messages.map (·.piece) ++ (activeFor m.activeRequests hash).map pieceOf ++
          received hash).Perm (pieceIndices pending.bytes.length) ∧
        (pieceIndices pending.bytes.length).Nodup ∧
        pending.left = pending.messages.length + (activeFor m.activeRequests hash).length) ∧
      (∀ request ∈ m.activeRequests, ∃ pending,
        m.pendingMap.get request.sentTo.hash = some (some pending) ∧ 0 < pending.left ∧
          request.message.piece.toUInt64.toNat * maxRequestSize < pending.bytes.length) ∧
      ∀ info data, (recvData info data m).1 = .ok (.ok none) := by
  have tally := run_tally run
  refine ⟨?_, ?_, fun info data => (recv_data_tally tally info data).1⟩
  · intro hash pending known
    have account := tally.accounts hash
    rw [known] at account
    exact ⟨account.pieces, piece_indices_nodup account.fits, account.left⟩
  · intro request out
    have member : request ∈ activeFor m.activeRequests request.sentTo.hash :=
      List.mem_filter.mpr ⟨out, by simp⟩
    obtain ⟨pending, known, placed⟩ := request_account tally member
    exact ⟨pending, known, requested_left placed member, requested_inside placed member⟩

end Runs

section Example

def someHash : InfoHash := ⟨Vector.replicate 20 7⟩

def somePeer : PeerInfo := ⟨.v4 10 0 0 1 6881, ⟨Vector.replicate 20 1⟩, someHash⟩

/-- The extended message of a peer that says how large the dictionary is. -/
def announcing (size : Int64) : ExtendedMessage :=
  { idMap := [(.utMetadata, 5)], ourId := none, ourTcpPort := none, theirIp := none, ourIpv6Addr := none
    ourIpv4Addr := none, ourMaxRequests := none, metadataSize := some size, rawBencode := [] }

def sharing (size : Int64) : ExtendedPeerInfo := ⟨some (announcing size), some (announcing size)⟩

/-- Two pieces were requested, and one of these has come in, too short. -/
def oneOfTwo : List Event :=
  [.onUpdate somePeer (sharing 16385), .send (.downloadMetainfo someHash), .poll 0, .poll 0,
    .send (.receivedUtMetadataMessage somePeer (.data (.new 0 16385 [1, 2])))]

theorem one_of_two_accounted :
    ∃ m received pending, Run (fun _ => someHash) (fun _ => .ofAscii "") oneOfTwo m received ∧
      m.pendingMap.get someHash = some (some pending) ∧ received someHash = [0] ∧
      (activeFor m.activeRequests someHash).map pieceOf = [1] ∧
      pending.left = pending.messages.length + (activeFor m.activeRequests someHash).length := by
  have played : (play (fun _ => someHash) (fun _ => .ofAscii "") .new (fun _ => []) oneOfTwo).map
      (fun state => ((state.1.pendingMap.get someHash).join.isSome, state.2 someHash,
        (activeFor state.1.activeRequests someHash).map pieceOf)) = some (true, [0], [1]) := by
    decide +kernel
  obtain ⟨⟨m, received⟩, reached, values⟩ := Option.map_eq_some_iff.mp played
  have run := play_run .start reached
  simp only [Prod.mk.injEq] at values
  obtain ⟨started, come, out⟩ := values
  obtain ⟨pending, known⟩ := Option.isSome_iff_exists.mp started
  rw [Option.join_eq_some_iff] at known
  exact ⟨m, received, pending, run, known, come, out, ((pieces_accounted run).1 _ _ known).2.2⟩

end Example

end SelectLedger
