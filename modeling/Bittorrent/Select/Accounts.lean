import Bittorrent.Select.Metadata

/-!
The books of the metadata module. Each piece of a download that has started is in one place: it waits to
be requested, it is requested from a peer, or it has come in. Here is what messages do to the books.
-/
namespace SelectAccounts
open Rust Action ListPatch HashTables HashTable UtilSha MetainfoInfo PeerMessage SelectMetadata List

section Run

inductive Event where
  | send (item : IDiscoveryMessage)
  | onUpdate (info : PeerInfo) (extended : ExtendedPeerInfo)
  | poll (random : UInt32)

/-- Which pieces have come in since their download was started, by download. -/
abbrev Received := InfoHash → List Int64

variable (sha : Bytes → ShaHash) (repair : Bytes → Rust.Str)

def exec : Event → Work Unit
  | .send item => do
    let _ ← send sha repair item
  | .onUpdate info extended => onUpdate info extended
  | .poll random => do
    let _ ← poll sha random

def isStarted (m : UtMetadataModule) (hash : InfoHash) : Bool :=
  match m.pendingMap.get hash with
  | some (some _) => true
  | _ => false

/-- A piece has come in when it was asked for. -/
def credit (m : UtMetadataModule) : Event → Received → Received
  | .send (.receivedUtMetadataMessage info (.data data)), received =>
    if m.activeRequests.any (isFor info data.piece) then
      Function.update received info.hash (data.piece :: received info.hash)
    else received
  | _, received => received

/-- Of a download that is not going on nothing has come in. -/
def clear (m : UtMetadataModule) (received : Received) : Received := fun hash =>
  if isStarted m hash then received hash else []

/-- What may happen to a module, one call after the other. Between calls the map of downloads may be
    iterated in another order. -/
inductive Run : List Event → UtMetadataModule → Received → Prop where
  | start : Run [] .new fun _ => []
  | next {history : List Event} {m m' : UtMetadataModule} {received : Received} (event : Event)
      (before : Run history m received) (returned : exec sha repair event m = (.ok (), m')) :
      Run (history ++ [event]) m' (clear m' (credit m event received))
  | reorder {history : List Event} {m : UtMetadataModule} {received : Received}
      (table : HashTable InfoHash (Option PendingInfo)) (before : Run history m received)
      (perm : m.pendingMap.entries.Perm table.entries) :
      Run history { m with pendingMap := table } received

section Calls
variable {sha repair} {m m' : UtMetadataModule}

theorem exec_send {item : IDiscoveryMessage} (returned : exec sha repair (.send item) m = (.ok (), m')) :
    ∃ answer m₁, dispatch repair item m = (.ok answer, m₁) ∧ checkStreamUnblock sha m₁ = (.ok (), m') := by
  obtain ⟨answer, _, sent, same⟩ := bind_ok returned
  cases same
  obtain ⟨startSend, m₁, dispatched, sent⟩ := bind_ok sent
  obtain ⟨_, _, checked, same⟩ := bind_ok sent
  cases same
  exact ⟨_, m₁, dispatched, checked⟩

theorem exec_update {info : PeerInfo} {extended : ExtendedPeerInfo}
    (returned : exec sha repair (.onUpdate info extended) m = (.ok (), m')) :
    ∃ answer, addPeer info extended m = (.ok answer, m') := by
  obtain ⟨answer, _, added, same⟩ := bind_ok returned
  cases same
  exact ⟨answer, added⟩

theorem exec_poll {random : UInt32} (returned : exec sha repair (.poll random) m = (.ok (), m')) :
    ∃ out, poll sha random m = (.ok out, m') := by
  obtain ⟨out, _, polled, same⟩ := bind_ok returned
  cases same
  exact ⟨out, polled⟩

end Calls

end Run

section Books

def pieceIndices (size : Nat) : List Int64 := (List.range (numPieces size)).map Int64.ofNat

def activeFor (requests : List ActiveRequest) (hash : InfoHash) : List ActiveRequest :=
  requests.filter fun request => request.sentTo.hash = hash

def pieceOf (request : ActiveRequest) : Int64 := request.message.piece

/-- The account of one download. -/
structure Placed (pending : PendingInfo) (active : List ActiveRequest) (received : List Int64) : Prop where
  pieces : (pending.messages.map (·.piece) ++ active.map pieceOf ++ received).Perm
    (pieceIndices pending.bytes.length)
  left : pending.left = pending.messages.length + active.length
  fits : pending.bytes.length ≤ isizeMax

def Account : Option (Option PendingInfo) → List ActiveRequest → List Int64 → Prop
  | some (some pending), active, received => Placed pending active received
  | _, active, received => active = [] ∧ received = []

structure Tally (received : Received) (m : UtMetadataModule) : Prop where
  peers : ∀ hash active, m.activePeers.get hash = some active → ∀ peer ∈ active.peers, peer.hash = hash
  accounts : ∀ hash, Account (m.pendingMap.get hash) (activeFor m.activeRequests hash) (received hash)

variable {received : Received} {m m' : UtMetadataModule}

theorem tally_start : Tally (fun _ => []) .new where
  peers := fun hash active found => by cases found
  accounts := fun hash => ⟨rfl, rfl⟩

/-- Only the downloads, the requests and the peers matter, and the downloads only up to their order. -/
theorem tally_same (tally : Tally received m)
    (pending : ∀ hash, m'.pendingMap.get hash = m.pendingMap.get hash)
    (requests : m'.activeRequests = m.activeRequests)
    (peers : ∀ hash active, m'.activePeers.get hash = some active → ∀ peer ∈ active.peers, peer.hash = hash) :
    Tally received m' where
  peers := peers
  accounts := fun hash => by
    rw [pending, requests]
    exact tally.accounts hash

end Books

section Frames
variable {I : UtMetadataModule → Prop} {repair : Bytes → Rust.Str}

section
variable (completed : ∀ m table, I m → I { m with completedMap := table })
include completed

theorem keeps_add_torrent (metainfo : Metainfo) : Keeps I (addTorrent repair metainfo) := by
  apply keeps_bind keeps_get
  intro m
  split
  · exact keeps_pure _
  · apply keeps_bind (keeps_lift _)
    intro infoBytes
    apply keeps_bind
    · exact keeps_modify fun m => completed m _
    · exact fun _ => keeps_pure _

theorem keeps_remove_torrent (metainfo : Metainfo) : Keeps I (removeTorrent metainfo) := by
  apply keeps_bind keeps_get
  intro m
  split
  · apply keeps_bind
    · exact keeps_modify fun m => completed m _
    · exact fun _ => keeps_pure _
  · exact keeps_pure _

end

theorem keeps_recv_request (queued : ∀ m request, m.peerRequests.length ≠ maxPeerRequests → I m →
      I { m with peerRequests := m.peerRequests ++ [request] })
    (info : PeerInfo) (request : UtMetadataRequestMessage) : Keeps I (recvRequest info request) := by
  intro m holds
  unfold recvRequest
  rw [get_bind]
  split
  · exact holds
  · exact queued m _ ‹_› holds

theorem keeps_respond (queued : ∀ m rest, rest <:+ m.peerRequests → I m → I { m with peerRequests := rest })
    (queue : List PeerRequest) : ∀ m, I m → m.peerRequests = queue → I (respond queue m).2 := by
  induction queue with
  | nil => exact fun _ holds _ => holds
  | cons request rest ih =>
    intro m holds same
    have next := queued m rest (same ▸ suffix_cons request rest) holds
    rw [respond, modify_bind]
    have here : ∀ s, s = { m with peerRequests := rest } → I s := fun _ same => same ▸ next
    have later : Triple (· = { m with peerRequests := rest }) (respond rest) fun _ => I :=
      fun _ same => same ▸ ih _ next rfl
    refine triple_lift_bind (fun start _ => triple_lift_bind (fun stop _ => ?_) here) here _ rfl
    apply triple_get_bind
    rintro _ rfl
    split
    · exact triple_ite (fun _ => here) fun _ => later
    · exact later

section
variable (set : ∀ m hash pending, I m → I { m with pendingMap := m.pendingMap.adjust hash fun _ => some pending })
include set

theorem keeps_recv_data (removed : ∀ m index, I m →
      I { m with activeRequests := swapRemove m.activeRequests index })
    (info : PeerInfo) (data : UtMetadataDataMessage) : Keeps I (recvData info data) := by
  apply keeps_bind keeps_get
  intro m
  split
  · exact keeps_pure _
  · apply keeps_bind
    · exact keeps_modify fun m => removed m _
    intro _
    apply keeps_bind keeps_get
    intro m'
    split
    · apply keeps_bind (keeps_lift _)
      intro offset
      refine keeps_ite (fun _ => keeps_bind keeps_abort fun _ => ?_) fun _ => ?_
      all_goals
        refine keeps_bind (keeps_modify fun m => set m _ _) fun _ => ?_
        refine keeps_bind (keeps_lift _) fun _ => ?_
        exact keeps_bind (keeps_modify fun m => set m _ _) fun _ => keeps_pure _
    · exact keeps_pure _

theorem keeps_check {sha : Bytes → ShaHash}
    (swept : ∀ m, I m → I { m with pendingMap := m.pendingMap.mapValues (validateEntry sha) }) :
    Keeps I (checkStreamUnblock sha) := by
  apply keeps_bind
  · apply keeps_bind keeps_get
    refine fun m => keeps_for_each (fun hash => keeps_bind keeps_get fun m => ?_) _
    split
    · exact keeps_bind (keeps_lift _) fun pending => keeps_modify fun m => set m hash pending
    · exact keeps_pure _
  · exact fun _ => keeps_modify swept

end

def joined (m : UtMetadataModule) (info : PeerInfo) (size : Int64) : UtMetadataModule :=
  let active := (m.activePeers.get info.hash).getD ⟨[], size⟩
  { m with activePeers :=
      m.activePeers.insert info.hash { active with peers := insertPeer info active.peers } }

theorem add_peer_joins (info : PeerInfo) (extended : ExtendedPeerInfo) (m : UtMetadataModule) :
    Triple (· = m) (addPeer info extended) fun _ m' => m' = m ∨
      ∃ size, extended.theirs.bind (·.metadataSize) = some size ∧ m' = joined m info size := by
  unfold addPeer
  dsimp only
  split
  · rintro _ rfl
    exact .inr ⟨_, ‹_›, rfl⟩
  · exact fun _ same => .inl same

theorem keeps_add_peer_apart (peers : ∀ m table, I m → I { m with activePeers := table })
    (info : PeerInfo) (extended : ExtendedPeerInfo) : Keeps I (addPeer info extended) := by
  intro m holds
  rcases add_peer_joins info extended m m rfl with same | ⟨size, _, same⟩
  · rw [same]
    exact holds
  · rw [same]
    exact peers m _ holds

variable {received : Received}

theorem tally_torrents (m : UtMetadataModule) (table : HashTable InfoHash Bytes)
    (tally : Tally received m) : Tally received { m with completedMap := table } :=
  tally_same tally (fun _ => rfl) rfl tally.peers

theorem tally_queue {m : UtMetadataModule} {queue : List PeerRequest} (tally : Tally received m) :
    Tally received { m with peerRequests := queue } :=
  tally_same tally (fun _ => rfl) rfl tally.peers

end Frames

section Peers
variable {received : Received}

theorem insert_peer_mem {info peer : PeerInfo} {peers : List PeerInfo}
    (member : peer ∈ insertPeer info peers) : peer = info ∨ peer ∈ peers := by
  unfold insertPeer at member
  split at member
  · exact .inr member
  · exact mem_cons.mp member

theorem without_peer_mem {info peer : PeerInfo} {active : ActivePeers}
    (member : peer ∈ (withoutPeer info active).peers) : peer ∈ active.peers :=
  mem_of_mem_filter member

theorem joined_entries {m : UtMetadataModule} {info : PeerInfo} {size : Int64}
    {P : InfoHash → ActivePeers → Prop}
    (before : ∀ hash active, m.activePeers.get hash = some active → P hash active)
    (first : P info.hash ⟨[info], size⟩) (more : ∀ active, m.activePeers.get info.hash = some active →
      P info.hash { active with peers := insertPeer info active.peers }) :
    ∀ hash active, (joined m info size).activePeers.get hash = some active → P hash active := by
  intro hash active found
  rcases found_insert found with ⟨rfl, rfl⟩ | old
  · cases known : m.activePeers.get info.hash with
    | none => exact first
    | some active => exact more active known
  · exact before hash active old

theorem keeps_add_peer (info : PeerInfo) (extended : ExtendedPeerInfo) :
    Keeps (Tally received) (addPeer info extended) := by
  intro m tally
  rcases add_peer_joins info extended m m rfl with same | ⟨size, _, same⟩
  · rw [same]
    exact tally
  · rw [same]
    refine tally_same tally (fun _ => rfl) rfl (joined_entries tally.peers (by simp) ?_)
    intro active known peer member
    rcases insert_peer_mem member with rfl | old
    · rfl
    · exact tally.peers _ active known peer old

/-- Every peer of the second map is in the first, under the same download with the same size. -/
def Fewer (peers peers' : HashTable InfoHash ActivePeers) : Prop :=
  ∀ hash active', peers'.get hash = some active' →
    ∃ active, peers.get hash = some active ∧ active'.peers ⊆ active.peers ∧
      active'.metadataSize = active.metadataSize

theorem fewer_refl (peers : HashTable InfoHash ActivePeers) : Fewer peers peers :=
  fun _ active found => ⟨active, found, List.Subset.refl _, rfl⟩

variable {peers : HashTable InfoHash ActivePeers}

theorem fewer_trans {peers' peers'' : HashTable InfoHash ActivePeers} (first : Fewer peers peers')
    (second : Fewer peers' peers'') : Fewer peers peers'' := by
  intro hash active found
  obtain ⟨between, known, subset, size⟩ := second hash active found
  obtain ⟨start, before, whole, same⟩ := first hash between known
  exact ⟨start, before, List.Subset.trans subset whole, size.trans same⟩

theorem fewer_peers {m : UtMetadataModule} (tally : Tally received m)
    (fewer : Fewer m.activePeers peers) :
    ∀ hash active, peers.get hash = some active → ∀ peer ∈ active.peers, peer.hash = hash := by
  intro hash active' found peer member
  obtain ⟨active, known, subset, _⟩ := fewer hash active' found
  exact tally.peers hash active known peer (subset member)

theorem fewer_remove (peers : HashTable InfoHash ActivePeers) (hash : InfoHash) :
    Fewer peers (peers.remove hash) :=
  fun _ active found => ⟨active, found_remove found, List.Subset.refl _, rfl⟩

theorem fewer_without {info : PeerInfo} {active : ActivePeers}
    (known : peers.get info.hash = some active) :
    Fewer peers (peers.insert info.hash (withoutPeer info active)) := by
  intro hash active' found
  rcases found_insert found with ⟨rfl, rfl⟩ | found
  · exact ⟨active, known, fun _ => without_peer_mem, rfl⟩
  · exact ⟨active', found, List.Subset.refl _, rfl⟩

theorem fewer_adjust (peers : HashTable InfoHash ActivePeers) (info : PeerInfo) :
    Fewer peers (peers.adjust info.hash (withoutPeer info)) := by
  intro hash active' found
  by_cases same : hash = info.hash
  · subst same
    rw [get_adjust, Option.map_eq_some_iff] at found
    obtain ⟨active, known, rfl⟩ := found
    exact ⟨active, known, fun _ => without_peer_mem, rfl⟩
  · rw [get_adjust_other _ _ same] at found
    exact ⟨active', found, List.Subset.refl _, rfl⟩

theorem keeps_remove_peer {I : UtMetadataModule → Prop}
    (gone : ∀ m table, I m → Fewer m.activePeers table → I { m with activePeers := table }) (info : PeerInfo) :
    Keeps I (removePeer info) := by
  intro m holds
  unfold removePeer
  rw [get_bind]
  cases known : m.activePeers.get info.hash with
  | none => exact holds
  | some active =>
    dsimp only
    split
    · exact gone m _ holds (fewer_remove _ _)
    · exact gone m _ holds (fewer_without known)

theorem keeps_dispatch {I : UtMetadataModule → Prop} {repair : Bytes → Rust.Str} {item : IDiscoveryMessage}
    (completed : ∀ m table, I m → I { m with completedMap := table })
    (gone : ∀ m info, item = .control (.peerDisconnected info) → I m → I (removePeer info m).2)
    (ticked : ∀ m duration, item = .control (.tick duration) → I m → I (applyTick duration m).2)
    (fresh : ∀ m hash, item = .downloadMetainfo hash → I m →
      I { m with pendingMap := m.pendingMap.insert hash none })
    (queued : ∀ m request, m.peerRequests.length ≠ maxPeerRequests → I m →
      I { m with peerRequests := m.peerRequests ++ [request] })
    (removed : ∀ m index, I m → I { m with activeRequests := swapRemove m.activeRequests index })
    (set : ∀ m hash pending, I m → I { m with pendingMap := m.pendingMap.adjust hash fun _ => some pending }) :
    Keeps I (dispatch repair item) := by
  match item with
  | .control (.addTorrent metainfo) => exact keeps_add_torrent completed metainfo
  | .control (.removeTorrent metainfo) => exact keeps_remove_torrent completed metainfo
  | .control (.peerConnected _) => exact keeps_pure _
  | .control (.peerDisconnected info) => exact fun m => gone m info rfl
  | .control (.tick duration) => exact fun m => ticked m duration rfl
  | .downloadMetainfo hash =>
    intro m holds
    change I (downloadMetainfo hash m).2
    unfold downloadMetainfo
    rw [get_bind]
    split
    · exact fresh m hash rfl holds
    · exact holds
  | .receivedUtMetadataMessage info (.request msg) => exact keeps_recv_request queued info msg
  | .receivedUtMetadataMessage info (.data msg) => exact keeps_recv_data set removed info msg
  | .receivedUtMetadataMessage info (.reject msg) => exact keeps_pure _

theorem tally_gone (m : UtMetadataModule) (table : HashTable InfoHash ActivePeers) (tally : Tally received m)
    (fewer : Fewer m.activePeers table) : Tally received { m with activePeers := table } :=
  tally_same tally (fun _ => rfl) rfl (fewer_peers tally fewer)

end Peers

section Requests
variable {received : Received} {m m' : UtMetadataModule} {hash : InfoHash}

theorem expire_pending (expired : List ActiveRequest) (m : UtMetadataModule) (hash : InfoHash) :
    (expired.foldl expire m).pendingMap.get hash = (m.pendingMap.get hash).map (Option.map fun pending =>
      { pending with messages := pending.messages ++ (activeFor expired hash).map (·.message) }) := by
  induction expired generalizing m with
  | nil =>
    rw [foldl_nil]
    cases m.pendingMap.get hash with
    | none => rfl
    | some opt => cases opt <;> simp [activeFor]
  | cons request rest ih =>
    rw [foldl_cons, ih]
    by_cases same : request.sentTo.hash = hash
    · subst same
      simp only [expire, get_adjust, activeFor, filter_cons, decide_true, if_true]
      cases m.pendingMap.get request.sentTo.hash with
      | none => rfl
      | some opt => cases opt <;> simp [pushMessage]
    · have other : hash ≠ request.sentTo.hash := fun h => same h.symm
      simp only [expire, get_adjust_other _ _ other, activeFor, filter_cons, same,
        decide_false, Bool.false_eq_true, if_false]

theorem expire_peers (expired : List ActiveRequest) (m : UtMetadataModule) :
    Fewer m.activePeers (expired.foldl expire m).activePeers := by
  induction expired generalizing m with
  | nil => exact fewer_refl _
  | cons request rest ih => exact fewer_trans (fewer_adjust m.activePeers request.sentTo) (ih (expire m request))

theorem active_for_split (requests : List ActiveRequest) (duration : Duration) (hash : InfoHash) :
    (activeFor (requests.filter fun request => request.left < duration) hash ++
      activeFor (requests.filter fun request => ¬ request.left < duration) hash).Perm
        (activeFor requests hash) := by
  unfold activeFor
  rw [← filter_append]
  apply List.Perm.filter
  simpa only [decide_not] using
    filter_append_perm (fun request : ActiveRequest => decide (request.left < duration)) requests

theorem active_for_shorten (requests : List ActiveRequest) (duration : Duration) (hash : InfoHash) :
    activeFor (requests.map fun request => { request with left := request.left - duration }) hash =
      (activeFor requests hash).map fun request => { request with left := request.left - duration } := by
  unfold activeFor
  rw [filter_map]
  rfl

/-- Requests that go back change their place, and nothing else. -/
theorem account_expired {opt : Option (Option PendingInfo)} {active expired kept : List ActiveRequest}
    {come : List Int64} {duration : Duration} (account : Account opt active come)
    (split : (expired ++ kept).Perm active) :
    Account (opt.map (Option.map fun pending =>
        { pending with messages := pending.messages ++ expired.map (·.message) }))
      (kept.map fun request => { request with left := request.left - duration }) come := by
  have none_kept : active = [] → kept = [] := by
    rintro rfl
    exact (append_eq_nil_iff.mp split.eq_nil).2
  rcases opt with _ | _ | pending
  · exact ⟨by rw [none_kept account.1]; rfl, account.2⟩
  · exact ⟨by rw [none_kept account.1]; rfl, account.2⟩
  · constructor
    · have moved : (expired.map (·.message)).map (·.piece) = expired.map pieceOf := map_map
      have shortened : (kept.map fun request => { request with left := request.left - duration }).map
          pieceOf = kept.map pieceOf := map_map
      have places := (split.map pieceOf).append_right come
      rw [map_append, moved, shortened]
      refine List.Perm.trans ?_ account.pieces
      simpa only [map_append, append_assoc] using
        places.append_left (pending.messages.map (·.piece))
    · have size := split.length_eq
      have left := account.left
      simp only [length_append, length_map] at size ⊢
      omega
    · exact account.fits

theorem keeps_apply_tick (duration : Duration) :
    Keeps (Tally received) (applyTick duration) := by
  apply keeps_bind
  · apply keeps_modify
    intro m tally
    constructor
    · exact fewer_peers tally (expire_peers _ m)
    · intro hash
      rw [expire_pending, active_for_shorten]
      exact account_expired (tally.accounts hash) (active_for_split _ _ _)
  · exact fun _ => keeps_pure _

theorem keeps_download_metainfo (hash : InfoHash) :
    Keeps (Tally received) (downloadMetainfo hash) := by
  intro m tally
  unfold downloadMetainfo
  rw [get_bind]
  split
  case isTrue unknown =>
    constructor
    · exact tally.peers
    · intro hash'
      have account := tally.accounts hash'
      by_cases same : hash' = hash
      · subst same
        rw [unknown] at account
        change Account ((m.pendingMap.insert hash' none).get hash') _ _
        rw [get_insert]
        exact account
      · change Account ((m.pendingMap.insert hash none).get hash') _ _
        rw [get_insert_other _ _ same]
        exact account
  case isFalse known => exact tally

end Requests

section Data
variable {received : Received} {m : UtMetadataModule}

theorem swap_removed {α : Type} (front : List α) (x : α) (back : List α) :
    (x :: swapRemove (front ++ x :: back) front.length).Perm (front ++ x :: back) := by
  have removed := swap_remove_perm (show front.length < (front ++ x :: back).length by simp)
  rw [eraseIdx_append_of_length_le (Nat.le_refl _), Nat.sub_self, eraseIdx_cons_zero] at removed
  exact (removed.cons x).trans perm_middle.symm

variable {index size : Nat}

theorem num_pieces_gt : index < numPieces size ↔ index * maxRequestSize < size := by
  unfold numPieces maxRequestSize
  split <;> omega

variable {info : PeerInfo}

theorem request_found {piece : Int64} {requests : List ActiveRequest}
    (found : requests.findIdx? (isFor info piece) = some index) :
    ∃ front request back, requests = front ++ request :: back ∧ front.length = index ∧
      request.sentTo = info ∧ request.message.piece = piece := by
  obtain ⟨inside, holds, _⟩ := List.findIdx?_eq_some_iff_getElem.mp found
  have parts : requests = requests.take index ++ requests[index] :: requests.drop (index + 1) := by
    rw [← drop_eq_getElem_cons inside, take_append_drop]
  refine ⟨_, _, _, parts, ?_, ?_⟩
  · rw [length_take]
    omega
  · simpa [isFor] using holds

theorem size_value (fits : size ≤ isizeMax) : (Int64.ofNat size).toUInt64.toNat = size := by
  have small : size < 2 ^ 64 := by
    unfold isizeMax at fits
    omega
  exact Nat.mod_eq_of_lt small

theorem index_value (inside : index * maxRequestSize < size) (fits : size ≤ isizeMax) :
    (Int64.ofNat index).toUInt64.toNat = index := by
  apply size_value
  unfold maxRequestSize at inside
  omega

theorem piece_inside {piece : Int64} (member : piece ∈ pieceIndices size) (fits : size ≤ isizeMax) :
    piece.toUInt64.toNat * maxRequestSize < size := by
  obtain ⟨index, small, rfl⟩ := mem_map.mp member
  have inside := num_pieces_gt.mp (mem_range.mp small)
  rw [index_value inside fits]
  exact inside

theorem write_slice_length {bytes data : Bytes} {offset : Nat} (inside : offset ≤ bytes.length) :
    (writeSlice bytes offset data).length = bytes.length := by
  apply patch_length
  rw [length_take]
  omega

/-- A download with a piece that has come in. -/
def filled (pending : PendingInfo) (data : UtMetadataDataMessage) : PendingInfo :=
  { pending with
    left := pending.left - 1
    bytes := writeSlice pending.bytes (data.piece.toUInt64.toNat * maxRequestSize) data.data }

/-- The download after a piece that was asked for. -/
def taken (m : UtMetadataModule) (index : Nat) (info : PeerInfo) (pending : PendingInfo)
    (data : UtMetadataDataMessage) : UtMetadataModule :=
  { m with
    activeRequests := swapRemove m.activeRequests index
    pendingMap := m.pendingMap.adjust info.hash fun _ => some (filled pending data) }

theorem recv_data_taken {data : UtMetadataDataMessage} {pending : PendingInfo}
    (found : m.activeRequests.findIdx? (isFor info data.piece) = some index)
    (known : m.pendingMap.get info.hash = some (some pending)) (more : 0 < pending.left)
    (inside : data.piece.toUInt64.toNat * maxRequestSize ≤ pending.bytes.length)
    (fits : pending.bytes.length ≤ isizeMax) :
    recvData info data m = (.ok (.ok none), taken m index info pending data) := by
  have product : data.piece.toUInt64.toNat * maxRequestSize ≤ usizeMax := by
    unfold isizeMax at fits
    unfold usizeMax
    omega
  have nonzero : ¬ pending.left = 0 := by omega
  unfold recvData
  rw [get_bind, found]
  dsimp only
  rw [modify_bind,
    get_bind]
  rw [known]
  dsimp only
  rw [usize_mul_ok product, lift_bind,
    if_neg nonzero, bind_run (show setPending _ _ _ = (.ok (), _) from rfl),
    slice_from_ok inside, lift_bind]
  have twice : (m.pendingMap.adjust info.hash fun _ =>
      some { pending with left := pending.left - 1 }).adjust info.hash (fun _ => some (filled pending data)) =
        m.pendingMap.adjust info.hash fun _ => some (filled pending data) :=
    adjust_adjust _ _ _
  unfold taken
  rw [← twice]
  rfl

theorem account_perm {opt : Option (Option PendingInfo)} {active active' : List ActiveRequest}
    {come : List Int64} (account : Account opt active come) (perm : active'.Perm active) :
    Account opt active' come := by
  rcases opt with _ | _ | pending
  · exact ⟨List.Perm.eq_nil (account.1 ▸ perm), account.2⟩
  · exact ⟨List.Perm.eq_nil (account.1 ▸ perm), account.2⟩
  · constructor
    · exact (((perm.map pieceOf).append_left _).append_right _).trans account.pieces
    · rw [perm.length_eq]
      exact account.left
    · exact account.fits

section Placed
variable {pending : PendingInfo} {active active' : List ActiveRequest} {come : List Int64}
  {request : ActiveRequest}

theorem requested_inside (placed : Placed pending active come) (member : request ∈ active) :
    request.message.piece.toUInt64.toNat * maxRequestSize < pending.bytes.length := by
  have place : pieceOf request ∈ pending.messages.map (·.piece) ++ active.map pieceOf ++ come :=
    mem_append_left _ (mem_append_right _ (mem_map_of_mem member))
  exact piece_inside (placed.pieces.mem_iff.mp place) placed.fits

theorem requested_left (placed : Placed pending active come) (member : request ∈ active) :
    0 < pending.left := by
  have some_active := length_pos_of_mem member
  have left := placed.left
  omega

theorem placed_filled {data : UtMetadataDataMessage} (placed : Placed pending active come)
    (split : (request :: active').Perm active) (piece : request.message.piece = data.piece) :
    Placed (filled pending data) active' (data.piece :: come) := by
  have member : request ∈ active := split.mem_iff.mp (.head _)
  have inside := requested_inside placed member
  have size : (filled pending data).bytes.length = pending.bytes.length := by
    apply write_slice_length
    rw [← piece]
    exact Nat.le_of_lt inside
  constructor
  · rw [size]
    refine List.Perm.trans ?_ placed.pieces
    have places := (split.map pieceOf).append_right come
    simp only [filled, append_assoc]
    refine List.Perm.append_left _ (List.Perm.trans ?_ places)
    rw [map_cons, cons_append, ← piece]
    exact perm_middle
  · have count := split.length_eq
    have left := placed.left
    simp only [filled, length_cons] at count ⊢
    omega
  · rw [size]
    exact placed.fits

end Placed

theorem tally_taken {data : UtMetadataDataMessage} {pending : PendingInfo}
    {front back : List ActiveRequest} {request : ActiveRequest} (tally : Tally received m)
    (parts : m.activeRequests = front ++ request :: back) (sent : request.sentTo = info)
    (piece : request.message.piece = data.piece)
    (known : m.pendingMap.get info.hash = some (some pending)) :
    Tally (Function.update received info.hash (data.piece :: received info.hash))
      (taken m front.length info pending data) := by
  have perm : (request :: swapRemove m.activeRequests front.length).Perm m.activeRequests := by
    rw [parts]
    exact swap_removed front request back
  constructor
  · exact tally.peers
  · intro hash
    have account := tally.accounts hash
    have moved := perm.filter fun request => request.sentTo.hash = hash
    unfold taken
    by_cases same : hash = info.hash
    · subst same
      rw [known] at account
      rw [get_adjust, known, Function.update_self]
      rw [filter_cons_of_pos (by simp [sent])] at moved
      exact placed_filled account moved piece
    · have other : ¬ request.sentTo.hash = hash := by
        rw [sent]
        exact fun h => same h.symm
      rw [get_adjust_other _ _ same, Function.update_of_ne same]
      rw [filter_cons_of_neg (by simp [other])] at moved
      exact account_perm account moved

theorem request_account {hash : InfoHash} {request : ActiveRequest} (tally : Tally received m)
    (member : request ∈ activeFor m.activeRequests hash) :
    ∃ pending, m.pendingMap.get hash = some (some pending) ∧
      Placed pending (activeFor m.activeRequests hash) (received hash) := by
  have account := tally.accounts hash
  rcases known : m.pendingMap.get hash with _ | _ | pending <;> rw [known] at account
  · simp [account.1] at member
  · simp [account.1] at member
  · exact ⟨pending, rfl, account⟩

/-- Data that was not asked for is ignored, and other data is taken. -/
theorem recv_data_cases (tally : Tally received m) (info : PeerInfo) (data : UtMetadataDataMessage) :
    (m.activeRequests.any (isFor info data.piece) = false ∧ recvData info data m = (.ok (.ok none), m)) ∨
      m.activeRequests.any (isFor info data.piece) = true ∧ ∃ front request back pending,
        m.activeRequests = front ++ request :: back ∧ request.sentTo = info ∧
        request.message.piece = data.piece ∧ m.pendingMap.get info.hash = some (some pending) ∧
        data.piece.toUInt64.toNat * maxRequestSize < pending.bytes.length ∧
        recvData info data m = (.ok (.ok none), taken m front.length info pending data) := by
  cases found : m.activeRequests.findIdx? (isFor info data.piece) with
  | none =>
    left
    constructor
    · simpa using found
    · unfold recvData
      rw [get_bind, found]
      rfl
  | some index =>
    right
    obtain ⟨front, request, back, parts, rfl, sent, piece⟩ := request_found found
    constructor
    · rw [parts]
      simp [isFor, sent, piece]
    · have member : request ∈ activeFor m.activeRequests info.hash := by
        unfold activeFor
        rw [parts]
        simp [sent]
      obtain ⟨pending, known, placed⟩ := request_account tally member
      have inside := requested_inside placed member
      rw [piece] at inside
      exact ⟨front, request, back, pending, parts, sent, piece, known, inside,
        recv_data_taken found known (requested_left placed member) (Nat.le_of_lt inside) placed.fits⟩

/-- Data never brings the module down, and what was asked for is entered in the books. -/
theorem recv_data_tally (tally : Tally received m) (info : PeerInfo) (data : UtMetadataDataMessage) :
    (recvData info data m).1 = .ok (.ok none) ∧
      Tally (credit m (.send (.receivedUtMetadataMessage info (.data data))) received)
        (recvData info data m).2 := by
  rcases recv_data_cases tally info data with ⟨absent, ignored⟩ |
    ⟨present, front, request, back, pending, parts, sent, piece, known, _, accepted⟩
  · rw [ignored, credit, if_neg (by simp [absent])]
    exact ⟨rfl, tally⟩
  · rw [accepted, credit, if_pos present]
    exact ⟨rfl, tally_taken tally parts sent piece known⟩

end Data

end SelectAccounts
