import Bittorrent.Select.Integrity
import Bittorrent.Select.Serving

/-!
Two metadata modules, one of which has the dictionary that the other one downloads from it. Turn by turn,
the near one is polled, what it asks is handed to the far one, and the answer is handed back. If the
dictionary ends with a full piece it comes across, and otherwise it never does.
-/
namespace SelectFetching
open Rust Action ListPatch HashTables HashTable UtilSha MetainfoInfo PeerMessage SelectMetadata
  SelectAccounts SelectLedger SelectIntegrity SelectServing
open List hiding range

section Exchange

structure Pair where
  near : UtMetadataModule
  far : UtMetadataModule

def atNear {α : Type} (work : Work α) : Action Pair Empty α :=
  Action.zoom Pair.near (fun pair near => { pair with near := near }) work

def atFar {α : Type} (work : Work α) : Action Pair Empty α :=
  Action.zoom Pair.far (fun pair far => { pair with far := far }) work

theorem at_near_run {α : Type} {work : Work α} {near near' far : UtMetadataModule} {o : Outcome Empty α}
    (ended : work near = (o, near')) : atNear work ⟨near, far⟩ = (o, ⟨near', far⟩) :=
  zoom_run ended

theorem at_far_run {α : Type} {work : Work α} {near far far' : UtMetadataModule} {o : Outcome Empty α}
    (ended : work far = (o, far')) : atFar work ⟨near, far⟩ = (o, ⟨near, far'⟩) :=
  zoom_run ended

variable (sha : Bytes → ShaHash) (repair : Bytes → Rust.Str) (nearInfo farInfo : PeerInfo)

def turn (random : UInt32) : Action Pair Empty (Option Metainfo) := do
  match ← atNear (poll sha random) with
  | some (.downloadedMetainfo metainfo) => return some metainfo
  | some (.sendUtMetadataMessage _ message) =>
    let _ ← atFar (send sha repair (.receivedUtMetadataMessage nearInfo message))
    match ← atFar (poll sha random) with
    | some (.sendUtMetadataMessage _ answer) =>
      let _ ← atNear (send sha repair (.receivedUtMetadataMessage farInfo answer))
      return none
    | _ => return none
  | none => return none

def turns : List UInt32 → Action Pair Empty (Option Metainfo)
  | [] => return none
  | random :: rest => do
    match ← turn sha repair nearInfo farInfo random with
    | some metainfo => return some metainfo
    | none => turns rest

/-- The near module hears of the far one and is told what to download. -/
def download (extended : ExtendedPeerInfo) (randoms : List UInt32) : Action Pair Empty (Option Metainfo) := do
  atNear (onUpdate farInfo extended)
  let _ ← atNear (send sha repair (.downloadMetainfo farInfo.hash))
  turns sha repair nearInfo farInfo randoms

/-- Both sides have the extension, and the other side has told the size. -/
structure Offers (extended : ExtendedPeerInfo) (size : Nat) : Prop where
  ours : (extended.ours.bind (·.queryId .utMetadata)).isSome = true
  theirs : (extended.theirs.bind (·.queryId .utMetadata)).isSome = true
  told : extended.theirs.bind (·.metadataSize) = some (Int64.ofNat size)

/-- It has the dictionary and nothing else to do. -/
structure Holds (far : UtMetadataModule) (hash : InfoHash) (data : Bytes) : Prop where
  held : far.completedMap.get hash = some data
  idle : far.pendingMap = .empty
  queue : far.peerRequests = []

/-- A new module obtains the dictionary from every module that has it, after some number of turns. -/
def Obtains (hash : InfoHash) (data : Bytes) (info : Info) : Prop :=
  ∀ far nearInfo farInfo extended, Holds far hash data → nearInfo.hash = hash → farInfo.hash = hash →
    Offers extended data.length → ∃ count, ∀ randoms : List UInt32, randoms.length = count →
      ∃ pair, download sha repair nearInfo farInfo extended randoms ⟨.new, far⟩ =
        (.ok (some (.fromInfo info)), pair)

end Exchange

section Far
variable {sha : Bytes → ShaHash} {repair : Bytes → Rust.Str} {m : UtMetadataModule}

theorem check_empty (idle : m.pendingMap = .empty) : checkStreamUnblock sha m = (.ok (), m) := by
  obtain ⟨completed, pending, active, peers, queue⟩ := m
  subst idle
  rfl

theorem poll_empty (idle : m.pendingMap = .empty) (random : UInt32) :
    poll sha random m = respond m.peerRequests m := by
  obtain ⟨completed, pending, active, peers, queue⟩ := m
  subst idle
  rfl

variable {far : UtMetadataModule} {hash : InfoHash} {data : Bytes}

def asked (far : UtMetadataModule) (info : PeerInfo) (request : UtMetadataRequestMessage) : UtMetadataModule :=
  { far with peerRequests := [⟨info, request⟩] }

theorem far_takes (holds : Holds far hash data) (info : PeerInfo) (request : UtMetadataRequestMessage) :
    send sha repair (.receivedUtMetadataMessage info (.request request)) far =
      (.ok (.ok none), asked far info request) := by
  have room : far.peerRequests.length < maxPeerRequests := by
    rw [holds.queue]
    decide
  have taken := recv_request_room room info request
  rw [queued, holds.queue] at taken
  have dispatched : dispatch repair (.receivedUtMetadataMessage info (.request request)) far =
      (.ok (.ok none), asked far info request) := taken
  unfold send
  rw [bind_run dispatched, bind_run (check_empty (m := asked far info request) holds.idle)]
  rfl

theorem far_answers (holds : Holds far hash data) (info : PeerInfo) (request : UtMetadataRequestMessage)
    (harmless : Harmless ⟨info, request⟩) (random : UInt32) :
    poll sha random (asked far info request) = (.ok (answer far.completedMap ⟨info, request⟩), far) := by
  have back : { far with peerRequests := [] } = far := by rw [← holds.queue]
  rw [poll_empty (m := asked far info request) holds.idle]
  unfold asked
  rw [respond_cons harmless]
  rw [back]
  cases answer far.completedMap ⟨info, request⟩ with
  | some message => rfl
  | none => rfl

end Far

section Near
variable {sha : Bytes → ShaHash} {repair : Bytes → Rust.Str} {farInfo : PeerInfo} {size : Int64}

def waiting (count : Nat) : List UtMetadataRequestMessage :=
  (List.range count).map fun index => .new (Int64.ofNat index)

def nearWith (farInfo : PeerInfo) (size : Int64) (pending : PendingInfo) (active : List ActiveRequest) :
    UtMetadataModule where
  completedMap := .empty
  pendingMap := .single farInfo.hash (some pending)
  activeRequests := active
  activePeers := .single farInfo.hash ⟨[farInfo], size⟩
  peerRequests := []

variable {pending : PendingInfo} {active : List ActiveRequest}

section
variable (valid : ¬ (pending.left = 0 ∧ sha pending.bytes ≠ farInfo.hash))
include valid

theorem near_validates : validateDownloaded sha (nearWith farInfo size pending active) =
      (.ok (), nearWith farInfo size pending active) := by
  unfold validateDownloaded Action.modify nearWith
  dsimp only
  rw [map_single, validate_kept valid]

theorem near_check : checkStreamUnblock sha (nearWith farInfo size pending active) =
      (.ok (), nearWith farInfo size pending active) := by
  have known : (nearWith farInfo size pending active).pendingMap.get farInfo.hash = some (some pending) :=
    get_single _ _
  have entry : initializeEntry farInfo.hash (nearWith farInfo size pending active) =
      (.ok (), nearWith farInfo size pending active) := by
    unfold initializeEntry
    rw [get_bind, known]
    rfl
  have opened : initializePending (nearWith farInfo size pending active) =
      (.ok (), nearWith farInfo size pending active) := by
    change (initializeEntry farInfo.hash >>= fun _ => _) _ = _
    rw [bind_run entry]
    rfl
  unfold checkStreamUnblock
  rw [bind_run opened, near_validates valid]

end

theorem waiting_succ (count : Nat) : waiting (count + 1) = waiting count ++ [.new (Int64.ofNat count)] := by
  simp [waiting, range_succ]

theorem near_incomplete (more : 0 < pending.left) {bound : Nat} :
    retrieveCompletedDownload sha (bound + 1) (nearWith farInfo size pending active) =
      (.ok none, nearWith farInfo size pending active) := by
  apply retrieve_completed_none
  simp [nearWith, HashTable.single, isComplete, Nat.ne_of_gt more]

theorem near_asks {count left : Nat} (more : 0 < left) (bytes : Bytes) (active : List ActiveRequest)
    (random : UInt32) :
    poll sha random (nearWith farInfo size ⟨waiting (count + 1), left, bytes⟩ active) =
      (.ok (some (.sendUtMetadataMessage farInfo (.request (.new (Int64.ofNat count))))),
        nearWith farInfo size ⟨waiting count, left, bytes⟩
          (active ++ [generateActiveRequest (.new (Int64.ofNat count)) farInfo])) := by
  let near := nearWith farInfo size ⟨waiting (count + 1), left, bytes⟩ active
  have peers : near.activePeers.get farInfo.hash = some ⟨[farInfo], size⟩ := get_single _ _
  have ready : isReady near (farInfo.hash, some ⟨waiting (count + 1), left, bytes⟩) = true :=
    ready_iff.mpr ⟨_, _, rfl, by simp [waiting_succ], peers, by simp⟩
  have found : near.pendingMap.entries.find? (isReady near) =
      some (farInfo.hash, some ⟨waiting (count + 1), left, bytes⟩) := List.find?_cons_of_pos ready
  have requests : retrievePieceRequest random near =
      (.ok (some (.sendUtMetadataMessage farInfo (.request (.new (Int64.ofNat count))))),
        nearWith farInfo size ⟨waiting count, left, bytes⟩
          (active ++ [generateActiveRequest (.new (Int64.ofNat count)) farInfo])) := by
    unfold retrievePieceRequest
    rw [get_bind, found]
    dsimp only
    rw [peers, Option.map_some, Option.getD_some, length_singleton, Nat.mod_one, waiting_succ,
      List.getLast?_concat]
    rw [dropLast_concat]
    have adjusted : near.pendingMap.adjust farInfo.hash (fun _ => some ⟨waiting count, left, bytes⟩) =
        .single farInfo.hash (some ⟨waiting count, left, bytes⟩) := adjust_single _ _ _
    unfold nearWith
    rw [← adjusted]
    rfl
  unfold poll
  rw [get_bind, bind_run (near_incomplete more)]
  dsimp only
  rw [bind_run requests]
  rfl

theorem near_waits {left : Nat} (more : 0 < left) (bytes : Bytes) (active : List ActiveRequest)
    (random : UInt32) :
    poll sha random (nearWith farInfo size ⟨waiting 0, left, bytes⟩ active) =
      (.ok none, nearWith farInfo size ⟨waiting 0, left, bytes⟩ active) := by
  unfold poll
  rw [get_bind, bind_run (near_incomplete more)]
  rfl

/-- The answer to the last request is written down. The others stay as they are. -/
theorem near_takes {count left : Nat} {bytes : Bytes} {reply : UtMetadataDataMessage}
    {others : List ActiveRequest} (piece : reply.piece = Int64.ofNat count)
    (apart : ∀ other ∈ others, isFor farInfo reply.piece other = false)
    (inside : count * maxRequestSize < bytes.length) (fits : bytes.length ≤ isizeMax)
    (valid : left = 0 → sha (writeSlice bytes (count * maxRequestSize) reply.data) = farInfo.hash) :
    send sha repair (.receivedUtMetadataMessage farInfo (.data reply))
        (nearWith farInfo size ⟨waiting count, left + 1, bytes⟩
          (others ++ [generateActiveRequest (.new (Int64.ofNat count)) farInfo])) =
      (.ok (.ok none), nearWith farInfo size
        ⟨waiting count, left, writeSlice bytes (count * maxRequestSize) reply.data⟩ others) := by
  let pending : PendingInfo := ⟨waiting count, left + 1, bytes⟩
  let request := generateActiveRequest (.new (Int64.ofNat count)) farInfo
  have number : reply.piece.toUInt64.toNat = count := by
    rw [piece]
    exact index_value inside fits
  have found : (others ++ [request]).findIdx? (isFor farInfo reply.piece) = some others.length := by
    rw [List.findIdx?_append, List.findIdx?_eq_none_iff.mpr apart]
    simp [request, generateActiveRequest, isFor, piece, UtMetadataRequestMessage.new]
  have known : (nearWith farInfo size pending (others ++ [request])).pendingMap.get farInfo.hash =
      some (some pending) := get_single _ _
  have within : reply.piece.toUInt64.toNat * maxRequestSize ≤ pending.bytes.length := by
    rw [number]
    exact Nat.le_of_lt inside
  have state : taken (nearWith farInfo size pending (others ++ [request])) others.length farInfo pending
      reply = nearWith farInfo size
        ⟨waiting count, left, writeSlice bytes (count * maxRequestSize) reply.data⟩ others := by
    have value : filled pending reply =
        ⟨waiting count, left, writeSlice bytes (count * maxRequestSize) reply.data⟩ := by
      unfold filled
      rw [number]
      rfl
    have rest : swapRemove (others ++ [request]) others.length = others := by simp [swapRemove]
    unfold taken nearWith
    rw [adjust_single, value, rest]
  have accepted := recv_data_taken found known (Nat.succ_pos left) within fits
  rw [state] at accepted
  have dispatched : dispatch repair (.receivedUtMetadataMessage farInfo (.data reply))
      (nearWith farInfo size pending (others ++ [request])) = _ := accepted
  unfold send
  rw [bind_run dispatched, bind_run (near_check fun bad => bad.2 (valid bad.1))]
  rfl

variable (farInfo size) in
theorem near_done {data : Bytes} {info : Info} (read : Info.fromBytes sha data = .ok info) (random : UInt32) :
    ∃ near, poll sha random (nearWith farInfo size ⟨waiting 0, 0, data⟩ []) =
      (.ok (some (.downloadedMetainfo (.fromInfo info))), near) := by
  let near := nearWith farInfo size ⟨waiting 0, 0, data⟩ []
  have found : near.pendingMap.entries.find? isComplete = some (farInfo.hash, some ⟨waiting 0, 0, data⟩) := rfl
  have retrieved : retrieveCompletedDownload sha (near.pendingMap.entries.length + 1) near = _ :=
    retrieve_completed_some near.pendingMap.entries.length found
  rw [read] at retrieved
  refine ⟨without near farInfo.hash, ?_⟩
  unfold poll
  rw [get_bind, bind_run retrieved]
  rfl

/-- The peers are known and the download is asked for, but not yet started. -/
def nearAsked (farInfo : PeerInfo) (size : Int64) : UtMetadataModule where
  completedMap := .empty
  pendingMap := .single farInfo.hash none
  activeRequests := []
  activePeers := .single farInfo.hash ⟨[farInfo], size⟩
  peerRequests := []

variable {length : Nat}

theorem fresh_pending (fits : length ≤ isizeMax) :
    (pendingInfoFromMetadataSize (Int64.ofNat length) : Outcome Empty PendingInfo) =
      .ok ⟨waiting (numPieces length), numPieces length, List.replicate length 0⟩ := by
  unfold pendingInfoFromMetadataSize
  rw [size_value fits]
  exact if_pos fits

theorem near_starts (positive : 0 < length) (fits : length ≤ isizeMax) :
    checkStreamUnblock sha (nearAsked farInfo (Int64.ofNat length)) =
      (.ok (), nearWith farInfo (Int64.ofNat length)
        ⟨waiting (numPieces length), numPieces length, List.replicate length 0⟩ []) := by
  let pending : PendingInfo := ⟨waiting (numPieces length), numPieces length, List.replicate length 0⟩
  have some_piece : 0 < numPieces length := num_pieces_gt.mpr (by rw [Nat.zero_mul]; exact positive)
  have unstarted : (nearAsked farInfo (Int64.ofNat length)).pendingMap.get farInfo.hash = some none :=
    get_single _ _
  have peers : (nearAsked farInfo (Int64.ofNat length)).activePeers.get farInfo.hash =
      some ⟨[farInfo], Int64.ofNat length⟩ := get_single _ _
  have entry : initializeEntry farInfo.hash (nearAsked farInfo (Int64.ofNat length)) =
      (.ok (), nearWith farInfo (Int64.ofNat length) pending []) := by
    unfold initializeEntry
    rw [get_bind, unstarted, peers]
    dsimp only
    rw [fresh_pending fits, lift_bind]
    unfold setPending Action.modify nearAsked
    dsimp only
    rw [adjust_single]
    rfl
  have opened : initializePending (nearAsked farInfo (Int64.ofNat length)) =
      (.ok (), nearWith farInfo (Int64.ofNat length) pending []) := by
    change (initializeEntry farInfo.hash >>= fun _ => _) _ = _
    rw [bind_run entry]
    rfl
  unfold checkStreamUnblock
  rw [bind_run opened, near_validates fun bad => Nat.ne_of_gt some_piece bad.1]

variable (sha repair farInfo) in
theorem near_begins {extended : ExtendedPeerInfo} (offers : Offers extended length)
    (positive : 0 < length) (fits : length ≤ isizeMax) :
    ∃ near, onUpdate farInfo extended .new = (.ok (), near) ∧
      send sha repair (.downloadMetainfo farInfo.hash) near = (.ok (.ok none),
        nearWith farInfo (Int64.ofNat length) ⟨waiting (numPieces length), numPieces length,
          List.replicate length 0⟩ []) := by
  let near : UtMetadataModule :=
    { UtMetadataModule.new with activePeers := .single farInfo.hash ⟨[farInfo], Int64.ofNat length⟩ }
  have added : addPeer farInfo extended .new = (.ok (.ok none), near) := by
    unfold addPeer
    rw [offers.ours, offers.theirs, offers.told]
    rfl
  have dispatched : dispatch repair (.downloadMetainfo farInfo.hash) near =
      (.ok (.ok none), nearAsked farInfo (Int64.ofNat length)) := rfl
  refine ⟨near, bind_run added, ?_⟩
  unfold send
  rw [bind_run dispatched, bind_run (near_starts positive fits)]
  rfl

end Near

section Obtained
variable {sha : Bytes → ShaHash} {repair : Bytes → Rust.Str} {nearInfo farInfo : PeerInfo}
  {far : UtMetadataModule} {hash : InfoHash} {data : Bytes} {info : Info}

/-- The dictionary from this piece on, with zeros in front. -/
def partly (data : Bytes) (count : Nat) : Bytes :=
  List.replicate (count * maxRequestSize) 0 ++ data.drop (count * maxRequestSize)

variable {count : Nat}

theorem partly_length (inside : count * maxRequestSize ≤ data.length) :
    (partly data count).length = data.length := by
  simp only [partly, length_append, length_replicate, length_drop]
  omega

theorem partly_zero (data : Bytes) : partly data 0 = data := by simp [partly]

theorem partly_write (inside : (count + 1) * maxRequestSize ≤ data.length) :
    writeSlice (partly data (count + 1)) (count * maxRequestSize)
      (range data (count * maxRequestSize) maxRequestSize) = partly data count := by
  have next : count * maxRequestSize + maxRequestSize = (count + 1) * maxRequestSize := by ring
  have piece : (range data (count * maxRequestSize) maxRequestSize).length = maxRequestSize :=
    range_length (by omega)
  have room : maxRequestSize ≤ (partly data (count + 1)).length - count * maxRequestSize := by
    rw [partly_length inside]
    omega
  have front : (partly data (count + 1)).take (count * maxRequestSize) =
      List.replicate (count * maxRequestSize) 0 := by
    unfold partly
    rw [take_append_of_le_length (by rw [length_replicate]; omega), take_replicate,
      Nat.min_eq_left (by omega)]
  have back : (partly data (count + 1)).drop ((count + 1) * maxRequestSize) =
      data.drop ((count + 1) * maxRequestSize) := by
    exact drop_left' length_replicate
  have joined : range data (count * maxRequestSize) maxRequestSize ++ data.drop ((count + 1) * maxRequestSize) =
      data.drop (count * maxRequestSize) := by
    unfold range
    rw [← next, ← drop_drop, take_append_drop]
  have whole : (range data (count * maxRequestSize) maxRequestSize).take
      ((partly data (count + 1)).length - count * maxRequestSize) =
        range data (count * maxRequestSize) maxRequestSize :=
    take_of_length_le (by rw [piece]; exact room)
  unfold writeSlice patch
  rw [whole, piece, next, front, back, append_assoc, joined]
  rfl

theorem answer_full (held : far.completedMap.get nearInfo.hash = some data)
    (fits : data.length ≤ isizeMax) (inside : (count + 1) * maxRequestSize ≤ data.length) :
    Harmless ⟨nearInfo, .new (Int64.ofNat count)⟩ ∧
      answer far.completedMap ⟨nearInfo, .new (Int64.ofNat count)⟩ =
        some (.sendUtMetadataMessage nearInfo (.data (.new (Int64.ofNat count) (Int64.ofNat maxRequestSize)
          (range data (count * maxRequestSize) maxRequestSize)))) := by
  have next : count * maxRequestSize + maxRequestSize = (count + 1) * maxRequestSize := by ring
  have positive : 0 < maxRequestSize := by decide
  have number : pieceNumber ⟨nearInfo, .new (Int64.ofNat count)⟩ = count :=
    index_value (show count * maxRequestSize < data.length by omega) fits
  have small : isizeMax ≤ usizeMax := by decide
  constructor
  · unfold Harmless
    rw [number]
    omega
  · unfold answer
    rw [held, number, Option.bind_some, if_pos (by omega)]
    rfl

variable {size : Int64}

/-- A piece that the far module answers comes across in one turn. -/
theorem turn_fetches {left : Nat} {bytes : Bytes} {others : List ActiveRequest}
    (holds : Holds far hash data) (own : nearInfo.hash = hash) (fits : data.length ≤ isizeMax)
    (inside : (count + 1) * maxRequestSize ≤ data.length) (length : bytes.length = data.length)
    (apart : ∀ other ∈ others, isFor farInfo (Int64.ofNat count) other = false)
    (valid : left = 0 → sha (writeSlice bytes (count * maxRequestSize)
      (range data (count * maxRequestSize) maxRequestSize)) = farInfo.hash) (random : UInt32) :
    turn sha repair nearInfo farInfo random
        ⟨nearWith farInfo size ⟨waiting (count + 1), left + 1, bytes⟩ others, far⟩ =
      (.ok none, ⟨nearWith farInfo size ⟨waiting count, left, writeSlice bytes (count * maxRequestSize)
        (range data (count * maxRequestSize) maxRequestSize)⟩ others, far⟩) := by
  have held : far.completedMap.get nearInfo.hash = some data := by
    rw [own]
    exact holds.held
  obtain ⟨harmless, answers⟩ := answer_full held fits inside
  have positive : 0 < maxRequestSize := by decide
  have next : count * maxRequestSize + maxRequestSize = (count + 1) * maxRequestSize := by ring
  have asks : poll sha random (nearWith farInfo size ⟨waiting (count + 1), left + 1, bytes⟩ others) = _ :=
    near_asks (Nat.succ_pos left) bytes others random
  have takes : send sha repair (.receivedUtMetadataMessage nearInfo (.request (.new (Int64.ofNat count)))) far =
    _ := far_takes holds nearInfo _
  have responds : poll sha random (asked far nearInfo (.new (Int64.ofNat count))) = _ :=
    far_answers holds nearInfo _ harmless random
  rw [answers] at responds
  have accepts : send sha repair (.receivedUtMetadataMessage farInfo (.data (.new (Int64.ofNat count)
      (Int64.ofNat maxRequestSize) (range data (count * maxRequestSize) maxRequestSize))))
      (nearWith farInfo size ⟨waiting count, left + 1, bytes⟩ _) = _ :=
    near_takes rfl apart (by omega) (by omega) valid
  unfold turn
  rw [bind_run (at_near_run asks)]
  dsimp only
  rw [bind_run (at_far_run takes), bind_run (at_far_run responds)]
  dsimp only
  rw [bind_run (at_near_run accepts)]
  rfl

def fetching (farInfo : PeerInfo) (data : Bytes) (count : Nat) : UtMetadataModule :=
  nearWith farInfo (Int64.ofNat data.length) ⟨waiting count, count, partly data count⟩ []

theorem turns_fetch (holds : Holds far hash data) (near_own : nearInfo.hash = hash)
    (far_own : farInfo.hash = hash) (hashed : sha data = hash) (fits : data.length ≤ isizeMax)
    (read : Info.fromBytes sha data = .ok info) {randoms : List UInt32}
    (inside : count * maxRequestSize ≤ data.length) (enough : randoms.length = count + 1) :
    ∃ pair, turns sha repair nearInfo farInfo randoms ⟨fetching farInfo data count, far⟩ =
      (.ok (some (.fromInfo info)), pair) := by
  induction count generalizing randoms with
  | zero =>
    obtain ⟨random, rfl⟩ := length_eq_one_iff.mp enough
    obtain ⟨near, done⟩ := near_done farInfo (Int64.ofNat data.length) read random
    have given : poll sha random (fetching farInfo data 0) =
        (.ok (some (.downloadedMetainfo (.fromInfo info))), near) := by
      unfold fetching
      rw [partly_zero]
      exact done
    have turned : turn sha repair nearInfo farInfo random ⟨fetching farInfo data 0, far⟩ =
        (.ok (some (.fromInfo info)), ⟨near, far⟩) := by
      unfold turn
      rw [bind_run (at_near_run given)]
      rfl
    refine ⟨⟨near, far⟩, ?_⟩
    unfold turns
    rw [bind_run turned]
    rfl
  | succ count ih =>
    cases randoms with
    | nil => cases enough
    | cons random rest =>
      have further : count * maxRequestSize ≤ data.length :=
        Nat.le_trans (Nat.mul_le_mul_right _ (Nat.le_succ count)) inside
      have written := partly_write inside
      have fetches : turn sha repair nearInfo farInfo random ⟨fetching farInfo data (count + 1), far⟩ =
          (.ok none, ⟨fetching farInfo data count, far⟩) := by
        unfold fetching
        rw [← written]
        refine turn_fetches holds near_own fits inside (partly_length inside) (by simp) ?_ random
        rintro rfl
        rw [written, partly_zero, hashed, far_own]
      obtain ⟨pair, ended⟩ := ih further (Nat.succ.inj enough)
      refine ⟨pair, ?_⟩
      unfold turns
      rw [bind_run fetches]
      exact ended

theorem even_obtained (fits : data.length ≤ isizeMax) (positive : 0 < data.length)
    (even : maxRequestSize ∣ data.length) (hashed : sha data = hash)
    (read : Info.fromBytes sha data = .ok info) : Obtains sha repair hash data info := by
  intro far nearInfo farInfo extended holds near_own far_own offers
  obtain ⟨count, pieces⟩ := even
  have inside : count * maxRequestSize = data.length := by rw [pieces, Nat.mul_comm]
  have whole : numPieces data.length = count := by
    unfold numPieces
    rw [pieces, if_neg (by simp), Nat.mul_div_cancel_left count (by decide)]
  have zeros : List.replicate data.length 0 = partly data count := by
    unfold partly
    rw [inside, drop_length, append_nil]
  obtain ⟨near, updated, begun⟩ := near_begins sha repair farInfo offers positive fits
  rw [whole, zeros] at begun
  refine ⟨count + 1, ?_⟩
  intro randoms enough
  obtain ⟨pair, ended⟩ : ∃ pair, turns sha repair nearInfo farInfo randoms ⟨fetching farInfo data count, far⟩ =
      (.ok (some (.fromInfo info)), pair) :=
    turns_fetch holds near_own far_own hashed fits read (Nat.le_of_eq inside) enough
  refine ⟨pair, ?_⟩
  unfold download
  rw [bind_run (at_near_run updated), bind_run (at_near_run begun)]
  exact ended

/-- The request for the piece at the end, which gets no answer. -/
def lastRequest (farInfo : PeerInfo) (data : Bytes) : ActiveRequest :=
  generateActiveRequest (.new (Int64.ofNat (data.length / maxRequestSize))) farInfo

/-- A piece that is not full is asked for in vain. -/
theorem turn_loses {left : Nat} (holds : Holds far hash data) (own : nearInfo.hash = hash)
    (fits : data.length ≤ isizeMax) (bytes : Bytes) (random : UInt32) :
    turn sha repair nearInfo farInfo random
        ⟨nearWith farInfo size ⟨waiting (data.length / maxRequestSize + 1), left + 1, bytes⟩ [], far⟩ =
      (.ok none, ⟨nearWith farInfo size ⟨waiting (data.length / maxRequestSize), left + 1, bytes⟩
        [lastRequest farInfo data], far⟩) := by
  let request : UtMetadataRequestMessage := .new (Int64.ofNat (data.length / maxRequestSize))
  have number : pieceNumber ⟨nearInfo, request⟩ = data.length / maxRequestSize :=
    size_value (Nat.le_trans (Nat.div_le_self _ _) fits)
  have harmless : Harmless ⟨nearInfo, request⟩ := by
    unfold Harmless usizeMax
    rw [number]
    unfold isizeMax at fits
    unfold maxRequestSize
    omega
  have unanswered : answer far.completedMap ⟨nearInfo, request⟩ = none := by
    unfold answer
    rw [own, holds.held, number, Option.bind_some, if_neg]
    unfold maxRequestSize
    omega
  have asks : poll sha random (nearWith farInfo size
      ⟨waiting (data.length / maxRequestSize + 1), left + 1, bytes⟩ []) = _ :=
    near_asks (Nat.succ_pos left) bytes [] random
  have takes : send sha repair (.receivedUtMetadataMessage nearInfo (.request request)) far = _ :=
    far_takes holds nearInfo _
  have responds : poll sha random (asked far nearInfo request) = _ :=
    far_answers holds nearInfo _ harmless random
  rw [unanswered] at responds
  unfold turn
  rw [bind_run (at_near_run asks)]
  dsimp only
  rw [bind_run (at_far_run takes), bind_run (at_far_run responds)]
  rfl

theorem pieces_apart {i j : Nat} (less : i < j) (small : j ≤ isizeMax) : Int64.ofNat j ≠ Int64.ofNat i := by
  intro same
  have values : (Int64.ofNat j).toUInt64.toNat = (Int64.ofNat i).toUInt64.toNat := by rw [same]
  rw [size_value small, size_value (by omega)] at values
  omega

/-- While that request is out the other pieces come across, but the dictionary never does. -/
theorem turns_lose (holds : Holds far hash data) (own : nearInfo.hash = hash)
    (fits : data.length ≤ isizeMax) {bytes : Bytes} {randoms : List UInt32}
    (inside : count * maxRequestSize ≤ data.length) (length : bytes.length = data.length) :
    (turns sha repair nearInfo farInfo randoms
      ⟨nearWith farInfo size ⟨waiting count, count + 1, bytes⟩ [lastRequest farInfo data], far⟩).1 =
        .ok none := by
  induction randoms generalizing count bytes with
  | nil => rfl
  | cons random rest ih =>
    unfold turns
    cases count with
    | zero =>
      have waits : turn sha repair nearInfo farInfo random
          ⟨nearWith farInfo size ⟨waiting 0, 1, bytes⟩ [lastRequest farInfo data], far⟩ =
            (.ok none, ⟨nearWith farInfo size ⟨waiting 0, 1, bytes⟩ [lastRequest farInfo data], far⟩) := by
        unfold turn
        rw [bind_run (at_near_run (near_waits Nat.one_pos bytes _ random))]
        rfl
      rw [bind_run waits]
      exact ih inside length
    | succ count =>
      have further : count * maxRequestSize ≤ data.length :=
        Nat.le_trans (Nat.mul_le_mul_right _ (Nat.le_succ count)) inside
      have apart : ∀ other ∈ [lastRequest farInfo data], isFor farInfo (Int64.ofNat count) other = false := by
        intro other member
        rw [mem_singleton.mp member]
        have less : count < data.length / maxRequestSize := (Nat.le_div_iff_mul_le (by decide)).mpr inside
        have other_piece : Int64.ofNat (data.length / maxRequestSize) ≠ Int64.ofNat count :=
          pieces_apart less (Nat.le_trans (Nat.div_le_self _ _) fits)
        simp [isFor, lastRequest, generateActiveRequest, UtMetadataRequestMessage.new, other_piece]
      have fetches : turn sha repair nearInfo farInfo random ⟨nearWith farInfo size
          ⟨waiting (count + 1), count + 1 + 1, bytes⟩ [lastRequest farInfo data], far⟩ = _ :=
        turn_fetches holds own fits inside length apart (fun none => by cases none) random
      rw [bind_run fetches]
      apply ih further
      rw [write_slice_length (by omega), length]

/-- A dictionary with an end that is not a full piece is never obtained. -/
theorem ragged_not_obtained (fits : data.length ≤ isizeMax) (positive : 0 < data.length)
    (ragged : ¬ maxRequestSize ∣ data.length) : ¬ Obtains sha repair hash data info := by
  intro obtains
  let far : UtMetadataModule := { UtMetadataModule.new with completedMap := .single hash data }
  let peer : PeerInfo := ⟨.v4 0 0 0 0 0, hash, hash⟩
  have holds : Holds far hash data := ⟨get_single _ _, rfl, rfl⟩
  have offers : Offers (sharing (Int64.ofNat data.length)) data.length := ⟨rfl, rfl, rfl⟩
  have pieces : numPieces data.length = data.length / maxRequestSize + 1 :=
    if_pos fun even => ragged (Nat.dvd_of_mod_eq_zero even)
  obtain ⟨count, obtained⟩ := obtains far peer peer _ holds rfl rfl offers
  obtain ⟨pair, ended⟩ := obtained (List.replicate count 0) length_replicate
  obtain ⟨near, updated, begun⟩ := near_begins sha repair peer offers positive fits
  rw [pieces] at begun
  unfold download at ended
  rw [bind_run (at_near_run updated), bind_run (at_near_run begun)] at ended
  cases count with
  | zero => cases ended
  | succ count =>
    rw [replicate_succ, turns, bind_run (turn_loses holds rfl fits _ 0)] at ended
    have returned := congrArg Prod.fst ended
    rw [turns_lose holds rfl fits (Nat.div_mul_le_self ..) length_replicate] at returned
    cases returned

theorem read_positive (read : Info.fromBytes sha data = .ok info) : 0 < data.length := by
  apply length_pos_iff.mpr
  rintro rfl
  cases read

/-- For every dictionary that is held: all its pieces are served as they should be, and it can be fetched,
    exactly if it has the size of one piece, as long as no request in the queue overflows. It can be
    fetched exactly if its last piece is full. -/
theorem served_and_obtained_iff {m : UtMetadataModule} (read : Info.fromBytes sha data = .ok info)
    (hashed : sha data = hash) (fits : data.length ≤ isizeMax) (held : m.completedMap.get hash = some data)
    (room : m.peerRequests.length < maxPeerRequests) :
    ((Serves m hash data ∧ Obtains sha repair hash data info) ↔
        data.length = maxRequestSize ∧ ∀ request ∈ m.peerRequests, Harmless request) ∧
      (Obtains sha repair hash data info ↔ maxRequestSize ∣ data.length) := by
  have positive := read_positive read
  have obtained : Obtains sha repair hash data info ↔ maxRequestSize ∣ data.length := by
    constructor
    · intro obtains
      by_contra ragged
      exact ragged_not_obtained fits positive ragged obtains
    · intro even
      exact even_obtained fits positive even hashed read
  have served := serves_iff held room (length_pos_iff.mp positive) fits
  refine ⟨?_, obtained⟩
  constructor
  · rintro ⟨serves, _⟩
    exact served.mp serves
  · intro holds
    exact ⟨served.mpr holds, obtained.mpr (by rw [holds.1])⟩

def holdingSome : UtMetadataModule := { UtMetadataModule.new with completedMap := .single someHash someInfo }

theorem some_info_not_obtained : ∃ info, Info.fromBytes hashOf someInfo = .ok info ∧
    ¬ Obtains hashOf (fun _ => .ofAscii "") someHash someInfo info := by
  obtain ⟨info, read⟩ := some_info_reads
  refine ⟨info, read, ?_⟩
  rw [(served_and_obtained_iff (m := holdingSome) read (by decide) (by decide) (get_single _ _)
    (by decide)).2]
  decide

/-- The only piece of a small dictionary is asked for, and there is no answer. -/
theorem small_info_unanswered :
    ∃ info, Info.fromBytes hashOf someInfo = .ok info ∧ holdingSome.completedMap.get someHash = some someInfo ∧
      maxRequestSize * 0 < someInfo.length ∧
      ((do
        let _ ← recvRequest somePeer (.new 0)
        retrievePieceResponse : Work (Option ODiscoveryMessage)) holdingSome).1 = .ok none := by
  obtain ⟨info, read⟩ := some_info_reads
  exact ⟨info, read, get_single _ _, by decide, by decide +kernel⟩

end Obtained

end SelectFetching
