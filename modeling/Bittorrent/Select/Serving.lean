import Bittorrent.Select.Accounts

/-!
What the metadata module answers to its peers. A piece is answered only if all its 16 KiB are there, so
the last piece of a dictionary is not, unless it is full, and the size that is told is always that of a
piece.
-/
namespace SelectServing
open Rust Action ListPatch HashTables PeerMessage SelectMetadata SelectAccounts
open List hiding range

section Answers
variable {m : UtMetadataModule} {request : PeerRequest} {rest : List PeerRequest}

def pieceNumber (request : PeerRequest) : Nat := request.request.piece.toUInt64.toNat

/-- The end of the piece does not overflow. -/
def Harmless (request : PeerRequest) : Prop :=
  pieceNumber request * maxRequestSize + maxRequestSize ≤ usizeMax

instance (request : PeerRequest) : Decidable (Harmless request) :=
  inferInstanceAs (Decidable (_ ≤ _))

def answer (completed : HashTable InfoHash Bytes) (request : PeerRequest) : Option ODiscoveryMessage :=
  (completed.get request.sendTo.hash).bind fun data =>
    if pieceNumber request * maxRequestSize + maxRequestSize ≤ data.length then
      some (.sendUtMetadataMessage request.sendTo (.data (.new request.request.piece
        (Int64.ofNat maxRequestSize) (range data (pieceNumber request * maxRequestSize) maxRequestSize))))
    else none

theorem respond_overflow (harmful : ¬ Harmless request) : (respond (request :: rest) m).1 = .panic := by
  unfold respond
  rw [modify_bind]
  by_cases product : pieceNumber request * maxRequestSize ≤ usizeMax
  · have value : usizeMul (ε := Empty) request.request.piece.toUInt64.toNat maxRequestSize =
        .ok (pieceNumber request * maxRequestSize) := usize_mul_ok product
    have sum : usizeAdd (ε := Empty) (pieceNumber request * maxRequestSize) maxRequestSize = .panic :=
      if_neg harmful
    rw [value, lift_bind, sum]
    rfl
  · have value : usizeMul (ε := Empty) request.request.piece.toUInt64.toNat maxRequestSize = .panic :=
      if_neg product
    rw [value]
    rfl

theorem respond_cons (harmless : Harmless request) :
    respond (request :: rest) m =
      match answer m.completedMap request with
      | some message => (.ok (some message), { m with peerRequests := rest })
      | none => respond rest { m with peerRequests := rest } := by
  unfold Harmless at harmless
  have product : pieceNumber request * maxRequestSize ≤ usizeMax := by omega
  have value : usizeMul (ε := Empty) request.request.piece.toUInt64.toNat maxRequestSize =
      .ok (pieceNumber request * maxRequestSize) := usize_mul_ok product
  rw [respond, modify_bind]
  rw [value, lift_bind, usize_add_ok harmless,
    lift_bind,
    get_bind]
  unfold answer
  cases m.completedMap.get request.sendTo.hash with
  | none => rfl
  | some data =>
    dsimp only [Option.bind_some]
    by_cases inside : pieceNumber request * maxRequestSize + maxRequestSize ≤ data.length
    · have before : pieceNumber request * maxRequestSize ≤ data.length := by omega
      have size : (range data (pieceNumber request * maxRequestSize) maxRequestSize).length = maxRequestSize :=
        range_length inside
      rw [if_pos ⟨before, inside⟩, if_pos inside, Nat.add_sub_cancel_left, size]
      rfl
    · rw [if_neg fun both => inside both.2, if_neg inside]

/-- The requests in front that get no answer are dropped with the one that gets one. -/
theorem respond_first (harmless : ∀ request ∈ m.peerRequests, Harmless request) :
    (m.peerRequests.filterMap (answer m.completedMap) = [] ∧
        respond m.peerRequests m = (.ok none, { m with peerRequests := [] })) ∨
      ∃ message rest, rest.length < m.peerRequests.length ∧ (∀ request ∈ rest, Harmless request) ∧
        m.peerRequests.filterMap (answer m.completedMap) =
          message :: rest.filterMap (answer m.completedMap) ∧
        respond m.peerRequests m = (.ok (some message), { m with peerRequests := rest }) := by
  obtain ⟨completed, pending, active, peers, queue⟩ := m
  induction queue with
  | nil => exact .inl ⟨rfl, rfl⟩
  | cons request rest ih =>
    have first := harmless request (.head _)
    have others : ∀ request ∈ rest, Harmless request :=
      (forall_mem_cons.mp harmless).2
    rw [respond_cons first]
    cases found : answer completed request with
    | some message =>
      exact .inr ⟨message, rest, by simp, others, filterMap_cons_some found, rfl⟩
    | none =>
      rw [filterMap_cons_none found]
      rcases ih others with nothing | ⟨message, later, shorter, fine, parts, responded⟩
      · exact .inl nothing
      · exact .inr ⟨message, later, Nat.lt_succ_of_lt shorter, fine, parts, responded⟩

end Answers

section Drain
variable {m : UtMetadataModule}

def drain : Nat → Work (List ODiscoveryMessage)
  | 0 => return []
  | bound + 1 => do
    match ← retrievePieceResponse with
    | none => return []
    | some message => return message :: (← drain bound)

theorem drain_answers {bound : Nat} (harmless : ∀ request ∈ m.peerRequests, Harmless request)
    (enough : m.peerRequests.length < bound) :
    drain bound m = (.ok (m.peerRequests.filterMap (answer m.completedMap)), { m with peerRequests := [] }) := by
  induction bound generalizing m with
  | zero => omega
  | succ bound ih =>
    rcases respond_first harmless with ⟨nothing, responded⟩ | ⟨message, rest, shorter, fine, parts, responded⟩
    · rw [nothing, drain, bind_run (m := retrievePieceResponse) responded]
      rfl
    · have later := ih (m := { m with peerRequests := rest }) fine (by dsimp only; omega)
      rw [parts, drain, bind_run (m := retrievePieceResponse) responded]
      dsimp only
      rw [bind_run later]
      rfl

theorem respond_harmful (queue : List PeerRequest) (m : UtMetadataModule)
    (harmful : ∃ request ∈ queue, ¬ Harmless request) :
    (respond queue m).1 = .panic ∨ ∃ message rest, (∃ request ∈ rest, ¬ Harmless request) ∧
      rest.length < queue.length ∧
      respond queue m = (.ok (some message), { m with peerRequests := rest }) := by
  induction queue generalizing m with
  | nil =>
    obtain ⟨request, member, _⟩ := harmful
    cases member
  | cons request rest ih =>
    by_cases first : Harmless request
    · have later : ∃ request ∈ rest, ¬ Harmless request := by
        obtain ⟨other, member, bad⟩ := harmful
        rcases mem_cons.mp member with rfl | member
        · exact absurd first bad
        · exact ⟨other, member, bad⟩
      rw [respond_cons first]
      cases answer m.completedMap request with
      | some message => exact .inr ⟨message, rest, later, by simp, rfl⟩
      | none =>
        rcases ih { m with peerRequests := rest } later with panicked | ⟨message, more, bad, shorter, responded⟩
        · exact .inl panicked
        · exact .inr ⟨message, more, bad, Nat.lt_succ_of_lt shorter, responded⟩
    · exact .inl (respond_overflow first)

theorem drain_panics {bound : Nat} (harmful : ∃ request ∈ m.peerRequests, ¬ Harmless request)
    (enough : m.peerRequests.length < bound) : (drain bound m).1 = .panic := by
  induction bound generalizing m with
  | zero => omega
  | succ bound ih =>
    rcases respond_harmful m.peerRequests m harmful with panicked | ⟨message, rest, bad, shorter, responded⟩
    · exact bind_panic (m := retrievePieceResponse) panicked
    · have later := ih (m := { m with peerRequests := rest }) bad (by dsimp only; omega)
      rw [drain, bind_run (m := retrievePieceResponse) responded]
      exact bind_panic later

end Drain

section Serves
variable {m : UtMetadataModule} {hash : InfoHash} {data : Bytes}

/-- The request is taken, and the last answer is this message. -/
def Answered (m : UtMetadataModule) (info : PeerInfo) (request : UtMetadataRequestMessage)
    (message : ODiscoveryMessage) : Prop :=
  ∃ earlier m', (do
    let _ ← recvRequest info request
    drain (maxPeerRequests + 1) : Work (List ODiscoveryMessage)) m = (.ok (earlier ++ [message]), m')

/-- A piece of the dictionary, to its end if it is the last one, with the size of the dictionary. -/
def pieceMessage (info : PeerInfo) (data : Bytes) (index : Nat) : ODiscoveryMessage :=
  let start := maxRequestSize * index
  let stop := min (maxRequestSize * (index + 1)) data.length
  .sendUtMetadataMessage info (.data (.new (Int64.ofNat index) (Int64.ofNat data.length)
    (range data start (stop - start))))

def Serves (m : UtMetadataModule) (hash : InfoHash) (data : Bytes) : Prop :=
  ∀ info request index, info.hash = hash → maxRequestSize * index < data.length →
    request.piece = Int64.ofNat index → Answered m info request (pieceMessage info data index)

def queued (m : UtMetadataModule) (info : PeerInfo) (request : UtMetadataRequestMessage) : List PeerRequest :=
  m.peerRequests ++ [⟨info, request⟩]

theorem recv_request_room (room : m.peerRequests.length < maxPeerRequests) (info : PeerInfo)
    (request : UtMetadataRequestMessage) :
    recvRequest info request m = (.ok (.ok none), { m with peerRequests := queued m info request }) := by
  unfold recvRequest
  rw [get_bind, if_neg (by omega)]
  rfl

theorem answer_size {completed : HashTable InfoHash Bytes} {request : PeerRequest} {info : PeerInfo}
    {message : UtMetadataDataMessage}
    (found : answer completed request = some (.sendUtMetadataMessage info (.data message))) :
    message.totalSize = Int64.ofNat maxRequestSize := by
  obtain ⟨data, _, answered⟩ := Option.bind_eq_some_iff.mp found
  split at answered
  · cases answered
    rfl
  · cases answered

theorem answered_iff (room : m.peerRequests.length < maxPeerRequests) {info : PeerInfo}
    {request : UtMetadataRequestMessage} {message : ODiscoveryMessage} :
    Answered m info request message ↔ (∀ other ∈ queued m info request, Harmless other) ∧
      ∃ earlier, (queued m info request).filterMap (answer m.completedMap) = earlier ++ [message] := by
  let after : UtMetadataModule := { m with peerRequests := queued m info request }
  have enough : after.peerRequests.length < maxPeerRequests + 1 := by
    change (queued m info request).length < maxPeerRequests + 1
    unfold queued
    rw [length_append]
    exact Nat.succ_lt_succ room
  unfold Answered
  rw [bind_run (recv_request_room room info request)]
  by_cases harmless : ∀ other ∈ after.peerRequests, Harmless other
  · rw [drain_answers harmless enough]
    constructor
    · rintro ⟨earlier, m', same⟩
      have answers := Outcome.ok.inj (Prod.mk.inj same).1
      exact ⟨harmless, earlier, answers⟩
    · rintro ⟨_, earlier, answers⟩
      exact ⟨earlier, _, by rw [← answers]⟩
  · constructor
    · rintro ⟨earlier, m', same⟩
      push Not at harmless
      have panicked := drain_panics harmless enough
      rw [same] at panicked
      cases panicked
    · exact fun both => absurd both.1 harmless

/-- The claimed answers are given exactly for a dictionary of one full piece, if no request that waits
    overflows. -/
theorem serves_iff (held : m.completedMap.get hash = some data)
    (room : m.peerRequests.length < maxPeerRequests) (nonempty : data ≠ []) (fits : data.length ≤ isizeMax) :
    Serves m hash data ↔ data.length = maxRequestSize ∧ ∀ request ∈ m.peerRequests, Harmless request := by
  constructor
  · intro serves
    have some_data : maxRequestSize * 0 < data.length := by
      rw [Nat.mul_zero]
      exact length_pos_iff.mpr nonempty
    obtain ⟨harmless, earlier, answers⟩ :=
      (answered_iff room).mp (serves ⟨.v4 0 0 0 0 0, hash, hash⟩ (.new 0) 0 rfl some_data rfl)
    have last := mem_append_right earlier (mem_singleton_self
      (pieceMessage ⟨.v4 0 0 0 0 0, hash, hash⟩ data 0))
    rw [← answers, mem_filterMap] at last
    obtain ⟨request, _, found⟩ := last
    have sizes : (Int64.ofNat data.length).toUInt64.toNat = (Int64.ofNat maxRequestSize).toUInt64.toNat :=
      congrArg _ (congrArg _ (answer_size found))
    rw [size_value fits, size_value (by decide)] at sizes
    exact ⟨sizes, fun request member => harmless request (mem_append_left _ member)⟩
  · rintro ⟨whole, harmless⟩ info request index own inside piece
    have first : index = 0 := by
      rw [whole] at inside
      unfold maxRequestSize at inside
      omega
    subst first
    have number : pieceNumber ⟨info, request⟩ = 0 := by
      unfold pieceNumber
      rw [piece]
      rfl
    rw [answered_iff room]
    constructor
    · intro other member
      rcases mem_append.mp member with waiting | ours
      · exact harmless other waiting
      · rw [mem_singleton.mp ours]
        unfold Harmless
        rw [number]
        decide
    · refine ⟨m.peerRequests.filterMap (answer m.completedMap), ?_⟩
      have found : answer m.completedMap ⟨info, request⟩ = some (pieceMessage info data 0) := by
        unfold answer
        rw [own, held, number, Option.bind_some, if_pos (by rw [whole]; decide)]
        simp [pieceMessage, whole, piece]
      rw [queued, filterMap_append, filterMap_cons_some found]
      rfl

end Serves

end SelectServing
