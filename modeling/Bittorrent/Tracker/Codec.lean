import Bittorrent.Tracker.Message

/-!
Which requests come back from their own bytes. Responses always do. A request does unless it spells
something in two ways (an explicit address of zeros, a number of peers that stands for the default) or has
an option that cannot be written.
-/
namespace TrackerCodec
open Rust Outcome NomParse UtilSha TrackerOptions TrackerMessages

section Parts
variable {size : Nat}

theorem parse_written_run (run : Run size) : parseRun size run.bytes = .ok (run, []) :=
  dif_pos run.whole

theorem parse_written_hash (hash : ShaHash) (rest : Bytes) :
    parseHash (hash.asRef ++ rest) = .ok (hash, rest) := by
  rw [parseHash, take_append rest (as_ref_length hash), ok_bind]
  simp only [from_hash_as_ref]
  rfl

theorem parse_written_event (event : AnnounceEvent) (rest : Bytes) :
    parseEvent (writeI32 event.asId ++ rest) = .ok (event, rest) := by
  rw [parseEvent, be_i32_write, ok_bind]
  cases event <;> rfl

theorem parse_written_state (state : ClientState) (rest : Bytes) :
    parseState (state.writeBytes ++ rest) = .ok (state, rest) := by
  simp only [ClientState.writeBytes, List.append_assoc]
  simp [parseState, parse_written_event]

/-- An explicit address of zeros is read as an implied one. -/
def ipAsRead : SourceIP → SourceIP
  | .impliedV4 => .impliedV4
  | .explicitV4 ip => if ip.toList = impliedIpv4Id then .impliedV4 else .explicitV4 ip
  | .impliedV6 => .impliedV6
  | .explicitV6 ip => if ip.toList = impliedIpv6Id then .impliedV6 else .explicitV6 ip

theorem parse_implied (implied : SourceIP) (explicit : Vector UInt8 size → SourceIP)
    (rest : Bytes) : parsePreference size implied explicit (List.replicate size 0 ++ rest) =
      .ok (implied, rest) := by
  rw [parsePreference, tag_append]
  rfl

theorem parse_explicit (implied : SourceIP) (explicit : Vector UInt8 size → SourceIP)
    (ip : Vector UInt8 size) (rest : Bytes) :
    parsePreference size implied explicit (ip.toList ++ rest) =
      .ok (if ip.toList = List.replicate size 0 then implied else explicit ip, rest) := by
  by_cases zero : ip.toList = List.replicate size 0
  · rw [if_pos zero, zero, parse_implied]
  · rw [if_neg zero, parsePreference, tag_other rest (by simp) zero, count_fixed_be_u8]
    rfl

/-- The reader of the family that the action id of the address announces. -/
def preferenceOf (ip : SourceIP) : Parser SourceIP :=
  if ip.isIpv4 then parsePreferenceV4 else parsePreferenceV6

theorem parse_written_ip (ip : SourceIP) (rest : Bytes) :
    preferenceOf ip (ip.writeBytes ++ rest) = .ok (ipAsRead ip, rest) := by
  cases ip with
  | impliedV4 | impliedV6 => exact parse_implied _ _ rest
  | explicitV4 ip | explicitV6 ip => exact parse_explicit _ _ ip rest

/-- A number of peers that stands for the default is read as the default. -/
def desiredAsRead : DesiredPeers → DesiredPeers
  | .default => .default
  | .specified count => if count = defaultNumWant then .default else .specified count

theorem parse_written_desired (desired : DesiredPeers) (rest : Bytes) :
    parseDesired (desired.writeBytes ++ rest) = .ok (desiredAsRead desired, rest) := by
  cases desired with
  | default | specified count =>
    rw [DesiredPeers.writeBytes, parseDesired, be_i32_write, ok_bind]
    rfl

theorem parse_written_announce (request : AnnounceRequest) :
    parseAnnounceRequest (preferenceOf request.ip) request.writeBytes = (do
      let (options, rest) ← AnnounceOptions.fromBytes request.options.writeBytes
      return ({ request with
        ip := ipAsRead request.ip
        numWant := desiredAsRead request.numWant
        options := options }, rest)) := by
  simp only [AnnounceRequest.writeBytes, List.append_assoc]
  simp only [parseAnnounceRequest, parse_written_hash, parse_written_state, parse_written_ip,
    parse_written_desired, be_u32_write, be_u16_write, ok_bind]

end Parts

attribute [local simp] connectActionId announceIpv4ActionId announceIpv6ActionId scrapeActionId
  errorActionId TrackerRequest.writeBytes TrackerResponse.writeBytes parseRequest parseResponse

section Responses

theorem parse_written_announce_response (response : AnnounceResponse) :
    parseAnnounceResponse (match response.peers with | .v4 _ => parsePeersV4 | .v6 _ => parsePeersV6)
      response.writeBytes = .ok (response, []) := by
  obtain ⟨interval, leechers, seeders, peers⟩ := response
  simp only [AnnounceResponse.writeBytes, List.append_assoc, parseAnnounceResponse, be_i32_write,
    ok_bind]
  cases peers <;>
    simp [CompactPeers.writeBytes, parsePeersV4, parsePeersV6, parse_written_run]

theorem parse_written_response (response : TrackerResponse) :
    parseResponse response.writeBytes = .ok (response, []) := by
  obtain ⟨tid, responseType⟩ := response
  cases responseType with
  | connect id =>
    have back := be_u64_write id []
    rw [List.append_nil] at back
    simp [back]
  | announce announce =>
    have body := parse_written_announce_response announce
    cases peers : announce.peers with
    | v4 _ | v6 _ =>
      rw [peers] at body
      simp [peers, body]
  | scrape stats => simp [parse_written_run]
  | error message =>
    have body : parseError message.bytes = .ok (message, []) := by
      rw [parseError, from_utf8_bytes]
    simp [body]

end Responses

section Requests

/-- Equal fields and options. -/
structure SameAnnounce (a b : AnnounceRequest) : Prop where
  infoHash : a.infoHash = b.infoHash
  peerId : a.peerId = b.peerId
  state : a.state = b.state
  ip : a.ip = b.ip
  key : a.key = b.key
  numWant : a.numWant = b.numWant
  port : a.port = b.port
  options : Same a.options b.options

inductive SameType : RequestType → RequestType → Prop where
  | connect : SameType .connect .connect
  | announce {a b : AnnounceRequest} (same : SameAnnounce a b) : SameType (.announce a) (.announce b)
  | scrape (hashes : Run shaHashLen) : SameType (.scrape hashes) (.scrape hashes)

structure SameRequest (a b : TrackerRequest) : Prop where
  connectionId : a.connectionId = b.connectionId
  transactionId : a.transactionId = b.transactionId
  requestType : SameType a.requestType b.requestType

/-- All of the written bytes are read, and as an equal request. -/
def RoundTrips (request : TrackerRequest) : Prop :=
  ∃ request', parseRequest request.writeBytes = .ok (request', []) ∧ SameRequest request' request

/-- A connect request has the id of the protocol; an explicit address is not all zeros, and a specified
    number of peers is not the one reserved for the default. -/
inductive Expressible (request : TrackerRequest) : Prop where
  | connect (isConnect : request.requestType = .connect) (id : request.connectionId = connectIdProtocolId)
  | scrape {hashes : Run shaHashLen} (isScrape : request.requestType = .scrape hashes)
  | announce {announce : AnnounceRequest} (isAnnounce : request.requestType = .announce announce)
      (v4 : ∀ ip, announce.ip = .explicitV4 ip → ip.toList ≠ List.replicate 4 0)
      (v6 : ∀ ip, announce.ip = .explicitV6 ip → ip.toList ≠ List.replicate 16 0)
      (numWant : announce.numWant ≠ .specified (-1))

/-- Every option has some content and a byte that is neither 0 nor 1. -/
def Carried (request : TrackerRequest) : Prop :=
  ∀ announce, request.requestType = .announce announce → ∀ option ∈ announce.options.entries,
    option.2 ≠ [] ∧ option.1 ≠ 0 ∧ option.1 ≠ 1

theorem ip_as_read_iff (ip : SourceIP) : ipAsRead ip = ip ↔
    (∀ v4, ip = .explicitV4 v4 → v4.toList ≠ List.replicate 4 0) ∧
      ∀ v6, ip = .explicitV6 v6 → v6.toList ≠ List.replicate 16 0 := by
  cases ip <;> grind [ipAsRead, impliedIpv4Id, impliedIpv6Id]

theorem desired_as_read_iff (desired : DesiredPeers) :
    desiredAsRead desired = desired ↔ desired ≠ .specified (-1) := by
  cases desired <;> grind [desiredAsRead, defaultNumWant]

theorem parse_written_request (cid : UInt64) (tid : UInt32) (announce : AnnounceRequest) :
    parseRequest (TrackerRequest.writeBytes ⟨cid, tid, .announce announce⟩) = (do
      let (request, rest) ← parseAnnounceRequest (preferenceOf announce.ip) announce.writeBytes
      return (⟨cid, tid, .announce request⟩, rest)) := by
  by_cases v4 : announce.ip.isIpv4
  · simp [preferenceOf, v4]
  · simp [preferenceOf, v4]

theorem announce_round_trips (cid : UInt64) (tid : UInt32) (announce : AnnounceRequest) :
    RoundTrips ⟨cid, tid, .announce announce⟩ ↔
      (ipAsRead announce.ip = announce.ip ∧ desiredAsRead announce.numWant = announce.numWant) ∧
      ∃ options, AnnounceOptions.fromBytes announce.options.writeBytes = .ok (options, []) ∧
        Same options announce.options := by
  unfold RoundTrips
  rw [parse_written_request, parse_written_announce]
  constructor
  · rintro ⟨request, parsed, same⟩
    obtain ⟨⟨read, rest⟩, body, parsed⟩ := bind_eq_ok.mp parsed
    obtain ⟨⟨options, rest'⟩, isOptions, body⟩ := bind_eq_ok.mp body
    cases body
    cases parsed
    cases same.requestType with
    | announce same => exact ⟨⟨same.ip, same.numWant⟩, options, isOptions, same.options⟩
  · rintro ⟨⟨ip, numWant⟩, options, isOptions, same⟩
    rw [isOptions, ip, numWant]
    exact ⟨_, rfl, rfl, rfl, .announce ⟨rfl, rfl, rfl, rfl, rfl, rfl, rfl, same⟩⟩

theorem request_round_trips_iff (request : TrackerRequest) :
    RoundTrips request ↔ Expressible request ∧ Carried request := by
  obtain ⟨cid, tid, requestType⟩ := request
  cases requestType with
  | connect =>
    have carried : Carried ⟨cid, tid, .connect⟩ := by
      rintro _ ⟨⟩
    have tail := be_u32_write tid []
    rw [List.append_nil] at tail
    have read : parseRequest (TrackerRequest.writeBytes ⟨cid, tid, .connect⟩) =
        if cid = connectIdProtocolId then .ok (⟨connectIdProtocolId, tid, .connect⟩, [])
        else .err .error := by
      by_cases isId : cid = connectIdProtocolId <;>
        simp [tail, isId]
    unfold RoundTrips
    rw [read]
    constructor
    · rintro ⟨request, parsed, _⟩
      by_cases isId : cid = connectIdProtocolId
      · exact ⟨.connect rfl isId, carried⟩
      · rw [if_neg isId] at parsed
        cases parsed
    · rintro ⟨expressible, _⟩
      cases expressible with
      | connect _ isId =>
        rw [if_pos isId]
        exact ⟨_, rfl, isId.symm, rfl, .connect⟩
      | scrape other | announce other => cases other
  | scrape hashes =>
    have carried : Carried ⟨cid, tid, .scrape hashes⟩ := by
      rintro _ ⟨⟩
    have read : parseRequest (TrackerRequest.writeBytes ⟨cid, tid, .scrape hashes⟩) =
        .ok (⟨cid, tid, .scrape hashes⟩, []) := by
      simp [parse_written_run]
    exact ⟨fun _ => ⟨.scrape rfl, carried⟩, fun _ => ⟨_, read, rfl, rfl, .scrape hashes⟩⟩
  | announce announce =>
    rw [announce_round_trips, written_options_iff, ip_as_read_iff, desired_as_read_iff]
    constructor
    · rintro ⟨⟨⟨v4, v6⟩, numWant⟩, options⟩
      refine ⟨.announce rfl v4 v6 numWant, ?_⟩
      rintro _ ⟨⟩
      exact options
    · rintro ⟨expressible, carried⟩
      cases expressible with
      | connect other | scrape other => cases other
      | announce same v4 v6 numWant =>
        cases same
        exact ⟨⟨⟨v4, v6⟩, numWant⟩, carried announce rfl⟩

/-- A request and a response both come back from their bytes, with nothing left over, exactly if the
    request is expressible and its options are carried. -/
theorem codec_round_trip_iff (request : TrackerRequest) (response : TrackerResponse) :
    (RoundTrips request ∧ parseResponse response.writeBytes = .ok (response, [])) ↔
      Expressible request ∧ Carried request := by
  rw [request_round_trips_iff]
  exact and_iff_left (parse_written_response response)

def announceWith (optionByte : UInt8) (contents : Bytes) : TrackerRequest :=
  ⟨7, 9, .announce ⟨⟨Vector.replicate shaHashLen 1⟩, ⟨Vector.replicate shaHashLen 2⟩, ⟨0, 0, 0, .none⟩,
    .impliedV4, 5, .default, 6881, AnnounceOptions.insert .empty optionByte contents⟩⟩

theorem announce_with_expressible (optionByte : UInt8) (contents : Bytes) :
    Expressible (announceWith optionByte contents) := by
  refine .announce rfl ?_ ?_ ?_
  · rintro _ ⟨⟩
  · rintro _ ⟨⟩
  · rintro ⟨⟩

/-- A URL option without content is not written, and an option with the byte 1 is not read. -/
theorem options_lost : (Expressible (announceWith urlDataByte []) ∧
      ¬ RoundTrips (announceWith urlDataByte [])) ∧
    Expressible (announceWith 1 [47]) ∧ ¬ RoundTrips (announceWith 1 [47]) := by
  refine ⟨⟨announce_with_expressible _ _, ?_⟩, announce_with_expressible _ _, ?_⟩
  · intro trips
    exact (((request_round_trips_iff _).mp trips).2 _ rfl _ (.head _)).1 rfl
  · intro trips
    exact (((request_round_trips_iff _).mp trips).2 _ rfl _ (.head _)).2.2 rfl

end Requests

end TrackerCodec
