import Bittorrent.Tracker.Dispatcher

/-!
What the dispatcher does when it is woken. A turn is about one request at most: the request is taken out of
the map, and is then dropped, answered or sent on.
-/
namespace TrackerTurns
open Rust Outcome Action NomParse UtilSha UtilTimer HashTables HashTable TrackerMessages
  TrackerDispatcher

section Sending
variable (d : ClientDispatcher)

def Open (d : ClientDispatcher) : Prop := ∀ k, d.world.accepts k = true

theorem send_item_run (channel : Channel) (item : Item) :
    sendItem channel item d = (if d.world.accepts 0 then .ok () else .panic,
      { d with world := (World.send channel item d.world : Outcome Empty Bool × _).2 }) := by
  have asked : inWorld (World.send channel item) d = (.ok (d.world.accepts 0), _) := rfl
  rw [sendItem, bind_run asked]
  split <;> rfl

theorem send_item_log (channel : Channel) (item : Item) : (sendItem channel item d).2.world.log =
    d.world.log ++ if d.world.accepts 0 then [(channel, item)] else [] := by
  rw [send_item_run]
  simp only [World.send]
  split <;> simp

variable {d} in
theorem send_item_ends (listening : Open d) (channel : Channel) (item : Item) :
    sendItem channel item d = (.ok (), { d with world := { d.world with
      accepts := fun k => d.world.accepts (k + 1)
      log := d.world.log ++ [(channel, item)] } }) := by
  rw [send_item_run, World.send]
  simp [listening 0]

def cachedId (addr : SocketAddr) : Option UInt64 :=
  match d.idCache.get addr with
  | none => none
  | some (id, prevTime) => if isExpired (d.world.utc 0) prevTime then none else some id

theorem cache_get_run (addr : SocketAddr) :
    ∃ cache n, (∀ other entry, cache.get other = some entry → d.idCache.get other = some entry) ∧
      cacheGet addr d = (.ok (cachedId d addr), { d with
        idCache := cache, world := { d.world with utc := fun k => d.world.utc (k + n) } }) := by
  unfold cacheGet cachedId
  rw [get_bind]
  cases found : d.idCache.get addr with
  | none => exact ⟨d.idCache, 0, fun _ _ found => found, rfl⟩
  | some entry =>
    have read : inWorld utcNow d = (.ok (d.world.utc 0), _) := rfl
    dsimp only
    rw [bind_run read]
    split
    · exact ⟨_, 1, fun _ _ => found_remove, rfl⟩
    · exact ⟨_, 1, fun _ _ found => found, rfl⟩

/-- What a tracker that has given a connection id is asked for. -/
def wanted (conn : ConnectTimer) (key : UInt32) : RequestType :=
  match conn.request with
  | .announce hash state =>
    .announce ⟨hash, d.peerId, state, sourceIp conn.addr, key, .default, d.announcePort, .empty⟩
  | .scrape hash => .scrape ⟨hash.asRef, hash_whole hash⟩

/-- What goes into a request, with the connection id that there is. -/
def asked (conn : ConnectTimer) (key : UInt32) : Option UInt64 → UInt64 × RequestType
  | none => (connectIdProtocolId, .connect)
  | some id => (id, wanted d conn key)

theorem request_for_run (conn : ConnectTimer) (id : Option UInt64) :
    ∃ key random, requestFor conn id d = (.ok (asked d conn key id), { d with
      world := { d.world with random := random } }) := by
  cases id with
  | none => exact ⟨0, _, rfl⟩
  | some id =>
    simp only [requestFor, asked, wanted, get_bind]
    cases conn.request with
    | announce hash state => exact ⟨_, _, rfl⟩
    | scrape hash => exact ⟨0, _, rfl⟩

def packet (token : ClientToken) (conn : ConnectTimer) (key : UInt32) : Bytes :=
  let (connId, requestType) := asked d conn key (cachedId d conn.addr)
  TrackerRequest.writeBytes ⟨connId, token.token, requestType⟩

/-- Up to the sending only the clock is read, a random number is drawn and an old id is removed. -/
theorem transmit_run (token : ClientToken) (conn : ConnectTimer) (nextTimeout : Nat) :
    ∃ key cache n random,
      (∀ other entry, cache.get other = some entry → d.idCache.get other = some entry) ∧
      transmit token conn nextTimeout d = (do
        sendItem messageSend (.datagram (packet d token conn key) conn.addr)
        let timeout ← scheduleIn (fromSecs nextTimeout) (.connect token)
        Action.modify fun d => { d with
          activeRequests := d.activeRequests.insert token { conn with timeoutId := some timeout } })
        { d with idCache := cache, world := { d.world with
            utc := fun k => d.world.utc (k + n), random := random } } := by
  obtain ⟨cache, n, sub, ran⟩ := cache_get_run d conn.addr
  obtain ⟨key, random, ran'⟩ := request_for_run { d with
    idCache := cache, world := { d.world with utc := fun k => d.world.utc (k + n) } } conn
    (cachedId d conn.addr)
  refine ⟨key, cache, n, random, sub, ?_⟩
  rw [transmit, bind_run ran, bind_run ran']
  rfl

variable {d} in
/-- The request is in the map again, with a timer of its own. -/
theorem transmit_ends (listening : Open d) (token : ClientToken) (conn : ConnectTimer) (nextTimeout : Nat) :
    let armed := d.timer.scheduleAt (d.world.clock 0 + fromSecs nextTimeout) (.connect token)
    ∃ key cache n random, transmit token conn nextTimeout d = (.ok (), { d with
      activeRequests := d.activeRequests.insert token { conn with timeoutId := some armed.1 }
      timer := armed.2
      idCache := cache
      world := ⟨fun k => d.world.clock (k + 1), fun k => d.world.utc (k + n), random,
        fun k => d.world.accepts (k + 1),
        d.world.log ++ [(messageSend, .datagram (packet d token conn key) conn.addr)]⟩ }) := by
  obtain ⟨key, cache, n, random, _, ran⟩ := transmit_run d token conn nextTimeout
  rw [ran]
  exact ⟨key, cache, n, random, bind_run (send_item_ends (d := { d with
    idCache := cache, world := { d.world with utc := _, random := random } }) listening ..)⟩

end Sending

section Turns
variable {d : ClientDispatcher} {token : ClientToken} {conn : ConnectTimer}

inductive Reply where
  | drop
  | crash
  | answer (tx : Channel) (result : Except ClientError ClientResponse)
  | transmit (conn : ConnectTimer) (nextTimeout : Nat)

def Reply.act (token : ClientToken) : Reply → Dispatch Unit
  | .drop => return ()
  | .crash => Action.abort
  | .answer tx result => TrackerDispatcher.answer tx token result
  | .transmit conn nextTimeout => TrackerDispatcher.transmit token conn nextTimeout

/-- What `process_request` does with an active request. -/
def retry (conn : ConnectTimer) (timedOut : Bool) : Reply :=
  match conn.currentTimeout timedOut with
  | none => .answer conn.tx (.error .maxTimeout)
  | some (nextTimeout, conn) => .transmit conn nextTimeout

theorem process_found (found : d.activeRequests.get token = some conn) (timedOut : Bool) :
    processRequest token timedOut d =
      (retry conn timedOut).act token { d with activeRequests := d.activeRequests.remove token } := by
  unfold processRequest retry
  rw [get_bind, found]
  dsimp only
  rw [modify_bind]
  cases conn.currentTimeout timedOut <;> rfl

/-- The bytes are a response to an active request. -/
structure Matches (d : ClientDispatcher) (bytes : Bytes) (response : TrackerResponse)
    (conn : ConnectTimer) : Prop where
  parsed : ∃ rest, parseResponse bytes = .ok (response, rest)
  found : d.activeRequests.get ⟨response.transactionId⟩ = some conn

/-- A connection id has come: the request has been put back, and is out of the map again to be sent. -/
def connectedTo (d : ClientDispatcher) (token : ClientToken) (conn : ConnectTimer) (timeout : Timeout)
    (addr : SocketAddr) (id : UInt64) : ClientDispatcher :=
  { d with
    activeRequests := ((d.activeRequests.remove token).insert token conn).remove token
    timer := (d.timer.cancel timeout).2
    idCache := d.idCache.insert addr (id, d.world.utc 0)
    world := { d.world with utc := fun k => d.world.utc (k + 1) } }

/-- The request that the event is about, what is done with it, and the state in which that is done. -/
inductive Concerns (d : ClientDispatcher) : Event → ClientToken → Reply → ClientDispatcher → Prop where
  | refused {addr token request tx} (mixed : d.boundAddr.isV4 ≠ addr.isV4) :
      Concerns d (.request addr token request tx) token (.answer tx (.error .ipVersionMismatch)) d
  | asked {addr token request tx} (alike : d.boundAddr.isV4 = addr.isV4) :
      Concerns d (.request addr token request tx) token (retry (.new addr request tx) false) { d with
        activeRequests := (d.activeRequests.insert token (.new addr request tx)).remove token }
  | stranger {bytes addr response conn} (matched : Matches d bytes response conn)
      (other : conn.addr ≠ addr) :
      Concerns d (.datagram bytes addr) ⟨response.transactionId⟩ .drop { d with
        activeRequests := d.activeRequests.remove ⟨response.transactionId⟩ }
  | untimed {bytes addr response conn} (matched : Matches d bytes response conn) (own : conn.addr = addr)
      (none : conn.timeoutId = none) :
      Concerns d (.datagram bytes addr) ⟨response.transactionId⟩ .crash { d with
        activeRequests := d.activeRequests.remove ⟨response.transactionId⟩ }
  | result {bytes addr response conn timeout} (matched : Matches d bytes response conn)
      (own : conn.addr = addr) (waits : conn.timeoutId = some timeout)
      (other : ∀ id, response.responseType ≠ .connect id) :
      Concerns d (.datagram bytes addr) ⟨response.transactionId⟩
        (.answer conn.tx (resultOf conn.request response.responseType)) { d with
          activeRequests := d.activeRequests.remove ⟨response.transactionId⟩
          timer := (d.timer.cancel timeout).2 }
  | connected {bytes addr response conn timeout id} (matched : Matches d bytes response conn)
      (own : conn.addr = addr) (waits : conn.timeoutId = some timeout)
      (told : response.responseType = .connect id) :
      Concerns d (.datagram bytes addr) ⟨response.transactionId⟩ (retry conn false)
        (connectedTo d ⟨response.transactionId⟩ conn timeout addr id)
  | expired {token timer conn} (due : d.timer.next = some (.connect token, timer))
      (found : d.activeRequests.get token = some conn) :
      Concerns d .expired token (retry conn true) { d with
        timer := timer, activeRequests := d.activeRequests.remove token }

theorem matched_handle {bytes : Bytes} {addr : SocketAddr} {response : TrackerResponse}
    (matched : Matches d bytes response conn) : handle (.datagram bytes addr) d =
      (if conn.addr ≠ addr then return ()
      else match conn.timeoutId with
        | none => Action.abort
        | some timeout => do
          Action.modify fun d => { d with timer := (d.timer.cancel timeout).2 }
          match response.responseType with
          | .connect id => do
            cachePut addr id
            Action.modify fun d => { d with
              activeRequests := d.activeRequests.insert ⟨response.transactionId⟩ conn }
            processRequest ⟨response.transactionId⟩ false
          | responseType =>
            answer conn.tx ⟨response.transactionId⟩ (resultOf conn.request responseType) : Dispatch Unit)
        { d with activeRequests := d.activeRequests.remove ⟨response.transactionId⟩ } := by
  obtain ⟨⟨rest, parsed⟩, found⟩ := matched
  rw [handle, responseInHandler, parsed]
  dsimp only
  rw [recvResponse, get_bind, found]
  rfl

section
variable {event : Event} {reply : Reply} {d' : ClientDispatcher} {other : ClientToken}
variable (concerns : Concerns d event token reply d')
include concerns

theorem concerns_handle : handle event d = reply.act token d' := by
  cases concerns with
  | refused mixed =>
    rw [handle, sendRequest, get_bind, if_pos mixed]
    rfl
  | asked alike =>
    rw [handle, sendRequest, get_bind, if_neg (not_not_intro alike), modify_bind]
    exact process_found (get_insert ..) false
  | stranger matched other =>
    rw [matched_handle matched, if_pos other]
    rfl
  | untimed matched own none =>
    rw [matched_handle matched, if_neg (not_not_intro own), none]
    rfl
  | @result _ _ response _ _ matched own waits other =>
    rw [matched_handle matched, if_neg (not_not_intro own), waits]
    cases told : response.responseType with
    | connect id => exact absurd told (other id)
    | announce announced | scrape stats | error message => rfl
  | connected matched own waits told =>
    rw [matched_handle matched, if_neg (not_not_intro own), waits, told]
    exact process_found (get_insert ..) false
  | @expired _ timer _ due found =>
    rw [handle, get_bind, due]
    exact process_found (d := { d with timer := timer }) found true

theorem concerns_others (different : other ≠ token) :
    d'.activeRequests.get other = d.activeRequests.get other := by
  cases concerns <;> simp [connectedTo, get_remove_other, get_insert_other, different]

theorem concerns_own :
    (∃ addr request tx, event = .request addr token request tx) ∧
      (d'.activeRequests.get token = none ∨ d'.activeRequests = d.activeRequests) ∨
    (∀ addr other request tx, event ≠ .request addr other request tx) ∧
      (∃ conn, d.activeRequests.get token = some conn) ∧ d'.activeRequests.get token = none := by
  cases concerns with
  | refused => exact .inl ⟨⟨_, _, _, rfl⟩, .inr rfl⟩
  | asked => exact .inl ⟨⟨_, _, _, rfl⟩, .inl (get_remove ..)⟩
  | expired due found => exact .inr ⟨nofun, ⟨_, found⟩, get_remove ..⟩
  | _ matched => exact .inr ⟨nofun, ⟨_, matched.found⟩, get_remove ..⟩

theorem concerns_found (found : d'.activeRequests.get other = some conn) :
    d.activeRequests.get other = some conn := by
  by_cases same : other = token
  · rcases concerns_own concerns with ⟨_, gone | unchanged⟩ | ⟨_, _, gone⟩
    · cases gone.symm.trans (same ▸ found)
    · exact unchanged ▸ found
    · cases gone.symm.trans (same ▸ found)
  · exact concerns_others concerns same ▸ found

theorem concerns_world : d'.world = { d.world with utc := d'.world.utc } := by
  cases concerns <;> rfl

/-- The timer of the request is cancelled, or it is the one that expires. -/
theorem concerns_timer : d'.timer = d.timer ∨
    (∃ conn timeout, d.activeRequests.get token = some conn ∧ conn.timeoutId = some timeout ∧
      d'.timer = (d.timer.cancel timeout).2) ∨ d.timer.next = some (.connect token, d'.timer) := by
  cases concerns with
  | refused | asked | stranger | untimed => exact .inl rfl
  | result matched own waits | connected matched own waits =>
    exact .inr (.inl ⟨_, _, matched.found, waits, rfl⟩)
  | expired due => exact .inr (.inr due)

end

/-- The event is about no active request. -/
inductive Idle (d : ClientDispatcher) : Event → ClientDispatcher → Prop where
  | startTimer : Idle d .startTimer (timeoutHandler .cleanUp d).2
  | unmatched {bytes addr} (none : ∀ response conn, ¬ Matches d bytes response conn) :
      Idle d (.datagram bytes addr) d
  | poll : Idle d .poll { d with timer := d.timer.poll }
  | undue (none : d.timer.next = none) : Idle d .expired d
  | cleaned {timer} (due : d.timer.next = some (.cleanUp, timer)) :
      Idle d .expired (timeoutHandler .cleanUp { d with timer := timer }).2
  | late {token timer} (due : d.timer.next = some (.connect token, timer))
      (gone : d.activeRequests.get token = none) : Idle d .expired { d with timer := timer }

inductive Turn (d : ClientDispatcher) : Event → Outcome Empty Unit × ClientDispatcher → Prop where
  | idle {event d'} (idle : Idle d event d') : Turn d event (.ok (), d')
  | concerns {event token reply d'} (concerns : Concerns d event token reply d') :
      Turn d event (reply.act token d')
  | closed : Turn d .shutdown (shutdown d)

theorem parse_run_settled (size : Nat) (input : Bytes) : (parseRun size input).Settled := by
  unfold parseRun
  split
  · exact settled_ok _
  · exact settled_err _

theorem parse_announce_response_settled {peersType : Parser CompactPeers}
    (peers : ∀ input, (peersType input).Settled) (input : Bytes) :
    (parseAnnounceResponse peersType input).Settled :=
  settled_bind (be_i32_settled input) fun _ =>
    settled_bind (be_i32_settled _) fun _ =>
      settled_bind (be_i32_settled _) fun _ =>
        settled_map (peers _)

/-- No bytes make the reader of responses panic. -/
theorem parse_response_settled (input : Bytes) : (parseResponse input).Settled := by
  have v4 : ∀ input, (parsePeersV4 input).Settled := fun input =>
    settled_map (parse_run_settled _ input)
  have v6 : ∀ input, (parsePeersV6 input).Settled := fun input =>
    settled_map (parse_run_settled _ input)
  have message : ∀ input, (parseError input).Settled := by
    intro input
    unfold parseError
    split
    · exact settled_ok _
    · exact settled_err _
  refine settled_bind (be_u32_settled input) fun head => ?_
  refine settled_bind (be_u32_settled head.2) fun next => ?_
  refine settled_ite (fun _ => ?_) fun _ => ?_
  · exact settled_map (be_u64_settled _)
  refine settled_ite (fun _ => ?_) fun _ => ?_
  · exact settled_map (parse_announce_response_settled v4 _)
  refine settled_ite (fun _ => ?_) fun _ => ?_
  · exact settled_map (parse_run_settled _ _)
  refine settled_ite (fun _ => ?_) fun _ => ?_
  · exact settled_map (message _)
  refine settled_ite (fun _ => ?_) fun _ => settled_err _
  exact settled_map (parse_announce_response_settled v6 _)

theorem handle_turn (d : ClientDispatcher) (event : Event) : Turn d event (handle event d) := by
  have found_turn : ∀ {token reply d'}, Concerns d event token reply d' → Turn d event (handle event d) :=
    fun concerns => concerns_handle concerns ▸ .concerns concerns
  cases event with
  | request addr token request tx =>
    by_cases alike : d.boundAddr.isV4 = addr.isV4
    · exact found_turn (.asked alike)
    · exact found_turn (.refused alike)
  | startTimer => exact .idle .startTimer
  | shutdown => exact .closed
  | datagram bytes addr =>
    by_cases matched : ∃ response conn, Matches d bytes response conn
    · obtain ⟨response, conn, matched⟩ := matched
      by_cases own : conn.addr = addr
      · cases waits : conn.timeoutId with
        | none => exact found_turn (.untimed matched own waits)
        | some timeout =>
          by_cases told : ∃ id, response.responseType = .connect id
          · obtain ⟨id, told⟩ := told
            exact found_turn (.connected matched own waits told)
          · exact found_turn (.result matched own waits (not_exists.mp told))
      · exact found_turn (.stranger matched own)
    · have nothing : handle (.datagram bytes addr) d = (.ok (), d) := by
        rw [handle, responseInHandler]
        rcases parse_response_settled bytes with ⟨⟨response, rest⟩, parsed⟩ | ⟨trouble, failed⟩
        · have gone := Option.eq_none_iff_forall_ne_some.mpr fun conn found =>
            matched ⟨response, conn, ⟨rest, parsed⟩, found⟩
          rw [parsed]
          dsimp only
          rw [recvResponse, get_bind, gone]
          rfl
        · rw [failed]
          rfl
      rw [nothing]
      exact .idle (.unmatched fun response conn match' => matched ⟨response, conn, match'⟩)
  | poll => exact .idle .poll
  | expired =>
    cases due : d.timer.next with
    | none =>
      rw [handle, get_bind, due]
      exact .idle (.undue due)
    | some next =>
      obtain ⟨value, timer⟩ := next
      cases value with
      | cleanUp =>
        rw [handle, get_bind, due]
        exact .idle (.cleaned due)
      | connect token =>
        cases found : d.activeRequests.get token with
        | none =>
          have nothing : processRequest token true { d with timer := timer } =
              (.ok (), { d with timer := timer }) := by
            unfold processRequest
            rw [get_bind]
            dsimp only
            rw [found]
            rfl
          rw [handle, get_bind, due]
          dsimp only
          rw [modify_bind, timeoutHandler, nothing]
          exact .idle (.late due found)
        | some conn => exact found_turn (.expired due found)

end Turns

end TrackerTurns
