import Bittorrent.Tracker.ConnectIds

/-!
How a request is repeated. After its timer has expired eight times there is no further attempt, so a tracker
that gives a connection id then gets no request for it.
-/
namespace TrackerRetransmit
open Rust Action UtilSha UtilTimer HashTables HashTable TrackerMessages TrackerDispatcher TrackerTurns
  TrackerAnswers TrackerConnectIds

variable {d d' : ClientDispatcher} {token : ClientToken} {conn : ConnectTimer} {event : Event} {reply : Reply}

theorem concerns_run (running : d.isRun = true) (concerns : Concerns d event token reply d') :
    runOne event d = reply.act token d' := by
  rw [runOne, get_bind, if_pos running]
  exact concerns_handle concerns

theorem retry_left (left : conn.attempt ≠ maximumRequestRetransmitAttempts) (timedOut : Bool) :
    retry conn timedOut = .transmit { conn with attempt := conn.attempt + timedOut.toNat }
      (15000 * 2 ^ (conn.attempt + timedOut.toNat)) := by
  have millis : ∀ attempt, calculateMessageTimeoutMillis attempt = 15000 * 2 ^ attempt := by
    intro attempt
    rw [calculateMessageTimeoutMillis, Nat.mul_right_comm]
  unfold retry ConnectTimer.currentTimeout
  rw [if_neg left]
  cases timedOut <;> simp [millis]

theorem retry_used (used : conn.attempt = maximumRequestRetransmitAttempts) (timedOut : Bool) :
    retry conn timedOut = .answer conn.tx (.error .maxTimeout) := by
  rw [retry, ConnectTimer.currentTimeout, if_pos used]

def Timed (d : ClientDispatcher) : Prop :=
  ∀ token conn, d.activeRequests.get token = some conn → ∃ timeout, conn.timeoutId = some timeout

theorem keeps_send_item {channel : Channel} {item : Item} : Keeps Timed (sendItem channel item) := by
  intro d timed
  rw [send_item_run]
  exact timed

theorem act_timed (timed : Timed d) (token : ClientToken) (reply : Reply) :
    Timed (reply.act token d).2 := by
  cases reply with
  | drop | crash => exact timed
  | answer tx result => exact keeps_send_item d timed
  | transmit conn nextTimeout =>
    obtain ⟨key, cache, n, random, _, ran⟩ := transmit_run d token conn nextTimeout
    rw [Reply.act, ran]
    refine keeps_bind keeps_send_item (fun _ d' timed other conn' found => ?_) _ timed
    rcases found_insert found with ⟨_, rfl⟩ | old
    · exact ⟨_, rfl⟩
    · exact timed other conn' old

theorem run_one_timed (timed : Timed d) (event : Event) : Timed (runOne event d).2 := by
  rw [runOne, get_bind]
  split
  · have turn := handle_turn d event
    generalize handle event d = r at turn ⊢
    cases turn with
    | idle idle => cases idle <;> exact timed
    | concerns concerns =>
      exact act_timed (fun other conn found => timed other conn (concerns_found concerns found)) _ _
    | closed =>
      refine keeps_bind keeps_get (fun d' => ?_) d timed
      refine keeps_bind (keeps_for_each (fun _ => keeps_send_item) _) fun _ => keeps_modify ?_
      intro d' _ token conn found
      cases found
  · exact timed

theorem after_timed {start : ClientDispatcher} (timed : Timed start) (events : List Event) :
    Timed (after start events) :=
  List.foldlRecOn events _ timed fun _ timed event _ => run_one_timed timed event

theorem transmit_log (d : ClientDispatcher) (token : ClientToken) (conn : ConnectTimer) (nextTimeout : Nat) :
    ∃ key, (transmit token conn nextTimeout d).2.world.log = d.world.log ++
      if d.world.accepts 0 then [(messageSend, .datagram (packet d token conn key) conn.addr)] else [] := by
  obtain ⟨key, cache, n, random, _, ran⟩ := transmit_run d token conn nextTimeout
  rw [ran]
  exact ⟨key, bind_keeps (I := fun d' : ClientDispatcher => d'.world.log = _) (send_item_log ..)
    fun _ _ same => same⟩

theorem wanted_longer (id : UInt64) (token : UInt32) (conn : ConnectTimer) (key : UInt32) :
    (TrackerRequest.writeBytes ⟨connectIdProtocolId, token, .connect⟩).length <
      (TrackerRequest.writeBytes ⟨id, token, wanted d conn key⟩).length := by
  unfold TrackerRequest.writeBytes wanted
  cases conn.request with
  | announce hash state =>
    simp [AnnounceRequest.writeBytes]
    omega
  | scrape hash =>
    have size : hash.asRef.length = 20 := hash.hash.size_toArray
    simp [size]

/-- The turn sends the request itself with this id, and nothing else. -/
def FollowedUp (d : ClientDispatcher) (bytes : Bytes) (token : ClientToken) (conn : ConnectTimer)
    (id : UInt64) : Prop :=
  ∃ key, (runOne (.datagram bytes conn.addr) d).2.world.log = d.world.log ++ [(messageSend,
    .datagram (TrackerRequest.writeBytes ⟨id, token.token, wanted d conn key⟩) conn.addr)]

/-- In every state that is reached, a connection id from the tracker of an active request is followed by the
    request itself, exactly if the last attempt is not used up, the id does not grow old between the two
    readings of the clock, and the task that sends datagrams is there. -/
theorem connect_followed_up_iff (bind : SocketAddr) (peerId : ShaHash) (announcePort : UInt16)
    (world : World Item) (events : List Event) {bytes : Bytes} {response : TrackerResponse}
    {conn : ConnectTimer} {id : UInt64} :
    let d := after (.new bind peerId announcePort world) events
    d.isRun = true → Matches d bytes response conn → response.responseType = .connect id →
    (FollowedUp d bytes ⟨response.transactionId⟩ conn id ↔
      conn.attempt ≠ maximumRequestRetransmitAttempts ∧ d.world.utc 1 - d.world.utc 0 < 60 * 10 ^ 9 ∧
        d.world.accepts 0 = true) := by
  intro d running matched told
  have start : Timed (.new bind peerId announcePort world) := by
    intro token conn found
    cases found
  obtain ⟨timeout, waits⟩ := after_timed start events _ _ matched.found
  rw [FollowedUp, concerns_run running (.connected matched rfl waits told)]
  by_cases used : conn.attempt = maximumRequestRetransmitAttempts
  · refine iff_of_false ?_ fun holds => holds.1 used
    rintro ⟨key, same⟩
    rw [retry_used used, Reply.act, answer, send_item_log] at same
    have item := List.append_cancel_left same
    split at item
    · have datagram := congrArg (fun entry => isAnswer ⟨response.transactionId⟩ entry) (List.cons.inj item).1
      simp [isAnswer] at datagram
    · cases item
  · rw [retry_left used, Reply.act]
    obtain ⟨key, log⟩ := transmit_log (connectedTo d ⟨response.transactionId⟩ conn timeout conn.addr id)
      ⟨response.transactionId⟩ { conn with attempt := conn.attempt + false.toNat }
      (15000 * 2 ^ (conn.attempt + false.toNat))
    have cached : cachedId (connectedTo d ⟨response.transactionId⟩ conn timeout conn.addr id) conn.addr =
        if isExpired (d.world.utc 1) (d.world.utc 0) then none else some id := by
      simp [cachedId, connectedTo]
    rw [log, packet, cached]
    constructor
    · rintro ⟨key', same⟩
      have item : _ = _ := List.append_cancel_left same
      split at item
      · rename_i accepts
        refine ⟨used, ?_, accepts⟩
        by_contra old
        rw [if_pos (is_expired_iff.mpr (not_lt.mp old))] at item
        have written := (Item.datagram.inj (Prod.mk.inj (List.cons.inj item).1).2).1
        exact (wanted_longer id response.transactionId conn key').ne (congrArg List.length written)
      · cases item
    · rintro ⟨_, young, accepts⟩
      refine ⟨key, ?_⟩
      rw [if_neg (mt is_expired_iff.mp (not_le.mpr young))]
      exact congrArg _ (if_pos accepts)

/-- A response to the first attempt, on a clock that stands still. -/
theorem first_answer_followed_up :
    ∃ conn, FollowedUp (after freshDispatcher [someRequest]) (TrackerResponse.writeBytes ⟨5, .connect 77⟩) ⟨5⟩
      conn 77 := by
  have attempt : ((after freshDispatcher [someRequest]).activeRequests.get ⟨5⟩).map ConnectTimer.attempt =
      some 0 := by decide +kernel
  obtain ⟨conn, found, none⟩ := Option.map_eq_some_iff.mp attempt
  have parsed : parseResponse (TrackerResponse.writeBytes ⟨5, .connect 77⟩) = .ok (⟨5, .connect 77⟩, []) := by
    decide +kernel
  exact ⟨conn, (connect_followed_up_iff _ _ _ _ [someRequest] (by decide +kernel) ⟨⟨_, parsed⟩, found⟩ rfl).mpr
    ⟨by simp [none, maximumRequestRetransmitAttempts], by decide +kernel, by decide +kernel⟩⟩

def isMaxTimeout : Channel × Item → Bool
  | (_, .metadata ⟨_, .error .maxTimeout⟩) => true
  | _ => false

/-- The tracker answers the last datagram that was sent, and the request fails. -/
theorem last_answer_gives_up :
    let d := after freshDispatcher (someRequest :: List.replicate 8 .expired)
    let told : Event := .datagram (TrackerResponse.writeBytes ⟨5, .connect 77⟩) (.v4 10 0 0 1 80)
    (d.activeRequests.get ⟨5⟩).map ConnectTimer.addr = some (.v4 10 0 0 1 80) ∧
      ((runOne told d).2.world.log.drop d.world.log.length).map isMaxTimeout = [true] := by
  decide +kernel

end TrackerRetransmit
