import Bittorrent.Tracker.Answers

/-!
The limiter of a tracker client. The client counts a request when it is made and the task in the background
should count it back when it is answered, but the dispatcher never calls `acknowledge`. So the count is
right until the first answer, and every answer makes the room for requests smaller for good.
-/
namespace TrackerLimiter
open Rust Action UtilSha UtilTimer HashTables HashTable TrackerMessages TrackerDispatcher TrackerTurns
  TrackerAnswers

section Client

structure RequestLimiter where
  active : Nat
  capacity : Nat

def RequestLimiter.new (capacity : Nat) : RequestLimiter := ⟨0, capacity⟩

/-- `fetch_sub` wraps around. -/
def RequestLimiter.acknowledge (limiter : RequestLimiter) : RequestLimiter :=
  { limiter with active := (limiter.active + (2 ^ 64 - 1)) % 2 ^ 64 }

def RequestLimiter.canInitiate (limiter : RequestLimiter) : Bool × RequestLimiter :=
  let counted := { limiter with active := (limiter.active + 1) % 2 ^ 64 }
  if limiter.active < limiter.capacity then (true, counted) else (false, counted.acknowledge)

inductive DispatchMessage where
  | request (addr : SocketAddr) (token : ClientToken) (request : ClientRequest) (tx : Channel)
  | startTimer
  | shutdown

def DispatchMessage.event : DispatchMessage → Event
  | .request addr token asked tx => .request addr token asked tx
  | .startTimer => .startTimer
  | .shutdown => .shutdown

/-- A client with its dispatcher. The channels made for requests are `1` to `issued`; a command whose sender
    still waits for room in the command channel is among `commands`. -/
structure TrackerClient where
  limiter : RequestLimiter
  issued : Nat
  commands : List DispatchMessage
  dispatcher : ClientDispatcher

def TrackerClient.withCapacity (bind : SocketAddr) (peerId : ShaHash) (announcePort : UInt16)
    (capacity : Nat) (world : World Item) : Outcome Empty TrackerClient :=
  if 2 ^ 64 ≤ capacity + 1 then .panic
  else .ok ⟨.new capacity, 0, [.startTimer], .new bind peerId announcePort world⟩

/-- The token is the one that the generator gives. -/
def TrackerClient.request (addr : SocketAddr) (request : ClientRequest) (token : ClientToken) :
    Action TrackerClient Empty (Option Channel) := do
  let client ← Action.get
  let (may, limiter) := client.limiter.canInitiate
  Action.modify fun client => { client with limiter := limiter }
  if may then
    let rx := client.issued + 1
    Action.modify fun client => { client with issued := rx }
    -- the receiver of the commands is gone when the task has ended
    if client.dispatcher.isRun then
      Action.modify fun client => { client with
        commands := client.commands ++ [.request addr token request rx] }
      return some rx
    else Action.abort
  else return none

inductive Occurrence where
  | call (addr : SocketAddr) (request : ClientRequest) (token : ClientToken)
  /-- The dispatcher takes its next command. -/
  | command
  | received (bytes : Bytes) (addr : SocketAddr)
  /-- The socket fails, or the client is dropped and its commands are used up. -/
  | closed
  | poll
  | expired

/-- A panic ends the task. -/
def TrackerClient.wake (event : Event) (client : TrackerClient) : TrackerClient :=
  match runOne event client.dispatcher with
  | (.ok (), d) => { client with dispatcher := d }
  | (_, d) => { client with dispatcher := { d with isRun := false } }

def TrackerClient.woken (client : TrackerClient) : Occurrence → Option Event
  | .call .. => none
  | .command => client.commands.head?.map DispatchMessage.event
  | .received bytes addr => some (.datagram bytes addr)
  | .closed => some .shutdown
  | .poll => some .poll
  | .expired => some .expired

def TrackerClient.step (client : TrackerClient) : Occurrence → TrackerClient
  | .call addr request token => (TrackerClient.request addr request token client).2
  | .command =>
    match client.commands with
    | [] => client
    | message :: commands => { client with commands := commands }.wake message.event
  | .received bytes addr => client.wake (.datagram bytes addr)
  | .closed => client.wake .shutdown
  | .poll => client.wake .poll
  | .expired => client.wake .expired

def TrackerClient.run : TrackerClient → List Occurrence → TrackerClient
  | client, [] => client
  | client, occurrence :: rest => (client.step occurrence).run rest

def isMetadata : Item → Bool
  | .metadata _ => true
  | .datagram .. => false

def hasAnswer (log : List (Channel × Item)) (channel : Channel) : Bool :=
  log.any fun entry => decide (entry.1 = channel) && isMetadata entry.2

/-- The number of requests for which no metadata has been sent. -/
def TrackerClient.outstanding (client : TrackerClient) : Nat :=
  (List.range client.issued).countP fun k => !hasAnswer client.dispatcher.world.log (k + 1)

/-- The event makes the dispatcher finish a request. -/
def Answering (d : ClientDispatcher) : Event → Prop
  | .request addr _ _ _ => d.boundAddr.isV4 ≠ addr.isV4
  | .startTimer => False
  | .shutdown => d.activeRequests.entries ≠ []
  | .datagram bytes addr => ∃ response rest conn timeout, parseResponse bytes = .ok (response, rest) ∧
      d.activeRequests.get ⟨response.transactionId⟩ = some conn ∧ conn.addr = addr ∧
      conn.timeoutId = some timeout ∧
      ((∀ id, response.responseType ≠ .connect id) ∨ conn.attempt = maximumRequestRetransmitAttempts)
  | .poll => False
  | .expired => ∃ token timer conn, d.timer.next = some (.connect token, timer) ∧
      d.activeRequests.get token = some conn ∧ conn.attempt = maximumRequestRetransmitAttempts

/-- No step of the run finishes a request. -/
def Unanswered : TrackerClient → List Occurrence → Prop
  | _, [] => True
  | client, occurrence :: rest =>
    (client.dispatcher.isRun = true → ∀ event ∈ client.woken occurrence,
      ¬ Answering client.dispatcher event) ∧ Unanswered (client.step occurrence) rest

end Client

section Logs
variable {a b : Prop} {d d' d'' : ClientDispatcher} {issued : Nat}

def Issued (issued channel : Nat) : Prop := 1 ≤ channel ∧ channel ≤ issued

/-- The active requests have channels that were made for them. -/
def Channels (issued : Nat) (d : ClientDispatcher) : Prop :=
  ∀ token conn, d.activeRequests.get token = some conn → Issued issued conn.tx

/-- What has been sent: answers only if there is an occasion, and then one if all receivers are there. -/
structure Since (issued : Nat) (occasion : Prop) (d d' : ClientDispatcher) : Prop where
  listening : Open d → Open d'
  log : ∃ new, d'.world.log = d.world.log ++ new ∧
    (¬ occasion → ∀ entry ∈ new, isMetadata entry.2 = false) ∧
    (occasion → Open d → ∃ k, Issued issued k ∧ hasAnswer new k = true)
  channels : Channels issued d'

theorem since_congr (same : a ↔ b) (since : Since issued a d d') : Since issued b d d' :=
  propext same ▸ since

theorem since_refl (channels : Channels issued d) : Since issued False d d :=
  ⟨id, ⟨[], by simp, by simp, False.elim⟩, channels⟩

theorem since_shift (since : Since issued a d' d'') (accepts : d'.world.accepts = d.world.accepts)
    (log : d'.world.log = d.world.log) : Since issued a d d'' := by
  have same : Open d' = Open d := by rw [Open, accepts, Open]
  exact ⟨same ▸ since.listening, same ▸ log ▸ since.log, since.channels⟩

theorem since_trans {issued' : Nat} (first : Since issued a d d') (second : Since issued' b d' d'')
    (more : issued ≤ issued') : Since issued' (a ∨ b) d d'' := by
  obtain ⟨new, log, silent, speaks⟩ := first.log
  obtain ⟨new', log', silent', speaks'⟩ := second.log
  refine ⟨fun listening => second.listening (first.listening listening), ⟨new ++ new', ?_, ?_, ?_⟩, second.channels⟩
  · rw [log', log, List.append_assoc]
  · intro neither
    obtain ⟨left, right⟩ := not_or.mp neither
    exact List.forall_mem_append.mpr ⟨silent left, silent' right⟩
  · intro either listening
    simp only [hasAnswer, List.any_append, Bool.or_eq_true]
    rcases either with yes | yes
    · obtain ⟨k, own, has⟩ := speaks yes listening
      exact ⟨k, ⟨own.1, own.2.trans more⟩, .inl has⟩
    · obtain ⟨k, own, has⟩ := speaks' yes (first.listening listening)
      exact ⟨k, own, .inr has⟩

theorem send_since {channel : Channel} {item : Item} (answer : isMetadata item = true ↔ a)
    (own : a → Issued issued channel) (channels : Channels issued d) :
    Since issued a d (sendItem channel item d).2 := by
  have log := send_item_log d channel item
  rw [send_item_run] at log ⊢
  refine ⟨fun listening k => listening (k + 1), ⟨_, log, ?_, ?_⟩, channels⟩
  · intro not entry member
    split at member
    · rw [List.mem_singleton.mp member]
      exact Bool.eq_false_iff.mpr (mt answer.mp not)
    · cases member
  · intro yes listening
    rw [if_pos (listening 0)]
    exact ⟨channel, own yes, by simp [hasAnswer, answer.mpr yes]⟩

theorem answer_since {tx : Channel} (own : Issued issued tx) (channels : Channels issued d)
    (token : ClientToken) (result : Except ClientError ClientResponse) :
    Since issued True d (answer tx token result d).2 :=
  send_since (by simp [isMetadata]) (fun _ => own) channels

theorem transmit_since {conn : ConnectTimer} (own : Issued issued conn.tx) (channels : Channels issued d)
    (token : ClientToken) (nextTimeout : Nat) :
    Since issued False d (transmit token conn nextTimeout d).2 := by
  obtain ⟨key, cache, n, random, _, ran⟩ := transmit_run d token conn nextTimeout
  rw [ran]
  refine since_shift (bind_keeps (send_since (iff_of_false nofun id) False.elim channels) ?_) rfl rfl
  refine fun _ d' since => ⟨since.listening, since.log, fun other conn' found => ?_⟩
  rcases found_insert found with ⟨_, rfl⟩ | old
  · exact own
  · exact since.channels other conn' old

theorem retry_since {conn : ConnectTimer} (own : Issued issued conn.tx) (channels : Channels issued d)
    (token : ClientToken) (timedOut : Bool) : Since issued (conn.attempt = maximumRequestRetransmitAttempts) d
      ((retry conn timedOut).act token d).2 := by
  unfold retry ConnectTimer.currentTimeout
  by_cases used : conn.attempt = maximumRequestRetransmitAttempts
  · rw [if_pos used]
    exact since_congr (by simp [used]) (answer_since own channels ..)
  · rw [if_neg used]
    refine since_congr (by simp [used]) (transmit_since ?_ channels ..)
    cases timedOut <;> exact own

theorem answers_since (entries : List (ClientToken × ConnectTimer))
    (own : ∀ entry ∈ entries, Issued issued entry.2.tx) : ∀ {d : ClientDispatcher}, Channels issued d →
      Since issued (entries ≠ []) d (Action.forEach (fun (entry : ClientToken × ConnectTimer) =>
        answer entry.2.tx entry.1 (.error .clientShutdown)) entries d).2 := by
  induction entries with
  | nil => exact fun channels => since_congr (by simp) (since_refl channels)
  | cons entry rest ih =>
    intro d channels
    obtain ⟨first, others⟩ := List.forall_mem_cons.mp own
    refine since_congr (by simp) (bind_keeps (I := Since issued _ d) (answer_since first channels ..) ?_)
    intro _ d' since
    exact since_congr (by simp) (since_trans since (ih others since.channels) (le_refl _))

theorem answering_iff {bytes : Bytes} {addr : SocketAddr} {response : TrackerResponse} {conn : ConnectTimer}
    (matched : Matches d bytes response conn) : Answering d (.datagram bytes addr) ↔
      conn.addr = addr ∧ (∃ timeout, conn.timeoutId = some timeout) ∧
      ((∀ id, response.responseType ≠ .connect id) ∨ conn.attempt = maximumRequestRetransmitAttempts) := by
  obtain ⟨⟨rest, parsed⟩, found⟩ := matched
  simp [Answering, parsed, found]

/-- Only a request that has used up its attempts or has a result is answered. -/
theorem concerns_since {event : Event} {token : ClientToken} {reply : Reply} (channels : Channels issued d)
    (channel : ∀ addr token request tx, event = .request addr token request tx → Issued issued tx)
    (concerns : Concerns d event token reply d') :
    Since issued (Answering d event) d (reply.act token d').2 := by
  have world := concerns_world concerns
  have left : Channels issued d' := fun other conn found => channels other conn (concerns_found concerns found)
  refine since_shift ?_ (by rw [world]) (by rw [world])
  cases concerns with
  | refused mixed =>
    exact since_congr (iff_of_true True.intro mixed) (answer_since (channel _ _ _ _ rfl) left ..)
  | asked alike =>
    exact since_congr (iff_of_false nofun (not_not_intro alike)) (retry_since (channel _ _ _ _ rfl) left ..)
  | stranger matched other =>
    exact since_congr (by simp [answering_iff matched, other]) (since_refl left)
  | untimed matched own none =>
    exact since_congr (by simp [answering_iff matched, none]) (since_refl left)
  | result matched own waits other =>
    exact since_congr (by simp [answering_iff matched, own, waits, other])
      (answer_since (channels _ _ matched.found) left ..)
  | connected matched own waits told =>
    exact since_congr (by simp [answering_iff matched, own, waits, told])
      (retry_since (channels _ _ matched.found) left ..)
  | expired due found =>
    exact since_congr (by simp [Answering, due, found]) (retry_since (channels _ _ found) left ..)

theorem run_one_since {event : Event} (channels : Channels issued d)
    (channel : ∀ addr token request tx, event = .request addr token request tx → Issued issued tx) :
    Since issued (d.isRun = true ∧ Answering d event) d (runOne event d).2 := by
  rw [runOne, get_bind]
  cases running : d.isRun with
  | false => exact since_congr (by simp) (since_refl channels)
  | true =>
    have turn := handle_turn d event
    rw [if_pos rfl]
    refine since_congr (and_iff_right rfl).symm ?_
    generalize handle event d = r at turn ⊢
    cases turn with
    | idle idle =>
      have quiet : ¬ Answering d event := by
        cases idle with
        | startTimer | poll => exact id
        | unmatched none =>
          rintro ⟨response, rest, conn, _, parsed, found, _⟩
          exact none response conn ⟨⟨rest, parsed⟩, found⟩
        | undue none => simp [Answering, none]
        | cleaned due => simp [Answering, due]
        | late due gone => simp [Answering, due, gone]
      have same : ∀ {d'}, Idle d event d' → Since issued False d d' := by
        rintro d' ⟨⟩ <;> exact since_shift (since_refl channels) rfl rfl
      exact since_congr (iff_of_false id quiet) (same idle)
    | concerns concerns => exact concerns_since channels channel concerns
    | closed =>
      unfold shutdown
      rw [get_bind]
      refine bind_keeps (I := Since issued _ d) (answers_since _ (fun entry member => ?_) channels) ?_
      · exact channels entry.1 entry.2 (mem_iff.mp member)
      · exact fun _ d' since => ⟨since.listening, since.log, by rintro _ _ ⟨⟩⟩

end Logs

section Counting
variable {client : TrackerClient}

/-- The limiter counts every request that was ever made. -/
structure Counted (client : TrackerClient) : Prop where
  active : client.limiter.active = client.issued
  within : client.issued ≤ client.limiter.capacity
  small : client.limiter.capacity + 1 < 2 ^ 64
  queued : ∀ addr token request tx, .request addr token request tx ∈ client.commands →
    Issued client.issued tx
  channels : Channels client.issued client.dispatcher

theorem can_initiate_count (counted : Counted client) : client.limiter.canInitiate =
    if client.issued < client.limiter.capacity
      then (true, { client.limiter with active := client.issued + 1 }) else (false, client.limiter) := by
  have active := counted.active
  have within := counted.within
  have small := counted.small
  unfold RequestLimiter.canInitiate
  rw [active]
  split
  · rw [Nat.mod_eq_of_lt (by omega)]
  · have back : ((client.issued + 1) % 2 ^ 64 + (2 ^ 64 - 1)) % 2 ^ 64 = client.limiter.active := by omega
    simp only [RequestLimiter.acknowledge, back]

/-- The count still holds, and this was sent in between. -/
structure Stepped (occasion : Prop) (client client' : TrackerClient) : Prop where
  counted : Counted client'
  more : client.issued ≤ client'.issued
  since : Since client'.issued occasion client.dispatcher client'.dispatcher

theorem stepped_idle (counted : Counted client) : Stepped False client client :=
  ⟨counted, le_refl _, since_refl counted.channels⟩

theorem stepped_congr {a b : Prop} {client' : TrackerClient} (same : a ↔ b) (stepped : Stepped a client client') :
    Stepped b client client' :=
  propext same ▸ stepped

theorem issued_more {issued channel : Nat} (own : Issued issued channel) : Issued (issued + 1) channel :=
  ⟨own.1, Nat.le_succ_of_le own.2⟩

theorem request_stepped (counted : Counted client) (addr : SocketAddr) (request : ClientRequest)
    (token : ClientToken) : Stepped False client (TrackerClient.request addr request token client).2 := by
  unfold TrackerClient.request
  rw [get_bind, can_initiate_count counted]
  split
  · rename_i room
    have channels : Channels (client.issued + 1) client.dispatcher :=
      fun token conn found => issued_more (counted.channels token conn found)
    have since := since_refl channels
    have queued : ∀ addr token request tx, .request addr token request tx ∈ client.commands →
        Issued (client.issued + 1) tx :=
      fun addr token request tx member => issued_more (counted.queued addr token request tx member)
    dsimp only
    rw [modify_bind, if_pos rfl, modify_bind]
    split
    · rw [modify_bind]
      refine ⟨⟨rfl, room, counted.small, ?_, channels⟩, Nat.le_succ _, since⟩
      intro addr' token' request' tx member
      rcases List.mem_append.mp member with old | new
      · exact queued addr' token' request' tx old
      · cases List.mem_singleton.mp new
        exact ⟨Nat.le_add_left .., le_refl _⟩
    · exact ⟨⟨rfl, room, counted.small, queued, channels⟩, Nat.le_succ _, since⟩
  · exact stepped_idle counted

theorem wake_dispatcher (event : Event) (client : TrackerClient) :
    ∃ running, client.wake event = { client with
      dispatcher := { (runOne event client.dispatcher).2 with isRun := running } } := by
  unfold TrackerClient.wake
  rcases runOne event client.dispatcher with ⟨outcome, d⟩
  cases outcome with
  | ok value => exact ⟨d.isRun, rfl⟩
  | err trouble | panic | unfinished => exact ⟨false, rfl⟩

theorem wake_stepped {event : Event} {commands : List DispatchMessage} (counted : Counted client)
    (channel : ∀ addr token request tx, event = .request addr token request tx → Issued client.issued tx)
    (old : commands ⊆ client.commands) :
    Stepped (client.dispatcher.isRun = true ∧ Answering client.dispatcher event) client
      ({ client with commands := commands }.wake event) := by
  have since := run_one_since counted.channels channel
  obtain ⟨running, same⟩ := wake_dispatcher event { client with commands := commands }
  rw [same]
  exact ⟨⟨counted.active, counted.within, counted.small,
    fun _ _ _ _ member => counted.queued _ _ _ _ (old member), since.channels⟩, le_refl _,
    since.listening, since.log, since.channels⟩

theorem step_stepped (counted : Counted client) (occurrence : Occurrence) :
    Stepped (client.dispatcher.isRun = true ∧ ∃ event ∈ client.woken occurrence,
      Answering client.dispatcher event) client (client.step occurrence) := by
  cases occurrence with
  | call addr request token =>
    simpa [TrackerClient.woken, TrackerClient.step] using request_stepped counted addr request token
  | command =>
    cases queue : client.commands with
    | nil => simpa [TrackerClient.woken, TrackerClient.step, queue] using stepped_idle counted
    | cons message commands =>
      rw [TrackerClient.step, queue]
      refine stepped_congr ?_ (wake_stepped counted ?_ (queue ▸ List.subset_cons_self _ _))
      · simp [TrackerClient.woken, queue]
      · intro addr token request tx same
        cases message with
        | request addr' token' request' tx' =>
          cases same
          exact counted.queued addr token request tx (by simp [queue])
        | startTimer | shutdown => cases same
  | received bytes addr | closed | poll | expired =>
    refine stepped_congr ?_ (wake_stepped counted ?_ (List.Subset.refl _))
    · simp [TrackerClient.woken]
    · nofun

/-- Over a whole run, answers are sent only if a step finishes a request. -/
theorem run_stepped (occurrences : List Occurrence) : ∀ {client : TrackerClient}, Counted client →
    Stepped (¬ Unanswered client occurrences) client (client.run occurrences) := by
  induction occurrences with
  | nil =>
    intro client counted
    simpa [Unanswered, TrackerClient.run] using stepped_idle counted
  | cons occurrence rest ih =>
    intro client counted
    have first := step_stepped counted occurrence
    have later := ih first.counted
    refine ⟨later.counted, first.more.trans later.more,
      since_congr ?_ (since_trans first.since later.since later.more)⟩
    rw [Unanswered, not_and_or]
    push Not
    rfl

theorem silent_outstanding (silent : ∀ entry ∈ client.dispatcher.world.log, isMetadata entry.2 = false) :
    client.outstanding = client.issued := by
  have all := List.countP_eq_length (p := fun k => !hasAnswer client.dispatcher.world.log (k + 1))
    (l := List.range client.issued)
  rw [TrackerClient.outstanding, all.mpr, List.length_range]
  intro k _
  rw [Bool.not_eq_true', hasAnswer, List.any_eq_false]
  intro entry member
  simp [silent entry member]

theorem spoken_outstanding {k : Nat} (own : Issued client.issued k)
    (has : hasAnswer client.dispatcher.world.log k = true) : client.outstanding < client.issued := by
  have most : client.outstanding ≤ (List.range client.issued).length := List.countP_le_length
  rw [List.length_range] at most
  refine lt_of_le_of_ne most ?_
  intro same
  have all := List.countP_eq_length.mp (same.trans List.length_range.symm)
  have free := all (k - 1) (List.mem_range.mpr (by have := own.1; have := own.2; omega))
  rw [Nat.sub_add_cancel own.1, has] at free
  cases free

/-- The count is that of the outstanding requests, and a request is refused only while there are as many of
    them as the client may have. -/
structure Accurate (client : TrackerClient) : Prop where
  active : client.limiter.active = client.outstanding
  refused : ∀ addr request token, (TrackerClient.request addr request token client).1 = .ok none →
    client.outstanding = client.limiter.capacity

theorem refused_full (counted : Counted client) {addr : SocketAddr} {request : ClientRequest}
    {token : ClientToken} (refused : (TrackerClient.request addr request token client).1 = .ok none) :
    client.issued = client.limiter.capacity := by
  have within := counted.within
  by_contra other
  unfold TrackerClient.request at refused
  rw [get_bind, can_initiate_count counted, if_pos (by omega)] at refused
  dsimp only at refused
  rw [modify_bind, if_pos rfl, modify_bind] at refused
  split at refused
  · cases refused
  · cases refused

theorem made_counted {bind : SocketAddr} {peerId : ShaHash} {announcePort : UInt16} {capacity : Nat}
    {world : World Item} {start : TrackerClient}
    (made : TrackerClient.withCapacity bind peerId announcePort capacity world = .ok start) :
    Counted start ∧ start.dispatcher.world = world := by
  unfold TrackerClient.withCapacity at made
  split at made
  · cases made
  · rename_i small
    cases made
    refine ⟨⟨rfl, Nat.zero_le _, Nat.lt_of_not_le small, ?_, nofun⟩, rfl⟩
    intro addr token request tx member
    cases List.mem_singleton.mp member

/-- In every run the limiter is right as long as no request has been finished; where the answers are
    received, it is right only so long. -/
theorem limiter_accurate_iff {bind : SocketAddr} {peerId : ShaHash} {announcePort : UInt16} {capacity : Nat}
    {world : World Item} {start : TrackerClient}
    (made : TrackerClient.withCapacity bind peerId announcePort capacity world = .ok start)
    (silent : world.log = []) (occurrences : List Occurrence) :
    (Unanswered start occurrences → Accurate (start.run occurrences)) ∧
    ((∀ k, world.accepts k = true) →
      (Accurate (start.run occurrences) ↔ Unanswered start occurrences)) := by
  obtain ⟨counted, rfl⟩ := made_counted made
  obtain ⟨after, _, since⟩ := run_stepped occurrences counted
  obtain ⟨new, log, quiet, speaks⟩ := since.log
  rw [silent, List.nil_append] at log
  have right : Unanswered start occurrences → Accurate (start.run occurrences) := by
    intro unanswered
    have number : (start.run occurrences).outstanding = _ :=
      silent_outstanding (log ▸ quiet (not_not_intro unanswered))
    refine ⟨after.active.trans number.symm, ?_⟩
    intro addr request token refused
    exact number.trans (refused_full after refused)
  refine ⟨right, fun listening => ⟨?_, right⟩⟩
  intro accurate
  by_contra answered
  obtain ⟨k, own, has⟩ := speaks answered listening
  have fewer := spoken_outstanding own (log ▸ has)
  rw [← accurate.active, after.active] at fewer
  exact absurd fewer (Nat.lt_irrefl _)

def oneAtATime : TrackerClient :=
  ⟨.new 1, 0, [.startTimer], .new (.v4 127 0 0 1 6881) ⟨Vector.replicate shaHashLen 0⟩ 6882 quietWorld⟩

def someScrape : ClientRequest := .scrape ⟨Vector.replicate shaHashLen 1⟩

theorem one_request_counted :
    Accurate (oneAtATime.run [.command, .call (.v4 10 0 0 1 80) someScrape ⟨5⟩]) := by
  have made : TrackerClient.withCapacity (.v4 127 0 0 1 6881) ⟨Vector.replicate shaHashLen 0⟩ 6882 1
      quietWorld = .ok oneAtATime := rfl
  refine (limiter_accurate_iff made rfl _).1 ⟨?_, ?_, trivial⟩
  · rintro _ event ⟨⟩ ⟨⟩
  · rintro _ event ⟨⟩

/-- The request was to an address of the other family and has its answer, so no request is outstanding; but
    the client refuses the next one. -/
theorem answered_request_counted :
    let client := oneAtATime.run [.command, .call (.v6 (Vector.replicate 16 1) 80 0 0) someScrape ⟨5⟩, .command]
    client.outstanding = 0 ∧ client.limiter.active = 1 ∧ client.limiter.capacity = 1 ∧
      (TrackerClient.request (.v4 10 0 0 1 80) someScrape ⟨6⟩ client).1 = .ok none := by
  decide +kernel

end Counting

end TrackerLimiter
