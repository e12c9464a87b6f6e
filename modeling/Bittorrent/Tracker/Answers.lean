import Bittorrent.Tracker.Turns

/-!
One answer for each request. A request that has not been answered is among the active ones and its timer is
pending, as long as nobody but its tracker sends a response with its transaction id: such a response takes
the request out of the map for good.
-/
namespace TrackerAnswers
open Rust Action UtilSha UtilTimer HashTables HashTable TrackerMessages TrackerDispatcher TrackerTurns

section Log

def isAnswer (token : ClientToken) : Channel × Item → Bool
  | (_, .metadata metadata) => decide (metadata.token = token)
  | (_, .datagram ..) => false

def answers (d : ClientDispatcher) (token : ClientToken) : Nat :=
  (d.world.log.filter (isAnswer token)).length

variable {d d' : ClientDispatcher} {tx : Channel} {token : ClientToken}
  {result : Except ClientError ClientResponse}

theorem answers_more (log : d'.world.log = d.world.log ++ [(tx, .metadata ⟨token, result⟩)])
    (other : ClientToken) : answers d' other = answers d other + if other = token then 1 else 0 := by
  rw [answers, log, List.filter_append, List.length_append]
  by_cases same : other = token
  · simp [answers, isAnswer, same]
  · simp [answers, isAnswer, same, Ne.symm same]

end Log

section Accounts
open List
variable {handed : List ClientToken} {d d' : ClientDispatcher} {token other : ClientToken}

/-- The account of one request: while it is active it has no answer and a pending timer; otherwise it has
    one answer if it was ever handed over. -/
structure Own (handed : List ClientToken) (d : ClientDispatcher) (token : ClientToken) : Prop where
  waiting : ∀ conn, d.activeRequests.get token = some conn → token ∈ handed ∧ answers d token = 0 ∧
    ∃ timeout, conn.timeoutId = some timeout ∧ (timeout, .connect token) ∈ d.timer.pending
  settled : d.activeRequests.get token = none → answers d token = if token ∈ handed then 1 else 0

structure Accounted (handed : List ClientToken) (d : ClientDispatcher) : Prop where
  listening : Open d
  orderly : d.timer.Orderly
  own : ∀ token, Own handed d token

/-- One request is out of the map and has no answer yet. -/
structure Due (handed : List ClientToken) (token : ClientToken) (d : ClientDispatcher) : Prop where
  listening : Open d
  orderly : d.timer.Orderly
  room : d.timer.nextId + 1 < 2 ^ 64
  others : ∀ other, other ≠ token → Own handed d other
  gone : d.activeRequests.get token = none
  member : token ∈ handed
  none : answers d token = 0

theorem own_frame (own : Own handed d token)
    (active : d'.activeRequests.get token = d.activeRequests.get token)
    (same : answers d' token = answers d token)
    (pending : ∀ timeout, (timeout, .connect token) ∈ d.timer.pending →
      (timeout, .connect token) ∈ d'.timer.pending) : Own handed d' token := by
  constructor
  · intro conn found
    rw [active] at found
    obtain ⟨member, none, timeout, isTimeout, waits⟩ := own.waiting conn found
    exact ⟨member, same.trans none, timeout, isTimeout, pending timeout waits⟩
  · intro gone
    rw [active] at gone
    exact same.trans (own.settled gone)

theorem own_more {more : List ClientToken} (own : Own handed d token) (other : token ∉ more) :
    Own (handed ++ more) d token := by
  constructor
  · intro conn found
    obtain ⟨member, rest⟩ := own.waiting conn found
    exact ⟨mem_append_left _ member, rest⟩
  · intro gone
    rw [own.settled gone]
    simp [other]

theorem answer_accounted (due : Due handed token d) (tx : Channel)
    (result : Except ClientError ClientResponse) :
    ∃ d', answer tx token result d = (.ok (), d') ∧ Accounted handed d' := by
  refine ⟨_, send_item_ends due.listening .., fun k => due.listening (k + 1), due.orderly, ?_⟩
  intro other
  by_cases same : other = token
  · subst same
    refine ⟨fun conn found => (nomatch due.gone.symm.trans found), fun _ => ?_⟩
    refine Eq.trans (answers_more (d := d) rfl other) ?_
    rw [if_pos rfl, due.none, if_pos due.member]
  · refine own_frame (due.others other same) rfl ?_ fun _ waits => waits
    exact Eq.trans (answers_more (d := d) rfl other) (by rw [if_neg same, Nat.add_zero])

theorem transmit_accounted (due : Due handed token d) (conn : ConnectTimer) (nextTimeout : Nat) :
    ∃ d', transmit token conn nextTimeout d = (.ok (), d') ∧ Accounted handed d' := by
  obtain ⟨key, cache, n, random, ran⟩ := transmit_ends due.listening token conn nextTimeout
  refine ⟨_, ran, fun k => due.listening (k + 1), Timer.schedule_orderly due.orderly due.room, ?_⟩
  intro other
  have count : ((d.world.log ++ [(messageSend, Item.datagram (packet d token conn key) conn.addr)]).filter
      (isAnswer other)).length = answers d other := by simp [answers, isAnswer]
  by_cases same : other = token
  · subst same
    constructor
    · intro conn' found
      cases (get_insert ..).symm.trans found
      exact ⟨due.member, count.trans due.none, _, rfl,
        (Timer.schedule_pending due.orderly).mem_iff.mpr (.head _)⟩
    · intro gone
      cases (get_insert ..).symm.trans gone
  · exact own_frame (due.others other same) (get_insert_other _ _ same) count fun _ waits =>
      (Timer.schedule_pending due.orderly).mem_iff.mpr (.tail _ waits)

/-- The answers of `shutdown`, one for each entry. -/
structure AllAnswered (tokens : List ClientToken) (d d' : ClientDispatcher) : Prop where
  timer : d'.timer = d.timer
  listening : Open d'
  answers : ∀ token, answers d' token = answers d token + tokens.count token

theorem answer_all_ends (entries : List (ClientToken × ConnectTimer)) :
    ∀ {d : ClientDispatcher}, Open d → ∃ d', Action.forEach (fun (entry : ClientToken × ConnectTimer) =>
      answer entry.2.tx entry.1 (.error .clientShutdown)) entries d = (.ok (), d') ∧
      AllAnswered (entries.map Prod.fst) d d' := by
  induction entries with
  | nil =>
    intro d listening
    exact ⟨d, rfl, rfl, listening, fun _ => rfl⟩
  | cons entry rest ih =>
    intro d listening
    obtain ⟨d₁, sent, listening, timer, log⟩ : ∃ d₁, answer entry.2.tx entry.1 (.error .clientShutdown) d =
        (.ok (), d₁) ∧ Open d₁ ∧ d₁.timer = d.timer ∧
        d₁.world.log = d.world.log ++ [(entry.2.tx, .metadata ⟨entry.1, .error .clientShutdown⟩)] :=
      ⟨_, send_item_ends listening .., fun k => listening (k + 1), rfl, rfl⟩
    obtain ⟨d', ran, all⟩ := ih listening
    refine ⟨d', ?_, all.timer.trans timer, all.listening, ?_⟩
    · rw [Action.forEach, bind_run sent, ran]
    · intro token
      rw [all.answers, answers_more log, map_cons, count_cons]
      by_cases same : token = entry.1
      · simp [same]
        omega
      · simp [same, Ne.symm same]

theorem shutdown_accounted (accounted : Accounted handed d) :
    ∃ d', shutdown d = (.ok (), d') ∧ Accounted handed d' := by
  obtain ⟨d₁, ran, all⟩ := answer_all_ends d.activeRequests.entries accounted.listening
  rw [shutdown, get_bind, bind_run ran]
  refine ⟨_, rfl, all.listening, all.timer ▸ accounted.orderly, ?_⟩
  intro token
  refine ⟨nofun, fun _ => ?_⟩
  change answers d₁ token = _
  rw [all.answers]
  cases found : d.activeRequests.get token with
  | none =>
    have absent : token ∉ d.activeRequests.entries.map Prod.fst := by
      intro member
      obtain ⟨⟨key, conn⟩, inside, rfl⟩ := mem_map.mp member
      rw [mem_iff.mp inside] at found
      cases found
    rw [count_eq_zero_of_not_mem absent, (accounted.own token).settled found]
    rfl
  | some conn =>
    obtain ⟨member, none, _⟩ := (accounted.own token).waiting conn found
    have present : token ∈ d.activeRequests.entries.map Prod.fst :=
      mem_map.mpr ⟨_, mem_iff.mpr found, rfl⟩
    rw [none, count_eq_one_of_mem d.activeRequests.distinct present, if_pos member]

theorem clean_up_accounted (accounted : Accounted handed d) (room : d.timer.nextId + 1 < 2 ^ 64) :
    Accounted handed (timeoutHandler .cleanUp d).2 :=
  ⟨accounted.listening, Timer.schedule_orderly accounted.orderly room, fun token =>
    own_frame (accounted.own token) rfl rfl fun _ waits =>
      (Timer.schedule_pending accounted.orderly).mem_iff.mpr (.tail _ waits)⟩

end Accounts

section Runs
variable {handed : List ClientToken} {d d' : ClientDispatcher} {event : Event}

/-- The requests that an event hands over. -/
def handedBy (d : ClientDispatcher) : Event → List ClientToken
  | .request _ token _ _ => if d.isRun then [token] else []
  | _ => []

/-- A request has a token of its own, a response with the transaction id of an active request comes from
    the address of that request, and the running number of the timer does not wrap around. -/
structure Met (handed : List ClientToken) (d : ClientDispatcher) (event : Event) : Prop where
  fresh : ∀ addr token request tx, event = .request addr token request tx → token ∉ handed
  sender : ∀ bytes addr response rest conn, event = .datagram bytes addr →
    parseResponse bytes = .ok (response, rest) →
    d.activeRequests.get ⟨response.transactionId⟩ = some conn → conn.addr = addr
  room : d.timer.nextId + 1 < 2 ^ 64

theorem idle_accounted (accounted : Accounted handed d) (room : d.timer.nextId + 1 < 2 ^ 64)
    (idle : Idle d event d') : Accounted handed d' := by
  cases idle with
  | startTimer => exact clean_up_accounted accounted room
  | unmatched | undue => exact accounted
  | poll =>
    refine ⟨accounted.listening, Timer.poll_orderly accounted.orderly, fun token => ?_⟩
    exact own_frame (accounted.own token) rfl rfl fun _ waits => Timer.poll_pending d.timer ▸ waits
  | cleaned due =>
    have number := Timer.next_next_id due
    refine clean_up_accounted (d := { d with timer := _ }) ⟨accounted.listening,
      Timer.next_orderly accounted.orderly due, fun token => ?_⟩ (number ▸ room)
    exact own_frame (accounted.own token) rfl rfl fun _ waits => Timer.next_keeps due waits nofun
  | @late token timer due gone =>
    refine ⟨accounted.listening, Timer.next_orderly accounted.orderly due, fun other => ?_⟩
    by_cases same : other = token
    · subst same
      exact ⟨fun conn found => (nomatch gone.symm.trans found), (accounted.own other).settled⟩
    · exact own_frame (accounted.own other) rfl rfl fun _ waits =>
        Timer.next_keeps due waits fun again => same (by cases again; rfl)

theorem concerns_due {token : ClientToken} {reply : Reply} (accounted : Accounted handed d)
    (running : d.isRun = true) (met : Met handed d event) (concerns : Concerns d event token reply d') :
    Due (handed ++ handedBy d event) token d' := by
  have world := concerns_world concerns
  have count : ∀ token, answers d' token = answers d token := by
    intro token
    rw [answers, world, answers]
  obtain ⟨more, gone, member, none⟩ : (∀ other ≠ token, other ∉ handedBy d event) ∧
      d'.activeRequests.get token = none ∧ token ∈ handed ++ handedBy d event ∧ answers d token = 0 := by
    rcases concerns_own concerns with ⟨⟨addr, request, tx, rfl⟩, taken⟩ | ⟨other, ⟨conn, found⟩, gone⟩
    · have fresh := met.fresh addr token request tx rfl
      have gone : d.activeRequests.get token = none := Option.eq_none_iff_forall_ne_some.mpr
        fun conn found => fresh ((accounted.own token).waiting conn found).1
      have settled := (accounted.own token).settled gone
      rw [if_neg fresh] at settled
      simp only [handedBy, running, if_true]
      exact ⟨by simp, taken.elim id fun same => same ▸ gone, by simp, settled⟩
    · have nobody : handedBy d event = [] := by
        cases event with
        | request addr token request tx => exact absurd rfl (other addr token request tx)
        | _ => rfl
      obtain ⟨member, none, _⟩ := (accounted.own token).waiting conn found
      rw [nobody, List.append_nil]
      exact ⟨by simp, gone, member, none⟩
  obtain ⟨orderly, number, pending⟩ : d'.timer.Orderly ∧ d'.timer.nextId = d.timer.nextId ∧
      ∀ other ≠ token, ∀ timeout, (timeout, .connect other) ∈ d.timer.pending →
        (timeout, .connect other) ∈ d'.timer.pending := by
    rcases concerns_timer concerns with same | ⟨conn, timeout, found, waits, same⟩ | due
    · rw [same]
      exact ⟨accounted.orderly, rfl, fun _ _ _ waits => waits⟩
    · obtain ⟨_, _, timeout', isTimeout, held⟩ := (accounted.own token).waiting conn found
      cases waits.symm.trans isTimeout
      rw [same]
      exact ⟨Timer.cancel_orderly accounted.orderly timeout, Timer.cancel_next_id .., fun other different _ waits =>
        Timer.cancel_keeps accounted.orderly held waits fun again => different (by cases again; rfl)⟩
    · exact ⟨Timer.next_orderly accounted.orderly due, Timer.next_next_id due, fun other different _ waits =>
        Timer.next_keeps due waits fun again => different (by cases again; rfl)⟩
  refine ⟨?_, orderly, number ▸ met.room, ?_, gone, member, (count token).trans none⟩
  · rw [Open, world]
    exact accounted.listening
  · exact fun other different => own_frame (own_more (accounted.own other) (more other different))
      (concerns_others concerns different) (count other) (pending other different)

theorem concerns_accounted {token : ClientToken} {reply : Reply} (accounted : Accounted handed d)
    (running : d.isRun = true) (met : Met handed d event) (concerns : Concerns d event token reply d') :
    ∃ d'', reply.act token d' = (.ok (), d'') ∧ Accounted (handed ++ handedBy d event) d'' := by
  have due := concerns_due accounted running met concerns
  have again : ∀ conn timedOut, ∃ d'', (retry conn timedOut).act token d' = (.ok (), d'') ∧
      Accounted (handed ++ handedBy d event) d'' := by
    intro conn timedOut
    unfold retry
    cases conn.currentTimeout timedOut with
    | none => exact answer_accounted due ..
    | some next => exact transmit_accounted due ..
  cases concerns with
  | refused | result => exact answer_accounted due ..
  | asked | connected | expired => exact again ..
  | stranger matched other =>
    obtain ⟨⟨rest, parsed⟩, found⟩ := matched
    exact absurd (met.sender _ _ _ rest _ rfl parsed found) other
  | untimed matched own none =>
    obtain ⟨_, _, timeout, isTimeout, _⟩ := (accounted.own _).waiting _ matched.found
    cases none.symm.trans isTimeout

theorem run_one_accounted (accounted : Accounted handed d) (met : Met handed d event) :
    ∃ d', runOne event d = (.ok (), d') ∧ Accounted (handed ++ handedBy d event) d' := by
  rw [runOne, get_bind]
  cases running : d.isRun with
  | true =>
    rw [if_pos rfl]
    have turn := handle_turn d event
    generalize handle event d = r at turn
    cases turn with
    | idle idle =>
      refine ⟨_, rfl, ?_⟩
      have nobody : handedBy d event = [] := by cases idle <;> rfl
      rw [nobody, List.append_nil]
      exact idle_accounted accounted met.room idle
    | concerns concerns => exact concerns_accounted accounted running met concerns
    | closed =>
      simp only [handedBy, List.append_nil]
      exact shutdown_accounted accounted
  | false =>
    have nobody : handedBy d event = [] := by cases event <;> simp [handedBy, running]
    rw [nobody, List.append_nil]
    exact ⟨d, rfl, accounted⟩

/-- The states of a dispatcher whose answers are received, with the requests handed over so far, in a run
    whose events all meet the condition. -/
inductive Reached : List ClientToken → ClientDispatcher → Prop where
  | new (bind : SocketAddr) (peerId : ShaHash) (announcePort : UInt16) (world : World Item)
      (silent : world.log = []) (listening : ∀ k, world.accepts k = true) :
      Reached [] (.new bind peerId announcePort world)
  | step {handed : List ClientToken} {d d' : ClientDispatcher} {event : Event} :
      Reached handed d → Met handed d event → runOne event d = (.ok (), d') →
      Reached (handed ++ handedBy d event) d'

theorem reached_accounted (reached : Reached handed d) : Accounted handed d := by
  induction reached with
  | new bind peerId announcePort world silent listening =>
    refine ⟨listening, Timer.new_orderly, fun token => ⟨fun conn found => ?_, fun _ => ?_⟩⟩
    · cases found
    · rw [answers, ClientDispatcher.new, silent]
      rfl
  | step _ met ran accounted =>
    obtain ⟨next, same, accounted⟩ := run_one_accounted accounted met
    rw [ran] at same
    cases same
    exact accounted

/-- Every request has at most one answer, and as long as it has none it is active with a pending timer; and
    the dispatcher gets through every further event that meets the condition. -/
theorem one_answer_each (reached : Reached handed d) :
    (∀ token ∈ handed, answers d token ≤ 1 ∧ (answers d token = 0 →
      ∃ conn timeout, d.activeRequests.get token = some conn ∧ conn.timeoutId = some timeout ∧
        (timeout, .connect token) ∈ d.timer.pending)) ∧
    ∀ event, Met handed d event → ∃ d', runOne event d = (.ok (), d') := by
  have accounted := reached_accounted reached
  constructor
  · intro token member
    cases found : d.activeRequests.get token with
    | none =>
      have one := (accounted.own token).settled found
      rw [if_pos member] at one
      exact ⟨by omega, fun none => by omega⟩
    | some conn =>
      obtain ⟨_, none, timeout, isTimeout, waits⟩ := (accounted.own token).waiting conn found
      exact ⟨by omega, fun _ => ⟨conn, timeout, rfl, isTimeout, waits⟩⟩
  · intro event met
    obtain ⟨d', ran, _⟩ := run_one_accounted accounted met
    exact ⟨d', ran⟩

def quietWorld : World Item := ⟨fun _ => 0, fun _ => 0, fun _ => 0, fun _ => true, []⟩

def someRequest : Event := .request (.v4 10 0 0 1 80) ⟨5⟩ (.scrape ⟨Vector.replicate shaHashLen 1⟩) 1

def freshDispatcher : ClientDispatcher :=
  .new (.v4 127 0 0 1 6881) ⟨Vector.replicate shaHashLen 0⟩ 6882 quietWorld

theorem one_request_waits : ∃ d, Reached [⟨5⟩] d ∧ answers d ⟨5⟩ = 0 ∧
    ∃ conn timeout, d.activeRequests.get ⟨5⟩ = some conn ∧ conn.timeoutId = some timeout ∧
      (timeout, .connect ⟨5⟩) ∈ d.timer.pending := by
  have start : Reached [] freshDispatcher := .new _ _ _ _ rfl fun _ => rfl
  have met : Met [] freshDispatcher someRequest :=
    ⟨fun _ _ _ _ _ => List.not_mem_nil, (fun _ _ _ _ _ same => nomatch same), by decide⟩
  obtain ⟨d, ran⟩ := (one_answer_each start).2 someRequest met
  have reached : Reached [⟨5⟩] d := .step start met ran
  have none : answers d ⟨5⟩ = 0 := by
    have same : d = (runOne someRequest freshDispatcher).2 := by rw [ran]
    rw [same]
    decide +kernel
  exact ⟨d, reached, none, ((one_answer_each reached).1 ⟨5⟩ (List.mem_singleton_self _)).2 none⟩

/-- A response with the transaction id of the request from another address: the request has no answer and
    is gone. -/
theorem stranger_drops_request :
    let waiting := (runOne someRequest freshDispatcher).2
    let after := (runOne (.datagram (TrackerResponse.writeBytes ⟨5, .connect 77⟩) (.v4 6 6 6 6 666)) waiting).2
    (waiting.activeRequests.get ⟨5⟩).isSome = true ∧ (after.activeRequests.get ⟨5⟩).isSome = false ∧
      answers after ⟨5⟩ = 0 := by
  decide +kernel

end Runs

end TrackerAnswers
