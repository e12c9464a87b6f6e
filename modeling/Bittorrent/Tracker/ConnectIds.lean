import Mathlib.Data.Int.ConditionallyCompleteOrder
import Bittorrent.Tracker.Answers

/-!
The cache of connection ids. An id that is used has come from the same tracker less than a minute before.
The clean-up goes through the map by position and does not look at the entry behind one that it has
removed.
-/
namespace TrackerConnectIds
open Rust Outcome Action NomParse UtilSha UtilTimer HashTables HashTable TrackerMessages TrackerDispatcher
  TrackerTurns TrackerAnswers
open List hiding drop

section Sweep
variable {α : Type} (old : α → Bool)

/-- What is left of a list when the old elements are removed by position: the element behind one that was
    removed comes to stand in its place, and is passed over. -/
def swept : List α → List α
  | [] => []
  | [a] => if old a then [] else [a]
  | a :: b :: rest => if old a then b :: swept rest else a :: swept (b :: rest)

theorem swept_sublist (list : List α) : (swept old list).Sublist list := by
  fun_induction swept old list with
  | case1 => exact .slnil
  | case2 a => exact nil_sublist _
  | case3 a => exact .refl _
  | case4 a b rest _ ih => exact (ih.cons_cons b).cons a
  | case5 a b rest _ ih => exact ih.cons_cons a

theorem swept_keeps {list : List α} {a : α} (member : a ∈ list) (young : old a = false) :
    a ∈ swept old list := by
  fun_induction swept old list with
  | case1 => exact member
  | case2 b isOld => simp_all
  | case3 b => exact member
  | case4 b c rest isOld ih => grind
  | case5 b c rest _ ih => grind

/-- The loop is right as long as no two old elements are neighbours. -/
theorem swept_young_iff (list : List α) : (∀ a ∈ swept old list, old a = false) ↔
    list.IsChain fun a b => ¬ (old a = true ∧ old b = true) := by
  fun_induction swept old list with
  | case1 => simp
  | case2 a isOld => simp
  | case3 a isYoung => simpa using isYoung
  | case4 a b rest isOld ih =>
    rw [isChain_cons_cons, forall_mem_cons, ih]
    cases rest with
    | nil => simp [isOld]
    | cons c rest =>
      rw [isChain_cons_cons]
      simp only [isOld, true_and, Bool.not_eq_true]
      constructor
      · rintro ⟨young, chain⟩
        exact ⟨young, by simp [young], chain⟩
      · rintro ⟨young, _, chain⟩
        exact ⟨young, chain⟩
  | case5 a b rest isYoung ih =>
    rw [isChain_cons_cons, forall_mem_cons, ih]
    simp [isYoung]

end Sweep

section CleanUp
variable {currTime : Int}

theorem removed_between {cache : HashTable SocketAddr (UInt64 × Int)} {addr : SocketAddr}
    {value : UInt64 × Int} {front rest : List (SocketAddr × UInt64 × Int)}
    (parts : cache.entries = front ++ (addr, value) :: rest) : (cache.remove addr).entries = front ++ rest := by
  have distinct := cache.distinct
  rw [parts, map_append, map_cons, nodup_middle, nodup_cons] at distinct
  have others : ∀ entry ∈ front ++ rest, entry.1 ≠ addr := by
    intro entry member same
    exact distinct.1 (map_append ▸ mem_map.mpr ⟨entry, member, same⟩)
  change cache.entries.filter _ = _
  rw [parts, filter_append, filter_cons_of_neg (by simp), ← filter_append]
  exact filter_eq_self.mpr fun entry member => by simpa using others entry member

theorem clean_from_entries (fuel : Nat) : ∀ {front back : List (SocketAddr × UInt64 × Int)}
    {cache : HashTable SocketAddr (UInt64 × Int)}, cache.entries = front ++ back → back.length ≤ fuel →
    (cleanFrom currTime fuel front.length cache).entries =
      front ++ swept (fun entry => isExpired currTime entry.2.2) back := by
  induction fuel with
  | zero =>
    intro front back cache parts enough
    rw [length_eq_zero_iff.mp (Nat.le_zero.mp enough)] at parts ⊢
    exact parts
  | succ fuel ih =>
    intro front back cache parts enough
    unfold cleanFrom
    cases back with
    | nil => simp [parts, swept]
    | cons entry rest =>
      obtain ⟨addr, id, prevTime⟩ := entry
      have here : cache.entries[front.length]? = some (addr, id, prevTime) := by simp [parts]
      rw [length_cons] at enough
      rw [here]
      dsimp only
      by_cases expired : isExpired currTime prevTime = true
      · have removed := removed_between parts
        rw [if_pos expired]
        cases rest with
        | nil =>
          rw [append_nil] at removed
          have ended : cleanFrom currTime fuel (front.length + 1) (cache.remove addr) = cache.remove addr := by
            cases fuel <;> simp [cleanFrom, removed]
          simp [ended, removed, swept, expired]
        | cons next rest =>
          rw [length_cons] at enough
          have later := ih (show (cache.remove addr).entries = (front ++ [next]) ++ rest by simp [removed])
            (by omega)
          simpa [swept, expired] using later
      · have later := ih (show cache.entries = (front ++ [(addr, id, prevTime)]) ++ rest by simp [parts])
          (by omega)
        rw [if_neg expired]
        cases rest <;> simpa [swept, expired] using later

theorem clean_expired_entries (d : ClientDispatcher) : (cleanExpired d).2.idCache.entries =
    swept (fun entry => isExpired (d.world.utc 0) entry.2.2) d.idCache.entries :=
  clean_from_entries _ (nil_append _).symm (le_refl _)

theorem is_expired_iff {prevTime : Int} :
    isExpired currTime prevTime = true ↔ 60 * 10 ^ 9 ≤ currTime - prevTime := by
  rw [isExpired, decide_eq_true_iff, connectionIdValidDurationMillis]
  omega

/-- The clean-up removes what is a minute old and nothing else, exactly if no two such entries are next to
    each other in the order of the map. -/
theorem clean_expired_exact_iff (d : ClientDispatcher) :
    (∀ entry, entry ∈ (cleanExpired d).2.idCache.entries ↔
      entry ∈ d.idCache.entries ∧ d.world.utc 0 - entry.2.2 < 60 * 10 ^ 9) ↔
    d.idCache.entries.IsChain fun a b =>
      ¬ (60 * 10 ^ 9 ≤ d.world.utc 0 - a.2.2 ∧ 60 * 10 ^ 9 ≤ d.world.utc 0 - b.2.2) := by
  have young : ∀ entry : SocketAddr × UInt64 × Int,
      isExpired (d.world.utc 0) entry.2.2 = false ↔ d.world.utc 0 - entry.2.2 < 60 * 10 ^ 9 := by
    intro entry
    rw [← Bool.not_eq_true, is_expired_iff, not_le]
  simp only [clean_expired_entries, ← is_expired_iff, ← young, ← swept_young_iff]
  constructor
  · exact fun exact entry member => ((exact entry).mp member).2
  · refine fun all entry => ⟨fun member => ⟨(swept_sublist _ _).subset member, all entry member⟩, ?_⟩
    exact fun kept => swept_keeps _ kept.1 kept.2

def twoOld : ClientDispatcher :=
  { freshDispatcher with
    idCache := ⟨[(.v4 10 0 0 1 80, 1, 0), (.v4 10 0 0 2 80, 2, 0)], by decide⟩
    world := { quietWorld with utc := fun _ => 60 * 10 ^ 9 } }

theorem second_old_id_stays :
    (cleanExpired twoOld).2.idCache.entries = [(.v4 10 0 0 2 80, 2, 0)] ∧
      60 * 10 ^ 9 ≤ twoOld.world.utc 0 - 0 := by
  decide +kernel

end CleanUp

section Fresh
variable {Told : SocketAddr → UInt64 → Int → Prop} {d d' : ClientDispatcher}

/-- A datagram that asks for a connection id, or has one that its receiver told us less than a minute before,
    at the time `first` or later. -/
def Proper (Told : SocketAddr → UInt64 → Int → Prop) (first : Int) : Item → Prop
  | .metadata _ => True
  | .datagram bytes addr =>
    (∃ token, bytes = TrackerRequest.writeBytes ⟨connectIdProtocolId, token, .connect⟩) ∨
    ∃ id token type received time, bytes = TrackerRequest.writeBytes ⟨id, token, type⟩ ∧ type ≠ .connect ∧
      Told addr id received ∧ first ≤ time ∧ received ≤ time ∧ time - received < 60 * 10 ^ 9

/-- The ids in the cache with the times when they were told. -/
structure Dated (Told : SocketAddr → UInt64 → Int → Prop) (d : ClientDispatcher) : Prop where
  steady : Monotone d.world.utc
  known : ∀ addr id received, d.idCache.get addr = some (id, received) →
    Told addr id received ∧ received ≤ d.world.utc 0

structure Since (Told : SocketAddr → UInt64 → Int → Prop) (d d' : ClientDispatcher) : Prop
    extends Dated Told d' where
  later : d.world.utc 0 ≤ d'.world.utc 0
  sent : ∃ new, d'.world.log = d.world.log ++ new ∧ ∀ entry ∈ new, Proper Told (d.world.utc 0) entry.2

theorem since_refl (dated : Dated Told d) : Since Told d d :=
  ⟨dated, le_refl _, [], by simp, by simp⟩

/-- The clock is read and ids are forgotten. -/
theorem since_reads {d'' : ClientDispatcher} {n : Nat} (since : Since Told d d')
    (utc : d''.world.utc = fun k => d'.world.utc (k + n)) (log : d''.world.log = d'.world.log)
    (fewer : ∀ addr entry, d''.idCache.get addr = some entry → d'.idCache.get addr = some entry) :
    Since Told d d'' := by
  have later : d'.world.utc 0 ≤ d''.world.utc 0 := utc ▸ since.steady (Nat.zero_le _)
  refine ⟨⟨?_, ?_⟩, since.later.trans later, log ▸ since.sent⟩
  · rw [utc]
    exact fun a b le => since.steady (Nat.add_le_add_right le n)
  · intro addr id received found
    obtain ⟨told, before⟩ := since.known addr id received (fewer addr _ found)
    exact ⟨told, before.trans later⟩

theorem since_send {item : Item} (since : Since Told d d')
    (proper : Proper Told (d.world.utc 0) item) (channel : Channel) :
    Since Told d (sendItem channel item d').2 := by
  obtain ⟨new, log, all⟩ := since.sent
  have more := send_item_log d' channel item
  rw [log, append_assoc] at more
  rw [send_item_run] at more ⊢
  refine ⟨⟨since.steady, since.known⟩, since.later, _, more, forall_mem_append.mpr ⟨all, ?_⟩⟩
  intro entry member
  split at member
  · rw [mem_singleton.mp member]
    exact proper
  · cases member

theorem keeps_transmit (token : ClientToken) (conn : ConnectTimer) (nextTimeout : Nat) :
    Keeps (Since Told d) (transmit token conn nextTimeout) := by
  intro d₁ since
  obtain ⟨key, cache, n, random, fewer, ran⟩ := transmit_run d₁ token conn nextTimeout
  have proper : Proper Told (d.world.utc 0) (.datagram (packet d₁ token conn key) conn.addr) := by
    have type : wanted d₁ conn key ≠ .connect := by
      unfold wanted
      split <;> nofun
    unfold packet cachedId
    cases found : d₁.idCache.get conn.addr with
    | none => exact .inl ⟨_, rfl⟩
    | some entry =>
      obtain ⟨told, before⟩ := since.known conn.addr entry.1 entry.2 found
      by_cases expired : isExpired (d₁.world.utc 0) entry.2 = true
      · simp only [expired, if_true]
        exact .inl ⟨_, rfl⟩
      · have fresh := mt is_expired_iff.mpr expired
        simp only [expired]
        exact .inr ⟨_, _, _, entry.2, _, rfl, type, told, since.later, before, not_le.mp fresh⟩
  have looked : Since Told d { d₁ with idCache := cache, world := { d₁.world with
      utc := fun k => d₁.world.utc (k + n), random := random } } := since_reads since rfl rfl fewer
  rw [ran]
  refine bind_keeps (I := Since Told d) (since_send looked proper _) fun _ d' since => ?_
  exact ⟨⟨since.steady, since.known⟩, since.later, since.sent⟩

theorem keeps_answer (tx : Channel) (token : ClientToken) (result : Except ClientError ClientResponse) :
    Keeps (Since Told d) (answer tx token result) :=
  fun _ since => since_send since (show Proper Told _ (.metadata _) from True.intro) _

theorem keeps_act (token : ClientToken) (reply : Reply) : Keeps (Since Told d) (reply.act token) := by
  cases reply with
  | drop => exact keeps_pure ()
  | crash => exact keeps_abort
  | answer tx result => exact keeps_answer tx token result
  | transmit conn nextTimeout => exact keeps_transmit token conn nextTimeout

theorem clean_up_since (dated : Dated Told d) : Since Told d (timeoutHandler .cleanUp d).2 := by
  refine since_reads (n := 1) (since_refl dated) rfl rfl ?_
  intro addr entry found
  have inside : (addr, entry) ∈ (cleanExpired d).2.idCache.entries := mem_iff.mpr found
  rw [clean_expired_entries] at inside
  exact mem_iff.mp ((swept_sublist _ _).subset inside)

/-- The tracker at this address answers an active request of ours with a connection id. -/
def Tells (d : ClientDispatcher) (event : Event) (addr : SocketAddr) (id : UInt64) : Prop :=
  ∃ bytes response conn, event = .datagram bytes addr ∧ Matches d bytes response conn ∧ conn.addr = addr ∧
    response.responseType = .connect id

theorem run_one_since {event : Event} (dated : Dated Told d)
    (tells : ∀ addr id, Tells d event addr id → Told addr id (d.world.utc 0)) :
    Since Told d (runOne event d).2 := by
  have here := since_refl dated
  rw [runOne, get_bind]
  split
  · have turn := handle_turn d event
    generalize handle event d = r at turn ⊢
    cases turn with
    | idle idle =>
      cases idle with
      | startTimer => exact clean_up_since dated
      | unmatched | undue => exact here
      | poll | late => exact ⟨⟨here.steady, here.known⟩, here.later, here.sent⟩
      | cleaned due =>
        have after := clean_up_since (d := { d with timer := _ }) ⟨dated.steady, dated.known⟩
        exact ⟨⟨after.steady, after.known⟩, after.later, after.sent⟩
    | concerns concerns =>
      refine keeps_act _ _ _ ?_
      cases concerns with
      | refused => exact here
      | asked | stranger | untimed | result | expired =>
        exact ⟨⟨here.steady, here.known⟩, here.later, here.sent⟩
      | connected matched own waits told =>
        have later : d.world.utc 0 ≤ d.world.utc 1 := dated.steady (Nat.zero_le 1)
        refine ⟨⟨fun a b le => dated.steady (Nat.add_le_add_right le 1), ?_⟩, later, here.sent⟩
        intro other id' received found
        rcases found_insert found with ⟨rfl, same⟩ | old
        · cases same
          exact ⟨tells _ _ ⟨_, _, _, rfl, matched, own, told⟩, later⟩
        · obtain ⟨told, before⟩ := dated.known other id' received old
          exact ⟨told, before.trans later⟩
    | closed =>
      refine keeps_bind keeps_get (fun d' => ?_) d here
      refine keeps_bind (keeps_for_each (fun (entry : ClientToken × ConnectTimer) =>
        keeps_answer entry.2.tx entry.1 _) _) fun _ => keeps_modify ?_
      exact fun d' since => ⟨⟨since.steady, since.known⟩, since.later, since.sent⟩
  · exact here

def after (start : ClientDispatcher) (events : List Event) : ClientDispatcher :=
  events.foldl (fun d event => (runOne event d).2) start

/-- At this time in the run the id came from this address, in a response to an active request. -/
def Received (start : ClientDispatcher) (events : List Event) (addr : SocketAddr) (id : UInt64)
    (time : Int) : Prop :=
  ∃ before event, before ++ [event] <+: events ∧ Tells (after start before) event addr id ∧
    time = (after start before).world.utc 0

variable {start : ClientDispatcher} {events : List Event}

theorem next_since (dated : Dated (Received start events) (after start events)) (event : Event) :
    Since (Received start (events ++ [event])) (after start events) (runOne event (after start events)).2 := by
  refine run_one_since ⟨dated.steady, fun addr id received found => ?_⟩ fun addr id tells =>
    ⟨events, event, prefix_rfl, tells, rfl⟩
  obtain ⟨⟨before, event, early, tells⟩, past⟩ := dated.known addr id received found
  exact ⟨⟨before, event, early.trans (prefix_append ..), tells⟩, past⟩

theorem after_dated (dated : Dated (Received start []) start) (events : List Event) :
    Dated (Received start events) (after start events) := by
  induction events using List.reverseRecOn with
  | nil => exact dated
  | append_singleton events event ih =>
    rw [after, foldl_append]
    exact (next_since ih event).toDated

/-- In every run, what a turn sends with a connection id has one that came from the same address less than a
    minute before. -/
theorem sent_ids_fresh (bind : SocketAddr) (peerId : ShaHash) (announcePort : UInt16) {world : World Item}
    (steady : Monotone world.utc) (events : List Event) (event : Event) :
    let start := ClientDispatcher.new bind peerId announcePort world
    let d := after start events
    ∃ new, (runOne event d).2.world.log = d.world.log ++ new ∧
      ∀ entry ∈ new, Proper (Received start (events ++ [event])) (d.world.utc 0) entry.2 := by
  refine (next_since (after_dated ⟨steady, ?_⟩ events) event).sent
  intro addr id received found
  cases found

theorem scrape_id_fresh :
    let d := after freshDispatcher [someRequest]
    let told : Event := .datagram (TrackerResponse.writeBytes ⟨5, .connect 77⟩) (.v4 10 0 0 1 80)
    ∃ new, (runOne told d).2.world.log = d.world.log ++ new ∧
      ∀ entry ∈ new, Proper (Received freshDispatcher ([someRequest] ++ [told])) (d.world.utc 0) entry.2 :=
  sent_ids_fresh _ _ _ (fun _ _ _ => le_refl _) [someRequest] _

end Fresh

end TrackerConnectIds
