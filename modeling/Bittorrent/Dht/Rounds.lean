import Bittorrent.Dht.Candidates

/-!
What the rounds of a lookup send. Every other part of a lookup leaves the datagrams alone.
-/
namespace DhtRounds
open Rust Action UtilSha UtilTimer DhtNode DhtTable DhtPlacement DhtMessage DhtTransaction DhtWorker
  DhtLookup DhtCandidates List

section Messages
variable {ε α : Type}

def datagrams (w : World Item) : List (Bytes × SocketAddr) :=
  w.log.filterMap fun entry =>
    match entry.2 with
    | .datagram bytes addr => some (bytes, addr)
    | _ => none

def Silent (m : Action Shared ε α) : Prop :=
  ∀ sent, Keeps (fun s : Shared => datagrams s.world = sent) m

theorem silent_ended {m : Action Shared ε α} (silent : Silent m) {s s' : Shared} {o : Outcome ε α}
    (ended : m s = (o, s')) : datagrams s'.world = datagrams s.world := by
  have kept : datagrams (m s).2.world = datagrams s.world := silent (datagrams s.world) s rfl
  rw [ended] at kept
  exact kept

theorem silent_in_world {m : Action (World Item) ε α}
    (inner : ∀ sent, Keeps (fun w => datagrams w = sent) m) : Silent (inWorld m) :=
  fun sent s holds => inner sent s.world holds

theorem silent_timed (m : Timed ε α) : Silent (inWorld (timed m)) :=
  silent_in_world fun _ => keeps_zoom fun _ _ holds => holds

theorem silent_on_table (f : RoutingTable → Timed ε RoutingTable) : Silent (onTable f) := by
  intro sent
  apply keeps_bind
  · exact keeps_bind keeps_get fun s => silent_timed _ sent
  · exact fun table => keeps_modify fun s holds => holds

theorem silent_local_request (node : NodeHandle) : Silent (localRequest node : Action Shared ε Unit) :=
  silent_on_table _

theorem silent_schedule_in (delay : Nat) (task : ScheduledTask) :
    Silent (scheduleIn delay task : Action Shared ε Timeout) := by
  intro sent
  apply keeps_bind (silent_timed _ sent)
  intro time
  apply keeps_bind keeps_get
  intro s
  apply keeps_bind
  · exact keeps_modify fun s holds => holds
  · exact fun _ => keeps_pure _

theorem silent_cancel (timeout : Timeout) : Silent (cancel timeout : Action Shared ε Unit) :=
  fun _ => keeps_modify fun _ holds => holds

variable (sent : List (Bytes × SocketAddr))

theorem silent_shuffle_last (turns : Nat) : ∀ list : List Nat,
    Keeps (fun w => datagrams w = sent)
      (shuffleLast turns list : Action (World Item) ε (List Nat)) := by
  induction turns with
  | zero => exact fun list => keeps_pure _
  | succ turns ih =>
    intro list
    exact keeps_bind (fun _ holds => holds) fun r => ih _

theorem silent_next_within (limit fuel : Nat) : ∀ b : IdBlock,
    Keeps (fun w => datagrams w = sent)
      (b.nextWithin limit fuel : Action (World Item) ε (Nat × IdBlock)) := by
  induction fuel with
  | zero => exact fun b => keeps_cut_off
  | succ fuel ih =>
    intro b
    unfold IdBlock.nextWithin
    split
    · exact keeps_pure _
    · exact keeps_bind (silent_shuffle_last sent _ _) fun ids => ih _

theorem silent_generate (g : MIDGenerator) :
    Silent (generate g : Action Shared ε (TransactionID × MIDGenerator)) := by
  apply silent_in_world
  intro sent
  apply keeps_bind (silent_next_within sent _ _ _)
  exact fun _ => keeps_pure _

theorem silent_send (channel : Channel) {item : Item} (other : ∀ bytes addr, item ≠ .datagram bytes addr)
    (sent : List (Bytes × SocketAddr)) :
    Keeps (fun w => datagrams w = sent) (World.send channel item : Action (World Item) ε Bool) := by
  intro w holds
  unfold datagrams at holds ⊢
  unfold World.send
  split
  · rw [filterMap_append, holds]
    cases item with
    | datagram bytes addr => exact absurd rfl (other bytes addr)
    | peer addr => simp
    | event event => simp
    | status bootstrapped => simp
    | values values => simp
  · exact holds

theorem silent_send_peers (channel : Channel) (peers : List SocketAddr) :
    Silent (sendPeers channel peers : Action Shared ε Unit) := by
  intro sent
  induction peers with
  | nil => exact keeps_pure _
  | cons addr rest ih =>
    apply keeps_bind
    · exact silent_in_world (silent_send channel (by simp)) sent
    · exact fun _ => ih

theorem send_out_ended {bytes : Bytes} {addr : SocketAddr} {s s' : Shared} {taken : Bool}
    (ended : (sendOut bytes addr : Action Shared ε Bool) s = (.ok taken, s')) :
    datagrams s'.world = datagrams s.world ++ (if taken then [(bytes, addr)] else []) := by
  obtain ⟨value, state⟩ := Prod.mk.inj ended
  rw [← state, ← Outcome.ok.inj value]
  change datagrams { s.world with
      accepts := _
      log := if s.world.accepts 0 then s.world.log ++ [(messageOut, Item.datagram bytes addr)]
        else s.world.log } = _
  unfold datagrams
  split
  · rw [filterMap_append]
    rfl
  · rw [append_nil]

end Messages

section Rounds
variable {ε : Type}

/-- A get_peers request of the lookup, sent to the address of the node. -/
def IsRequest (tableId : NodeId) (targetId : InfoHash) (message : Bytes × SocketAddr)
    (node : NodeHandle) : Prop :=
  message.2 = node.addr ∧ ∃ transId : TransactionID,
    message.1 = GetPeersRequest.encode ⟨transId.asRef, tableId, targetId⟩

/-- Requests to these nodes are all that was sent from the one state to the other. -/
def Asks (tableId : NodeId) (targetId : InfoHash) (asked : List NodeHandle) (s s' : Shared) : Prop :=
  ∃ messages, datagrams s'.world = datagrams s.world ++ messages ∧
    List.Forall₂ (IsRequest tableId targetId) messages asked

variable {tableId : NodeId} {targetId : InfoHash} {s s' s'' : Shared}

theorem asks_nobody (same : datagrams s'.world = datagrams s.world) :
    Asks tableId targetId [] s s' :=
  ⟨[], by rw [same, append_nil], .nil⟩

theorem asks_append {first second : List NodeHandle} (before : Asks tableId targetId first s s')
    (behind : Asks tableId targetId second s' s'') :
    Asks tableId targetId (first ++ second) s s'' := by
  obtain ⟨messages, sent, requests⟩ := before
  obtain ⟨messages', sent', requests'⟩ := behind
  refine ⟨messages ++ messages', ?_, rel_append requests requests'⟩
  rw [sent', sent, append_assoc]

theorem asks_silent {asked : List NodeHandle} (same : datagrams s'.world = datagrams s.world)
    (behind : Asks tableId targetId asked s' s'') : Asks tableId targetId asked s s'' :=
  asks_append (asks_nobody same) behind

theorem silent_asks {asked : List NodeHandle} (before : Asks tableId targetId asked s s')
    (same : datagrams s''.world = datagrams s'.world) : Asks tableId targetId asked s s'' := by
  have both := asks_append before (asks_nobody same)
  rwa [append_nil] at both

theorem request_sent (node : NodeHandle) {transId : TransactionID} {taken : Bool}
    (ended : (sendOut (GetPeersRequest.encode ⟨transId.asRef, tableId, targetId⟩) node.addr :
      Action Shared ε Bool) s = (.ok taken, s')) :
    Asks tableId targetId (if taken then [node] else []) s s' := by
  have sent := send_out_ended ended
  cases taken with
  | true => exact ⟨_, sent, .cons ⟨rfl, transId, rfl⟩ .nil⟩
  | false => exact ⟨[], sent, .nil⟩

theorem request_round_asks (nodes : List (NodeHandle × ShaHash)) :
    ∀ (sent : Nat) (l l' : TableLookup) (status : LookupStatus) (s s' : Shared),
      (TableLookup.requestRound nodes sent l : Action Shared ε _) s = (.ok (status, l'), s') →
      ∃ count idGenerator active requested,
        Asks l.tableId l.targetId ((nodes.map (·.1)).take count) s s' ∧
        l' = { l with
          idGenerator := idGenerator, activeLookups := active, requestedNodes := requested } ∧
        (∀ n, n ∈ l.requestedNodes ∨ n ∈ (nodes.map (·.1)).take count → n ∈ requested) ∧
        (nodes ≠ [] ∨ sent ≠ 0 ∧ l.activeLookups ≠ [] → active ≠ []) ∧
        (status = .searching → count = nodes.length) := by
  induction nodes with
  | nil =>
    intro sent l l' status s s' ended
    unfold TableLookup.requestRound at ended
    split at ended
    · rename_i none
      cases ended
      refine ⟨0, l.idGenerator, [], l.requestedNodes, asks_nobody rfl, rfl, by simp, ?_, by simp⟩
      simp [none]
    · cases ended
      exact ⟨0, l.idGenerator, l.activeLookups, l.requestedNodes, asks_nobody rfl, rfl, by simp,
        by simp, by simp⟩
  | cons entry rest ih =>
    intro sent l l' status s s' ended
    obtain ⟨node, distToBeat⟩ := entry
    obtain ⟨⟨transId, idGenerator⟩, s₁, generated, ended⟩ := bind_ok ended
    obtain ⟨timeout, s₂, scheduled, ended⟩ := bind_ok ended
    obtain ⟨taken, s₃, out, ended⟩ := bind_ok ended
    have quiet : datagrams s₂.world = datagrams s.world :=
      (silent_ended (silent_schedule_in _ _) scheduled).trans
        (silent_ended (silent_generate _) generated)
    have asked := asks_silent quiet (request_sent node out)
    cases taken with
    | true =>
      obtain ⟨_, s₄, noted, ended⟩ := bind_ok ended
      obtain ⟨count, idGenerator', active, requested, asks, same, recorded, busy, all⟩ :=
        ih _ _ _ _ _ _ ended
      refine ⟨count + 1, idGenerator', active, requested, ?_, same, ?_, ?_, ?_⟩
      · exact asks_append asked
          (asks_silent (silent_ended (silent_local_request _) noted) asks)
      · intro n member
        apply recorded
        rcases member with old | new
        · exact .inl (mem_insert_of_mem old)
        · rcases mem_cons.mp new with rfl | later
          · exact .inl mem_insert_self
          · exact .inr later
      · intro _
        exact busy (.inr ⟨Nat.succ_ne_zero _, cons_ne_nil _ _⟩)
      · intro searching
        rw [all searching]
        rfl
    | false =>
      cases ended
      refine ⟨0, idGenerator, _, l.requestedNodes, asked, rfl, by simp, ?_, by simp⟩
      exact fun _ => cons_ne_nil _ _

theorem endgame_round_asks (timeout : Timeout) (nodes : List Candidate) :
    ∀ (l l' : TableLookup) (sent : Bool) (nodes' : List Candidate) (s s' : Shared),
      (TableLookup.endgameRound timeout nodes l : Action Shared ε _) s =
        (.ok (sent, nodes', l'), s') →
      ∃ count idGenerator active,
        Asks l.tableId l.targetId ((unasked nodes).take count) s s' ∧
        l' = { l with idGenerator := idGenerator, activeLookups := active } := by
  induction nodes with
  | nil =>
    intro l l' sent nodes' s s' ended
    cases ended
    exact ⟨0, l.idGenerator, l.activeLookups, asks_nobody rfl, rfl⟩
  | cons c rest ih =>
    intro l l' sent nodes' s s' ended
    unfold TableLookup.endgameRound at ended
    split at ended
    · rename_i pinged
      obtain ⟨⟨sent', rest', l₁⟩, s₁, inner, ended⟩ := bind_ok ended
      cases ended
      obtain ⟨count, idGenerator, active, asks, same⟩ := ih _ _ _ _ _ _ inner
      refine ⟨count, idGenerator, active, ?_, same⟩
      rwa [show unasked (c :: rest) = unasked rest by simp [unasked, pinged]]
    · rename_i pinged
      have first : unasked (c :: rest) = c.node :: unasked rest := by
        simp [unasked, Bool.eq_false_iff.mpr pinged]
      rw [first]
      obtain ⟨⟨transId, idGenerator⟩, s₁, generated, ended⟩ := bind_ok ended
      obtain ⟨taken, s₂, out, ended⟩ := bind_ok ended
      have quiet := silent_ended (silent_generate _) generated
      have asked := asks_silent quiet (request_sent c.node out)
      cases taken with
      | true =>
        obtain ⟨_, s₃, noted, ended⟩ := bind_ok ended
        obtain ⟨⟨sent', rest', l₁⟩, s₄, inner, ended⟩ := bind_ok ended
        cases ended
        obtain ⟨count, idGenerator', active, asks, same⟩ := ih _ _ _ _ _ _ inner
        refine ⟨count + 1, idGenerator', active, ?_, same⟩
        exact asks_append asked (asks_silent (silent_ended (silent_local_request _) noted) asks)
      | false =>
        cases ended
        exact ⟨0, idGenerator, _, asked, rfl⟩

/-- Whom the endgame asks if it starts. -/
def endgamePlan (l : TableLookup) : List NodeHandle :=
  if l.activeLookups.isEmpty ∧ l.recvValues = false then unasked l.allSortedNodes else []

theorem check_endgame_asks {l l' : TableLookup} {status : LookupStatus}
    (ended : (l.checkEndgame : Action Shared ε _) s = (.ok (status, l'), s')) :
    (∃ count, Asks l.tableId l.targetId ((endgamePlan l).take count) s s') ∧
      (l' = l ∧ endgamePlan l = [] ∨ l'.inEndgame = true) ∧ l'.recvValues = l.recvValues ∧
      l'.tableId = l.tableId ∧ l'.targetId = l.targetId := by
  unfold TableLookup.checkEndgame at ended
  split at ended
  · rename_i idle
    obtain ⟨⟨transId, idGenerator⟩, s₁, generated, ended⟩ := bind_ok ended
    obtain ⟨timeout, s₂, scheduled, ended⟩ := bind_ok ended
    have quiet : datagrams s₂.world = datagrams s.world :=
      (silent_ended (silent_schedule_in _ _) scheduled).trans
        (silent_ended (silent_generate _) generated)
    dsimp only at ended
    split at ended
    · rename_i unanswered
      have plan : endgamePlan l = unasked l.allSortedNodes := if_pos ⟨idle, unanswered⟩
      obtain ⟨⟨sent, nodes, l₁⟩, s₃, round, ended⟩ := bind_ok ended
      obtain ⟨count, idGenerator', active, asks, same⟩ := endgame_round_asks _ _ _ _ _ _ _ _ round
      have answer : s' = s₃ ∧ l' = { l₁ with allSortedNodes := nodes } := by
        split at ended
        · cases ended
          exact ⟨rfl, rfl⟩
        · cases ended
          exact ⟨rfl, rfl⟩
      obtain ⟨rfl, rfl⟩ := answer
      rw [same, plan]
      exact ⟨⟨count, asks_silent quiet asks⟩, .inr rfl, rfl, rfl, rfl⟩
    · rename_i answered
      cases ended
      exact ⟨⟨0, asks_nobody quiet⟩, .inr rfl, rfl, rfl, rfl⟩
  · rename_i busy
    cases ended
    have plan : endgamePlan l = [] := if_neg fun both => busy both.1
    exact ⟨⟨0, asks_nobody rfl⟩, .inl ⟨rfl, plan⟩, rfl, rfl, rfl⟩

end Rounds

end DhtRounds
