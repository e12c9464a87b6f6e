import Bittorrent.Lib.Calls
import Bittorrent.Dht.Rounds

/-!
Whom a lookup asks. Two records say who was asked already: the set `requested_nodes`, which the
rounds look at, and the mark in `all_sorted_nodes`, which the endgame looks at. A node that is in
the list without its mark when it is picked for a round stays without it.
-/
namespace DhtAsking
open Rust Outcome Action UtilSha UtilTimer DhtNode DhtTable DhtPlacement DhtVisit DhtCompact
  DhtMessage DhtTransaction DhtWorker DhtLookup DhtCandidates DhtRounds

section Steps
open List

def handlesOf (info : CompactNodeInfo) : List NodeHandle :=
  match (info.toList : Outcome Unit (List (NodeId × SocketAddr))) with
  | .ok items => items.map fun item => ⟨item.1, item.2⟩
  | _ => []

def named : CompactInfoType → List NodeHandle
  | .nodes nodes => handlesOf nodes
  | .values _ => []
  | .both nodes _ => handlesOf nodes

def fresh (l : TableLookup) (info : CompactInfoType) : List NodeHandle :=
  (named info).filter fun node => node ∉ l.requestedNodes

def Closer (l : TableLookup) (distToBeat : ShaHash) (nodes : List NodeHandle) : Prop :=
  compare (distanceBeaten l.targetId distToBeat nodes) distToBeat = .lt

instance (l : TableLookup) (distToBeat : ShaHash) (nodes : List NodeHandle) :
    Decidable (Closer l distToBeat nodes) := inferInstanceAs (Decidable (_ = _))

inductive TookIn (l : TableLookup) (distToBeat : ShaHash) (nodes : List NodeHandle) :
    TableLookup × Option (List Slot) × ShaHash → Prop where
  | nothing : TookIn l distToBeat nodes (l, none, distToBeat)
  | stored (sorted : List Candidate)
      (inserted : (insertSortedNodes l.targetId (fun _ => false) nodes l.allSortedNodes :
        Outcome Unit _) = .ok sorted) :
      TookIn l distToBeat nodes ({ l with allSortedNodes := sorted }, none, distToBeat)
  | picked (sorted : List Candidate) (nextDist : ShaHash) (closer : Closer l distToBeat nodes)
      (nonempty : nodes ≠ [])
      (inserted : (insertSortedNodes l.targetId
        (fun node => (pickIterateNodes nodes l.targetId).any (·.1 = node)) nodes l.allSortedNodes :
        Outcome Unit _) = .ok sorted) :
      TookIn l distToBeat nodes ({ l with allSortedNodes := sorted },
        some (pickIterateNodes nodes l.targetId), nextDist)

variable {distToBeat : ShaHash} {l : TableLookup}
  {answer : TableLookup × Option (List Slot) × ShaHash}

theorem take_info_took {info : CompactNodeInfo}
    (took : (l.takeNodes distToBeat (some info) : Outcome Unit _) = .ok answer) :
    TookIn l distToBeat ((handlesOf info).filter fun node => node ∉ l.requestedNodes) answer := by
  obtain ⟨items, read, _, _⟩ := node_info_ok (ε := Unit) info
  have named : handlesOf info = items.map fun item => ⟨item.1, item.2⟩ := by
    unfold handlesOf
    rw [read]
  rw [named]
  unfold TableLookup.takeNodes at took
  dsimp only at took
  rw [read, ok_bind] at took
  generalize (items.map fun item => (⟨item.1, item.2⟩ : NodeHandle)).filter
    (fun node => node ∉ l.requestedNodes) = nodes at took ⊢
  split at took
  · rename_i some
    have notNil : nodes ≠ [] := fun none => some (by rw [none]; rfl)
    split at took
    · obtain ⟨sorted, inserted, took⟩ := bind_eq_ok.mp took
      cases took
      exact .stored sorted inserted
    · rename_i closer
      obtain ⟨sorted, inserted, took⟩ := bind_eq_ok.mp took
      cases took
      exact .picked sorted _ (not_not.mp closer) notNil inserted
  · cases took
    exact .nothing

theorem take_nodes_took {info : CompactInfoType}
    {parts : Option (List SocketAddr) × Option CompactNodeInfo}
    (read : (contactParts info : Outcome Unit _) = .ok parts)
    (took : (l.takeNodes distToBeat parts.2 : Outcome Unit _) = .ok answer) :
    TookIn l distToBeat (fresh l info) answer := by
  cases info with
  | nodes nodes =>
    cases read
    exact take_info_took took
  | values values =>
    obtain ⟨peers, _, read⟩ := bind_eq_ok.mp read
    cases read
    cases took
    exact .nothing
  | both nodes values =>
    obtain ⟨peers, _, read⟩ := bind_eq_ok.mp read
    cases read
    exact take_info_took took

/-- Whom the rounds go through once the nodes of a response are taken in. -/
def plannedBy (answer : TableLookup × Option (List Slot) × ShaHash) : List NodeHandle :=
  match answer.2.1 with
  | some slots => usedNodes slots
  | none => endgamePlan answer.1

/-- Nobody was asked twice, and whom a later round could ask was not asked yet. -/
structure Sound (l : TableLookup) (asked : List NodeHandle) : Prop where
  once : asked.Nodup
  recorded : l.inEndgame = false → ∀ n ∈ asked, n ∈ l.requestedNodes
  listed : l.inEndgame = false → l.recvValues = false →
    Listed l.targetId l.allSortedNodes ∧ ∀ n ∈ unasked l.allSortedNodes, n ∉ asked

/-- A round may ask the nodes in these slots. -/
structure Picks (l : TableLookup) (asked : List NodeHandle) (slots : List Slot) : Prop where
  nonempty : usedNodes slots ≠ []
  distinct : (usedNodes slots).Nodup
  new : ∀ n ∈ usedNodes slots, n ∉ asked
  marked : l.recvValues = false → ∀ n ∈ usedNodes slots, n ∉ unasked l.allSortedNodes

/-- Before the rounds that follow a response. -/
structure Poised (l : TableLookup) (slots : Option (List Slot)) (asked : List NodeHandle) : Prop where
  sound : Sound l asked
  started : l.inEndgame = false
  picks : ∀ s, slots = some s → Picks l asked s

variable {asked : List NodeHandle}

theorem append_take_nodup {plan : List NodeHandle} (once : asked.Nodup) (distinct : plan.Nodup)
    (new : ∀ n ∈ plan, n ∉ asked) (count : Nat) : (asked ++ plan.take count).Nodup := by
  refine nodup_append.mpr ⟨once, distinct.sublist (take_sublist _ _), ?_⟩
  intro n old m later same
  subst same
  exact new n (mem_of_mem_take later) old

variable {l' : TableLookup}

theorem endgame_sound (sound : Sound l asked) (started : l.inEndgame = false) (count : Nat)
    (moved : l' = l ∧ endgamePlan l = [] ∨ l'.inEndgame = true) :
    Sound l' (asked ++ (endgamePlan l).take count) := by
  rcases moved with ⟨rfl, nobody⟩ | ended
  · rw [nobody, take_nil, append_nil]
    exact sound
  · refine ⟨?_, fun phase => absurd ended (by simp [phase]), fun phase => absurd ended (by simp [phase])⟩
    unfold endgamePlan
    split
    · rename_i starts
      obtain ⟨listed, apart⟩ := sound.listed started starts.2
      exact append_take_nodup sound.once (unasked_nodup listed) apart count
    · rw [take_nil, append_nil]
      exact sound.once

/-- On the way from `l` to `l'` the plan was followed up to some point, and still nobody was asked
    twice. -/
def Advances (plan asked : List NodeHandle) (l l' : TableLookup) (s s' : Shared) : Prop :=
  ∃ count, Asks l.tableId l.targetId (plan.take count) s s' ∧ Sound l' (asked ++ plan.take count) ∧
    l'.tableId = l.tableId ∧ l'.targetId = l.targetId

variable {s s' : Shared}

theorem advances_nobody (quiet : datagrams s'.world = datagrams s.world)
    (sound : Sound l' asked) (table : l'.tableId = l.tableId) (target : l'.targetId = l.targetId) :
    Advances [] asked l l' s s' :=
  ⟨0, asks_nobody quiet, by simpa using sound, table, target⟩

/-- A round leaves the list alone and asks nodes that do not wait in it. -/
theorem round_sound {slots : List Slot} {count : Nat} (sound : Sound l asked)
    (picks : Picks l asked slots) (phase : l'.inEndgame = l.inEndgame) (target : l'.targetId = l.targetId)
    (values : l'.recvValues = l.recvValues) (nodes : l'.allSortedNodes = l.allSortedNodes)
    (recorded : ∀ n, n ∈ l.requestedNodes ∨ n ∈ (usedNodes slots).take count → n ∈ l'.requestedNodes) :
    Sound l' (asked ++ (usedNodes slots).take count) := by
  refine ⟨append_take_nodup sound.once picks.distinct picks.new count, ?_, ?_⟩
  · rw [phase]
    intro started n member
    apply recorded
    rcases mem_append.mp member with old | later
    · exact .inl (sound.recorded started n old)
    · exact .inr later
  · rw [phase, target, values, nodes]
    intro started unanswered
    obtain ⟨listed, apart⟩ := sound.listed started unanswered
    refine ⟨listed, ?_⟩
    intro n waiting member
    rcases mem_append.mp member with old | later
    · exact apart n waiting old
    · exact picks.marked unanswered n (mem_of_mem_take later) waiting

variable {status : LookupStatus}

theorem next_rounds_sound {slots : Option (List Slot)} {nextDist : ShaHash}
    (poised : Poised l slots asked)
    (ended : (l.nextRounds slots nextDist : Action Shared Unit _) s = (.ok (status, l'), s')) :
    Advances (plannedBy (l, slots, nextDist)) asked l l' s s' := by
  unfold TableLookup.nextRounds at ended
  rw [if_pos poised.started] at ended
  obtain ⟨⟨status₁, l₁⟩, s₁, round, rest⟩ := bind_ok ended
  change (if status₁ = .failed then pure (.failed, l₁) else l₁.checkEndgame) s₁ = _ at rest
  cases slots with
  | none =>
    cases round
    obtain ⟨⟨count, asks⟩, moved, _, ids⟩ := check_endgame_asks rest
    exact ⟨count, asks, endgame_sound poised.sound poised.started count moved, ids⟩
  | some slots =>
    have picks := poised.picks slots rfl
    obtain ⟨count, idGenerator, active, requested, asks, same, recorded, busy, _⟩ :=
      request_round_asks _ _ _ _ _ _ _ round
    rw [map_map] at asks recorded
    rw [show (Prod.fst ∘ fun node : NodeHandle => (node, nextDist)) = id from rfl, map_id]
      at asks recorded
    have sound : Sound l₁ (asked ++ (usedNodes slots).take count) := by
      subst same
      exact round_sound poised.sound picks rfl rfl rfl rfl recorded
    -- a request is pending now, so the endgame does not start
    have pending : l₁.activeLookups ≠ [] := by
      rw [same]
      apply busy
      left
      exact fun none => picks.nonempty (map_eq_nil_iff.mp none)
    have settled : l' = l₁ ∧ s' = s₁ := by
      split at rest
      · cases rest
        exact ⟨rfl, rfl⟩
      · unfold TableLookup.checkEndgame at rest
        rw [if_neg (by simpa using pending)] at rest
        cases rest
        exact ⟨rfl, rfl⟩
    obtain ⟨rfl, rfl⟩ := settled
    exact ⟨count, asks, sound, by rw [same], by rw [same]⟩

variable {nodes : List NodeHandle}

/-- The list with new nodes in it: still as it should be, and whoever waits in it waited before or
    is new and not about to be asked. -/
theorem inserted_listed {sorted : List Candidate} {pinged : NodeHandle → Bool}
    (sound : Sound l asked) (started : l.inEndgame = false) (unanswered : l.recvValues = false)
    (single : Single (handles l.allSortedNodes) nodes)
    (inserted : (insertSortedNodes l.targetId pinged nodes l.allSortedNodes : Outcome Unit _) =
      .ok sorted) :
    Listed l.targetId sorted ∧ ∀ n ∈ unasked sorted,
      n ∈ unasked l.allSortedNodes ∨ n ∈ nodes ∧ pinged n = false := by
  obtain ⟨listed, _⟩ := sound.listed started unanswered
  obtain ⟨sorted', same, listed', members⟩ :=
    insert_all_listed (ε := Unit) pinged nodes l.allSortedNodes listed single
  rw [inserted] at same
  cases same
  refine ⟨listed', ?_⟩
  intro n waiting
  obtain ⟨c, member, unmarked, rfl⟩ := unasked_mem.mp waiting
  rcases members c member with old | ⟨new, mark⟩
  · exact .inl (unasked_mem.mpr ⟨c, old, unmarked, rfl⟩)
  · exact .inr ⟨new, mark ▸ unmarked⟩

theorem inserted_sound {sorted : List Candidate} {pinged : NodeHandle → Bool}
    (sound : Sound l asked) (started : l.inEndgame = false) (new : ∀ n ∈ nodes, n ∉ asked)
    (single : l.recvValues = false → Single (handles l.allSortedNodes) nodes)
    (inserted : (insertSortedNodes l.targetId pinged nodes l.allSortedNodes : Outcome Unit _) =
      .ok sorted) : Sound { l with allSortedNodes := sorted } asked := by
  refine ⟨sound.once, sound.recorded, ?_⟩
  intro _ unanswered
  obtain ⟨listed, waiting⟩ :=
    inserted_listed sound started unanswered (single unanswered) inserted
  refine ⟨listed, ?_⟩
  intro n member
  rcases waiting n member with old | ⟨isNew, _⟩
  · exact (sound.listed started unanswered).2 n old
  · exact new n isNew

/-- The nodes of a response can be taken in without anybody being asked twice: a handle that comes
    again is the only one with its id, and the picked ones are distinct and none of them waits in
    the list. -/
structure Clean (l : TableLookup) (distToBeat : ShaHash) (nodes : List NodeHandle) : Prop where
  single : l.recvValues = false → Single (handles l.allSortedNodes) nodes
  distinct : Closer l distToBeat nodes → (usedNodes (pickIterateNodes nodes l.targetId)).Nodup
  marked : Closer l distToBeat nodes → l.recvValues = false →
    ∀ n ∈ usedNodes (pickIterateNodes nodes l.targetId), n ∉ unasked l.allSortedNodes

instance (l : TableLookup) (distToBeat : ShaHash) (nodes : List NodeHandle) :
    Decidable (Clean l distToBeat nodes) :=
  decidable_of_iff ((l.recvValues = false → Single (handles l.allSortedNodes) nodes) ∧
      (Closer l distToBeat nodes → (usedNodes (pickIterateNodes nodes l.targetId)).Nodup) ∧
      (Closer l distToBeat nodes → l.recvValues = false →
        ∀ n ∈ usedNodes (pickIterateNodes nodes l.targetId), n ∉ unasked l.allSortedNodes))
    ⟨fun parts => ⟨parts.1, parts.2.1, parts.2.2⟩,
      fun clean => ⟨clean.single, clean.distinct, clean.marked⟩⟩

theorem took_in_poised (took : TookIn l distToBeat nodes answer) (sound : Sound l asked)
    (started : l.inEndgame = false) (new : ∀ n ∈ nodes, n ∉ l.requestedNodes)
    (clean : Clean l distToBeat nodes) :
    Poised answer.1 answer.2.1 asked := by
  have unknown : ∀ n ∈ nodes, n ∉ asked := by
    intro n member old
    exact new n member (sound.recorded started n old)
  cases took with
  | nothing => exact ⟨sound, started, nofun⟩
  | stored sorted inserted =>
    exact ⟨inserted_sound sound started unknown clean.single inserted, started, nofun⟩
  | picked sorted nextDist closer nonempty inserted =>
    refine ⟨inserted_sound sound started unknown clean.single inserted, started, ?_⟩
    rintro _ ⟨⟩
    refine ⟨picked_nonempty l.targetId nonempty, clean.distinct closer,
      fun n member => unknown n (picked_subset l.targetId nodes member), ?_⟩
    intro unanswered n member waiting
    obtain ⟨_, before⟩ := inserted_listed sound started unanswered (clean.single unanswered) inserted
    rcases before n waiting with old | ⟨_, unmarked⟩
    · exact clean.marked closer unanswered n member old
    · rw [used_any member] at unmarked
      cases unmarked

inductive Event where
  | response (node : NodeHandle) (transId : TransactionID) (msg : GetPeersResponse)
  | timeout (transId : TransactionID)

def advance : Event → TableLookup → Action Shared Unit (LookupStatus × TableLookup)
  | .response node transId msg, l => l.recvResponse node transId msg
  | .timeout transId, l => l.recvTimeout transId

def settle (l : TableLookup) (transId : TransactionID) : TableLookup :=
  { l with activeLookups := AssocMap.remove transId l.activeLookups }

/-- The lookup with everything of a response noted but its nodes. -/
def noted (l : TableLookup) (node : NodeHandle) (transId : TransactionID) (msg : GetPeersResponse) :
    TableLookup :=
  ((settle l transId).storeToken node msg.token).noteValues msg.infoType

/-- The nodes that are asked in answer to an event, in order, as far as the rounds come. -/
def planned : Event → TableLookup → List NodeHandle
  | .response node transId msg, l =>
    match AssocMap.get transId l.activeLookups with
    | none => []
    | some (distToBeat, _) =>
      if l.inEndgame then []
      else
        match (do
            let parts ← contactParts msg.infoType
            (noted l node transId msg).takeNodes distToBeat parts.2 : Outcome Unit _) with
        | .ok answer => plannedBy answer
        | _ => []
  | .timeout transId, l =>
    match AssocMap.get transId l.activeLookups with
    | none => []
    | some _ => if l.inEndgame then [] else endgamePlan (settle l transId)

/-- A response to a pending request that comes before the endgame is clean. -/
def Clear : Event → TableLookup → Prop
  | .response _ transId msg, l =>
    match AssocMap.get transId l.activeLookups with
    | some (distToBeat, _) => l.inEndgame = false → Clean l distToBeat (fresh l msg.infoType)
    | none => True
  | .timeout _, _ => True

instance (event : Event) (l : TableLookup) : Decidable (Clear event l) :=
  match event with
  | .response _ transId msg =>
    match found : AssocMap.get transId l.activeLookups with
    | some (distToBeat, _) =>
      decidable_of_iff (l.inEndgame = false → Clean l distToBeat (fresh l msg.infoType))
        (by simp [Clear, found])
    | none => .isTrue (by simp [Clear, found])
  | .timeout _ => .isTrue trivial

theorem noted_eq (l : TableLookup) (node : NodeHandle) (transId : TransactionID) (msg : GetPeersResponse) :
    ∃ active tokens values, noted l node transId msg =
      { l with activeLookups := active, announceTokens := tokens, recvValues := values } ∧
      (values = false → l.recvValues = false) := by
  unfold noted
  cases msg.token <;> cases msg.infoType <;> exact ⟨_, _, _, rfl, by simp [settle]⟩

theorem took_in_phase (took : TookIn l distToBeat nodes answer) :
    answer.1.inEndgame = l.inEndgame ∧ answer.1.tableId = l.tableId ∧
      answer.1.targetId = l.targetId := by
  cases took <;> exact ⟨rfl, rfl, rfl⟩

theorem silent_pass_values (l : TableLookup) (values : Option (List SocketAddr)) :
    Silent (l.passValues values : Action Shared Unit Unit) := by
  intro sent
  unfold TableLookup.passValues
  split
  · split
    · exact silent_send_peers _ _ sent
    · exact keeps_pure _
  · exact keeps_pure _

variable {msg : GetPeersResponse} {node : NodeHandle} {transId : TransactionID}

theorem take_response_ended
    (ended : ((settle l transId).takeResponse node distToBeat msg : Action Shared Unit _) s =
      (.ok (status, l'), s')) :
    ∃ parts answer status₁ s₁,
      (contactParts msg.infoType : Outcome Unit _) = .ok parts ∧
      ((noted l node transId msg).takeNodes distToBeat parts.2 : Outcome Unit _) = .ok answer ∧
      (answer.1.nextRounds answer.2.1 answer.2.2 : Action Shared Unit _) s =
        (.ok (status₁, l'), s₁) ∧
      datagrams s'.world = datagrams s₁.world := by
  obtain ⟨⟨values, nodes⟩, s₁, readAt, rest⟩ := bind_ok ended
  obtain ⟨read, rfl⟩ := Prod.mk.inj readAt
  obtain ⟨⟨l₁, slots, nextDist⟩, s₂, tookAt, rest⟩ := bind_ok rest
  obtain ⟨took, rfl⟩ := Prod.mk.inj tookAt
  obtain ⟨⟨status₁, l₂⟩, s₃, rounds, rest⟩ := bind_ok rest
  change (if status₁ = LookupStatus.failed then pure (LookupStatus.failed, l₂)
    else do
      l₂.passValues values
      pure (l₂.currentLookupStatus, l₂)) s₃ = _ at rest
  have last : l' = l₂ ∧ datagrams s'.world = datagrams s₃.world := by
    split at rest
    · cases rest
      exact ⟨rfl, rfl⟩
    · obtain ⟨_, s₄, passed, rest⟩ := bind_ok rest
      cases rest
      exact ⟨rfl, silent_ended (silent_pass_values _ _) passed⟩
  obtain ⟨rfl, quiet⟩ := last
  exact ⟨(values, nodes), (l₁, slots, nextDist), status₁, s₃, read, took, rounds, quiet⟩

theorem take_response_sound {timeout : Timeout} (sound : Sound l asked)
    (found : AssocMap.get transId l.activeLookups = some (distToBeat, timeout))
    (clear : Clear (.response node transId msg) l)
    (ended : ((settle l transId).takeResponse node distToBeat msg : Action Shared Unit _) s =
      (.ok (status, l'), s')) :
    Advances (planned (.response node transId msg) l) asked l l' s s' := by
  obtain ⟨parts, answer, status₁, s₁, read, took, rounds, quiet⟩ := take_response_ended ended
  obtain ⟨active, tokens, values, same, still⟩ := noted_eq l node transId msg
  have tookIn := take_nodes_took read (same ▸ took)
  obtain ⟨phase, table, target⟩ := took_in_phase tookIn
  cases started : l.inEndgame with
  | true =>
    have finished : answer.1.inEndgame = true := phase.trans started
    have nobody : planned (.response node transId msg) l = [] := by
      simp [planned, found, started]
    unfold TableLookup.nextRounds at rounds
    rw [if_neg (by simp [finished])] at rounds
    cases rounds
    rw [nobody]
    refine advances_nobody quiet ⟨sound.once, fun early => ?_, fun early => ?_⟩ table target
    · simp [finished] at early
    · simp [finished] at early
  | false =>
    have plan : planned (.response node transId msg) l = plannedBy answer := by
      simp [planned, found, started, read, took]
    have new : ∀ n ∈ fresh l msg.infoType, n ∉ l.requestedNodes := by
      intro n member
      simpa using (mem_filter.mp member).2
    have clean : Clean l distToBeat (fresh l msg.infoType) := by
      unfold Clear at clear
      simp only [found] at clear
      exact clear started
    have poised := took_in_poised tookIn
      { sound with listed := fun early unanswered => sound.listed early (still unanswered) } started new
      { clean with
        single := fun unanswered => clean.single (still unanswered)
        marked := fun closer unanswered => clean.marked closer (still unanswered) }
    obtain ⟨count, asks, sound', sameTable, sameTarget⟩ := next_rounds_sound poised rounds
    rw [table] at asks sameTable
    rw [target] at asks sameTarget
    rw [plan]
    exact ⟨count, silent_asks asks quiet, sound', sameTable, sameTarget⟩

theorem recv_response_sound (sound : Sound l asked)
    (clear : Clear (.response node transId msg) l)
    (ended : (l.recvResponse node transId msg : Action Shared Unit _) s = (.ok (status, l'), s')) :
    Advances (planned (.response node transId msg) l) asked l l' s s' := by
  unfold TableLookup.recvResponse at ended
  cases found : AssocMap.get transId l.activeLookups with
  | none =>
    have nobody : planned (.response node transId msg) l = [] := by
      simp [planned, found]
    rw [found] at ended
    cases ended
    rw [nobody]
    exact advances_nobody rfl sound rfl rfl
  | some entry =>
    obtain ⟨distToBeat, timeout⟩ := entry
    rw [found] at ended
    change (if l.inEndgame = false then do
        cancel timeout
        (settle l transId).takeResponse node distToBeat msg
      else (settle l transId).takeResponse node distToBeat msg) s = _ at ended
    split at ended
    · obtain ⟨_, s₁, cancelled, rest⟩ := bind_ok ended
      obtain ⟨count, asks, after⟩ := take_response_sound sound found clear rest
      exact ⟨count, asks_silent (silent_ended (silent_cancel _) cancelled) asks, after⟩
    · exact take_response_sound sound found clear ended

theorem recv_timeout_sound (sound : Sound l asked)
    (ended : (l.recvTimeout transId : Action Shared Unit _) s = (.ok (status, l'), s')) :
    Advances (planned (.timeout transId) l) asked l l' s s' := by
  unfold TableLookup.recvTimeout at ended
  cases found : AssocMap.get transId l.activeLookups with
  | none =>
    have nobody : planned (.timeout transId) l = [] := by
      simp [planned, found]
    rw [found] at ended
    cases ended
    rw [nobody]
    exact advances_nobody rfl sound rfl rfl
  | some entry =>
    rw [found] at ended
    change (if l.inEndgame = false then do
        let answer ← (settle l transId).checkEndgame
        if answer.1 = LookupStatus.failed then pure (LookupStatus.failed, answer.2)
          else pure (answer.2.currentLookupStatus, answer.2)
      else pure ((settle l transId).currentLookupStatus, settle l transId)) s = _ at ended
    have settled : Sound (settle l transId) asked := { sound with }
    split at ended
    · rename_i started
      have plan : planned (.timeout transId) l = endgamePlan (settle l transId) := by
        simp [planned, found, started]
      obtain ⟨⟨status₁, l₁⟩, s₁, checked, rest⟩ := bind_ok ended
      have same : l' = l₁ ∧ s' = s₁ := by
        split at rest
        · cases rest
          exact ⟨rfl, rfl⟩
        · cases rest
          exact ⟨rfl, rfl⟩
      obtain ⟨rfl, rfl⟩ := same
      obtain ⟨⟨count, asks⟩, moved, _, ids⟩ := check_endgame_asks checked
      rw [plan]
      exact ⟨count, asks, endgame_sound settled started count moved, ids⟩
    · rename_i finished
      have nobody : planned (.timeout transId) l = [] := by
        simp [planned, found, Bool.eq_true_of_not_eq_false finished]
      cases ended
      rw [nobody]
      exact advances_nobody rfl settled rfl rfl

theorem advance_sound {event : Event} (sound : Sound l asked)
    (clear : Clear event l) (ended : advance event l s = (.ok (status, l'), s')) :
    Advances (planned event l) asked l l' s s' := by
  cases event with
  | response node transId msg => exact recv_response_sound sound clear ended
  | timeout transId => exact recv_timeout_sound sound ended

end Steps

section Creation

def initial (l : TableLookup) : List NodeHandle := (handles l.allSortedNodes).take initialPickNum

variable {o : Outside} {tableId : NodeId} {targetId : InfoHash} {idGenerator : MIDGenerator}
variable {willAnnounce : Bool} {tx : Option Channel} {s s' : Shared} {l l' : TableLookup}

theorem new_sound (ready : Ready o s)
    (created : (TableLookup.new tableId targetId idGenerator willAnnounce tx : Action Shared Unit _) s =
      (.ok (some l), s')) :
    Asks tableId targetId (initial l) s s' ∧ Sound l (initial l) ∧ l.tableId = tableId ∧
      l.targetId = targetId := by
  obtain ⟨nodes, s₁, walked, rest⟩ := bind_ok created
  have distinct : nodes.Nodup := (runs_ended
    (runs_closest_where (E := False) (has_status_timely _) targetId _) ready walked).1
  have quiet : datagrams s₁.world = datagrams s.world := by
    have silent : Silent (closestWhere (hasStatus .good) targetId maxBucketSize :
        Action Shared Unit (List NodeHandle)) := by
      intro sent
      exact keeps_bind keeps_get fun s => silent_timed _ sent
    exact silent_ended silent walked
  obtain ⟨sorted, s₂, insertedAt, rest⟩ := bind_ok rest
  obtain ⟨inserted, rfl⟩ := Prod.mk.inj insertedAt
  have empty : Listed targetId [] := ⟨.nil, by simp, by simp [handles]⟩
  obtain ⟨sorted', same, listed, _⟩ := insert_all_listed (ε := Unit) (fun _ => false) nodes []
    empty (single_distinct distinct)
  rw [inserted] at same
  cases same
  have picks := initial_picks sorted
  obtain ⟨marked, sameHandles, waiting⟩ := initial_marks listed
  generalize pickInitialNodes sorted = answer at rest picks marked sameHandles waiting
  obtain ⟨slots, marks⟩ := answer
  obtain ⟨⟨status, l₁⟩, s₃, round, rest⟩ := bind_ok rest
  obtain ⟨count, idGenerator', active, requested, asks, grown, recorded, _, all⟩ :=
    request_round_asks _ _ _ _ _ _ _ round
  have searching : status = .searching ∧ l = l₁ ∧ s' = s₃ := by
    dsimp only at rest
    split at rest
    · rename_i isSearching
      cases rest
      exact ⟨isSearching, rfl, rfl⟩
    · cases rest
  obtain ⟨isSearching, rfl, rfl⟩ := searching
  have everyone := all isSearching
  have order : ∀ nodes : List NodeHandle,
      (nodes.map fun node => (node, bitXor node.id targetId)).map (·.1) = nodes := by
    intro nodes
    rw [List.map_map]
    exact List.map_id _
  rw [everyone, order, List.length_map, picks, List.take_length] at asks recorded
  have first : initial l = (handles sorted).take initialPickNum := by
    unfold initial
    rw [grown, ← sameHandles]
  rw [first]
  refine ⟨asks_silent quiet asks, ⟨?_, ?_, ?_⟩, by rw [grown], by rw [grown]⟩
  · exact listed.distinct.sublist (List.take_sublist _ _)
  · intro _ n member
    rw [grown]
    exact recorded n (.inr member)
  · intro _ _
    rw [grown]
    exact ⟨marked, waiting⟩

end Creation

section Runs
open List
variable {o : Outside} {tableId : NodeId} {targetId : InfoHash} {idGenerator : MIDGenerator}
variable {willAnnounce : Bool} {tx : Option Channel} {s s' : Shared} {l l' : TableLookup}

abbrev Step := Visit Event TableLookup Shared LookupStatus

def newDatagrams (s s' : Shared) : List (Bytes × SocketAddr) :=
  (datagrams s'.world).drop (datagrams s.world).length

/-- Whom a call asked: as many of the planned nodes as there were datagrams. -/
def askedIn (step : Step) : List NodeHandle :=
  (planned step.asked step.on).take (newDatagrams step.met step.left).length

theorem asks_new {asked : List NodeHandle} (asks : Asks tableId targetId asked s s') :
    List.Forall₂ (IsRequest tableId targetId) (newDatagrams s s') asked := by
  obtain ⟨messages, sent, requests⟩ := asks
  unfold newDatagrams
  rwa [sent, drop_left]

theorem asked_in_take {step : Step} {count : Nat}
    (asks : Asks tableId targetId ((planned step.asked step.on).take count) step.met step.left) :
    askedIn step = (planned step.asked step.on).take count := by
  have size := (asks_new asks).length_eq
  unfold askedIn
  rw [size, length_take]
  rcases Nat.le_total count (planned step.asked step.on).length with inside | beyond
  · rw [Nat.min_eq_left inside]
  · rw [Nat.min_eq_right beyond, take_length, take_of_length_le beyond]

theorem history_sound {start : TableLookup} {first : List NodeHandle} {history : List Step}
    (sound : Sound start first) (calls : Calls advance start history l)
    (clear : ∀ step ∈ history, Clear step.asked step.on) :
    Sound l (first ++ history.flatMap askedIn) ∧
      (l.tableId = start.tableId ∧ l.targetId = start.targetId) ∧
      ∀ step ∈ history, List.Forall₂ (IsRequest start.tableId start.targetId)
        (newDatagrams step.met step.left) (askedIn step) := by
  refine calls_invariant
    (I := fun history (l : TableLookup) => (∀ step ∈ history, Clear step.asked step.on) →
      Sound l (first ++ history.flatMap askedIn) ∧
      (l.tableId = start.tableId ∧ l.targetId = start.targetId) ∧
      ∀ step ∈ history, List.Forall₂ (IsRequest start.tableId start.targetId)
        (newDatagrams step.met step.left) (askedIn step)) ?_ ?_ calls clear
  · intro _
    exact ⟨by simpa using sound, ⟨rfl, rfl⟩, by simp⟩
  · intro history step l' before returned clear
    obtain ⟨sound, ⟨table, target⟩, requests⟩ :=
      before fun step member => clear step (mem_append_left _ member)
    obtain ⟨count, asks, sound', table', target'⟩ :=
      advance_sound sound (clear step (by simp)) returned
    have same := asked_in_take asks
    rw [← same] at asks sound'
    rw [table] at asks table'
    rw [target] at asks target'
    refine ⟨?_, ⟨table', target'⟩, ?_⟩
    · rwa [flatMap_append, flatMap_singleton, ← append_assoc]
    · intro step' member
      rcases mem_append.mp member with old | new
      · exact requests step' old
      · rw [mem_singleton.mp new]
        exact asks_new asks

/-- In every run of a lookup in which the responses are clean, no node is asked twice. -/
theorem lookup_asks_once {history : List Step} (ready : Ready o s)
    (created : (TableLookup.new tableId targetId idGenerator willAnnounce tx : Action Shared Unit _) s =
      (.ok (some l), s'))
    (calls : Calls advance l history l') (clear : ∀ step ∈ history, Clear step.asked step.on) :
    (initial l ++ history.flatMap askedIn).Nodup ∧
      List.Forall₂ (IsRequest tableId targetId) (newDatagrams s s') (initial l) ∧
      ∀ step ∈ history, List.Forall₂ (IsRequest tableId targetId)
        (newDatagrams step.met step.left) (askedIn step) := by
  obtain ⟨asks, sound, rfl, rfl⟩ := new_sound ready created
  obtain ⟨sound', _, requests⟩ := history_sound sound calls clear
  exact ⟨sound'.once, asks_new asks, requests⟩

end Runs

section Run

def proceed : List Event → TableLookup → Shared → List Step × TableLookup
  | [], l, _ => ([], l)
  | event :: rest, l, s =>
    match advance event l s with
    | (.ok (status, l'), s') =>
      let (history, last) := proceed rest l' s'
      (⟨event, l, s, status, s'⟩ :: history, last)
    | _ => ([], l)

theorem proceed_calls (events : List Event) : ∀ (l : TableLookup) (s : Shared),
    Calls advance l (proceed events l s).1 (proceed events l s).2 := by
  induction events with
  | nil => exact fun l s => .none
  | cons event rest ih =>
    intro l s
    unfold proceed
    split
    · rename_i status l' s' ended
      have first : Calls advance l [⟨event, l, s, status, s'⟩] l' := calls_more .none rfl ended
      exact calls_append first (ih l' s')
    · exact .none

def handleOf (last : UInt8) : NodeHandle :=
  ⟨⟨(Vector.replicate shaHashLen 0).set 19 last⟩, .v4 10 0 0 last 6881⟩

def twoNodes : RoutingTable :=
  match (RoutingTable.new ⟨Vector.replicate shaHashLen 255⟩).addNodes
      [Node.responded (handleOf 1).id (handleOf 1).addr (some 0),
        Node.responded (handleOf 3).id (handleOf 3).addr (some 0)] (fixed 0) with
  | ((.ok t, _) : Outcome Unit RoutingTable × Clock) => t
  | _ => RoutingTable.new ⟨Vector.replicate shaHashLen 255⟩

theorem two_nodes_placed : Placed twoNodes := by
  obtain ⟨t, count, ended, placed, _⟩ := clocked_add_nodes
    (new_placed ⟨Vector.replicate shaHashLen 255⟩) [Node.responded (handleOf 1).id (handleOf 1).addr (some 0),
        Node.responded (handleOf 3).id (handleOf 3).addr (some 0)] (ε := Unit) (fixed 0)
  unfold twoNodes
  rw [ended]
  exact placed

def quietWorld : World Item := ⟨fixed 0, fun _ => 0, fun _ => 0, fun _ => true, []⟩

def shared : Shared := ⟨twoNodes, Timer.new, quietWorld⟩

theorem shared_ready : Ready (.after 0) shared :=
  ⟨two_nodes_placed, steady_fixed 0, fun stopped => stopped.elim, fun deaf => deaf.elim⟩

def generator : MIDGenerator := ⟨0, ⟨preallocLen, 1, List.range preallocLen⟩⟩

def create : Outcome Unit (Option TableLookup) × Shared :=
  TableLookup.new ⟨Vector.replicate shaHashLen 255⟩ ⟨Vector.replicate shaHashLen 0⟩ generator false none
    shared

def answerOf (transId : UInt64) (sender last : UInt8) : Event :=
  .response (handleOf sender) ⟨transId⟩ ⟨[], (handleOf sender).id, none,
    .nodes ⟨List.replicate 19 0 ++ [last, 10, 0, 0, last, 26, 225], by simp [bytesPerCompactNodeInfo]⟩⟩

/-- Node 1 names node 2, which waits, and node 3 names it again. -/
def namedTwice : List Event := [answerOf 1 1 2, answerOf 2 3 2, .timeout ⟨3⟩]

def summary (events : List Event) : Option (List NodeHandle × List SocketAddr × List Bool) :=
  match create with
  | (.ok (some l), s') =>
    let history := (proceed events l s').1
    some (initial l ++ history.flatMap askedIn,
      (newDatagrams shared s' ++ history.flatMap fun step => newDatagrams step.met step.left).map (·.2),
      history.map fun step => decide (Clear step.asked step.on))
  | _ => none

theorem summary_run {events : List Event} {asked : List NodeHandle} {addrs : List SocketAddr}
    {clear : List Bool} (seen : summary events = some (asked, addrs, clear)) :
    ∃ l l' s' history, create = (.ok (some l), s') ∧ Calls advance l history l' ∧
      initial l ++ history.flatMap askedIn = asked ∧
      (newDatagrams shared s' ++ history.flatMap fun step => newDatagrams step.met step.left).map
        (·.2) = addrs ∧
      (history.map fun step => decide (Clear step.asked step.on)) = clear := by
  unfold summary at seen
  split at seen
  · rename_i l s' created
    obtain ⟨same, rest⟩ := Prod.mk.inj (Option.some.inj seen)
    obtain ⟨same', same''⟩ := Prod.mk.inj rest
    exact ⟨l, _, s', _, created, proceed_calls events l s', same, same', same''⟩
  · cases seen

/-- Node 2 waits without a mark when it is picked for a round, and the endgame asks it again. -/
theorem node_asked_twice : ∃ l l' s' history, Ready (.after 0) shared ∧
    create = (.ok (some l), s') ∧ Calls advance l history l' ∧
    initial l ++ history.flatMap askedIn = [handleOf 1, handleOf 3, handleOf 2, handleOf 2] ∧
    (newDatagrams shared s' ++ history.flatMap fun step => newDatagrams step.met step.left).map
      (·.2) = [(handleOf 1).addr, (handleOf 3).addr, (handleOf 2).addr, (handleOf 2).addr] := by
  have seen : summary namedTwice =
      some ([handleOf 1, handleOf 3, handleOf 2, handleOf 2],
        [(handleOf 1).addr, (handleOf 3).addr, (handleOf 2).addr, (handleOf 2).addr],
        [true, false, true]) := by
    decide +kernel
  obtain ⟨l, l', s', history, created, calls, asked, addrs, _⟩ := summary_run seen
  exact ⟨l, l', s', history, shared_ready, created, calls, asked, addrs⟩

/-- Only node 3 names node 2. The timeouts of the others start the endgame. -/
def namedOnce : List Event := [answerOf 2 3 2, .timeout ⟨1⟩, .timeout ⟨3⟩]

theorem node_asked_once : ∃ l l' s' history, create = (.ok (some l), s') ∧
    Calls advance l history l' ∧ history.length = 3 ∧
    (initial l ++ history.flatMap askedIn).Nodup := by
  have seen : summary namedOnce =
      some ([handleOf 1, handleOf 3, handleOf 2],
        [(handleOf 1).addr, (handleOf 3).addr, (handleOf 2).addr], [true, true, true]) := by
    decide +kernel
  obtain ⟨l, l', s', history, created, calls, _, _, clear⟩ := summary_run seen
  have size : history.length = 3 := by simpa using congrArg List.length clear
  refine ⟨l, l', s', history, created, calls, size, ?_⟩
  have everyone : ∀ step ∈ history, Clear step.asked step.on := by
    intro step member
    have answer := List.mem_map_of_mem (f := fun step : Step => decide (Clear step.asked step.on)) member
    rw [clear] at answer
    simpa using answer
  exact (lookup_asks_once shared_ready created calls everyone).1

end Run

end DhtAsking
