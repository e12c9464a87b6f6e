import Bittorrent.Dht.Asking
import Bittorrent.Dht.Lifetime
import Bittorrent.Dht.Robust
import Bittorrent.Dht.Sparing

/-!
Who may announce. Only an announce_peer request adds to the storage, only with a token that the
store accepts for the sender, and a get_peers response is the only place where tokens come from.
-/
namespace DhtAuthorised
open Rust Action UtilSha UtilTimer BencodeValue BencodeDecode DhtNode DhtTable DhtMessage DhtStorage
  DhtToken DhtWorker DhtHandler DhtParsing DhtKrpc DhtRobust DhtSparing DhtLifetime DhtRounds
  DhtAsking

section Contacts
open List
variable {ν ε : Type}

def contacts (s : AnnounceStorage) : List ItemExpiration := s.expires ++ s.storage.flatMap (·.2)

section
variable {P : ItemExpiration → Prop} {s : AnnounceStorage}

theorem contacts_all : (∀ item ∈ contacts s, P item) ↔
    (∀ item ∈ s.expires, P item) ∧ ∀ entry ∈ s.storage, ∀ item ∈ entry.2, P item := by
  simp only [contacts, forall_mem_append, forall_mem_flatMap]

theorem drop_item_all {storage : List (InfoHash × List ItemExpiration)}
    (all : ∀ entry ∈ storage, ∀ item ∈ entry.2, P item) (expired : ItemExpiration) :
    ∀ entry ∈ AnnounceStorage.dropItem storage expired, ∀ item ∈ entry.2, P item := by
  intro entry member
  unfold AnnounceStorage.dropItem at member
  split at member
  · rename_i items found
    dsimp only at member
    split at member
    · exact all entry (AssocMap.mem_remove member)
    · rcases AssocMap.mem_insert member with rfl | old
      · exact fun item inside => all _ (AssocMap.mem_of_get found) item (mem_of_mem_filter inside)
      · exact all entry old
  · exact all entry member

theorem remove_expired_all (all : ∀ item ∈ contacts s, P item) (now : Int) :
    ∀ item ∈ contacts (s.removeExpiredItems now), P item := by
  obtain ⟨listed, stored⟩ := contacts_all.mp all
  refine contacts_all.mpr ⟨fun item member => listed item (mem_of_mem_drop member), ?_⟩
  exact List.foldlRecOn (motive := fun storage : List (InfoHash × List ItemExpiration) =>
    ∀ entry ∈ storage, ∀ item ∈ entry.2, P item) _ _ stored fun _ held expired _ => drop_item_all held expired

theorem insert_contact_all (all : ∀ item ∈ contacts s, P item) {item : ItemExpiration} (new : P item) :
    ∀ other ∈ contacts (s.insertContact item).2, P other := by
  unfold AnnounceStorage.insertContact
  dsimp only
  split
  · exact all
  · split
    · obtain ⟨listed, stored⟩ := contacts_all.mp all
      refine contacts_all.mpr ⟨listed, fun entry member => ?_⟩
      rcases AssocMap.mem_insert member with rfl | old
      · refine forall_mem_append.mpr ⟨?_, forall_mem_singleton.mpr new⟩
        cases found : AssocMap.get item.infoHash s.storage with
        | none => exact nofun
        | some items => exact stored _ (AssocMap.mem_of_get found)
      · exact stored entry old
    · exact all

theorem add_all {s' : AnnounceStorage} {infoHash : InfoHash} {address : SocketAddr} {w w' : World ν}
    {added : Bool} (all : ∀ item ∈ contacts s, P item) (new : ∀ time, P ⟨address, time, infoHash⟩)
    (ended : (s.addItem infoHash address : Action (World ν) ε _) w = (.ok (added, s'), w')) :
    ∀ item ∈ contacts s', P item := by
  obtain ⟨now, w₁, _, ended⟩ := bind_ok ended
  obtain ⟨inserted, w₂, _, ended⟩ := bind_ok ended
  have grown := insert_contact_all (remove_expired_all all now) (new inserted)
  rcases result : (s.removeExpiredItems now).insertContact ⟨address, inserted, infoHash⟩ with ⟨answer, s₁⟩
  dsimp only at ended
  rw [result] at ended grown
  obtain ⟨listed, stored⟩ := contacts_all.mp grown
  have dated : ∀ kept : List ItemExpiration, kept ⊆ s₁.expires →
      ∀ item ∈ contacts { s₁ with expires := kept ++ [⟨address, inserted, infoHash⟩] }, P item :=
    fun kept sub => contacts_all.mpr ⟨forall_mem_append.mpr
      ⟨fun item member => listed item (sub member), forall_mem_singleton.mpr (new inserted)⟩, stored⟩
  match answer, ended with
  | some true, ended =>
    cases ended
    exact dated _ fun item member => mem_of_mem_filter member
  | some false, ended =>
    cases ended
    exact dated _ (List.Subset.refl _)
  | none, ended =>
    cases ended
    exact grown

end

end Contacts

section Requests
variable {ε α β : Type} {sha : Bytes → ShaHash} {known : List ItemExpiration}
  {I : AnnounceStorage → TokenStore → Prop}

theorem on_part_run (run : Handler → Action (World Item) ε (α × β)) (put : β → Handler → Handler)
    (h : Handler) {a : α} {part : β} {w : World Item}
    (ended : run h h.shared.world = (.ok (a, part), w)) :
    onPart run put h = (.ok a, put part { h with shared := { h.shared with world := w } }) := by
  unfold onPart
  rw [get_bind]
  have inner : outside (run h) h =
      (.ok (a, part), { h with shared := { h.shared with world := w } }) := by
    unfold outside onShared inWorld Action.zoom
    rw [ended]
  rw [bind_run inner]
  rfl

/-- The token that was presented is a hash of the address with one of the secrets. -/
def Accepted (sha : Bytes → ShaHash) (addr : SocketAddr) (token : Bytes) (s : TokenStore) : Prop :=
  (generateTokenFromAddr sha addr.ip s.currSecret).asRef = token ∨
    (generateTokenFromAddr sha addr.ip s.lastSecret).asRef = token

theorem token_new_bytes {bytes : Bytes} {token : Token} (read : Token.new bytes = some token) :
    token.asRef = bytes := by
  unfold Token.new fromHash at read
  split at read
  · cases read
    simp [ShaHash.asRef]
  · cases read

theorem checkin_accepts (addr : SocketAddr) (token : Bytes) :
    Triple (fun h : Handler => contacts h.activeStores ⊆ known)
      (checkin sha addr token : Action Handler ε Bool)
      fun o h => contacts h.activeStores ⊆ known ∧
        (o = .ok true → Accepted sha addr token h.tokenStore) := by
  intro h before
  cases read : Token.new token with
  | none =>
    have refused : (checkin sha addr token : Action Handler ε Bool) = pure false := by
      unfold checkin
      rw [read]
    rw [refused]
    refine ⟨before, ?_⟩
    intro same
    cases same
  | some token' =>
    obtain ⟨w, run⟩ := checkin_run (ε := ε) sha h.tokenStore addr.ip token' h.shared.world
    have ended : (checkin sha addr token : Action Handler ε Bool) h =
        (.ok (validateTokenFromAddr sha addr.ip token'
            (refreshed h.tokenStore h.shared.world).currSecret
            (refreshed h.tokenStore h.shared.world).lastSecret),
          { h with
            shared := { h.shared with world := w }
            tokenStore := refreshed h.tokenStore h.shared.world }) := by
      unfold checkin
      rw [read]
      exact on_part_run (fun h => h.tokenStore.checkin sha addr.ip token') _ h run
    rw [ended]
    refine ⟨before, ?_⟩
    intro same
    have valid := Outcome.ok.inj same
    rw [← token_new_bytes read]
    rcases of_decide_eq_true valid with curr | last
    · exact .inl (congrArg ShaHash.asRef curr)
    · exact .inr (congrArg ShaHash.asRef last)

/-- What an announce_peer request can do to the storage: nothing, or it was accepted and put the
    address of its sender there. -/
def Announces (sha : Bytes → ShaHash) (known : List ItemExpiration) (a : AnnouncePeerRequest)
    (addr : SocketAddr) (s : AnnounceStorage) (t : TokenStore) : Prop :=
  contacts s ⊆ known ∨
    Accepted sha addr a.token t ∧ ∀ item ∈ contacts s, item ∈ known ∨
      (item.address = connectAddr addr a.port ∧ item.infoHash = a.infoHash)

theorem announce_peer_adds (a : AnnouncePeerRequest) (addr : SocketAddr) :
    Triple (fun h : Handler => contacts h.activeStores ⊆ known)
      (handleAnnouncePeer sha a addr : Action Handler ε Unit)
      fun _ h => Announces sha known a addr h.activeStores h.tokenStore := by
  have answered : ∀ response, Spares ε (Announces sha known a addr)
      (respond response addr) :=
    fun response => spares_respond response addr
  apply triple_then (spares_note_request (I := fun s _ => contacts s ⊆ known) a.nodeId addr)
  · intro _
    refine triple_bind (checkin_accepts addr a.token) ?_ ?_ ?_ ?_
    · intro valid
      apply triple_ite
      · intro isValid
        -- the item goes in while the secrets that accepted it are still there
        apply triple_then
          (J := fun h => Announces sha known a addr h.activeStores h.tokenStore)
        · rintro h ⟨before, accepted⟩
          obtain ⟨added, s', w, run⟩ := AnnounceStorage.add_returns (ε := ε) h.activeStores a.infoHash
            (connectAddr addr a.port) h.shared.world
          have ended : (addItem a.infoHash (connectAddr addr a.port) : Action Handler ε Bool) h =
              (.ok added, { h with
                shared := { h.shared with world := w }, activeStores := s' }) :=
            on_part_run (fun h => h.activeStores.addItem a.infoHash (connectAddr addr a.port)) _ h run
          rw [ended]
          refine .inr ⟨accepted (by rw [isValid]), ?_⟩
          exact add_all (fun item old => .inl (before old)) (fun _ => .inr ⟨rfl, rfl⟩) run
        · intro added
          apply triple_ite
          · intro _
            exact keeps_bind spares_own_id fun id => answered _
          · exact fun _ => answered _
        · exact fun _ holds => holds
      · intro _
        refine triple_weaken (answered _) ?_ ?_
        · exact fun h holds => .inl holds.1
        · exact fun _ _ holds => holds
    · exact fun _ _ holds => .inl holds.1
    · exact fun _ holds => .inl holds.1
    · exact fun _ holds => .inl holds.1
  · exact fun _ holds => .inl holds

theorem ping_adds_nothing (p : PingRequest) (addr : SocketAddr) :
    Spares ε I (handlePing p addr) := by
  apply keeps_bind (spares_note_request _ _)
  intro _
  apply keeps_bind spares_own_id
  intro id
  exact spares_respond _ _

theorem find_node_adds_nothing (f : FindNodeRequest) (addr : SocketAddr) :
    Spares ε I (handleFindNode f addr) := by
  apply keeps_bind (spares_note_request _ _)
  intro _
  apply keeps_bind (spares_on_shared _)
  intro closest
  apply keeps_bind spares_own_id
  intro id
  apply keeps_bind (keeps_lift _)
  intro response
  exact spares_respond _ _

end Requests

section Answers
variable {ε α : Type} {sha : Bytes → ShaHash} {known : List ItemExpiration}
  {sent : List (Bytes × SocketAddr)}

/-- The contacts are known ones, and these datagrams were sent. -/
def Sofar (known : List ItemExpiration) (sent : List (Bytes × SocketAddr)) (h : Handler) : Prop :=
  contacts h.activeStores ⊆ known ∧ datagrams h.shared.world = sent

theorem silent_shared {m : Action Shared ε α} (silent : Silent m) :
    Keeps (Sofar known sent) (onShared m) :=
  fun h holds => ⟨holds.1, silent sent h.shared holds.2⟩

theorem silent_retain_sending (event : DhtEvent) (sent : List (Bytes × SocketAddr))
    (channels : List Channel) : Keeps (fun w => datagrams w = sent)
      (retainSending (.event event) channels : Action (World Item) ε (List Channel)) := by
  induction channels with
  | nil => exact keeps_pure _
  | cons channel rest ih =>
    apply keeps_bind (silent_send channel (by simp) sent)
    intro taken
    apply keeps_bind ih
    exact fun kept => keeps_pure _

theorem silent_shutdown (cause : ShutdownCause) :
    Keeps (Sofar known sent) (handleCommandShutdown cause : Action Handler ε Unit) := by
  have answered : ∀ channel, Keeps (Sofar known sent)
      (sendOrPanic (.status false) channel : Action Handler ε Unit) := by
    intro channel
    apply keeps_bind (silent_shared (silent_in_world (silent_send channel (by simp))))
    intro taken
    exact keeps_ite (fun _ => keeps_pure _) fun _ => keeps_abort
  apply keeps_bind
  · apply keeps_bind keeps_get
    intro h
    apply keeps_bind (keeps_for_each answered _)
    exact fun _ _ holds => holds
  · intro _
    apply keeps_bind
    · apply keeps_bind keeps_get
      intro h
      apply keeps_bind
        (silent_shared (silent_in_world fun sent => silent_retain_sending _ sent _))
      exact fun kept _ holds => holds
    · exact fun _ _ holds => holds

theorem silent_closest_nodes_bytes (target : NodeId) :
    Silent (closestNodesBytes target : Action Shared ε Bytes) := by
  intro sent
  apply keeps_bind
  · exact keeps_bind keeps_get fun s => silent_timed _ sent
  · exact fun nodes => keeps_lift _

theorem find_items_silent (infoHash : InfoHash) :
    Keeps (Sofar known sent) (findItems infoHash : Action Handler ε (List SocketAddr)) := by
  rintro h ⟨before, silent⟩
  have run : (h.activeStores.findItems infoHash : Action (World Item) ε _) h.shared.world =
      (.ok (h.activeStores.find infoHash (h.shared.world.utc 0)), _) := rfl
  have ended := on_part_run (fun h => h.activeStores.findItems infoHash)
    (fun activeStores h => { h with activeStores := activeStores }) h run
  unfold findItems
  rw [ended]
  exact ⟨remove_expired_all before _, silent⟩

theorem respond_sends (response : Bytes) (addr : SocketAddr) :
    Triple (Sofar known sent) (respond response addr : Action Handler ε Unit)
      fun _ h => Sofar known sent h ∨ Sofar known (sent ++ [(response, addr)]) h := by
  apply triple_then
    (J := fun h : Handler => Sofar known sent h ∨ Sofar known (sent ++ [(response, addr)]) h)
  · rintro h ⟨before, silent⟩
    have grown := send_out_ended (ε := ε)
      (show sendOut response addr h.shared = (.ok (h.shared.world.accepts 0), _) from rfl)
    rw [silent] at grown
    cases taken : h.shared.world.accepts 0 with
    | false =>
      rw [taken] at grown
      exact .inl ⟨before, grown.trans (List.append_nil _)⟩
    | true =>
      rw [taken] at grown
      exact .inr ⟨before, grown⟩
  · intro taken
    apply keeps_ite
    · exact fun _ => keeps_pure _
    · exact fun _ h holds => holds.imp (silent_shutdown _ h) (silent_shutdown _ h)
  · exact fun _ holds => holds

/-- What a get_peers request can make the handler send: nothing, or a response with a token made
    for the sender. -/
def Answers (sha : Bytes → ShaHash) (g : GetPeersRequest) (addr : SocketAddr)
    (known : List ItemExpiration) (sent : List (Bytes × SocketAddr)) (h : Handler) : Prop :=
  Sofar known sent h ∨ ∃ (secret : UInt32) (id : NodeId) (info : CompactInfoType),
    Sofar known (sent ++ [(GetPeersResponse.encode
      ⟨g.transId, id, some (generateTokenFromAddr sha addr.ip secret).asRef, info⟩, addr)]) h

theorem get_peers_answers (g : GetPeersRequest) (addr : SocketAddr) :
    Triple (Sofar known sent) (handleGetPeers sha g addr : Action Handler ε Unit)
      fun _ h => Answers sha g addr known sent h := by
  have stopped : ∀ h : Handler, Sofar known sent h → Answers sha g addr known sent h :=
    fun _ holds => .inl holds
  have noted : Keeps (Sofar known sent) (noteRequest g.nodeId addr : Action Handler ε Unit) :=
    keeps_bind (silent_shared (silent_timed _)) fun node => silent_shared (silent_on_table _)
  refine triple_then noted (fun _ => ?_) stopped
  refine triple_then (find_items_silent _) (fun items => ?_) stopped
  refine triple_then (keeps_lift _) (fun chunks => ?_) stopped
  refine triple_then (silent_shared (silent_closest_nodes_bytes _)) (fun closest => ?_) stopped
  rintro h ⟨before, silent⟩
  obtain ⟨w, run, log⟩ := refresh_check_run (ε := ε) h.tokenStore h.shared.world
  have ended := on_part_run (fun h => h.tokenStore.checkout sha addr.ip)
    (fun tokenStore h => { h with tokenStore := tokenStore }) h (bind_run run)
  have quiet : datagrams w = sent := by
    rw [← silent]
    unfold datagrams
    rw [log]
  unfold checkout
  rw [bind_run ended]
  generalize (refreshed h.tokenStore h.shared.world).currSecret = secret
  refine triple_then (keeps_lift _) (fun infoType => ?_) stopped _ ⟨before, quiet⟩
  refine triple_then (keeps_bind keeps_get fun _ => keeps_pure _)
    (fun id => ?_) stopped
  refine triple_weaken (respond_sends _ addr) (fun _ holds => holds) ?_
  rintro o h' (nothing | sentOne)
  · exact .inl nothing
  · exact .inr ⟨secret, id, infoType, sentOne⟩

end Answers

section Run

/-- What the loop of the handler waits for. A timeout comes out of the timer, which is then as the
    poll left it. -/
inductive Input where
  | command (task : OneshotTask)
  | closed
  | datagram (buffer : Bytes) (addr : SocketAddr)
  | timeout (task : ScheduledTask) (timer : Timer ScheduledTask)

def serve (sha : Bytes → ShaHash) : Input → Action Handler Unit Unit
  | .command task => handleCommand task
  | .closed => shutdown
  | .datagram buffer addr => handleIncoming sha buffer addr
  | .timeout task timer => do
    Action.modify fun h => { h with shared := { h.shared with timer := timer } }
    handleTimeout task

structure Turn where
  input : Input
  before : Handler
  after : Handler

/-- A run, turn by turn. A handler that panicked is met again as it was left, so that nothing is
    said about how a turn ends. -/
def turns (sha : Bytes → ShaHash) : Handler → List Input → List Turn
  | _, [] => []
  | h, input :: rest => ⟨input, h, (serve sha input h).2⟩ :: turns sha (serve sha input h).2 rest

theorem turns_served {sha : Bytes → ShaHash} {inputs : List Input} :
    ∀ {start : Handler}, ∀ turn ∈ turns sha start inputs,
      turn.input ∈ inputs ∧ turn.after = (serve sha turn.input turn.before).2 := by
  induction inputs with
  | nil => exact fun turn member => absurd member (List.not_mem_nil)
  | cons input rest ih =>
    intro start turn member
    rcases List.mem_cons.mp member with rfl | later
    · exact ⟨.head _, rfl⟩
    · obtain ⟨among, served⟩ := ih turn later
      exact ⟨.tail _ among, served⟩

def Reads (buffer : Bytes) (message : MessageType) : Prop :=
  ∃ r, BencodeRef.decode buffer .default = .ok r ∧ MessageType.new r.kind = .ok message

variable {buffer : Bytes}

theorem reads_unique {message message' : MessageType} (first : Reads buffer message)
    (second : Reads buffer message') : message = message' := by
  obtain ⟨r, decoded, read⟩ := first
  obtain ⟨r', decoded', read'⟩ := second
  rw [decoded] at decoded'
  cases decoded'
  rw [read] at read'
  exact Outcome.ok.inj read'

def Adds (turn : Turn) (item : ItemExpiration) : Prop :=
  item ∈ contacts turn.after.activeStores ∧ item ∉ contacts turn.before.activeStores

/-- In this turn a get_peers request from the address was answered with the token. -/
def Issues (turn : Turn) (addr : SocketAddr) (token : Bytes) : Prop :=
  ∃ buffer g, turn.input = .datagram buffer addr ∧ Reads buffer (.request (.getPeers g)) ∧
    ∃ bytes response, (bytes, addr) ∈ newDatagrams turn.before.shared turn.after.shared ∧
      bytes.length ≤ isizeMax ∧ Reads bytes (.response (.getPeers response)) ∧
      response.token = some token

def sources (inputs : List Input) : List SocketAddr :=
  inputs.filterMap fun
    | .datagram _ addr => some addr
    | _ => none

/-- No collision among what the addresses give with any secrets. -/
def Apart (sha : Bytes → ShaHash) (addrs : List SocketAddr) : Prop :=
  ∀ a ∈ addrs, ∀ b ∈ addrs, ∀ s t : UInt32,
    generateTokenFromAddr sha a.ip s = generateTokenFromAddr sha b.ip t →
      a.ip.octets ++ fourBytesToArray s = b.ip.octets ++ fourBytesToArray t

/-- What an announcing sender presents is a token given out in an earlier turn, to whomever, or no
    hash of a secret the store has. -/
def Honest (sha : Bytes → ShaHash) (earlier : List Turn) (turn : Turn) : Prop :=
  ∀ buffer addr a, turn.input = .datagram buffer addr → Reads buffer (.request (.announcePeer a)) →
    (∃ issue ∈ earlier, ∃ addr', Issues issue addr' a.token) ∨
      ∀ ip : IpAddr, (generateTokenFromAddr sha ip turn.after.tokenStore.currSecret).asRef ≠ a.token ∧
        (generateTokenFromAddr sha ip turn.after.tokenStore.lastSecret).asRef ≠ a.token

variable {sha : Bytes → ShaHash}

theorem octets_injective : Function.Injective IpAddr.octets := by
  intro first second same
  cases first with
  | v4 a b c d =>
    cases second with
    | v4 a' b' c' d' => simpa [IpAddr.octets] using same
    | v6 ip => simpa [IpAddr.octets] using congrArg List.length same
  | v6 ip =>
    cases second with
    | v4 a b c d => simpa [IpAddr.octets] using congrArg List.length same
    | v6 ip' =>
      have equal : ip = ip' := Vector.toList_inj.mp same
      rw [equal]

theorem connect_addr_ip (addr : SocketAddr) (port : ConnectPort) :
    (connectAddr addr port).ip = addr.ip := by
  cases port with
  | implied => rfl
  | explicit port => cases addr <;> rfl

/-- The octets can be read back from what is hashed: the secret always takes four bytes. -/
theorem hashed_ip {a b : IpAddr} {s t : UInt32}
    (same : a.octets ++ fourBytesToArray s = b.octets ++ fourBytesToArray t) : a = b :=
  octets_injective (List.append_inj_left' same rfl)

theorem datagram_source {inputs : List Input} {addr : SocketAddr}
    (member : Input.datagram buffer addr ∈ inputs) : addr ∈ sources inputs :=
  List.mem_filterMap.mpr ⟨_, member, rfl⟩

/-- A token that was given out is a hash of the address it was sent to. -/
theorem issued_made {turn : Turn} (served : turn.after = (serve sha turn.input turn.before).2)
    {addr : SocketAddr} {token : Bytes} (issues : Issues turn addr token) :
    ∃ secret, token = (generateTokenFromAddr sha addr.ip secret).asRef := by
  obtain ⟨buffer, g, given, ⟨r, decoded, read⟩, bytes, response, new, fits, reads, named⟩ := issues
  rw [given] at served
  change turn.after = (handleIncoming sha buffer addr turn.before).2 at served
  rw [handle_incoming_message sha decoded read] at served
  have answered : Answers sha g addr (contacts turn.before.activeStores)
      (datagrams turn.before.shared.world) turn.after := by
    have start : Sofar _ _ turn.before := ⟨List.Subset.refl _, rfl⟩
    rw [served]
    split
    · exact get_peers_answers g addr turn.before start
    · exact .inl start
  unfold newDatagrams at new
  rcases answered with ⟨_, nothing⟩ | ⟨secret, id, info, _, sentOne⟩
  · rw [nothing, List.drop_length] at new
    cases new
  · rw [sentOne, List.drop_left, List.mem_singleton] at new
    obtain ⟨rfl, _⟩ := Prod.mk.inj new
    refine ⟨secret, ?_⟩
    have written := message_arrives (.response (.getPeers
      ⟨g.transId, id, some (generateTokenFromAddr sha addr.ip secret).asRef, info⟩)) fits rfl
    have same := reads_unique reads written
    cases same
    exact (Option.some.inj named).symm

theorem incoming_unread (unread : ∀ message, ¬ Reads buffer message) (addr : SocketAddr)
    (h : Handler) : (handleIncoming sha buffer addr h : Outcome Unit Unit × Handler).2 = h := by
  unfold handleIncoming
  cases decoded : BencodeRef.decode buffer .default with
  | err e => rfl
  | panic => rfl
  | unfinished => rfl
  | ok r =>
    rcases message_settled r.kind with ⟨message, read⟩ | ⟨e, read⟩
    · exact absurd ⟨r, decoded, read⟩ (unread message)
    · dsimp only
      rw [read]
      rfl

/-- Only an announce_peer request adds a contact: the address of its sender, with a token that the
    store accepts for it. -/
theorem added_accepted {turn : Turn} (served : turn.after = (serve sha turn.input turn.before).2)
    {item : ItemExpiration} (adds : Adds turn item) :
    ∃ buffer addr a, turn.input = .datagram buffer addr ∧
      Reads buffer (.request (.announcePeer a)) ∧ item.address = connectAddr addr a.port ∧
      Accepted sha addr a.token turn.after.tokenStore := by
  obtain ⟨input, before, after⟩ := turn
  dsimp only at served
  subst served
  obtain ⟨member, absent⟩ := adds
  have spared : ∀ m : Action Handler Unit Unit, (∀ I, Spares Unit I m) →
      item ∉ contacts (m before).2.activeStores :=
    fun m spares added => absent
      (spares (fun s _ => contacts s ⊆ contacts before.activeStores) before (List.Subset.refl _) added)
  cases input with
  | command task => exact absurd member (spared _ fun _ => spares_command task)
  | closed => exact absurd member absent
  | timeout task timer =>
    refine absurd member (spared _ fun _ => keeps_bind (fun _ holds => holds) fun _ => ?_)
    exact spares_timeout task
  | datagram buffer addr =>
    by_cases readable : ∃ message, Reads buffer message
    · obtain ⟨message, r, decoded, read⟩ := readable
      have reads : Reads buffer message := ⟨r, decoded, read⟩
      have handled : serve sha (.datagram buffer addr) before = _ :=
        handle_incoming_message sha decoded read addr before
      rw [handled] at member ⊢
      split at member
      next passes =>
        rw [if_pos passes]
        cases message with
        | error e => exact absurd member absent
        | response response => exact absurd member (spared _ fun _ => spares_response response addr)
        | request request =>
          cases request with
          | ping p => exact absurd member (spared _ fun _ => ping_adds_nothing p addr)
          | findNode f => exact absurd member (spared _ fun _ => find_node_adds_nothing f addr)
          | getPeers g =>
            have start : Sofar (contacts before.activeStores) _ before := ⟨List.Subset.refl _, rfl⟩
            rcases get_peers_answers g addr before start with ⟨same, _⟩ | ⟨_, _, _, same, _⟩
            · exact absurd (same member) absent
            · exact absurd (same member) absent
          | announcePeer a =>
            have announced : Announces sha (contacts before.activeStores) a addr
                (handleAnnouncePeer sha a addr before : Outcome Unit Unit × Handler).2.activeStores _ :=
              announce_peer_adds a addr before (List.Subset.refl _)
            rcases announced with same | ⟨accepted, grown⟩
            · exact absurd (same member) absent
            · have new := (grown item member).resolve_left absent
              exact ⟨buffer, addr, a, rfl, reads, new.1, accepted⟩
      next => exact absurd member absent
    · have ignored : (serve sha (.datagram buffer addr) before).2 = before :=
        incoming_unread (fun message reads => readable ⟨message, reads⟩) addr before
      rw [ignored] at member
      exact absurd member absent

/-- Whatever is added to the storage in a run was announced from its own IP, with a token that was
    sent to that IP in an earlier turn. -/
theorem announces_authorised {start : Handler} {inputs : List Input}
    (apart : Apart sha (sources inputs))
    (honest : ∀ earlier turn later, turns sha start inputs = earlier ++ turn :: later →
      Honest sha earlier turn) :
    ∀ earlier turn later, turns sha start inputs = earlier ++ turn :: later →
      ∀ item, Adds turn item → ∃ buffer addr a, turn.input = .datagram buffer addr ∧
        Reads buffer (.request (.announcePeer a)) ∧ item.address.ip = addr.ip ∧
        ∃ issue ∈ earlier, ∃ addr', Issues issue addr' a.token ∧ addr'.ip = addr.ip := by
  intro earlier turn later cut item adds
  have all : ∀ other ∈ earlier ++ turn :: later,
      other.input ∈ inputs ∧ other.after = (serve sha other.input other.before).2 := by
    rw [← cut]
    exact turns_served
  obtain ⟨among, served⟩ := all turn (by simp)
  obtain ⟨buffer, addr, a, given, reads, address, accepted⟩ := added_accepted served adds
  refine ⟨buffer, addr, a, given, reads, ?_, ?_⟩
  · rw [address, connect_addr_ip]
  · rcases honest earlier turn later cut buffer addr a given reads with
      ⟨issue, member, addr', issues⟩ | strange
    · refine ⟨issue, member, addr', issues, ?_⟩
      obtain ⟨amongToo, servedToo⟩ := all issue (by simp [member])
      obtain ⟨secret, made⟩ := issued_made servedToo issues
      have known : addr' ∈ sources inputs := by
        obtain ⟨_, _, givenToo, _⟩ := issues
        exact datagram_source (givenToo ▸ amongToo)
      -- the token is one hash of both addresses, so the hashed strings are one
      have collides : ∃ s, generateTokenFromAddr sha addr'.ip secret =
          generateTokenFromAddr sha addr.ip s := by
        rcases accepted with curr | last
        · exact ⟨_, as_ref_injective (made.symm.trans curr.symm)⟩
        · exact ⟨_, as_ref_injective (made.symm.trans last.symm)⟩
      obtain ⟨s, same⟩ := collides
      exact hashed_ip (apart addr' known addr (datagram_source (given ▸ among)) secret s same)
    · obtain ⟨noCurr, noLast⟩ := strange addr.ip
      exact absurd accepted (not_or.mpr ⟨noCurr, noLast⟩)

def seeker : SocketAddr := .v4 10 0 0 1 6881

def emptyTable : RoutingTable := RoutingTable.new ⟨Vector.replicate shaHashLen 255⟩

def newcomer : Handler :=
  { stranded false emptyTable [] [] 0 with
    tokenStore := ⟨1, 2, 0⟩
    shared := ⟨emptyTable, Timer.new, quietWorld⟩ }

def handedOut : Bytes := (generateTokenFromAddr padded seeker.ip 1).asRef

def wanted : InfoHash := ⟨Vector.replicate shaHashLen 98⟩

def question : GetPeersRequest := ⟨text "aa", ⟨Vector.replicate shaHashLen 97⟩, wanted⟩

def reply : GetPeersResponse := ⟨text "aa", emptyTable.nodeId, some handedOut, .nodes .empty⟩

def announcement : AnnouncePeerRequest :=
  ⟨text "ab", ⟨Vector.replicate shaHashLen 97⟩, wanted, handedOut, .explicit 80⟩

def firstTurn : Turn :=
  ⟨.datagram (encodeMessage (.request (.getPeers question))) seeker, newcomer,
    (serve padded (.datagram (encodeMessage (.request (.getPeers question))) seeker) newcomer).2⟩

def secondTurn : Turn :=
  ⟨.datagram (encodeMessage (.request (.announcePeer announcement))) seeker, firstTurn.after,
    (serve padded (.datagram (encodeMessage (.request (.announcePeer announcement))) seeker)
      firstTurn.after).2⟩

theorem visit_seen :
    (encodeMessage (.response (.getPeers reply)), seeker) ∈
      newDatagrams firstTurn.before.shared firstTurn.after.shared ∧
    contacts firstTurn.after.activeStores = [] ∧
    contacts secondTurn.after.activeStores =
      [⟨.v4 10 0 0 1 80, 0, wanted⟩, ⟨.v4 10 0 0 1 80, 0, wanted⟩] := by
  decide +kernel

theorem first_turn_issues : Issues firstTurn seeker handedOut := by
  obtain ⟨sentOne, _⟩ := visit_seen
  exact ⟨_, question, rfl, message_arrives (.request (.getPeers question)) (by decide) rfl, _, reply,
    sentOne, by decide, message_arrives (.response (.getPeers reply)) (by decide) rfl, rfl⟩

theorem visit_authorised :
    turns padded newcomer [firstTurn.input, secondTurn.input] = [firstTurn] ++ [secondTurn] ∧
    Adds secondTurn ⟨.v4 10 0 0 1 80, 0, wanted⟩ ∧
    ∃ buffer addr a, secondTurn.input = .datagram buffer addr ∧
      Reads buffer (.request (.announcePeer a)) ∧ (SocketAddr.v4 10 0 0 1 80).ip = addr.ip ∧
      ∃ issue ∈ [firstTurn], ∃ addr', Issues issue addr' a.token ∧ addr'.ip = addr.ip := by
  have run : turns padded newcomer [firstTurn.input, secondTurn.input] =
      [firstTurn] ++ [secondTurn] := rfl
  have adds : Adds secondTurn ⟨.v4 10 0 0 1 80, 0, wanted⟩ := by
    obtain ⟨_, before, after⟩ := visit_seen
    refine ⟨?_, ?_⟩
    · rw [after]
      exact .head _
    · change _ ∉ contacts firstTurn.after.activeStores
      rw [before]
      exact List.not_mem_nil
  refine ⟨run, adds, announces_authorised ?_ ?_ [firstTurn] secondTurn [] run _ adds⟩
  · intro a from_a b from_b s t same
    have alone : sources [firstTurn.input, secondTurn.input] = [seeker, seeker] := rfl
    rw [alone] at from_a from_b
    have ofA : a = seeker := by simpa using from_a
    have ofB : b = seeker := by simpa using from_b
    subst ofA ofB
    rw [padded_injective 10 0 0 1 same]
  · intro earlier turn later cut buffer addr a given reads
    rw [run] at cut
    match earlier, cut with
    | [], cut =>
      -- the first datagram is a get_peers request
      obtain ⟨rfl, _⟩ := List.cons.inj cut
      cases given
      have asked := message_arrives (.request (.getPeers question)) (by decide) rfl
      cases reads_unique reads asked
    | [earlier], cut =>
      obtain ⟨rfl, rest⟩ := List.cons.inj cut
      obtain ⟨rfl, _⟩ := List.cons.inj rest
      cases given
      have announced := message_arrives (.request (.announcePeer announcement)) (by decide +kernel) rfl
      cases reads_unique reads announced
      exact .inl ⟨firstTurn, List.mem_singleton_self _, seeker, first_turn_issues⟩
    | first :: second :: more, cut => simpa using congrArg List.length cut

end Run

end DhtAuthorised
