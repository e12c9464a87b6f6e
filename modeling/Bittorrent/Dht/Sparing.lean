import Bittorrent.Dht.Handler

/-!
What most of the handler leaves alone: only requests touch the announced contacts and the token
secrets.
-/
namespace DhtSparing
open Rust Action DhtNode DhtMessage DhtTransaction DhtStorage DhtToken DhtWorker DhtBootstrap
  DhtLookup DhtHandler

section Spares
variable {ε α : Type} {I : AnnounceStorage → TokenStore → Prop}

/-- Code that touches neither the announced contacts nor the token secrets. -/
abbrev Spares (ε : Type) {α : Type} (I : AnnounceStorage → TokenStore → Prop)
    (m : Action Handler ε α) : Prop :=
  Keeps (fun h : Handler => I h.activeStores h.tokenStore) m

theorem spares_on_shared (m : Action Shared ε α) : Spares ε I (onShared m) :=
  keeps_zoom fun _ _ holds => holds

theorem spares_outside (m : Action (World Item) ε α) : Spares ε I (outside m) := spares_on_shared _

theorem spares_put_action (id : ActionID) (action : TableAction) :
    Spares ε I (putAction id action) := fun _ holds => holds

theorem spares_remove_action (id : ActionID) : Spares ε I (removeAction id) :=
  fun _ holds => holds

theorem spares_broadcast (event : DhtEvent) :
    Spares ε I (broadcastDhtEvent event) := by
  apply keeps_bind keeps_get
  intro h
  apply keeps_bind (spares_outside _)
  intro kept
  exact fun _ holds => holds

theorem spares_send_or_panic (item : Item) (channel : Channel) :
    Spares ε I (sendOrPanic item channel) := by
  apply keeps_bind (spares_outside _)
  intro taken
  exact keeps_ite (fun _ => keeps_pure _) fun _ => keeps_abort

theorem spares_answer_waiting (bootstrapped : Bool) :
    Spares ε I (answerWaiting bootstrapped) := by
  apply keeps_bind keeps_get
  intro h
  apply keeps_bind (keeps_for_each (spares_send_or_panic _) _)
  intro _
  exact fun _ holds => holds

theorem spares_command_shutdown (cause : ShutdownCause) :
    Spares ε I (handleCommandShutdown cause) := by
  apply keeps_bind (spares_answer_waiting _)
  intro _
  apply keeps_bind (spares_broadcast _)
  intro _
  exact fun _ holds => holds

theorem spares_generate_action : Spares ε I generateAction := by
  apply keeps_bind keeps_get
  intro h
  apply keeps_bind (spares_outside _)
  intro answer
  apply keeps_bind (fun _ holds => holds)
  intro _
  exact keeps_pure _

theorem spares_get_bootstrapped (tx : Channel) :
    Spares ε I (handleGetBootstarpped tx) := by
  apply keeps_bind keeps_get
  intro h
  cases h.status with
  | fail | completed => exact spares_send_or_panic _ _
  | init | bootStrapIng => exact fun _ holds => holds

theorem spares_get_dht_values (tx : Channel) :
    Spares ε I (handleGetDhtValues tx) := by
  apply keeps_bind keeps_get
  intro h
  apply keeps_bind (spares_on_shared _)
  intro good
  apply keeps_bind (spares_on_shared _)
  intro questionable
  exact spares_send_or_panic _ _

theorem spares_start_bootstrap (routers nodes : List SocketAddr) :
    Spares ε I (handleStartBootstrap routers nodes) := by
  apply keeps_bind spares_generate_action
  intro midGenerator
  apply keeps_bind keeps_get
  intro h
  apply keeps_bind (fun _ holds => holds)
  intro _
  apply keeps_bind (spares_on_shared _)
  intro answer
  exact keeps_ite (fun _ => spares_command_shutdown _) fun _ => spares_put_action _ _

theorem spares_start_lookup (infoHash : InfoHash) (shouldAnnounce : Bool) (tx : Option Channel) :
    Spares ε I (handleStartLookup infoHash shouldAnnounce tx) := by
  apply keeps_bind spares_generate_action
  intro midGenerator
  apply keeps_bind keeps_get
  intro h
  apply keeps_ite
  · exact fun _ _ holds => holds
  · intro _
    apply keeps_bind (spares_on_shared _)
    intro found
    cases found with
    | some lookup => exact spares_put_action _ _
    | none => exact spares_command_shutdown _

variable (transId : TransactionID)

theorem spares_check_table_refresh :
    Spares ε I (handleCheckTableRefresh transId) := by
  apply keeps_bind keeps_get
  intro h
  split
  · apply keeps_bind (spares_on_shared _)
    intro answer
    apply keeps_bind (spares_put_action _ _)
    intro _
    exact keeps_ite (fun _ => spares_command_shutdown _) fun _ => keeps_pure _
  · exact keeps_pure _

theorem spares_start_future (action : PostBootstrapAction) :
    Spares ε I (startFutureAction action) := by
  cases action with
  | lookup infoHash shouldAnnounce tx => exact spares_start_lookup _ _ _
  | refresh refresh transId =>
    apply keeps_bind (spares_put_action _ _)
    intro _
    exact spares_check_table_refresh _

theorem spares_bootstrap_completed (actionId : ActionID) :
    Spares ε I (broadcastBootstrapCompleted actionId) := by
  apply keeps_bind (fun _ holds => holds)
  intro _
  apply keeps_bind (spares_answer_waiting _)
  intro _
  apply keeps_bind (spares_broadcast _)
  intro _
  apply keeps_bind (spares_remove_action _)
  intro _
  apply keeps_bind keeps_get
  intro h
  apply keeps_bind (fun _ holds => holds)
  intro _
  exact keeps_for_each spares_start_future _

theorem spares_attempt_rebootstrap (bootstrap : TableBootstrap) (attempts : Nat)
    (transId : TransactionID) :
    Spares ε I (attemptRebootstrap bootstrap attempts transId) := by
  apply keeps_ite
  · intro _
    apply keeps_bind (spares_on_shared _)
    intro count
    apply keeps_ite
    · exact fun _ => keeps_bind (spares_command_shutdown _) fun _ => keeps_pure _
    · exact fun _ => keeps_pure _
  · intro _
    apply keeps_bind (spares_on_shared _)
    intro answer
    apply keeps_bind (spares_put_action _ _)
    intro _
    apply keeps_ite
    · exact fun _ => keeps_bind (spares_command_shutdown _) fun _ => keeps_pure _
    · exact fun _ => keeps_pure _

theorem spares_check_bootstrap :
    Spares ε I (checkBootstrap transId) := by
  apply keeps_bind
  · exact keeps_bind (spares_on_shared _) fun _ => keeps_pure _
  · intro few
    apply keeps_ite
    · intro _
      apply keeps_bind keeps_get
      intro h
      apply keeps_bind (spares_remove_action _)
      intro _
      split
      · exact keeps_bind (spares_attempt_rebootstrap _ _ _) fun _ => keeps_pure _
      · exact keeps_pure _
    · exact fun _ => keeps_pure _

theorem spares_bootstrap_progress (status : BootstrapStatus) :
    Spares ε I (bootstrapProgress transId status) := by
  cases status with
  | bootstrapping => exact keeps_pure _
  | failed => exact spares_command_shutdown _
  | completed =>
    apply keeps_bind (spares_check_bootstrap _)
    intro completed
    exact keeps_ite (fun _ => spares_bootstrap_completed _) fun _ => keeps_pure _

theorem spares_lookup_progress (infoHash : InfoHash) (status : LookupStatus) :
    Spares ε I (lookupProgress infoHash status) := by
  cases status with
  | completed => exact spares_broadcast _
  | failed => exact spares_command_shutdown _
  | searching | announceFailed => exact keeps_pure _

theorem spares_timeout (task : ScheduledTask) :
    Spares ε I (handleTimeout task) := by
  cases task with
  | checkTableRefresh transId => exact spares_check_table_refresh _
  | checkBootstrapTimeout transId =>
    apply keeps_bind keeps_get
    intro h
    split
    · apply keeps_bind (spares_on_shared _)
      intro answer
      apply keeps_bind (spares_put_action _ _)
      intro _
      exact spares_bootstrap_progress _ _
    · exact keeps_pure _
  | checkLookupTimeout transId =>
    apply keeps_bind keeps_get
    intro h
    split
    · apply keeps_bind (spares_on_shared _)
      intro answer
      apply keeps_bind (spares_put_action _ _)
      intro _
      exact spares_lookup_progress _ _
    · exact keeps_pure _
  | checkLookupEndGame transId =>
    apply keeps_bind keeps_get
    intro h
    apply keeps_bind (spares_remove_action _)
    intro _
    split
    · apply keeps_bind (spares_on_shared _)
      rintro ⟨status, lookup⟩
      cases status with
      | completed => exact spares_broadcast _
      | announceFailed => exact keeps_bind (spares_broadcast _) fun _ => spares_command_shutdown _
      | searching | failed => exact keeps_pure _
    · exact keeps_pure _

theorem spares_command (task : OneshotTask) :
    Spares ε I (handleCommand task) := by
  cases task with
  | registerSender tx => exact fun _ holds => holds
  | getBootstrapStatus tx => exact spares_get_bootstrapped _
  | getDhtValues tx => exact spares_get_dht_values _
  | startBootstrap routers nodes => exact spares_start_bootstrap _ _
  | startLookup infoHash shouldAnnounce tx => exact spares_start_lookup _ _ _
  | selfLookup => exact keeps_bind keeps_get fun h => spares_start_lookup _ _ _
  | shutdown cause => exact spares_command_shutdown _

theorem spares_note_request (id : NodeId) (addr : SocketAddr) :
    Spares ε I (noteRequest id addr) :=
  keeps_bind (spares_outside _) fun _ => spares_on_shared _

theorem spares_respond (response : Bytes) (addr : SocketAddr) :
    Spares ε I (respond response addr) := by
  apply keeps_bind (spares_on_shared _)
  intro taken
  exact keeps_ite (fun _ => keeps_pure _) fun _ => spares_command_shutdown _

theorem spares_own_id : Spares ε I ownId :=
  keeps_bind keeps_get fun _ => keeps_pure _

theorem spares_response (response : ResponseType) (addr : SocketAddr) :
    Spares ε I (handleIncomingResponse response addr) := by
  cases response with
  | ping p | announcePeer a => exact keeps_pure _
  | acting a => exact keeps_bind (spares_outside _) fun _ => spares_on_shared _
  | findNode f =>
    apply keeps_bind (keeps_lift _)
    intro transId
    apply keeps_bind (spares_outside _)
    intro node
    apply keeps_bind (keeps_lift _)
    intro items
    apply keeps_bind
    · exact keeps_for_each
        (fun item => keeps_bind (spares_outside _) fun _ => spares_on_shared _) items
    · intro _
      apply keeps_bind keeps_get
      intro h
      split
      · exact spares_on_shared _
      · apply keeps_bind
        · exact keeps_ite (fun _ => keeps_pure _) fun _ => spares_on_shared _
        · intro _
          apply keeps_bind (spares_on_shared _)
          intro answer
          apply keeps_bind (spares_put_action _ _)
          intro _
          exact spares_bootstrap_progress _ _
      · exact keeps_pure _
  | getPeers g =>
    apply keeps_bind (keeps_lift _)
    intro transId
    apply keeps_bind (spares_outside _)
    intro node
    apply keeps_bind (spares_on_shared _)
    intro _
    apply keeps_bind keeps_get
    intro h
    split
    · apply keeps_bind (spares_on_shared _)
      intro answer
      apply keeps_bind (spares_put_action _ _)
      intro _
      exact spares_lookup_progress _ _
    · exact keeps_pure _

end Spares

end DhtSparing
