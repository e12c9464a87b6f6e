import Bittorrent.Select.Ledger

/-!
What the metadata module hands out. A buffer is only given out when it is whole, and whoever looks finds
that every whole buffer has the hash it should have: the sweep after each message sees to that, and
nothing between two messages makes a buffer whole.
-/
namespace SelectIntegrity
open Rust Action HashTables HashTable UtilSha MetainfoInfo PeerMessage SelectMetadata SelectAccounts
  SelectLedger

section Validated
variable {sha : Bytes → ShaHash} {repair : Bytes → Str} {m m' : UtMetadataModule}

/-- Every whole buffer has the hash it should have. -/
def Validated (sha : Bytes → ShaHash) (m : UtMetadataModule) : Prop :=
  ∀ hash pending, m.pendingMap.get hash = some (some pending) → pending.left = 0 → sha pending.bytes = hash

theorem validated_sweep (m : UtMetadataModule) : Validated sha (validateDownloaded sha m).2 := by
  intro hash pending known whole
  have after : (validateDownloaded sha m).2.pendingMap.get hash =
      (m.pendingMap.get hash).map (validateEntry sha hash) := get_map _ _ _
  rw [after, Option.map_eq_some_iff] at known
  obtain ⟨opt, _, valid⟩ := known
  obtain ⟨_, passed⟩ := Option.filter_eq_some_iff.mp valid
  simpa [whole] using passed

theorem validated_check (returned : checkStreamUnblock sha m = (.ok (), m')) : Validated sha m' := by
  obtain ⟨_, m₁, _, swept⟩ := bind_ok returned
  have valid : Validated sha (validateDownloaded sha m₁).2 := validated_sweep m₁
  rw [swept] at valid
  exact valid

theorem validated_closed (valid : Validated sha m) (closed : Closed m m') : Validated sha m' := by
  intro hash pending known whole
  exact valid hash pending (closed_known closed known) whole

theorem keeps_validated_poll (random : UInt32) : Keeps (Validated sha) (poll sha random) := by
  apply keeps_poll
  · exact fun m m' valid closed => validated_closed valid closed
  · intro m hash pending rest message peer valid moved hash' pending' known whole
    unfold requested at known
    by_cases same : hash' = hash
    · subst same
      rw [get_adjust, moved.known] at known
      cases known
      exact valid hash' pending moved.known whole
    · rw [get_adjust_other _ _ same] at known
      exact valid hash' pending' known whole
  · exact fun _ _ _ valid => valid

theorem run_validated {history : List Event} {received : Received}
    (run : Run sha repair history m received) : Validated sha m := by
  induction run with
  | start => exact fun _ _ known => by cases known
  | next event before returned ih =>
    cases event with
    | send item =>
      obtain ⟨_, _, _, checked⟩ := exec_send returned
      exact validated_check checked
    | onUpdate info extended =>
      obtain ⟨answer, added⟩ := exec_update returned
      exact keeps_ended (keeps_add_peer_apart (fun _ _ valid => valid) info extended) ih added
    | poll random =>
      obtain ⟨out, polled⟩ := exec_poll returned
      exact keeps_ended (keeps_validated_poll random) ih polled
  | reorder table before perm ih =>
    intro hash pending known whole
    rw [← get_perm perm] at known
    exact ih hash pending known whole

end Validated

section Asked
variable {S : InfoHash → Prop} {sha : Bytes → ShaHash} {repair : Bytes → Str}
  {m m' : UtMetadataModule}

def Asked (S : InfoHash → Prop) (m : UtMetadataModule) : Prop :=
  ∀ hash, m.pendingMap.get hash ≠ none → S hash

theorem asked_adjust (asked : Asked S m) (hash : InfoHash)
    (change : Option PendingInfo → Option PendingInfo) :
    Asked S { m with pendingMap := m.pendingMap.adjust hash change } := by
  intro hash' known
  apply asked hash'
  by_cases same : hash' = hash
  · subst same
    simpa using known
  · rwa [get_adjust_other _ _ same] at known

theorem keeps_asked_dispatch {item : IDiscoveryMessage}
    (named : ∀ hash, item = .downloadMetainfo hash → S hash) :
    Keeps (Asked S) (dispatch repair item) := by
  refine keeps_dispatch (fun _ _ asked => asked) ?_ ?_ ?_ (fun _ _ _ asked => asked)
    (fun _ _ asked => asked) fun m hash pending asked => asked_adjust asked hash _
  · exact fun m info _ => keeps_remove_peer (fun _ _ asked _ => asked) info m
  · intro m duration _ asked hash known
    apply asked hash
    change (List.foldl expire m _).pendingMap.get hash ≠ none at known
    rw [expire_pending] at known
    simpa using known
  · intro m hash isDownload asked hash' known
    by_cases same : hash' = hash
    · rw [same]
      exact named hash isDownload
    · apply asked hash'
      rwa [get_insert_other _ _ same] at known

theorem keeps_asked_check : Keeps (Asked S) (checkStreamUnblock sha) := by
  refine keeps_check (I := Asked S) (fun m hash pending asked => asked_adjust asked hash _) ?_
  intro m asked hash known
  apply asked hash
  intro unknown
  apply known
  exact (get_map _ _ _).trans (by rw [unknown]; rfl)

theorem asked_closed (asked : Asked S m) (closed : Closed m m') : Asked S m' := by
  intro hash known
  apply asked hash
  rcases closed.downloads hash with same | ⟨_, pending, before, _⟩
  · rwa [same] at known
  · rw [before]
    simp

theorem keeps_asked_poll (random : UInt32) : Keeps (Asked S) (poll sha random) := by
  apply keeps_poll
  · exact fun m m' asked closed => asked_closed asked closed
  · exact fun m hash pending rest message peer asked _ => asked_adjust asked hash _
  · exact fun _ _ _ asked => asked

theorem asked_more {T : InfoHash → Prop} (asked : Asked S m) (more : ∀ hash, S hash → T hash) : Asked T m :=
  fun hash known => more hash (asked hash known)

theorem run_asked {history : List Event} {received : Received}
    (run : Run sha repair history m received) :
    Asked (fun hash => .send (.downloadMetainfo hash) ∈ history) m := by
  induction run with
  | start => exact fun _ known => absurd rfl known
  | @next history _ _ _ event before returned ih =>
    have wider := asked_more ih fun _ => List.mem_append_left [event]
    cases event with
    | send item =>
      obtain ⟨answer, m₁, dispatched, checked⟩ := exec_send returned
      have named : ∀ hash, item = .downloadMetainfo hash →
          Event.send (.downloadMetainfo hash) ∈ history ++ [.send item] := by
        rintro hash rfl
        exact List.mem_append_right _ (List.mem_singleton.mpr rfl)
      have between := keeps_ended (keeps_asked_dispatch named) wider dispatched
      exact keeps_ended keeps_asked_check between checked
    | onUpdate info extended =>
      obtain ⟨answer, added⟩ := exec_update returned
      exact keeps_ended (keeps_add_peer_apart (fun _ _ asked => asked) info extended) wider added
    | poll random =>
      obtain ⟨out, polled⟩ := exec_poll returned
      exact keeps_ended (keeps_asked_poll random) wider polled
  | reorder table before perm ih =>
    intro hash known
    rw [← get_perm perm] at known
    exact ih hash known

end Asked

section Emitted
variable {sha : Bytes → ShaHash} {repair : Bytes → Str} {m m' : UtMetadataModule}
  {metainfo : Metainfo}

theorem retrieved_whole {bound : Nat} {message : ODiscoveryMessage}
    (retrieved : retrieveCompletedDownload sha bound m = (.ok (some message), m')) :
    ∃ hash pending info, m.pendingMap.get hash = some (some pending) ∧ pending.left = 0 ∧
      Info.fromBytes sha pending.bytes = .ok info ∧ message = .downloadedMetainfo (.fromInfo info) := by
  induction bound generalizing m with
  | zero => cases retrieved
  | succ bound ih =>
    cases found : m.pendingMap.entries.find? isComplete with
    | none =>
      rw [retrieve_completed_none bound found] at retrieved
      cases retrieved
    | some entry =>
      obtain ⟨hash, opt⟩ := entry
      obtain ⟨pending, rfl, whole, known⟩ := find_complete found
      rw [retrieve_completed_some bound found] at retrieved
      cases read : Info.fromBytes sha pending.bytes with
      | ok info =>
        rw [read] at retrieved
        cases retrieved
        exact ⟨hash, pending, info, known, whole, read, rfl⟩
      | err e =>
        rw [read] at retrieved
        obtain ⟨hash', pending', info, later, rest⟩ := ih retrieved
        exact ⟨hash', pending', info, closed_known (without_closes known whole) later, rest⟩
      | panic | unfinished =>
        rw [read] at retrieved
        cases retrieved

theorem respond_sends (queue : List PeerRequest) :
    Returns (fun message => message ≠ some (.downloadedMetainfo metainfo)) (respond queue) := by
  induction queue with
  | nil => exact returns_pure (by simp)
  | cons request rest ih =>
    refine returns_bind fun _ => returns_bind fun _ => returns_bind fun _ =>
      returns_bind fun m => ?_
    split
    · exact returns_ite (returns_pure (by simp)) ih
    · exact ih

theorem emitted_whole {random : UInt32}
    (emitted : poll sha random m = (.ok (some (.downloadedMetainfo metainfo)), m')) :
    ∃ hash pending info, m.pendingMap.get hash = some (some pending) ∧ pending.left = 0 ∧
      Info.fromBytes sha pending.bytes = .ok info ∧ metainfo = .fromInfo info := by
  obtain ⟨_, _, same, emitted⟩ := bind_ok emitted
  cases same
  obtain ⟨first, m₁, retrieved, emitted⟩ := bind_ok emitted
  cases first with
  | some message =>
    cases emitted
    obtain ⟨hash, pending, info, known, whole, read, same⟩ := retrieved_whole retrieved
    cases same
    exact ⟨hash, pending, info, known, whole, read, rfl⟩
  | none =>
    obtain ⟨second, m₂, asked, emitted⟩ := bind_ok emitted
    cases second with
    | some message =>
      cases emitted
      rcases piece_request_cases random m₁ with nothing | ⟨_, _, _, _, _, _, made⟩
      · rw [nothing] at asked
        cases asked
      · rw [made] at asked
        cases asked
    | none =>
      obtain ⟨m₃, _, _, answered⟩ := bind_ok emitted
      exact absurd rfl (respond_sends m₃.peerRequests _ _ (congrArg Prod.fst answered))

/-- Over every run, what is given out was read from bytes that have the hash of a download that was asked
    for. -/
theorem downloaded_was_asked_for {history : List Event} {received : Received}
    (run : Run sha repair history m received) {random : UInt32}
    (emitted : poll sha random m = (.ok (some (.downloadedMetainfo metainfo)), m')) :
    ∃ hash bytes info, .send (.downloadMetainfo hash) ∈ history ∧ sha bytes = hash ∧
      Info.fromBytes sha bytes = .ok info ∧ metainfo = .fromInfo info ∧ info.infoHash = hash := by
  obtain ⟨hash, pending, info, known, whole, read, rfl⟩ := emitted_whole emitted
  have valid := run_validated run hash pending known whole
  have named := run_asked run hash (by rw [known]; simp)
  have small := tally_small (run_tally run) hash pending known
  obtain ⟨hashed, _⟩ := MetainfoFidelity.decoded_whole small read
  exact ⟨hash, pending.bytes, info, named, valid, read, rfl, hashed.trans valid⟩

def someInfo : Bytes := text "d6:lengthi1e4:name1:a12:piece lengthi1e6:pieces0:e"

/-- A hash under which one dictionary is the one that is looked for. -/
def hashOf (bytes : Bytes) : ShaHash := if bytes = someInfo then someHash else ⟨Vector.replicate 20 0⟩

theorem some_info_reads : ∃ info, Info.fromBytes hashOf someInfo = .ok info := by
  have readable : (accepted (Info.fromBytes hashOf someInfo)).isSome = true := by decide +kernel
  obtain ⟨info, read⟩ := Option.isSome_iff_exists.mp readable
  exact ⟨info, ok_of_accepted read⟩

/-- Bytes that do not fit, then the dictionary from a peer that was asked again. -/
def fetched : List Event :=
  [.onUpdate somePeer (sharing 50), .send (.downloadMetainfo someHash), .poll 0,
    .send (.receivedUtMetadataMessage somePeer (.data (.new 0 50 [1, 2, 3]))),
    .send (.control (.tick 0)), .poll 0,
    .send (.receivedUtMetadataMessage somePeer (.data (.new 0 50 someInfo)))]

def givesOut (outcome : Outcome Empty (Option ODiscoveryMessage)) : Option Metainfo :=
  match outcome with
  | .ok (some (.downloadedMetainfo metainfo)) => some metainfo
  | _ => none

theorem gives_out {outcome : Outcome Empty (Option ODiscoveryMessage)}
    (given : givesOut outcome = some metainfo) :
    outcome = .ok (some (.downloadedMetainfo metainfo)) := by
  unfold givesOut at given
  split at given
  · cases given
    rfl
  · cases given

theorem some_info_was_asked_for :
    ∃ m received metainfo m', Run hashOf (fun _ => .ofAscii "") fetched m received ∧
      poll hashOf 0 m = (.ok (some (.downloadedMetainfo metainfo)), m') ∧
      ∃ hash bytes info, .send (.downloadMetainfo hash) ∈ fetched ∧ hashOf bytes = hash ∧
        Info.fromBytes hashOf bytes = .ok info ∧ metainfo = .fromInfo info ∧ info.infoHash = hash := by
  have played : ((play hashOf (fun _ => .ofAscii "") .new (fun _ => []) fetched).bind fun state =>
      givesOut (poll hashOf 0 state.1).1).isSome = true := by
    decide +kernel
  obtain ⟨metainfo, given⟩ := Option.isSome_iff_exists.mp played
  obtain ⟨⟨m, received⟩, reached, given⟩ := Option.bind_eq_some_iff.mp given
  have run : Run hashOf _ fetched m received := play_run .start reached
  have emitted : poll hashOf 0 m = (.ok (some (.downloadedMetainfo metainfo)), (poll hashOf 0 m).2) :=
    Prod.ext (gives_out given) rfl
  exact ⟨m, received, metainfo, _, run, emitted, downloaded_was_asked_for run emitted⟩

end Emitted

end SelectIntegrity
