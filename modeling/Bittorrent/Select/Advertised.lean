import Bittorrent.Select.Ledger

/-!
Whose size a download is started with. An entry of `active_peers` keeps the size that its first peer told,
also when that peer is gone: another one may have joined with another size, and a tick does not take an
entry out when it takes its last peer.
-/
namespace SelectAdvertised
open Rust Action HashTables HashTable UtilSha PeerMessage SelectMetadata SelectAccounts SelectLedger

variable {sha : Bytes → ShaHash} {repair : Bytes → Str} {history : List Event} {m : UtMetadataModule}

def Advertised (history : List Event) (peer : PeerInfo) (size : Int64) : Prop :=
  ∃ extended, Event.onUpdate peer extended ∈ history ∧ extended.theirs.bind (·.metadataSize) = some size

/-- A peer that joins others tells the size they have told, and a tick leaves a peer to every download. -/
def Agreeing (m : UtMetadataModule) : Event → Prop
  | .onUpdate info extended => ∀ active size, m.activePeers.get info.hash = some active →
      extended.theirs.bind (·.metadataSize) = some size → size = active.metadataSize
  | .send (.control (.tick duration)) => ∀ hash active, m.activePeers.get hash = some active →
      ∃ peer ∈ active.peers, ∀ request ∈ m.activeRequests, request.left < duration → request.sentTo ≠ peer
  | _ => True

inductive Agreed (sha : Bytes → ShaHash) (repair : Bytes → Str) : List Event → UtMetadataModule → Prop where
  | start : Agreed sha repair [] .new
  | next {history : List Event} {m : UtMetadataModule} (event : Event) (before : Agreed sha repair history m)
      (agree : Agreeing m event) : Agreed sha repair (history ++ [event]) (exec sha repair event m).2
  | reorder {history : List Event} {m : UtMetadataModule} (table : HashTable InfoHash (Option PendingInfo))
      (before : Agreed sha repair history m) (perm : m.pendingMap.entries.Perm table.entries) :
      Agreed sha repair history { m with pendingMap := table }

/-- Every entry has peers, and they have all told its size. -/
def Unanimous (history : List Event) (m : UtMetadataModule) : Prop :=
  ∀ hash active, m.activePeers.get hash = some active →
    active.peers ≠ [] ∧ ∀ peer ∈ active.peers, Advertised history peer active.metadataSize

theorem unanimous_later (before : Unanimous history m) (event : Event) : Unanimous (history ++ [event]) m := by
  intro hash active found
  obtain ⟨some, all⟩ := before hash active found
  refine ⟨some, fun peer member => ?_⟩
  obtain ⟨extended, earlier, told⟩ := all peer member
  exact ⟨extended, List.mem_append_left _ earlier, told⟩

theorem add_peer_unanimous {info : PeerInfo} {extended : ExtendedPeerInfo} (before : Unanimous history m)
    (agree : Agreeing m (.onUpdate info extended)) (told : .onUpdate info extended ∈ history) :
    Unanimous history (addPeer info extended m).2 := by
  rcases add_peer_joins info extended m m rfl with same | ⟨size, offered, same⟩
  · rw [same]
    exact before
  · rw [same]
    have own : Advertised history info size := ⟨extended, told, offered⟩
    refine joined_entries before ⟨List.cons_ne_nil _ _, List.forall_mem_singleton.mpr own⟩ ?_
    intro active known
    obtain ⟨some, all⟩ := before _ active known
    unfold insertPeer
    split
    · exact ⟨some, all⟩
    · exact ⟨List.cons_ne_nil _ _, List.forall_mem_cons.mpr ⟨agree active size known offered ▸ own, all⟩⟩

theorem remove_peer_unanimous (info : PeerInfo) : Keeps (Unanimous history) (removePeer info) := by
  intro m before
  unfold removePeer
  rw [get_bind]
  cases known : m.activePeers.get info.hash with
  | none => exact before
  | some active =>
    dsimp only
    split
    · exact fun hash active found => before hash active (found_remove found)
    · rename_i left
      intro hash active' found
      rcases found_insert found with ⟨_, rfl⟩ | old
      · exact ⟨fun none => left (List.isEmpty_iff.mpr none),
          fun peer member => (before _ active known).2 peer (without_peer_mem member)⟩
      · exact before hash active' old

theorem expire_spares {expired : List ActiveRequest} {peer : PeerInfo} {hash : InfoHash}
    (apart : ∀ request ∈ expired, request.sentTo ≠ peer)
    (there : ∀ active, m.activePeers.get hash = some active → peer ∈ active.peers) :
    ∀ active, (expired.foldl expire m).activePeers.get hash = some active → peer ∈ active.peers := by
  refine List.foldlRecOn
    (motive := fun m : UtMetadataModule =>
      ∀ active, m.activePeers.get hash = some active → peer ∈ active.peers)
    expired _ there fun m there request member active found => ?_
  unfold expire at found
  by_cases same : hash = request.sentTo.hash
  · subst same
    rw [get_adjust, Option.map_eq_some_iff] at found
    obtain ⟨before, known, rfl⟩ := found
    exact List.mem_filter.mpr ⟨there before known, by simpa using (apart request member).symm⟩
  · rw [get_adjust_other _ _ same] at found
    exact there active found

theorem tick_unanimous {duration : Duration} (before : Unanimous history m)
    (agree : Agreeing m (.send (.control (.tick duration)))) : Unanimous history (applyTick duration m).2 := by
  intro hash active found
  obtain ⟨old, known, subset, size⟩ := expire_peers _ m hash active found
  obtain ⟨peer, member, apart⟩ := agree hash old known
  have stays : peer ∈ active.peers := by
    refine expire_spares (fun request out => ?_) (fun other same => ?_) active found
    · obtain ⟨out, late⟩ := List.mem_filter.mp out
      exact apart request out (of_decide_eq_true late)
    · cases known.symm.trans same
      exact member
  exact ⟨List.ne_nil_of_mem stays, fun peer member => size ▸ (before hash old known).2 peer (subset member)⟩

theorem send_unanimous {item : IDiscoveryMessage} (before : Unanimous history m)
    (agree : Agreeing m (.send item)) : Unanimous history (send sha repair item m).2 := by
  have dispatched : Unanimous history (dispatch repair item m).2 := by
    by_cases tick : ∃ duration, item = .control (.tick duration)
    · obtain ⟨duration, rfl⟩ := tick
      exact tick_unanimous before agree
    · exact keeps_dispatch (fun _ _ before => before) (fun m info _ => remove_peer_unanimous info m)
        (fun m duration same => absurd ⟨duration, same⟩ tick) (fun _ _ _ before => before)
        (fun _ _ _ before => before) (fun _ _ before => before) (fun _ _ _ before => before) m before
  refine bind_keeps (I := Unanimous history) dispatched fun _ => keeps_bind ?_ fun _ => keeps_pure _
  exact keeps_check (fun _ _ _ before => before) fun _ before => before

theorem agreed_unanimous (agreed : Agreed sha repair history m) : Unanimous history m := by
  induction agreed with
  | start => exact fun hash active found => nomatch found
  | @next history m event _ agree ih =>
    have before := unanimous_later ih event
    cases event with
    | send item =>
      rw [exec, discard_state]
      exact send_unanimous before agree
    | onUpdate info extended =>
      rw [exec, onUpdate, discard_state]
      exact add_peer_unanimous before agree (by simp)
    | poll random =>
      rw [exec, discard_state]
      refine keeps_poll ?_ ?_ (fun _ _ _ before => before) random m before
      · exact fun m m' before closed hash active found => before hash active (closed.peers found)
      · exact fun m _ _ _ _ _ before _ => before
  | reorder table before perm ih => exact ih

/-- Where all agree, the size that a download would be started with was told by a peer that is still there. -/
theorem size_from_present_peer (agreed : Agreed sha repair history m) {hash : InfoHash} {active : ActivePeers}
    (found : m.activePeers.get hash = some active) :
    ∃ peer ∈ active.peers, Advertised history peer active.metadataSize := by
  obtain ⟨some, all⟩ := agreed_unanimous agreed hash active found
  obtain ⟨peer, rest, same⟩ := List.exists_cons_of_ne_nil some
  exact ⟨peer, by rw [same]; exact .head _, all peer (by rw [same]; exact .head _)⟩

theorem first_size_from_present_peer : ∃ peer ∈ [somePeer],
    Advertised [.onUpdate somePeer (sharing 5)] peer 5 := by
  have agreed : Agreed (fun _ => someHash) (fun _ => .ofAscii "") ([] ++ [.onUpdate somePeer (sharing 5)]) _ :=
    .next _ .start fun active size found => nomatch found
  exact size_from_present_peer agreed
    (show HashTable.get someHash _ = some (ActivePeers.mk [somePeer] 5) by decide +kernel)

def otherPeer : PeerInfo := ⟨.v4 10 0 0 2 6881, ⟨Vector.replicate 20 2⟩, someHash⟩

/-- The first of two peers leaves, and what it told is what counts. -/
theorem size_of_gone_peer : ∃ history m received active,
    Run (fun _ => someHash) (fun _ => .ofAscii "") history m received ∧
      m.activePeers.get someHash = some active ∧
      ¬ ∃ peer ∈ active.peers, Advertised history peer active.metadataSize := by
  refine ⟨_, _, _, ⟨[otherPeer], 5⟩, .next (.send (.control (.peerDisconnected somePeer)))
    (.next (.onUpdate otherPeer (sharing 7)) (.next (.onUpdate somePeer (sharing 5)) .start rfl) rfl) rfl,
    by decide +kernel, ?_⟩
  rintro ⟨peer, member, extended, told, size⟩
  cases List.mem_singleton.mp member
  simp only [List.nil_append, List.cons_append, List.mem_cons, List.not_mem_nil, or_false, reduceCtorEq,
    Event.onUpdate.injEq] at told
  rcases told with ⟨same, _⟩ | ⟨_, rfl⟩
  · exact absurd same (by decide)
  · exact absurd size (by decide)

end SelectAdvertised
