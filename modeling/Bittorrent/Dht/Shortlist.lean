import Bittorrent.Dht.Candidates

/-!
The sorted list of all candidates over any sequence of insertions.
-/
namespace DhtShortlist
open Rust UtilSha DhtNode DhtLookup DhtCandidates

section Insertions
variable {target : InfoHash} {meets : List Candidate → NodeHandle → Prop}

/-- The lists that calls of `insert_sorted_node` lead to, if each call meets a condition. -/
inductive Built (target : InfoHash) (meets : List Candidate → NodeHandle → Prop) :
    List Candidate → Prop where
  | start : Built target meets []
  | insert {nodes nodes' : List Candidate} (before : Built target meets nodes) {node : NodeHandle}
      (met : meets nodes node) {pinged : Bool}
      (inserted : (insertSortedNode nodes target node pinged : Outcome Unit _) = .ok nodes') :
      Built target meets nodes'

/-- A handle that is in the list already is the only one there with its id. -/
def Lone (nodes : List Candidate) (node : NodeHandle) : Prop :=
  node ∈ handles nodes → ∀ m ∈ handles nodes, m.id = node.id → m = node

theorem built_listed {nodes : List Candidate} (built : Built target Lone nodes) :
    Listed target nodes := by
  induction built with
  | start => exact ⟨.nil, by simp, List.nodup_nil⟩
  | insert _ lone inserted listed =>
    obtain ⟨nodes', same, listed', _⟩ := insert_sorted_listed (ε := Unit) listed _ _ lone
    rw [inserted] at same
    cases same
    exact listed'

/-- The list over every run in which no known handle shares its id. -/
theorem insertions_keep_order {nodes : List Candidate} (built : Built target Lone nodes) :
    (nodes.Pairwise fun c d =>
      (compare (bitXor target c.node.id) (bitXor target d.node.id)).isLE) ∧
      (handles nodes).Nodup := by
  have listed := built_listed built
  refine ⟨?_, listed.distinct⟩
  apply List.Pairwise.imp_of_mem _ listed.sorted
  intro c d first second order
  rwa [← listed.measured c first, ← listed.measured d second]

/-- One id under two addresses. -/
def twin (port : UInt16) : NodeHandle := ⟨⟨Vector.replicate shaHashLen 1⟩, .v4 10 0 0 1 port⟩

def center : InfoHash := ⟨Vector.replicate shaHashLen 0⟩

def entry (port : UInt16) : Candidate := ⟨⟨Vector.replicate shaHashLen 1⟩, twin port, false⟩

deriving instance DecidableEq for Candidate

theorem twins_inserted :
    (insertSortedNode [] center (twin 1) false : Outcome Unit _) = .ok [entry 1] ∧
    (insertSortedNode [entry 1] center (twin 2) false : Outcome Unit _) = .ok [entry 2, entry 1] := by
  decide +kernel

theorem twins_built : Built center Lone [entry 2, entry 1] := by
  have first : Built center Lone [entry 1] := .insert .start (by simp [Lone, handles]) twins_inserted.1
  exact .insert first (by simp [Lone, handles, entry, twin]) twins_inserted.2

theorem twins_keep_order :
    Built center Lone [entry 2, entry 1] ∧ (handles [entry 2, entry 1]).Nodup :=
  ⟨twins_built, (insertions_keep_order twins_built).2⟩

/-- The search meets the twin, and the handle goes in a second time. -/
theorem handle_listed_twice : Built center (fun _ _ => True) [entry 2, entry 2, entry 1] ∧
    ¬ (handles [entry 2, entry 2, entry 1]).Nodup := by
  refine ⟨?_, by simp [handles]⟩
  have again : (insertSortedNode [entry 2, entry 1] center (twin 2) false : Outcome Unit _) =
      .ok [entry 2, entry 2, entry 1] := by decide +kernel
  have both : Built center (fun _ _ => True) [entry 2, entry 1] :=
    .insert (.insert .start trivial twins_inserted.1) trivial twins_inserted.2
  exact .insert both trivial again

end Insertions

end DhtShortlist
