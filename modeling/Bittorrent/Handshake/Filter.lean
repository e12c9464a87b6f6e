import Bittorrent.Handshake.Message
import Bittorrent.Lib.Net
import Bittorrent.Lib.Patch

/-!
The filters a handshake has to pass. Each filter decides on each of five fields; the decisions on one field
are combined by their priority, and so are then the five results. The second step is where a field that is
let through on purpose covers for one that is blocked.
-/
namespace HandshakeFilters
open Rust UtilSha HandshakeMessages ListPatch

inductive FilterDecision where
  | pass | block | needData | allow
  deriving DecidableEq, Repr

def FilterDecision.num : FilterDecision → Nat
  | .pass => 0
  | .block => 1
  | .needData => 2
  | .allow => 3

def FilterDecision.choose (self other : FilterDecision) : FilterDecision :=
  if self.num > other.num then self else other

structure HandshakeFilter where
  onAddr : Option SocketAddr → FilterDecision
  onProt : Option Protocol → FilterDecision
  onExt : Option Extensions → FilterDecision
  onHash : Option ShaHash → FilterDecision
  onPid : Option ShaHash → FilterDecision

section Filters
/- A filter is a value of some type with an equality of its own. -/
variable {φ : Type} [BEq φ]

def checkIndex (filters : List φ) (filter : φ) : Option Nat := filters.findIdx? (· == filter)

def addFilter (filters : List φ) (filter : φ) : List φ :=
  match checkIndex filters filter with
  | some _ => filters
  | none => filters ++ [filter]

def removeFilter (filters : List φ) (filter : φ) : List φ :=
  match checkIndex filters filter with
  | some index => swapRemove filters index
  | none => filters

end Filters

section Decide

structure Decisions where
  addr : FilterDecision
  prot : FilterDecision
  ext : FilterDecision
  hash : FilterDecision
  pid : FilterDecision

structure Data where
  addr : Option SocketAddr
  prot : Option Protocol
  ext : Option Extensions
  hash : Option ShaHash
  pid : Option ShaHash

def consult (data : Data) (decisions : Decisions) (filter : HandshakeFilter) : Decisions where
  addr := decisions.addr.choose (filter.onAddr data.addr)
  prot := decisions.prot.choose (filter.onProt data.prot)
  ext := decisions.ext.choose (filter.onExt data.ext)
  hash := decisions.hash.choose (filter.onHash data.hash)
  pid := decisions.pid.choose (filter.onPid data.pid)

def shouldFilter (data : Data) (filters : List HandshakeFilter) : Bool :=
  let decisions := filters.foldl (consult data) ⟨.pass, .pass, .pass, .pass, .pass⟩
  decide ((((decisions.addr.choose decisions.prot).choose decisions.ext).choose
    decisions.hash).choose decisions.pid = .block)

end Decide

section Fields

inductive Field where
  | addr | prot | ext | hash | pid
  deriving DecidableEq, Repr

def HandshakeFilter.on (filter : HandshakeFilter) (data : Data) : Field → FilterDecision
  | .addr => filter.onAddr data.addr
  | .prot => filter.onProt data.prot
  | .ext => filter.onExt data.ext
  | .hash => filter.onHash data.hash
  | .pid => filter.onPid data.pid

def Decisions.at (decisions : Decisions) : Field → FilterDecision
  | .addr => decisions.addr
  | .prot => decisions.prot
  | .ext => decisions.ext
  | .hash => decisions.hash
  | .pid => decisions.pid

/-- The rule of the documentation: allow over need data over block over pass. -/
def combined (decisions : List FilterDecision) : FilterDecision :=
  if .allow ∈ decisions then .allow
  else if .needData ∈ decisions then .needData
  else if .block ∈ decisions then .block
  else .pass

def fieldDecision (data : Data) (filters : List HandshakeFilter) (field : Field) : FilterDecision :=
  combined (filters.map fun filter => filter.on data field)

end Fields

variable (data : Data) (filters : List HandshakeFilter)

section Choice
open List

theorem choose_combined (a : FilterDecision) (rest : List FilterDecision) (b : FilterDecision) :
    combined (a.choose b :: rest) = combined (a :: b :: rest) := by
  cases a <;> cases b <;> simp [combined, FilterDecision.choose, FilterDecision.num]

theorem fold_combined (decisions : List FilterDecision) (start : FilterDecision) :
    decisions.foldl FilterDecision.choose start = combined (start :: decisions) := by
  induction decisions generalizing start with
  | nil => cases start <;> simp [combined]
  | cons decision rest ih => rw [foldl_cons, ih, choose_combined]

theorem combined_pass (decisions : List FilterDecision) :
    combined (.pass :: decisions) = combined decisions := by
  simp [combined]

theorem combined_block {decisions : List FilterDecision} : combined decisions = .block ↔
    .block ∈ decisions ∧ .allow ∉ decisions ∧ .needData ∉ decisions := by
  unfold combined
  split
  · simp [*]
  · split
    · simp [*]
    · split <;> simp [*]

theorem fold_at (field : Field) (filters : List HandshakeFilter) (start : Decisions) :
    (filters.foldl (consult data) start).at field =
      (filters.map fun filter => filter.on data field).foldl FilterDecision.choose (start.at field) := by
  induction filters generalizing start with
  | nil => rfl
  | cons filter rest ih =>
    rw [foldl_cons, ih, map_cons, foldl_cons]
    cases field <;> rfl

theorem should_filter_eq : shouldFilter data filters = decide (combined
      ([Field.addr, .prot, .ext, .hash, .pid].map (fieldDecision data filters)) = .block) := by
  have fields : ∀ field, (filters.foldl (consult data) ⟨.pass, .pass, .pass, .pass, .pass⟩).at field =
      fieldDecision data filters field := by
    intro field
    have start : Decisions.at ⟨.pass, .pass, .pass, .pass, .pass⟩ field = .pass := by cases field <;> rfl
    rw [fold_at, start, fold_combined, combined_pass]
    rfl
  have chain : ∀ a b c d e : FilterDecision,
      (((a.choose b).choose c).choose d).choose e = combined [a, b, c, d, e] := by
    intro a b c d e
    exact fold_combined [b, c, d, e] a
  unfold shouldFilter
  dsimp only
  rw [chain]
  simp only [map_cons, map_nil, ← fields]
  rfl

theorem mem_fields (field : Field) : field ∈ [Field.addr, .prot, .ext, .hash, .pid] := by
  cases field <;> decide

/-- A handshake is filtered when a field is blocked and no field needs data or is allowed. -/
theorem should_filter_iff :
    shouldFilter data filters = true ↔ (∃ field, fieldDecision data filters field = .block) ∧
      ∀ field, fieldDecision data filters field ≠ .needData ∧
        fieldDecision data filters field ≠ .allow := by
  rw [should_filter_eq, decide_eq_true_iff, combined_block]
  simp only [mem_map, mem_fields, true_and]
  constructor
  · rintro ⟨blocked, notAllowed, notNeeded⟩
    exact ⟨blocked, fun field => ⟨fun same => notNeeded ⟨field, same⟩, fun same => notAllowed ⟨field, same⟩⟩⟩
  · rintro ⟨blocked, neither⟩
    exact ⟨blocked, fun ⟨field, same⟩ => (neither field).2 same,
      fun ⟨field, same⟩ => (neither field).1 same⟩

end Choice

section Order

theorem combined_perm {a b : List FilterDecision} (perm : a.Perm b) : combined a = combined b := by
  simp only [combined, perm.mem_iff]

theorem should_filter_perm {filters others : List HandshakeFilter} (perm : filters.Perm others) :
    shouldFilter data filters = shouldFilter data others := by
  have same : fieldDecision data filters = fieldDecision data others := by
    funext field
    exact combined_perm (perm.map _)
  rw [should_filter_eq, should_filter_eq, same]

variable {φ : Type} [DecidableEq φ]

theorem add_filter_perm (filters : List φ) (filter : φ) :
    (addFilter filters filter).Perm (filters.insert filter) := by
  unfold addFilter checkIndex
  cases found : filters.findIdx? (· == filter) with
  | none =>
    rw [List.insert_of_not_mem fun member => by simpa using List.findIdx?_eq_none_iff.mp found _ member]
    exact List.perm_append_singleton _ _
  | some index =>
    have member : filter ∈ filters := by simpa using (congrArg Option.isSome found)
    rw [List.insert_of_mem member]

theorem remove_filter_perm (filters : List φ) (filter : φ) :
    (removeFilter filters filter).Perm (filters.erase filter) := by
  unfold removeFilter checkIndex
  rw [List.erase_eq_eraseP', List.eraseP_eq_eraseIdx]
  cases found : filters.findIdx? (· == filter) with
  | none => exact .refl _
  | some index => exact swap_remove_perm (List.findIdx?_eq_some_iff_findIdx_eq.mp found).1

/-- However filters are added and removed, the decision is that of the set of those that are left. -/
theorem changes_keep_decision (view : φ → HandshakeFilter) (changes : List (Bool × φ)) :
    shouldFilter data ((changes.foldl (fun filters c =>
      if c.1 then addFilter filters c.2 else removeFilter filters c.2) []).map view) =
    shouldFilter data ((changes.foldl (fun filters c =>
      if c.1 then filters.insert c.2 else filters.erase c.2) []).map view) := by
  refine should_filter_perm data (.map view (List.foldl_rel .nil fun c _ a b perm => ?_))
  split
  · exact (add_filter_perm a c.2).trans (perm.insert c.2)
  · exact (remove_filter_perm a c.2).trans (perm.erase c.2)

end Order

section Composition

def complete (addr : SocketAddr) (prot : Protocol) (ext : Extensions) (hash pid : ShaHash) : Data :=
  ⟨some addr, some prot, some ext, some hash, some pid⟩

/-- Some filter blocks the field and none needs data for it or allows it. -/
def Blocked (data : Data) (filters : List HandshakeFilter) (field : Field) : Prop :=
  (∃ filter ∈ filters, filter.on data field = .block) ∧
    ∀ filter ∈ filters, filter.on data field ≠ .needData ∧ filter.on data field ≠ .allow

theorem blocked_iff (field : Field) :
    fieldDecision data filters field = .block ↔ Blocked data filters field := by
  unfold fieldDecision Blocked
  rw [combined_block]
  simp only [List.mem_map]
  constructor
  · rintro ⟨blocks, notAllowed, notNeeded⟩
    exact ⟨blocks, fun filter member => ⟨fun same => notNeeded ⟨filter, member, same⟩,
      fun same => notAllowed ⟨filter, member, same⟩⟩⟩
  · rintro ⟨blocks, neither⟩
    exact ⟨blocks, fun ⟨filter, member, same⟩ => (neither filter member).2 same,
      fun ⟨filter, member, same⟩ => (neither filter member).1 same⟩

theorem combined_quiet {decisions : List FilterDecision} :
    (combined decisions ≠ .needData ∧ combined decisions ≠ .allow) ↔
      ∀ decision ∈ decisions, decision ≠ .needData ∧ decision ≠ .allow := by
  unfold combined
  constructor
  · intro quiet decision member
    constructor
    · rintro rfl
      by_cases allowed : FilterDecision.allow ∈ decisions <;> simp [allowed, member] at quiet
    · rintro rfl
      simp [member] at quiet
  · intro quiet
    have noAllow : FilterDecision.allow ∉ decisions := fun member => (quiet _ member).2 rfl
    have noNeed : FilterDecision.needData ∉ decisions := fun member => (quiet _ member).1 rfl
    rw [if_neg noAllow, if_neg noNeed]
    split <;> simp

theorem quiet_iff : (∀ field, fieldDecision data filters field ≠ .needData ∧
        fieldDecision data filters field ≠ .allow) ↔
      ∀ filter ∈ filters, ∀ field, filter.on data field ≠ .needData ∧ filter.on data field ≠ .allow := by
  unfold fieldDecision
  simp only [combined_quiet, List.mem_map, forall_exists_index, and_imp, forall_apply_eq_imp_iff₂]
  exact ⟨fun all filter member field => all field filter member,
    fun all field filter member => all filter member field⟩

/-- A handshake is filtered exactly if one of its fields is, and the order of the filters does not
    matter, provided that a blocked field comes with no decision for data or for allowing, by any filter on
    any field. -/
theorem filters_compose_iff (addr : SocketAddr) (prot : Protocol) (ext : Extensions) (hash pid : ShaHash)
    (filters : List HandshakeFilter) :
    ((shouldFilter (complete addr prot ext hash pid) filters = true ↔
        ∃ field, fieldDecision (complete addr prot ext hash pid) filters field = .block) ∧
      ∀ others, filters.Perm others → shouldFilter (complete addr prot ext hash pid) others =
        shouldFilter (complete addr prot ext hash pid) filters) ↔
    ((∃ field, Blocked (complete addr prot ext hash pid) filters field) → ∀ filter ∈ filters, ∀ field,
      filter.on (complete addr prot ext hash pid) field ≠ .needData ∧
        filter.on (complete addr prot ext hash pid) field ≠ .allow) := by
  generalize complete addr prot ext hash pid = data
  have blocked : (∃ field, fieldDecision data filters field = .block) ↔
      ∃ field, Blocked data filters field := by simp only [blocked_iff]
  rw [should_filter_iff, quiet_iff, blocked]
  constructor
  · rintro ⟨exact, _⟩ some
    exact (exact.mpr some).2
  · intro quiet
    exact ⟨⟨fun both => both.1, fun some => ⟨some, quiet some⟩⟩,
      fun others perm => should_filter_perm data perm.symm⟩

def passing : HandshakeFilter :=
  ⟨fun _ => .pass, fun _ => .pass, fun _ => .pass, fun _ => .pass, fun _ => .pass⟩

/-- One filter allows every address and another blocks every peer id: the handshake is let through. -/
theorem allowed_address_covers :
    let filters := [{ passing with onAddr := fun _ => .allow }, { passing with onPid := fun _ => .block }]
    let data := complete (.v4 127 0 0 1 6881) .bitTorrent .new ⟨Vector.replicate shaHashLen 1⟩
      ⟨Vector.replicate shaHashLen 2⟩
    fieldDecision data filters .pid = .block ∧ shouldFilter data filters = false := by
  decide

end Composition

end HandshakeFilters
