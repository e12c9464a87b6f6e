import Mathlib.Data.List.Nodup
import Bittorrent.Lib.Calls
import Bittorrent.Dht.Token

/-!
How long a token is honoured. The secret a token was made with is first the current one, then the
last one, then gone. When it moves on depends only on the times at which the store is asked, since
a secret is replaced when a call finds that it is due.
-/
namespace DhtLifetime
open Rust Action UtilSha DhtToken

def tenMinutes : Int := 10 * 60 * 1000000000

section Intervals
variable {last now : Int}

theorem intervals_floor (order : last ≤ now) :
    intervalsPassed last now = (now - last) / 60000000000 / 10 := by
  have minutes : 0 ≤ (now - last) / 60000000000 := by omega
  have first : (now - last).tdiv (60 * 1000000000) = (now - last) / 60000000000 :=
    Int.tdiv_eq_ediv_of_nonneg (by omega)
  unfold intervalsPassed refreshIntervalMins
  rw [first, Int.tdiv_eq_ediv_of_nonneg minutes]

theorem none_passed (order : last ≤ now) :
    intervalsPassed last now = 0 ↔ now < last + tenMinutes := by
  rw [intervals_floor order]
  unfold tenMinutes
  omega

theorem one_passed (order : last ≤ now) :
    intervalsPassed last now = 1 ↔ last + tenMinutes ≤ now ∧ now < last + 2 * tenMinutes := by
  rw [intervals_floor order]
  unfold tenMinutes
  omega

end Intervals

section Store
variable {ν ε : Type} (sha : Bytes → ShaHash)

def refreshed (s : TokenStore) (w : World ν) : TokenStore :=
  if intervalsPassed s.lastRefresh (w.utc 0) = 0 then s
  else if intervalsPassed s.lastRefresh (w.utc 0) = 1 then
    ⟨UInt32.ofNat (w.random 0), s.currSecret, w.utc 1⟩
  else ⟨UInt32.ofNat (w.random 1), UInt32.ofNat (w.random 0), w.utc 1⟩

theorem refresh_check_run (s : TokenStore) (w : World ν) :
    ∃ w', (s.refreshCheck : Action (World ν) ε TokenStore) w = (.ok (refreshed s w), w') ∧
      w'.log = w.log := by
  unfold TokenStore.refreshCheck refreshed
  rw [bind_run (show utcNow w = (.ok (w.utc 0), _) from rfl)]
  split_ifs
  · exact ⟨_, rfl, rfl⟩
  · exact ⟨_, rfl, rfl⟩
  · exact ⟨_, rfl, rfl⟩

inductive Use where
  | checkout (addr : IpAddr)
  | checkin (addr : IpAddr) (token : Token)

inductive Issue where
  | token (token : Token)
  | verdict (valid : Bool)

def ask : Use → TokenStore → Action (World ν) ε (Issue × TokenStore)
  | .checkout addr, s => do
    let (token, s) ← s.checkout sha addr
    pure (.token token, s)
  | .checkin addr token, s => do
    let (valid, s) ← s.checkin sha addr token
    pure (.verdict valid, s)

def answer (s : TokenStore) : Use → Issue
  | .checkout addr => .token (generateTokenFromAddr sha addr s.currSecret)
  | .checkin addr token =>
    .verdict (validateTokenFromAddr sha addr token s.currSecret s.lastSecret)

theorem checkin_run (g : TokenStore) (addr : IpAddr) (token : Token) (w : World ν) : ∃ w',
    (g.checkin sha addr token : Action (World ν) ε (Bool × TokenStore)) w =
      (.ok (validateTokenFromAddr sha addr token (refreshed g w).currSecret
        (refreshed g w).lastSecret, refreshed g w), w') := by
  obtain ⟨w', run, _⟩ := refresh_check_run (ε := ε) g w
  exact ⟨w', bind_run run⟩

theorem ask_run (use : Use) (s : TokenStore) (w : World ν) : ∃ w',
    (ask sha use s : Action (World ν) ε (Issue × TokenStore)) w =
      (.ok (answer sha (refreshed s w) use, refreshed s w), w') := by
  cases use with
  | checkout addr =>
    obtain ⟨w', run, _⟩ := refresh_check_run (ε := ε) s w
    have out : s.checkout sha addr w =
        (.ok (generateTokenFromAddr sha addr (refreshed s w).currSecret, refreshed s w), w') :=
      bind_run run
    exact ⟨w', bind_run out⟩
  | checkin addr token =>
    obtain ⟨w', back⟩ := checkin_run (ε := ε) sha s addr token w
    exact ⟨w', bind_run back⟩

theorem ask_ended {use : Use} {s s' : TokenStore} {w w' : World ν} {issue : Issue}
    (returned : (ask sha use s : Action (World ν) ε (Issue × TokenStore)) w =
      (.ok (issue, s'), w')) :
    s' = refreshed s w ∧ issue = answer sha s' use := by
  obtain ⟨w'', run⟩ := ask_run (ε := ε) sha use s w
  rw [returned] at run
  obtain ⟨same, _⟩ := Prod.mk.inj run
  obtain ⟨sameIssue, sameStore⟩ := Prod.mk.inj (Outcome.ok.inj same)
  exact ⟨sameStore, by rw [sameIssue, sameStore]⟩

end Store

section Stages
open List
variable {ν ε : Type} {sha : Bytes → ShaHash}

/-- The call replaces a secret. -/
def Due (s : TokenStore) (w : World ν) : Prop := intervalsPassed s.lastRefresh (w.utc 0) ≠ 0

instance (s : TokenStore) (w : World ν) : Decidable (Due s w) :=
  inferInstanceAs (Decidable (_ ≠ _))

/-- The clock is read once more when a secret is replaced. -/
def readingsAt (s : TokenStore) (w : World ν) : List Int :=
  if Due s w then [w.utc 0, w.utc 1] else [w.utc 0]

def drawnAt (s : TokenStore) (w : World ν) : List UInt32 :=
  if Due s w then
    if intervalsPassed s.lastRefresh (w.utc 0) = 1 then [UInt32.ofNat (w.random 0)]
    else [UInt32.ofNat (w.random 0), UInt32.ofNat (w.random 1)]
  else []

/-- When the secrets were last replaced, after a call. -/
def refreshTime (s : TokenStore) (w : World ν) : Int :=
  if Due s w then w.utc 1 else s.lastRefresh

abbrev Asked (ν : Type) := Visit Use TokenStore (World ν) Issue

def readings (visit : Asked ν) : List Int := readingsAt visit.on visit.met
def drawn (visit : Asked ν) : List UInt32 := drawnAt visit.on visit.met

/-- The secrets of `since` are both gone after these calls: the first call that finds them due comes
    two intervals late, or another one comes an interval after it. -/
def Outlasted (since : Int) (met : List (World ν)) : Prop :=
  ∃ v, met.find? (fun w => since + tenMinutes ≤ w.utc 0) = some v ∧
    (since + 2 * tenMinutes ≤ v.utc 0 ∨ ∃ w ∈ met, v.utc 1 + tenMinutes ≤ w.utc 0)

/-- Everything a call can do to the store. -/
inductive Turn (s : TokenStore) (w : World ν) : Prop where
  | none (passed : intervalsPassed s.lastRefresh (w.utc 0) = 0) (store : refreshed s w = s)
      (read : readingsAt s w = [w.utc 0]) (drew : drawnAt s w = [])
      (time : refreshTime s w = s.lastRefresh)
  | one (passed : intervalsPassed s.lastRefresh (w.utc 0) = 1)
      (store : refreshed s w = ⟨UInt32.ofNat (w.random 0), s.currSecret, w.utc 1⟩)
      (read : readingsAt s w = [w.utc 0, w.utc 1]) (drew : drawnAt s w = [UInt32.ofNat (w.random 0)])
      (time : refreshTime s w = w.utc 1)
  | both (zero : intervalsPassed s.lastRefresh (w.utc 0) ≠ 0)
      (single : intervalsPassed s.lastRefresh (w.utc 0) ≠ 1)
      (store : refreshed s w = ⟨UInt32.ofNat (w.random 1), UInt32.ofNat (w.random 0), w.utc 1⟩)
      (read : readingsAt s w = [w.utc 0, w.utc 1])
      (drew : drawnAt s w = [UInt32.ofNat (w.random 0), UInt32.ofNat (w.random 1)])
      (time : refreshTime s w = w.utc 1)

variable (s : TokenStore)

variable (w : World ν)

theorem turn : Turn s w := by
  by_cases zero : intervalsPassed s.lastRefresh (w.utc 0) = 0
  · have early : ¬Due s w := not_not.mpr zero
    exact .none zero (if_pos zero) (if_neg early) (if_neg early) (if_neg early)
  · have due : Due s w := zero
    by_cases single : intervalsPassed s.lastRefresh (w.utc 0) = 1
    · exact .one single ((if_neg zero).trans (if_pos single)) (if_pos due)
        ((if_pos due).trans (if_pos single)) (if_pos due)
    · exact .both zero single ((if_neg zero).trans (if_neg single)) (if_pos due)
        ((if_pos due).trans (if_neg single)) (if_pos due)

theorem last_refresh_refreshed :
    (refreshed s w).lastRefresh = refreshTime s w := by
  cases turn s w with
  | none _ store _ _ time | one _ store _ _ time | both _ _ store _ _ time => rw [store, time]

theorem first_reading_mem : w.utc 0 ∈ readingsAt s w := by
  cases turn s w with
  | none _ _ read | one _ _ read | both _ _ _ read => simp [read]

theorem last_refresh_read :
    (refreshed s w).lastRefresh ∈ s.lastRefresh :: readingsAt s w := by
  cases turn s w with
  | none _ store => simp [store]
  | one _ store read | both _ _ store read => simp [store, read]

theorem secret_drawn :
    (refreshed s w).currSecret ∈ s.currSecret :: drawnAt s w := by
  cases turn s w with
  | none _ store => simp [store]
  | one _ store _ drew | both _ _ store _ drew => simp [store, drew]

/-- A clock that never goes back, from the last refresh on. -/
def Forward (since : Int) (later : List (Asked ν)) : Prop :=
  (since :: later.flatMap readings).Pairwise (· ≤ ·)

variable {since : Int} {later : List (Asked ν)}

theorem forward_snoc {visit : Asked ν} (forward : Forward since (later ++ [visit])) :
    Forward since later ∧ (since :: readings visit).Pairwise (· ≤ ·) ∧
      ∀ u ∈ later, ∀ r ∈ readings u, ∀ r' ∈ readings visit, r ≤ r' := by
  unfold Forward at forward ⊢
  rw [flatMap_append, flatMap_singleton, pairwise_cons, pairwise_append] at forward
  obtain ⟨least, old, fresh, across⟩ := forward
  refine ⟨pairwise_cons.mpr ⟨fun r inside => least r (mem_append_left _ inside), old⟩,
    pairwise_cons.mpr ⟨fun r inside => least r (mem_append_right _ inside), fresh⟩, ?_⟩
  intro u member r inside r' inside'
  exact across r (mem_flatMap.mpr ⟨u, member, inside⟩) r' inside'

theorem forward_latest {visit : Asked ν} (forward : Forward since (later ++ [visit])) :
    ∀ u ∈ later ++ [visit], u.met.utc 0 ≤ visit.met.utc 0 := by
  obtain ⟨_, _, across⟩ := forward_snoc forward
  refine forall_mem_append.mpr ⟨fun u member => ?_, forall_mem_singleton.mpr (Int.le_refl _)⟩
  exact across u member _ (first_reading_mem _ _) _ (first_reading_mem _ _)

/-- Where a secret stands, `later` calls after the one that found it current and left the secrets of
    `since`. -/
inductive Stage (since : Int) (secret : UInt32) (later : List (Asked ν)) (s : TokenStore) : Prop where
  | current
      (waiting : ∀ u ∈ later, u.met.utc 0 < since + tenMinutes)
      (held : s.currSecret = secret) (time : s.lastRefresh = since)
  | previous (v : Asked ν)
      (first : (later.map Visit.met).find? (fun w => since + tenMinutes ≤ w.utc 0) = some v.met)
      (member : v ∈ later) (turned : v.met.utc 1 ∈ readings v)
      (soon : v.met.utc 0 < since + 2 * tenMinutes)
      (quiet : ∀ u ∈ later, u.met.utc 0 < v.met.utc 1 + tenMinutes)
      (held : s.lastSecret = secret) (fresh : s.currSecret ∈ later.flatMap drawn)
      (time : s.lastRefresh = v.met.utc 1)
  | gone (v : Asked ν)
      (first : (later.map Visit.met).find? (fun w => since + tenMinutes ≤ w.utc 0) = some v.met)
      (member : v ∈ later) (turned : v.met.utc 1 ∈ readings v)
      (late : since + 2 * tenMinutes ≤ v.met.utc 0 ∨ ∃ u ∈ later, v.met.utc 1 + tenMinutes ≤ u.met.utc 0)
      (curr : s.currSecret ∈ later.flatMap drawn) (last : s.lastSecret ∈ later.flatMap drawn)

theorem first_snoc {visit : Asked ν} {late : World ν → Bool} {w : World ν}
    (first : (later.map Visit.met).find? late = some w) :
    ((later ++ [visit]).map Visit.met).find? late = some w := by
  rw [map_append, List.find?_append, first]
  rfl

theorem drawn_snoc {visit : Asked ν} {secret : UInt32} : secret ∈ (later ++ [visit]).flatMap drawn ↔
      secret ∈ later.flatMap drawn ∨ secret ∈ drawnAt visit.on visit.met := by
  rw [flatMap_append, mem_append, flatMap_singleton]
  rfl

section Step
variable {since : Int} {secret : UInt32} {later : List (Asked ν)} {visit : Asked ν}

section
variable (waiting : ∀ u ∈ later, u.met.utc 0 < since + tenMinutes)
include waiting

theorem first_late (late : since + tenMinutes ≤ visit.met.utc 0) :
    ((later ++ [visit]).map Visit.met).find? (fun w => since + tenMinutes ≤ w.utc 0) =
      some visit.met := by
  have none : (later.map Visit.met).find? (fun w => since + tenMinutes ≤ w.utc 0) = none := by
    rw [List.find?_eq_none]
    intro w member
    obtain ⟨u, inside, rfl⟩ := mem_map.mp member
    have early := waiting u inside
    simpa using early
  rw [map_append, List.find?_append, none]
  simp [late]

theorem current_step (held : visit.on.currSecret = secret) (time : visit.on.lastRefresh = since)
    (forward : Forward since (later ++ [visit])) :
    Stage since secret (later ++ [visit]) (refreshed visit.on visit.met) := by
  obtain ⟨_, inner, _⟩ := forward_snoc forward
  have order : visit.on.lastRefresh ≤ visit.met.utc 0 := by
    rw [time]
    exact rel_of_pairwise_cons inner (first_reading_mem _ _)
  cases turn visit.on visit.met with
  | none passed store =>
    rw [none_passed order, time] at passed
    rw [store]
    refine .current ?_ held time
    exact forall_mem_append.mpr ⟨waiting, forall_mem_singleton.mpr passed⟩
  | one passed store read drew =>
    rw [one_passed order, time] at passed
    have inOrder : visit.met.utc 0 ≤ visit.met.utc 1 := by
      have both := (pairwise_cons.mp inner).2
      unfold readings at both
      rw [read] at both
      exact rel_of_pairwise_cons both (mem_singleton_self _)
    have quiet : ∀ u ∈ later ++ [visit], u.met.utc 0 < visit.met.utc 1 + tenMinutes := by
      intro u member
      have before := forward_latest forward u member
      omega
    rw [store]
    exact .previous visit (first_late waiting passed.1) (by simp) (by simp [readings, read]) passed.2 quiet
      held (drawn_snoc.mpr (.inr (by simp [drew]))) rfl
  | both zero single store read drew =>
    have late : since + 2 * tenMinutes ≤ visit.met.utc 0 := by
      rw [ne_eq, none_passed order, time] at zero
      rw [ne_eq, one_passed order, time] at single
      omega
    rw [store]
    refine .gone visit (first_late waiting ?_) (by simp) (by simp [readings, read]) (.inl late)
      (drawn_snoc.mpr (.inr (by simp [drew]))) (drawn_snoc.mpr (.inr (by simp [drew])))
    omega

end

/-- Once the current secret is a later one, the next change makes both later ones. -/
theorem fresh_step (fresh : visit.on.currSecret ∈ later.flatMap drawn)
    (turned : intervalsPassed visit.on.lastRefresh (visit.met.utc 0) ≠ 0) :
    (refreshed visit.on visit.met).currSecret ∈ (later ++ [visit]).flatMap drawn ∧
      (refreshed visit.on visit.met).lastSecret ∈ (later ++ [visit]).flatMap drawn := by
  cases turn visit.on visit.met with
  | none passed => exact absurd passed turned
  | one _ store _ drew =>
    rw [store]
    exact ⟨drawn_snoc.mpr (.inr (by simp [drew])), drawn_snoc.mpr (.inl fresh)⟩
  | both _ _ store _ drew =>
    rw [store]
    exact ⟨drawn_snoc.mpr (.inr (by simp [drew])), drawn_snoc.mpr (.inr (by simp [drew]))⟩

theorem stage_step (stage : Stage since secret later visit.on)
    (forward : Forward since (later ++ [visit])) :
    Stage since secret (later ++ [visit]) (refreshed visit.on visit.met) := by
  cases stage with
  | current waiting held time => exact current_step waiting held time forward
  | previous v first member turned soon quiet held fresh time =>
    obtain ⟨_, _, across⟩ := forward_snoc forward
    have order : visit.on.lastRefresh ≤ visit.met.utc 0 := by
      rw [time]
      exact across v member _ turned _ (first_reading_mem _ _)
    by_cases passed : intervalsPassed visit.on.lastRefresh (visit.met.utc 0) = 0
    · rw [show refreshed visit.on visit.met = visit.on from if_pos passed]
      rw [none_passed order, time] at passed
      refine .previous v (first_snoc first) (mem_append_left _ member) turned soon ?_ held
        (drawn_snoc.mpr (.inl fresh)) time
      exact forall_mem_append.mpr ⟨quiet, forall_mem_singleton.mpr passed⟩
    · obtain ⟨curr, last⟩ := fresh_step fresh passed
      have late : v.met.utc 1 + tenMinutes ≤ visit.met.utc 0 := by
        rw [none_passed order, time] at passed
        exact Int.not_lt.mp passed
      exact .gone v (first_snoc first) (mem_append_left _ member) turned (.inr ⟨visit, by simp, late⟩)
        curr last
  | gone v first member turned late curr last =>
    have both : (refreshed visit.on visit.met).currSecret ∈ (later ++ [visit]).flatMap drawn ∧
        (refreshed visit.on visit.met).lastSecret ∈ (later ++ [visit]).flatMap drawn := by
      by_cases passed : intervalsPassed visit.on.lastRefresh (visit.met.utc 0) = 0
      · rw [show refreshed visit.on visit.met = visit.on from if_pos passed]
        exact ⟨drawn_snoc.mpr (.inl curr), drawn_snoc.mpr (.inl last)⟩
      · exact fresh_step curr passed
    refine .gone v (first_snoc first) (mem_append_left _ member) turned (late.imp_right ?_) both.1 both.2
    exact fun ⟨u, inside, late⟩ => ⟨u, mem_append_left _ inside, late⟩

end Step

/-- The whole life of a secret, over every history of calls after the one that left it current. -/
theorem stage_history {s g : TokenStore} (calls : Calls (ε := ε) (ask sha) s later g)
    (forward : Forward s.lastRefresh later) :
    Stage s.lastRefresh s.currSecret later g := by
  refine calls_invariant
    (I := fun later g => Forward s.lastRefresh later → Stage s.lastRefresh s.currSecret later g)
    ?_ ?_ calls forward
  · intro _
    exact .current (by simp) rfl rfl
  · intro history visit g' before returned forward
    obtain ⟨store, _⟩ := ask_ended sha returned
    rw [store]
    exact stage_step (before (forward_snoc forward).1) forward

/-- A part of the store that each call keeps or takes from its news is found among all the news. -/
theorem part_history {β : Type} {part : TokenStore → β} {news : Asked ν → List β}
    (each : ∀ visit, part (refreshed visit.on visit.met) ∈ part visit.on :: news visit)
    {start g : TokenStore} {history : List (Asked ν)}
    (calls : Calls (ε := ε) (ask sha) start history g) :
    part g ∈ part start :: history.flatMap news := by
  refine calls_invariant (I := fun history g => part g ∈ part start :: history.flatMap news) ?_ ?_ calls
  · exact mem_cons_self
  · intro history visit g' before returned
    obtain ⟨store, _⟩ := ask_ended sha returned
    rw [store]
    rw [flatMap_append, flatMap_singleton, ← cons_append, mem_append]
    rcases mem_cons.mp (each visit) with same | new
    · rw [same]
      exact .inl before
    · exact .inr new

theorem forward_from {start middle : TokenStore} {earlier : List (Asked ν)}
    (calls : Calls (ε := ε) (ask sha) start earlier middle)
    (forward : Forward start.lastRefresh (earlier ++ later)) :
    Forward middle.lastRefresh later := by
  unfold Forward at forward ⊢
  rw [flatMap_append, ← cons_append, pairwise_append] at forward
  obtain ⟨_, rest, across⟩ := forward
  have read := part_history (fun visit => last_refresh_read visit.on visit.met) calls
  exact pairwise_cons.mpr ⟨across _ read, rest⟩

end Stages

section Verdicts
variable {ν ε : Type} {sha : Bytes → ShaHash} {start g : TokenStore} {before between : List (Asked ν)}
variable {issue : Asked ν} {addr : IpAddr} {token : Token} {w : World ν}


def closing (use : Use) (g : TokenStore) (w : World ν) : Asked ν := ⟨use, g, w, .verdict false, w⟩

structure Issued (ε : Type) (sha : Bytes → ShaHash) (start g : TokenStore) (before between : List (Asked ν))
    (issue : Asked ν) (addr : IpAddr) (token : Token) (ending : Asked ν) : Prop where
  earlier : Calls (ε := ε) (ask sha) start before issue.on
  upTo : Calls (ε := ε) (ask sha) start (before ++ [issue]) (refreshed issue.on issue.met)
  made : token = generateTokenFromAddr sha addr (refreshed issue.on issue.met).currSecret
  forward : Forward start.lastRefresh (before ++ issue :: (between ++ [ending]))
  stage : Stage (refreshTime issue.on issue.met) (refreshed issue.on issue.met).currSecret
    (between ++ [ending]) (refreshed g ending.met)

theorem issued (use : Use)
    (calls : Calls (ε := ε) (ask sha) start (before ++ issue :: between) g)
    (forward : (start.lastRefresh ::
      ((before ++ issue :: between).flatMap readings ++ readingsAt g w)).Pairwise (· ≤ ·))
    (asked : issue.asked = .checkout addr) (given : issue.answer = .token token) :
    Issued ε sha start g before between issue addr token (closing use g w) := by
  obtain ⟨middle, first, rest⟩ := calls_split calls (before ++ [issue]) between (by simp)
  obtain ⟨earlier, returned⟩ := calls_last first
  obtain ⟨store, gave⟩ := ask_ended sha returned
  subst store
  have whole : Forward start.lastRefresh (before ++ issue :: (between ++ [closing use g w])) := by
    unfold Forward
    rw [← List.cons_append, ← List.append_assoc, List.flatMap_append, List.flatMap_singleton]
    exact forward
  have onward : Forward (refreshTime issue.on issue.met) (between ++ [closing use g w]) := by
    rw [← last_refresh_refreshed]
    exact forward_from first (by simpa using whole)
  refine ⟨earlier, first, ?_, whole, ?_⟩
  · rw [asked, given] at gave
    exact Issue.token.inj gave
  · have before := stage_history rest (by
      rw [last_refresh_refreshed]
      exact (forward_snoc onward).1)
    rw [last_refresh_refreshed] at before
    have on : Stage _ _ between (closing use g w).on := before
    exact stage_step on onward

theorem later_reading {since : Int} {rest : List (Asked ν)} (forward : Forward since (issue :: rest)) :
    ∀ u ∈ rest, ∀ r ∈ readings u, issue.met.utc 0 ≤ r := by
  have split : (issue :: rest).flatMap readings = readings issue ++ rest.flatMap readings := rfl
  unfold Forward at forward
  rw [split, List.pairwise_cons, List.pairwise_append] at forward
  intro u member r inside
  exact forward.2.2.2 _ (first_reading_mem _ _) r (List.mem_flatMap.mpr ⟨u, member, inside⟩)

/-- A call never leaves secrets that are already due. -/
theorem refresh_time_recent {s : TokenStore}
    (forward : (s.lastRefresh :: readingsAt s w).Pairwise (· ≤ ·)) :
    w.utc 0 < refreshTime s w + tenMinutes := by
  have order : s.lastRefresh ≤ w.utc 0 :=
    List.rel_of_pairwise_cons forward (first_reading_mem _ _)
  have turned : readingsAt s w = [w.utc 0, w.utc 1] → w.utc 0 ≤ w.utc 1 := by
    intro read
    rw [read] at forward
    simp only [List.pairwise_cons, List.mem_cons] at forward
    exact forward.2.1 _ (.inl rfl)
  cases turn s w with
  | none passed _ _ _ time =>
    rw [time]
    exact (none_passed order).mp passed
  | one _ _ read _ time | both _ _ _ read _ time =>
    have later := turned read
    rw [time]
    unfold tenMinutes
    omega

/-- Both secrets cannot have been replaced within ten minutes. -/
theorem not_gone {ending v : Asked ν}
    (of : Issued ε sha start g before between issue addr token ending)
    (young : ending.met.utc 0 < issue.met.utc 0 + tenMinutes) (member : v ∈ between ++ [ending])
    (turned : v.met.utc 1 ∈ readings v) :
    ¬ (refreshTime issue.on issue.met + 2 * tenMinutes ≤ v.met.utc 0 ∨
      ∃ u ∈ between ++ [ending], v.met.utc 1 + tenMinutes ≤ u.met.utc 0) := by
  have forward : Forward _ ((issue :: between) ++ [ending]) := forward_from of.earlier of.forward
  have notAfter := forward_latest forward
  have inner : (issue.on.lastRefresh :: readingsAt issue.on issue.met).Pairwise (· ≤ ·) :=
    forward.sublist (List.Sublist.cons_cons _ (List.sublist_append_left _ _))
  have recent := refresh_time_recent inner
  rintro (late | ⟨u, inside, late⟩)
  · have last := notAfter v (.tail _ member)
    omega
  · have first := later_reading forward v member _ turned
    have last := notAfter u (.tail _ inside)
    omega

/-- A token is honoured for ten minutes, whatever calls come between. -/
theorem token_honoured
    (calls : Calls (ε := ε) (ask sha) start (before ++ issue :: between) g)
    (forward : (start.lastRefresh ::
      ((before ++ issue :: between).flatMap readings ++ readingsAt g w)).Pairwise (· ≤ ·))
    (asked : issue.asked = .checkout addr) (given : issue.answer = .token token)
    (young : w.utc 0 < issue.met.utc 0 + tenMinutes) :
    ∃ g' w', (g.checkin sha addr token : Action (World ν) ε (Bool × TokenStore)) w =
      (.ok (true, g'), w') := by
  have of := issued (.checkin addr token) calls forward asked given
  obtain ⟨w', run⟩ := checkin_run (ε := ε) sha g addr token w
  refine ⟨refreshed g w, w', ?_⟩
  rw [run, of.made]
  have stage : Stage _ _ _ (refreshed g w) := of.stage
  cases stage with
  | current _ held | previous _ _ _ _ _ _ held => simp [validateTokenFromAddr, held]
  | gone v _ member turned late => exact absurd late (not_gone of young member turned)

/-- Which tokens are refused: those whose secret has been replaced twice. -/
theorem token_refused_iff
    (calls : Calls (ε := ε) (ask sha) start (before ++ issue :: between) g)
    (forward : (start.lastRefresh ::
      ((before ++ issue :: between).flatMap readings ++ readingsAt g w)).Pairwise (· ≤ ·))
    (distinct : (start.currSecret :: start.lastSecret ::
      ((before ++ issue :: between).flatMap drawn ++ drawnAt g w)).Nodup)
    (injective : Function.Injective (generateTokenFromAddr sha addr))
    (asked : issue.asked = .checkout addr) (given : issue.answer = .token token) :
    ∃ valid g' w', (g.checkin sha addr token : Action (World ν) ε (Bool × TokenStore)) w =
      (.ok (valid, g'), w') ∧
      (valid = false ↔
        Outlasted (refreshTime issue.on issue.met) (between.map Visit.met ++ [w])) := by
  have of := issued (.checkin addr token) calls forward asked given
  obtain ⟨w', run⟩ := checkin_run (ε := ε) sha g addr token w
  refine ⟨_, refreshed g w, w', run, ?_⟩
  have worlds : (between ++ [closing (.checkin addr token) g w]).map Visit.met =
      between.map Visit.met ++ [w] := by simp [closing]
  have stage : Stage _ _ _ (refreshed g w) := of.stage
  rw [of.made]
  cases stage with
  | current waiting held =>
    have none : ¬Outlasted (refreshTime issue.on issue.met) (between.map Visit.met ++ [w]) := by
      rintro ⟨v, found, _⟩
      have late := List.find?_some found
      obtain ⟨u, member, rfl⟩ := List.mem_map.mp (worlds ▸ List.mem_of_find?_eq_some found)
      have early := waiting u member
      simp only [decide_eq_true_eq] at late
      omega
    simp [validateTokenFromAddr, held, none]
  | previous v found _ _ soon quiet held =>
    have none : ¬Outlasted (refreshTime issue.on issue.met) (between.map Visit.met ++ [w]) := by
      rw [← worlds]
      rintro ⟨v', found', late⟩
      rw [found] at found'
      obtain rfl := Option.some.inj found'
      rcases late with late | ⟨u, member, late⟩
      · omega
      · obtain ⟨visit, inside, rfl⟩ := List.mem_map.mp member
        have early := quiet visit inside
        omega
    simp [validateTokenFromAddr, held, none]
  | gone v found _ _ late curr last =>
    have outlasted : Outlasted (refreshTime issue.on issue.met) (between.map Visit.met ++ [w]) := by
      rw [← worlds]
      exact ⟨v.met, found, late.imp_right fun ⟨u, inside, later⟩ => ⟨u.met, List.mem_map_of_mem inside, later⟩⟩
    have drewBefore := part_history (fun visit => secret_drawn visit.on visit.met) of.upTo
    have apart : ∀ secret ∈ (between ++ [closing (.checkin addr token) g w]).flatMap drawn,
        secret ≠ (refreshed issue.on issue.met).currSecret := by
      intro secret later same
      have split : (start.currSecret :: ((before ++ [issue]).flatMap drawn)) ++
          (between ++ [closing (.checkin addr token) g w]).flatMap drawn =
          start.currSecret :: ((before ++ issue :: between).flatMap drawn ++ drawnAt g w) := by
        simp [closing, drawn]
      have nodup := distinct.sublist (List.Sublist.cons_cons _ (List.sublist_cons_self _ _))
      rw [← split] at nodup
      exact (List.disjoint_of_nodup_append nodup) drewBefore (same ▸ later)
    have currNot := apart _ curr
    have lastNot := apart _ last
    simp [validateTokenFromAddr, injective.eq_iff, currNot, lastNot, outlasted]

/-- Eight bytes are kept, the others are zero: enough to tell the secrets of an IPv4 address apart. -/
def padded (bytes : Bytes) : ShaHash := ⟨Vector.ofFn fun i => bytes.getD i 0⟩

theorem padded_injective (a b c d : UInt8) :
    Function.Injective (generateTokenFromAddr padded (.v4 a b c d)) := by
  intro n m same
  apply four_bytes_to_array_injective
  have hashes := congrArg (fun h : ShaHash => [h.hash[4], h.hash[5], h.hash[6], h.hash[7]]) same
  simpa [generateTokenFromAddr, padded, fourBytesToArray, IpAddr.octets] using hashes

end Verdicts

section Spacing

def host : IpAddr := .v4 10 0 0 1

/-- The clock shows one nanosecond more at every reading. -/
def atMinute (minute : Int) : World Unit :=
  ⟨fixed 0, fun k => minute * (60 * 1000000000) + k, fun k => 3 + k, fun _ => true, []⟩

def firstStore : TokenStore := ⟨1, 2, 0⟩

def asking (s : TokenStore) (minute : Int) : Asked Unit :=
  ⟨.checkout host, s, atMinute minute,
    .token (generateTokenFromAddr padded host (refreshed s (atMinute minute)).currSecret),
    ((ask padded (.checkout host) s : Action _ Unit _) (atMinute minute)).2⟩

theorem asking_calls {s start : TokenStore} {history : List (Asked Unit)} (minute : Int)
    (calls : Calls (ε := Unit) (ask padded) start history s) :
    Calls (ε := Unit) (ask padded) start (history ++ [asking s minute])
      (refreshed s (atMinute minute)) := by
  refine calls_more calls rfl ?_
  obtain ⟨w', run⟩ := ask_run (ε := Unit) padded (.checkout host) s (atMinute minute)
  unfold asking
  rw [run]
  rfl

def firstToken : Token := generateTokenFromAddr padded host 1

theorem token_honoured_nine : ∃ g' w',
    (firstStore.checkin padded host firstToken : Action (World Unit) Unit (Bool × TokenStore))
      (atMinute 9) = (.ok (true, g'), w') := by
  have calls : Calls (ε := Unit) (ask padded) firstStore ([] ++ asking firstStore 0 :: [])
      firstStore := asking_calls 0 .none
  exact token_honoured calls (by decide) rfl rfl (by decide)

theorem token_refused_twenty : ∃ valid g' w',
    (firstStore.checkin padded host firstToken : Action (World Unit) Unit (Bool × TokenStore))
      (atMinute 20) = (.ok (valid, g'), w') ∧ (valid = false ↔ Outlasted 0 [atMinute 20]) := by
  have calls : Calls (ε := Unit) (ask padded) firstStore ([] ++ asking firstStore 0 :: [])
      firstStore := asking_calls 0 .none
  exact token_refused_iff calls (by decide) (by decide) (padded_injective 10 0 0 1) rfl rfl

def secondStore : TokenStore := refreshed firstStore (atMinute 19)

/-- The second call, after 19 minutes, keeps the first secret as the last one for ten minutes
    more: the token is still accepted 28 minutes after it was given out. -/
theorem token_accepted_late :
    Calls (ε := Unit) (ask padded) firstStore [asking firstStore 0, asking firstStore 19] secondStore ∧
    (firstStore.lastRefresh :: ([asking firstStore 0, asking firstStore 19].flatMap readings ++
      readingsAt secondStore (atMinute 28))).Pairwise (· ≤ ·) ∧
    (firstStore.currSecret :: firstStore.lastSecret ::
      ([asking firstStore 0, asking firstStore 19].flatMap drawn ++
        drawnAt secondStore (atMinute 28))).Nodup ∧
    Function.Injective (generateTokenFromAddr padded host) ∧
    (asking firstStore 0).asked = .checkout host ∧
    (asking firstStore 0).answer = .token firstToken ∧
    (asking firstStore 0).met.utc 0 + 2 * tenMinutes ≤ (atMinute 28).utc 0 ∧
    ∃ g' w', (secondStore.checkin padded host firstToken :
      Action (World Unit) Unit (Bool × TokenStore)) (atMinute 28) = (.ok (true, g'), w') := by
  refine ⟨?_, by decide, by decide, padded_injective 10 0 0 1, rfl, rfl, by decide, _, _, rfl⟩
  exact asking_calls 19 (asking_calls 0 .none)

end Spacing

end DhtLifetime
