import Bittorrent.Lib.Outcome

/-!
Stateful Rust code: an action takes a state and returns an outcome and the state it left, which
is kept when the outcome is an error, a panic or a cut-off. `Triple` is a Hoare triple whose
postcondition sees both, and `Keeps` is the triple of an invariant.
-/
namespace Rust

def Action (σ ε α : Type) := σ → Outcome ε α × σ

namespace Action
variable {σ ε α β : Type}

def andThen (m : Action σ ε α) (f : α → Action σ ε β) : Action σ ε β := fun s =>
  match m s with
  | (.ok a, s') => f a s'
  | (.err e, s') => (.err e, s')
  | (.panic, s') => (.panic, s')
  | (.unfinished, s') => (.unfinished, s')

instance : Monad (Action σ ε) where
  pure a := fun s => (.ok a, s)
  bind := andThen

def get : Action σ ε σ := fun s => (.ok s, s)
def modify (f : σ → σ) : Action σ ε Unit := fun s => (.ok (), f s)
def fail (e : ε) : Action σ ε α := fun s => (.err e, s)
def abort : Action σ ε α := fun s => (.panic, s)
def cutOff : Action σ ε α := fun s => (.unfinished, s)
def lift (m : Outcome ε α) : Action σ ε α := fun s => (m, s)

/-- `let _ = m;`: a returned error is dropped, a panic is not. -/
def ignore (m : Action σ ε α) : Action σ ε Unit := fun s =>
  match m s with
  | (.ok _, s') => (.ok (), s')
  | (.err _, s') => (.ok (), s')
  | (.panic, s') => (.panic, s')
  | (.unfinished, s') => (.unfinished, s')

variable {m : Action σ ε α} {f : α → Action σ ε β} {s : σ}
variable {s' : σ}

theorem bind_eq (m : Action σ ε α) (f : α → Action σ ε β) (s : σ) : (m >>= f) s =
    match m s with
    | (.ok a, s') => f a s'
    | (.err e, s') => (.err e, s')
    | (.panic, s') => (.panic, s')
    | (.unfinished, s') => (.unfinished, s') := rfl

theorem bind_ok {b : β} (ended : (m >>= f) s = (.ok b, s')) :
    ∃ a s₁, m s = (.ok a, s₁) ∧ f a s₁ = (.ok b, s') := by
  rw [bind_eq] at ended
  rcases first : m s with ⟨outcome, s₁⟩
  rw [first] at ended
  cases outcome with
  | ok a => exact ⟨a, s₁, rfl, ended⟩
  | err e | panic | unfinished => cases ended

variable {a : α}

theorem bind_run (first : m s = (.ok a, s')) : (m >>= f) s = f a s' := by
  rw [bind_eq, first]

theorem bind_ended {o : Outcome ε α} : m s = (o, s') → (m >>= f) s =
    match o with
    | .ok a => f a s'
    | .err e => (.err e, s')
    | .panic => (.panic, s')
    | .unfinished => (.unfinished, s') := by
  intro first
  rw [bind_eq, first]
  cases o <;> rfl

theorem bind_stops (stopped : ∀ a, (m s).1 ≠ .ok a) :
    (∀ b, ((m >>= f) s).1 ≠ .ok b) ∧ ((m >>= f) s).2 = (m s).2 := by
  rw [bind_eq]
  rcases ended : m s with ⟨outcome, s'⟩
  rw [ended] at stopped
  cases outcome with
  | ok a => exact absurd rfl (stopped a)
  | err e | panic | unfinished => exact ⟨by simp, rfl⟩

theorem bind_assoc {γ : Type} (m : Action σ ε α) (f : α → Action σ ε β) (g : β → Action σ ε γ) :
    ((m >>= f) >>= g) = (m >>= fun a => f a >>= g) := by
  funext s
  rw [bind_eq, bind_eq, bind_eq]
  rcases m s with ⟨outcome, s'⟩
  cases outcome <;> rfl

theorem discard_state (m : Action σ ε α) (b : β) (s : σ) : ((m >>= fun _ => pure b) s).2 = (m s).2 := by
  rw [bind_eq]
  rcases m s with ⟨outcome, s'⟩
  cases outcome <;> rfl

theorem get_bind (f : σ → Action σ ε β) (s : σ) : (get >>= f) s = f s s := rfl

theorem modify_bind (f : σ → σ) (g : Unit → Action σ ε β) (s : σ) : (modify f >>= g) s = g () (f s) := rfl

theorem lift_bind (a : α) (f : α → Action σ ε β) (s : σ) : (lift (.ok a) >>= f) s = f a s := rfl

theorem bind_panic (first : (m s).1 = .panic) : ((m >>= f) s).1 = .panic := by
  rw [bind_eq]
  rcases ended : m s with ⟨outcome, s'⟩
  rw [ended] at first
  dsimp only at first
  rw [first]

def forEach {γ : Type} (body : γ → Action σ ε Unit) : List γ → Action σ ε Unit
  | [] => pure ()
  | x :: rest => do
    body x
    forEach body rest

def Triple (P : σ → Prop) (m : Action σ ε α) (Q : Outcome ε α → σ → Prop) : Prop :=
  ∀ s, P s → Q (m s).1 (m s).2

/-- The invariant holds after the action however it ends. -/
def Keeps (I : σ → Prop) (m : Action σ ε α) : Prop := Triple I m fun _ s => I s

variable {P I : σ → Prop} {Q : Outcome ε α → σ → Prop} {R : Outcome ε β → σ → Prop}

theorem triple_pure (post : ∀ s, P s → Q (.ok a) s) : Triple P (pure a : Action σ ε α) Q := post

theorem triple_modify {f : σ → σ} {Q : Outcome ε Unit → σ → Prop}
    (post : ∀ s, P s → Q (.ok ()) (f s)) : Triple P (modify f) Q := post

variable {P' : σ → Prop}

theorem triple_weaken {Q' : Outcome ε α → σ → Prop} (main : Triple P m Q) (pre : ∀ s, P' s → P s)
    (post : ∀ o s, Q o s → Q' o s) :
    Triple P' m Q' := fun s holds => post _ _ (main s (pre s holds))

/-- Sequencing: the second action runs only after a returned value, and the postcondition must
    be closed under every other way the first one can end. -/
theorem triple_bind (first : Triple P m Q) (rest : ∀ a, Triple (Q (.ok a)) (f a) R)
    (err : ∀ e s, Q (.err e) s → R (.err e) s) (panic : ∀ s, Q .panic s → R .panic s)
    (cut : ∀ s, Q .unfinished s → R .unfinished s) : Triple P (m >>= f) R := by
  intro s holds
  have after := first s holds
  rw [bind_eq]
  rcases ended : m s with ⟨outcome, s'⟩
  rw [ended] at after
  cases outcome with
  | ok a => exact rest a s' after
  | err e => exact err e s' after
  | panic => exact panic s' after
  | unfinished => exact cut s' after

theorem triple_then {J K : σ → Prop} (first : Triple P m fun _ s => J s)
    (rest : ∀ a, Triple J (f a) fun _ s => K s) (stopped : ∀ s, J s → K s) :
    Triple P (m >>= f) fun _ s => K s :=
  triple_bind first rest (fun _ => stopped) stopped stopped

/-- The rest may use a fact that a lifted outcome shows. -/
theorem triple_lift_bind {m : Outcome ε α} {K : σ → Prop}
    (rest : ∀ a, m = .ok a → Triple P (f a) fun _ s => K s) (stopped : ∀ s, P s → K s) :
    Triple P (lift m >>= f) fun _ s => K s := by
  cases m with
  | ok a => exact rest a rfl
  | err e | panic | unfinished => exact stopped

theorem triple_get_bind {f : σ → Action σ ε β}
    (rest : ∀ s, P s → Triple (fun s' => s' = s) (f s) R) : Triple P (get >>= f) R :=
  fun s holds => rest s holds s rfl

variable {c : Prop}
variable {m' : Action σ ε α}

theorem triple_ite [Decidable c] (yes : c → Triple P m Q) (no : ¬ c → Triple P m' Q) :
    Triple P (if c then m else m') Q :=
  iteInduction (motive := (Triple P · Q)) yes no

theorem keeps_bind (first : Keeps I m) (rest : ∀ a, Keeps I (f a)) : Keeps I (m >>= f) :=
  triple_bind first rest (fun _ _ h => h) (fun _ h => h) (fun _ h => h)

theorem bind_keeps (first : I (m s).2) (rest : ∀ a, Keeps I (f a)) : I ((m >>= f) s).2 :=
  triple_then (P := (· = s)) (J := I) (fun _ same => same ▸ first) rest (fun _ holds => holds) s rfl

theorem keeps_ended {o : Outcome ε α} (kept : Keeps I m) (holds : I s) (ended : m s = (o, s')) :
    I s' := by
  have after := kept s holds
  rwa [ended] at after

theorem keeps_pure (a : α) : Keeps I (pure a : Action σ ε α) := fun _ h => h
theorem keeps_get : Keeps I (get : Action σ ε σ) := fun _ h => h
theorem keeps_abort : Keeps I (abort : Action σ ε α) := fun _ h => h
theorem keeps_cut_off : Keeps I (cutOff : Action σ ε α) := fun _ h => h
theorem keeps_lift (m : Outcome ε α) : Keeps I (lift m : Action σ ε α) := fun _ h => h

theorem keeps_modify {f : σ → σ} (step : ∀ s, I s → I (f s)) :
    Keeps I (modify f : Action σ ε Unit) := step

theorem keeps_ite [Decidable c] (yes : c → Keeps I m) (no : ¬ c → Keeps I m') :
    Keeps I (if c then m else m') :=
  iteInduction yes no

theorem keeps_for_each {γ : Type} {body : γ → Action σ ε Unit} (each : ∀ x, Keeps I (body x))
    (list : List γ) : Keeps I (forEach body list) := by
  induction list with
  | nil => exact keeps_pure ()
  | cons x rest ih => exact keeps_bind (each x) fun _ => ih

/-- Every value the action returns satisfies `P`, from whatever state it starts. -/
def Returns (P : α → Prop) (m : Action σ ε α) : Prop := ∀ s a, (m s).1 = .ok a → P a

theorem returns_pure {P : α → Prop} (holds : P a) : Returns P (pure a : Action σ ε α) := by
  intro s b same
  cases same
  exact holds

theorem returns_then {P : α → Prop} {Q : β → Prop} (first : Returns P m)
    (rest : ∀ a, P a → Returns Q (f a)) : Returns Q (m >>= f) := by
  intro s b same
  obtain ⟨a, s', ended, same⟩ := bind_ok (show (m >>= f) s = (.ok b, ((m >>= f) s).2) by rw [← same])
  exact rest a (first s a (congrArg Prod.fst ended)) s' b (congrArg Prod.fst same)

theorem returns_bind {P : β → Prop} (rest : ∀ a, Returns P (f a)) : Returns P (m >>= f) :=
  returns_then (P := fun _ => True) (fun _ _ _ => trivial) fun a _ => rest a

theorem returns_ite {P : α → Prop} [Decidable c] (yes : Returns P m) (no : Returns P m') :
    Returns P (if c then m else m') :=
  iteInduction (fun _ => yes) fun _ => no

theorem triple_returns {P' : α → Prop} (main : Triple P m Q) (returned : Returns P' m) :
    Triple P m fun o s => Q o s ∧ ∀ a, o = .ok a → P' a :=
  fun s holds => ⟨main s holds, fun a same => returned s a same⟩

variable {A : α → σ → Prop} {B : β → σ → Prop}

/-- From a state with `P` the action returns, and `Q` holds of what it returns and leaves. If
    there is an excuse `E`, it may panic instead. -/
def Runs (E : Prop) (P : σ → Prop) (m : Action σ ε α) (Q : α → σ → Prop) : Prop :=
  ∀ s, P s → (∃ a s', m s = (.ok a, s') ∧ Q a s') ∨ (E ∧ (m s).1 = .panic)

/-- The same holds afterwards. -/
abbrev Stays (ε : Type) {σ α : Type} (E : Prop) (P : σ → Prop) (m : Action σ ε α) : Prop :=
  Runs E P m fun _ s => P s

/-- The same holds afterwards, and something of the value. -/
abbrev Gives (ε : Type) {σ α : Type} (E : Prop) (P : σ → Prop) (m : Action σ ε α) (F : α → Prop) : Prop :=
  Runs E P m fun a s => F a ∧ P s

section Runs
variable {E : Prop} {Q : α → σ → Prop} {R : β → σ → Prop}
variable {a : α}

theorem runs_pure (post : ∀ s, P s → Q a s) : Runs E P (pure a : Action σ ε α) Q :=
  fun s holds => .inl ⟨a, s, rfl, post s holds⟩

variable {F : α → Prop}

variable {m : Action σ ε α} {f : α → Action σ ε β}

theorem runs_bind (first : Runs E P m Q) (rest : ∀ a, Runs E (Q a) (f a) R) :
    Runs E P (m >>= f) R := by
  intro s holds
  rw [bind_eq]
  rcases first s holds with ⟨a, s', ended, middle⟩ | ⟨excuse, panicked⟩
  · rw [ended]
    exact rest a s' middle
  · right
    refine ⟨excuse, ?_⟩
    rcases ended : m s with ⟨outcome, s'⟩
    rw [ended] at panicked
    dsimp only at panicked
    rw [panicked]

/-- What the first action says of its value alone is at hand when the rest is proved. -/
theorem runs_bind_fact (first : Runs E P m fun a s => F a ∧ I s)
    (rest : ∀ a, F a → Runs E I (f a) R) :
    Runs E P (m >>= f) R :=
  runs_bind first fun a s holds => rest a holds.1 s holds.2

theorem runs_weaken {Q' : α → σ → Prop} (main : Runs E P m Q) (pre : ∀ s, P' s → P s)
    (post : ∀ a s, Q a s → Q' a s) : Runs E P' m Q' := by
  intro s holds
  rcases main s (pre s holds) with ⟨a, s', ended, value⟩ | failed
  · exact .inl ⟨a, s', ended, post a s' value⟩
  · exact .inr failed

theorem runs_post {Q' : α → σ → Prop} (main : Runs E P m Q) (post : ∀ a s, Q a s → Q' a s) :
    Runs E P m Q' :=
  runs_weaken main (fun _ holds => holds) post

theorem runs_lift_bind {m : Outcome ε α} (value : m = .ok a) (rest : Runs E P (f a) R) :
    Runs E P (lift m >>= f) R := by
  rw [value]
  exact rest

theorem runs_ite [Decidable c] {m' : Action σ ε α} (yes : c → Runs E P m Q)
    (no : ¬ c → Runs E P m' Q) : Runs E P (if c then m else m') Q :=
  iteInduction (motive := (Runs E P · Q)) yes no

theorem runs_get_bind {f : σ → Action σ ε β} (rest : ∀ s, P s → Runs E P (f s) R) :
    Runs E P (get >>= f) R :=
  fun s holds => rest s holds s holds

theorem runs_returns (main : Runs False P m Q) (holds : P s) : ∃ a s', m s = (.ok a, s') ∧ Q a s' :=
  (main s holds).resolve_right fun failed => failed.1

theorem runs_ended (main : Runs E P m Q) {s' : σ} (holds : P s) (ended : m s = (.ok a, s')) :
    Q a s' := by
  rcases main s holds with ⟨b, t, same, value⟩ | ⟨_, panicked⟩
  · rw [ended] at same
    cases same
    exact value
  · rw [ended] at panicked
    cases panicked

end Runs

section Survives
variable {A : α → Prop} {B : β → Prop}

/-- From a state with `I` the action returns, a value with `A` or an error, and leaves `I`. -/
def Survives (I : σ → Prop) (m : Action σ ε α) (A : α → Prop) : Prop :=
  ∀ s, I s → I (m s).2 ∧ (m s).1.Settled ∧ ∀ a, (m s).1 = .ok a → A a

end Survives

def zoom {τ : Type} (get : σ → τ) (set : σ → τ → σ) (m : Action τ ε α) : Action σ ε α := fun s =>
  ((m (get s)).1, set s (m (get s)).2)

variable {τ : Type}
variable {get : σ → τ} {set : σ → τ → σ}

variable {m : Action τ ε α}

theorem zoom_run {t : τ} {o : Outcome ε α} (ended : m (get s) = (o, t)) :
    zoom get set m s = (o, set s t) := by
  unfold zoom
  rw [ended]

theorem runs_zoom {E : Prop} {P : τ → Prop} {Q : α → τ → Prop} {Q' : α → σ → Prop} (main : Runs E P m Q) (pre : ∀ s, P' s → P (get s))
    (post : ∀ s a t, P' s → Q a t → Q' a (set s t)) : Runs E P' (zoom get set m) Q' := by
  intro s holds
  rcases main (get s) (pre s holds) with ⟨a, t, ended, value⟩ | failed
  · refine .inl ⟨a, set s t, ?_, post s a t holds value⟩
    unfold zoom
    rw [ended]
  · exact .inr failed

/-- What only depends on the rest of the state is kept. -/
theorem keeps_zoom (apart : ∀ s t, I s → I (set s t)) :
    Keeps I (zoom get set m) :=
  fun s holds => apart s _ holds

end Action

end Rust
