import Bittorrent.Lib.Action

/-!
Simulation of one action by another that has more in its state. The two end the same way, and on the part of
the state that both have they leave the same.
-/
namespace ActionMirror
open Rust
variable {σ τ ε α β γ δ : Type}

/-- From `t` the action `m` does on a part of its state what `m'` does there. Where they return values,
    these and the state that `m` leaves are related by `Q`; the state it leaves with an error satisfies
    `X`. -/
def Mirrors (view : τ → σ) (t : τ) (m : Action τ ε α) (m' : Action σ ε β) (Q : α → β → τ → Prop)
    (X : τ → Prop) : Prop :=
  match m' (view t) with
  | (.ok b, s) => ∃ a t', m t = (.ok a, t') ∧ view t' = s ∧ Q a b t'
  | (.err e, s) => ∃ t', m t = (.err e, t') ∧ view t' = s ∧ X t'
  | (.panic, s) => ∃ t', m t = (.panic, t') ∧ view t' = s
  | (.unfinished, s) => ∃ t', m t = (.unfinished, t') ∧ view t' = s

variable {view : τ → σ} {t : τ} {m : Action τ ε α} {m' : Action σ ε β} {Q : α → β → τ → Prop} {X : τ → Prop}

theorem mirrors_pure {a : α} {b : β} (value : Q a b t) :
    Mirrors view t (pure a : Action τ ε α) (pure b) Q X := ⟨a, t, rfl, rfl, value⟩

theorem mirrors_post {Q' : α → β → τ → Prop} {X' : τ → Prop} (main : Mirrors view t m m' Q X)
    (value : ∀ a b t', Q a b t' → Q' a b t') (failed : ∀ t', X t' → X' t') :
    Mirrors view t m m' Q' X' := by
  unfold Mirrors at main ⊢
  rcases ended : m' (view t) with ⟨outcome, s⟩
  rw [ended] at main
  cases outcome with
  | ok b =>
    obtain ⟨a, t', ran, same, holds⟩ := main
    exact ⟨a, t', ran, same, value a b t' holds⟩
  | err e =>
    obtain ⟨t', ran, same, holds⟩ := main
    exact ⟨t', ran, same, failed t' holds⟩
  | panic | unfinished => exact main

theorem mirrors_bind {f : α → Action τ ε γ} {g : β → Action σ ε δ} {R : γ → δ → τ → Prop}
    (first : Mirrors view t m m' Q X) (rest : ∀ a b t₁, Q a b t₁ → Mirrors view t₁ (f a) (g b) R X) :
    Mirrors view t (m >>= f) (m' >>= g) R X := by
  unfold Mirrors at first
  unfold Mirrors
  simp only [Action.bind_eq]
  rcases ended : m' (view t) with ⟨outcome, s⟩
  rw [ended] at first
  cases outcome with
  | ok b =>
    obtain ⟨a, t₁, ran, rfl, value⟩ := first
    rw [ran]
    exact rest a b t₁ value
  | err e | panic | unfinished =>
    obtain ⟨t₁, ran, same⟩ := first
    rw [ran]
    exact ⟨t₁, rfl, same⟩

theorem mirrors_after {f : α → Action τ ε γ} {R : γ → β → τ → Prop} (first : Mirrors view t m m' Q X)
    (rest : ∀ a b t₁, Q a b t₁ → ∃ c t₂, f a t₁ = (.ok c, t₂) ∧ view t₂ = view t₁ ∧ R c b t₂) :
    Mirrors view t (m >>= f) m' R X := by
  have same : (m' >>= fun b => pure b) = m' := by
    funext s
    rw [Action.bind_eq]
    rcases m' s with ⟨outcome, s'⟩
    cases outcome <;> rfl
  rw [← same]
  refine mirrors_bind first fun a b t₁ value => ?_
  obtain ⟨c, t₂, ran, shows, value⟩ := rest a b t₁ value
  exact ⟨c, t₂, ran, shows, value⟩

theorem mirrors_get {f : τ → Action τ ε α} (rest : Mirrors view t (f t) m' Q X) :
    Mirrors view t (Action.get >>= f) m' Q X := rest

theorem mirrors_given {a : γ} {f : γ → Action τ ε α} (rest : Mirrors view t (f a) m' Q X) :
    Mirrors view t (Action.lift (.ok a) >>= f) m' Q X := rest

theorem mirrors_panic {f : γ → Action τ ε α} :
    Mirrors view t (Action.lift .panic >>= f) (Action.abort : Action σ ε β) Q X := ⟨t, rfl, rfl⟩

theorem mirrors_zoom {set : τ → σ → τ} (m : Action σ ε α) (shows : ∀ s, view (set t s) = s) :
    Mirrors view t (Action.zoom view set m) m (fun a b t' => a = b ∧ ∃ s, t' = set t s)
      fun t' => ∃ s, t' = set t s := by
  unfold Mirrors
  rcases ended : m (view t) with ⟨outcome, s⟩
  have ran : Action.zoom view set m t = (outcome, set t s) := Action.zoom_run ended
  cases outcome with
  | ok a => exact ⟨a, _, ran, shows s, rfl, s, rfl⟩
  | err e => exact ⟨_, ran, shows s, s, rfl⟩
  | panic | unfinished => exact ⟨_, ran, shows s⟩

theorem mirrors_within {υ : Type} {get : υ → τ} {set : υ → τ → υ} {u : υ} (shows : ∀ t, get (set u t) = t)
    (main : Mirrors view (get u) m m' Q X) :
    Mirrors (fun u => view (get u)) u (Action.zoom get set m) m'
      (fun a b u' => ∃ t', u' = set u t' ∧ Q a b t') fun u' => ∃ t', u' = set u t' ∧ X t' := by
  unfold Mirrors at main ⊢
  have run : ∀ {outcome : Outcome ε α} {t' : τ}, m (get u) = (outcome, t') →
      Action.zoom get set m u = (outcome, set u t') := Action.zoom_run
  have seen : ∀ {t' : τ} {s : σ}, view t' = s → view (get (set u t')) = s := by
    intro t' s same
    rw [shows]
    exact same
  rcases ended : m' (view (get u)) with ⟨outcome, s⟩
  rw [ended] at main
  cases outcome with
  | ok b =>
    obtain ⟨a, t', ran, same, value⟩ := main
    exact ⟨a, _, run ran, seen same, t', rfl, value⟩
  | err e =>
    obtain ⟨t', ran, same, failed⟩ := main
    exact ⟨_, run ran, seen same, t', rfl, failed⟩
  | panic | unfinished =>
    obtain ⟨t', ran, same⟩ := main
    exact ⟨_, run ran, seen same⟩

end ActionMirror
