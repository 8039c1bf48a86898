import Mathlib.Data.Nat.Notation
import Mathlib.Order.Defs.Unbundled
import Mathlib.Tactic.SplitIfs

/-!
# Computations that may stop

A computation changes a state, and either gives a result or stops. Where it stops its state is kept, so that
what it has done until then can be told.

* `Eff`: the computations.
* `Eff.wp`: the weakest precondition, for a result and for a stop.
* `Eff.Keeps`: a relation between the states before and behind.
* `Eff.Keeps.bind`, `Eff.Keeps.ite`: the rules for a preorder.
* `Eff.Preserves`: the preorder of an invariant.
-/

namespace RpiBoot

/-- A computation on states `σ` with a result in `α`. -/
def Eff (σ α : Type) : Type := σ → Option α × σ

namespace Eff

variable {σ α β : Type}

instance instMonad : Monad (Eff σ) where
  pure a := fun s => (some a, s)
  bind m f := fun s =>
    match m s with
    | (some a, t) => f a t
    | (none, t) => (none, t)

/-- Go no further. -/
def stop : Eff σ α := fun s => (none, s)

/-- The state, or what `f` says of it. -/
def read (f : σ → α) : Eff σ α := fun s => (some (f s), s)

/-- Change the state. -/
def update (f : σ → σ) : Eff σ Unit := fun s => (some (), f s)

/-- A step where `c` holds. -/
def when (c : Prop) [Decidable c] (m : Eff σ Unit) : Eff σ Unit := if c then m else pure ()

/-! ## Weakest preconditions -/

/-- From `s`, a run ends with a result and in a state with `Q`, or stops in a state with `S`. -/
def wp (m : Eff σ α) (Q : α → σ → Prop) (S : σ → Prop) (s : σ) : Prop :=
  match m s with
  | (some a, t) => Q a t
  | (none, t) => S t

variable {m : Eff σ α} {f : α → Eff σ β} {Q Q' : α → σ → Prop} {R : β → σ → Prop} {S S' : σ → Prop} {s : σ}

theorem wp_pure {a : α} : wp (pure a) Q S s ↔ Q a s := Iff.rfl

theorem wp_stop : wp stop Q S s ↔ S s := Iff.rfl

theorem wp_read {g : σ → α} : wp (read g) Q S s ↔ Q (g s) s := Iff.rfl

theorem wp_update {g : σ → σ} {Q : Unit → σ → Prop} : wp (update g) Q S s ↔ Q () (g s) := Iff.rfl

theorem bind_apply (m : Eff σ α) (f : α → Eff σ β) (s : σ) : (m >>= f) s =
    match m s with
    | (some a, t) => f a t
    | (none, t) => (none, t) := rfl

theorem wp_bind : wp (m >>= f) R S s ↔ wp m (fun a t => wp (f a) R S t) S s := by
  unfold wp
  rw [bind_apply]
  rcases m s with ⟨_ | a, t⟩
  · rfl
  · rfl

theorem wp_mono (h : wp m Q S s) (hQ : ∀ a t, Q a t → Q' a t) (hS : ∀ t, S t → S' t) : wp m Q' S' s := by
  unfold wp at h ⊢
  rcases hm : m s with ⟨_ | a, t⟩ <;> rw [hm] at h
  · exact hS t h
  · exact hQ a t h

theorem wp_true (m : Eff σ α) (s : σ) : wp m (fun _ _ => True) (fun _ => True) s := by
  unfold wp
  split <;> trivial

theorem wp_and (h : wp m Q S s) (h' : wp m Q' S' s) :
    wp m (fun a t => Q a t ∧ Q' a t) (fun t => S t ∧ S' t) s := by
  unfold wp at h h' ⊢
  rcases hm : m s with ⟨_ | a, t⟩ <;> rw [hm] at h h'
  · exact ⟨h, h'⟩
  · exact ⟨h, h'⟩

theorem wp_ite {c : Prop} [Decidable c] {m' : Eff σ α} (ht : c → wp m Q S s) (hf : ¬c → wp m' Q S s) :
    wp (if c then m else m') Q S s := by
  split_ifs with h
  · exact ht h
  · exact hf h

/-- The final state of a run. -/
theorem wp_final {P : σ → Prop} (h : wp m (fun _ => P) P s) : P (m s).2 := by
  unfold wp at h
  rcases hm : m s with ⟨_ | a, t⟩ <;> rw [hm] at h <;> exact h

/-! ## Relations that are kept -/

/-- The states before and behind are related, also where a run stops. -/
def Keeps (T : σ → σ → Prop) (m : Eff σ α) : Prop := ∀ s, wp m (fun _ t => T s t) (fun t => T s t) s

section Keeps

variable {T T' : σ → σ → Prop}

theorem Keeps.wp (h : Keeps T m) (hQ : ∀ a t, T s t → Q a t) (hS : ∀ t, T s t → S t) : m.wp Q S s :=
  wp_mono (h s) hQ hS

theorem Keeps.wp_andThen (h : Keeps T m) (hR : ∀ a t, T s t → (f a).wp R S t) (hS : ∀ t, T s t → S t) :
    (m >>= f).wp R S s := wp_bind.mpr (h.wp hR hS)

theorem Keeps.mono (h : Keeps T m) (hT : ∀ s t, T s t → T' s t) : Keeps T' m := fun s =>
  h.wp (fun _ t => hT s t) fun t => hT s t

theorem keeps_update {g : σ → σ} (h : ∀ s, T s (g s)) : Keeps T (update g) := fun s => wp_update.mpr (h s)

section Rules

variable [IsPreorder σ T]

theorem keeps_pure (a : α) : Keeps T (pure a : Eff σ α) := fun s => wp_pure.mpr (refl_of T s)

theorem keeps_stop : Keeps T (stop : Eff σ α) := fun s => wp_stop.mpr (refl_of T s)

theorem keeps_read (g : σ → α) : Keeps T (read g) := fun s => wp_read.mpr (refl_of T s)

theorem Keeps.bind (hm : Keeps T m) (hf : ∀ a, Keeps T (f a)) : Keeps T (m >>= f) := fun _ =>
  wp_bind.mpr (hm.wp (fun a _ h => (hf a).wp (fun _ _ h' => trans_of T h h') fun _ h' => trans_of T h h')
    fun _ h => h)

theorem Keeps.when {m : Eff σ Unit} {c : Prop} [Decidable c] (hm : Keeps T m) : Keeps T (when c m) := by
  unfold Eff.when
  split_ifs
  · exact hm
  · exact keeps_pure ()

theorem Keeps.discard (hm : Keeps T m) : Keeps T (discard m) := hm.bind fun _ => keeps_pure ()

end Rules

theorem Keeps.ite {c : Prop} [Decidable c] {m' : Eff σ α} (h : Keeps T m) (h' : Keeps T m') :
    Keeps T (if c then m else m') := by
  split_ifs
  · exact h
  · exact h'

/-! ## Invariants -/

/-- Where `I` holds before, it holds behind. -/
def Preserves (I : σ → Prop) (s t : σ) : Prop := I s → I t

variable {I : σ → Prop}

instance isPreorder_preserves : IsPreorder σ (Preserves I) where
  refl _ := id
  trans _ _ _ h h' := h' ∘ h

theorem Keeps.inv (h : Keeps (Preserves I) m) (hs : I s) : m.wp (fun _ => I) I s :=
  h.wp (fun _ _ ht => ht hs) fun _ ht => ht hs

theorem keeps_inv (h : ∀ s, I s → m.wp (fun _ => I) I s) : Keeps (Preserves I) m := by
  intro s
  unfold wp at h ⊢
  specialize h s
  rcases hm : m s with ⟨_ | a, t⟩ <;> rw [hm] at h <;> exact h

end Keeps

end Eff

end RpiBoot
