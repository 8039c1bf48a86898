import Mathlib.Data.Nat.Notation

/-!
# Monitors

A monitor watches what happens, the latest event first in a list. Its state is moved by every event, and says
which events are allowed next.

* `Monitor`: the monitors. `Monitor.view`: the state behind a list of events.
* `Monitor.Safe`: every event is allowed where it happens.
* **`Monitor.view_append`**, **`Monitor.safe_append`**: events that do not move it, in any order.
* **`Monitor.append_move`**: the same, and one event that moves it, any number of times.
-/

namespace RpiBoot

/-- A monitor with states `σ` for events `ε`. -/
structure Monitor (σ ε : Type) where
  start : σ
  step : σ → ε → σ
  Allowed : σ → ε → Prop

namespace Monitor

variable {σ ε : Type} (M : Monitor σ ε)

/-- The state behind some events. -/
def view : List ε → σ
  | [] => M.start
  | e :: l => M.step (view l) e

/-- Every event is allowed where it happens. -/
def Safe : List ε → Prop
  | [] => True
  | e :: l => M.Allowed (M.view l) e ∧ Safe l

/-- An event that is allowed and does not move the monitor. -/
def Still (v : σ) (e : ε) : Prop := M.step v e = v ∧ M.Allowed v e

variable {M} {l m : List ε}

/-- Events that do not move the monitor. -/
theorem view_append (h : ∀ e ∈ l, M.step (M.view m) e = M.view m) : M.view (l ++ m) = M.view m := by
  induction l with
  | nil => rfl
  | cons e l ih =>
    have ih := ih fun e he => h e (List.mem_cons_of_mem _ he)
    rw [List.cons_append, view, ih, h e List.mem_cons_self]

/-- Events that do not move the monitor are allowed together if each of them is. -/
theorem safe_append (h : ∀ e ∈ l, M.Still (M.view m) e) (hm : M.Safe m) : M.Safe (l ++ m) := by
  induction l with
  | nil => exact hm
  | cons e l ih =>
    have hl : ∀ e ∈ l, M.Still (M.view m) e := fun e he => h e (List.mem_cons_of_mem _ he)
    have hallowed : M.Allowed (M.view (l ++ m)) e := by
      rw [view_append fun e he => (hl e he).1]
      exact (h e List.mem_cons_self).2
    exact ⟨hallowed, ih hl⟩

/-- An event that moves the monitor once, among others that never do. -/
theorem append_move {e₀ : ε} (hmove : M.Allowed (M.view m) e₀)
    (hagain : M.Still (M.step (M.view m) e₀) e₀)
    (h : ∀ e ∈ l, e = e₀ ∨ M.Still (M.view m) e ∧ M.Still (M.step (M.view m) e₀) e) (hm : M.Safe m) :
    M.Safe (l ++ m) ∧ (e₀ ∈ l → M.view (l ++ m) = M.step (M.view m) e₀) ∧
      (e₀ ∉ l → M.view (l ++ m) = M.view m) := by
  induction l with
  | nil => exact ⟨hm, fun h => absurd h List.not_mem_nil, fun _ => rfl⟩
  | cons e l ih =>
    obtain ⟨hsafe, hin, hout⟩ := ih fun e he => h e (List.mem_cons_of_mem _ he)
    rw [List.cons_append, Safe, view]
    by_cases hl : e₀ ∈ l
    · -- it has been moved
      rw [hin hl]
      have hstill : M.Still (M.step (M.view m) e₀) e := by
        rcases h e List.mem_cons_self with rfl | ⟨-, hstill⟩
        · exact hagain
        · exact hstill
      exact ⟨⟨hstill.2, hsafe⟩, fun _ => hstill.1, fun hno => absurd (List.mem_cons_of_mem _ hl) hno⟩
    · rw [hout hl]
      rcases h e List.mem_cons_self with rfl | ⟨hstill, -⟩
      · exact ⟨⟨hmove, hsafe⟩, fun _ => rfl, fun hno => absurd List.mem_cons_self hno⟩
      · refine ⟨⟨hstill.2, hsafe⟩, fun hmem => ?_, fun _ => hstill.1⟩
        -- it is the event that moves after all
        obtain rfl := (List.mem_cons.mp hmem).resolve_right hl
        rfl

end Monitor

end RpiBoot
