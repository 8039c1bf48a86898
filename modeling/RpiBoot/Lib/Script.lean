import Mathlib.Data.Int.Notation
import RpiBoot.Lib.Run

/-!
# Scripts

A script is a list of commands. A command may never return (`none`); when it returns `0` the next one
follows, and any other code ends the script.

* `exec`: the language; `goesOn`: a command as a step that is defined where the next one follows.
* `Triple`: from `P`, a script that returns ends in `Q`, or in `E` when one of its commands has failed.
* `Triple.nil`, `Triple.cons`, `Triple.mono`: the rules for the two forms of a script, and the rule of
  consequence.
* **`triple_history`**: what holds of the commands done so far and the state behind them, if every command
  carries it on.
-/

namespace Script

open Runs

variable {σ ω : Type}

/-- Perform the commands in order, up to the first that fails. -/
def exec (cmd : σ → ω → Option (ℤ × σ)) : σ → List ω → Option (ℤ × σ)
  | s, [] => some (0, s)
  | s, o :: os => (cmd s o).bind fun r => if r.1 = 0 then exec cmd r.2 os else some r

/-- The state in which the next command follows. -/
def goesOn (cmd : σ → ω → Option (ℤ × σ)) (s : σ) (o : ω) : Option σ :=
  (cmd s o).bind fun r => if r.1 = 0 then some r.2 else none

variable {cmd : σ → ω → Option (ℤ × σ)} {P P' Q Q' R E E' : σ → Prop} {o : ω} {os : List ω}

theorem goesOn_eq_some {s s' : σ} : goesOn cmd s o = some s' ↔ cmd s o = some (0, s') := by
  unfold goesOn
  rw [Option.bind_eq_some_iff]
  constructor
  · rintro ⟨⟨ret, t⟩, hr, h⟩
    split_ifs at h with h0
    rw [hr, ← Option.some.inj h, ← (show ret = 0 from h0)]
  · exact fun h => ⟨_, h, rfl⟩

/-- **Pre- and postconditions.** -/
def Triple (cmd : σ → ω → Option (ℤ × σ)) (P : σ → Prop) (os : List ω) (Q E : σ → Prop) : Prop :=
  ∀ s, P s → ∀ r, exec cmd s os = some r → if r.1 = 0 then Q r.2 else E r.2

theorem Triple.nil (cmd : σ → ω → Option (ℤ × σ)) (Q E : σ → Prop) : Triple cmd Q [] Q E := by
  rintro s hs r hr
  obtain rfl := Option.some.inj hr
  rwa [if_pos rfl]

/-- A command and the rest of the script. -/
theorem Triple.cons (ho : ∀ s, P s → ∀ r, cmd s o = some r → if r.1 = 0 then R r.2 else E r.2)
    (hos : Triple cmd R os Q E) : Triple cmd P (o :: os) Q E := by
  intro s hs r hr
  obtain ⟨r', hr', hrest⟩ := Option.bind_eq_some_iff.mp hr
  have hr' := ho s hs r' hr'
  split_ifs at hrest hr' with h0
  · exact hos r'.2 hr' r hrest
  · obtain rfl := Option.some.inj hrest
    rwa [if_neg h0]

/-- The rule of consequence. -/
theorem Triple.mono (h : Triple cmd P os Q E) (hP : ∀ s, P' s → P s) (hQ : ∀ s, Q s → Q' s)
    (hE : ∀ s, E s → E' s) : Triple cmd P' os Q' E' := by
  intro s hs r hr
  have h := h s (hP s hs) r hr
  split_ifs at h ⊢
  · exact hQ _ h
  · exact hE _ h

/-- **The rule of history.** `I` relates the commands that have been done to the state behind them, and
`F` the commands done before one that fails; `ok` is a condition that is met along the script. -/
theorem triple_history {ok : σ → ω → Prop} {I F : List ω → σ → Prop}
    (hstep : ∀ past s o r, I past s → ok s o → cmd s o = some r →
      if r.1 = 0 then I (past ++ [o]) r.2 else F past r.2) (past os : List ω) :
    Triple cmd (fun s => I past s ∧ Along (goesOn cmd) ok s os) os (I (past ++ os))
      (fun s => ∃ l, l <+: os ∧ F (past ++ l) s) := by
  induction os generalizing past with
  | nil =>
    refine (Triple.nil cmd (I past) _).mono (fun s hs => hs.1) (fun s hs => ?_) fun _ => id
    rwa [List.append_nil]
  | cons o os ih =>
    have hrest := ih (past ++ [o])
    simp only [List.append_assoc, List.singleton_append] at hrest
    refine Triple.cons (fun s hs r hr => ?_) (hrest.mono (fun _ => id) (fun _ => id) ?_)
    · have hone := hstep past s o r hs.1 hs.2.1 hr
      split_ifs at hone ⊢ with h0
      · refine ⟨hone, hs.2.2 r.2 (goesOn_eq_some.mpr ?_)⟩
        rw [hr, ← h0]
      · exact ⟨[], List.nil_prefix, by rwa [List.append_nil]⟩
    · rintro s ⟨l, hl, hF⟩
      exact ⟨o :: l, List.cons_prefix_cons.mpr ⟨rfl, hl⟩, hF⟩

end Script
