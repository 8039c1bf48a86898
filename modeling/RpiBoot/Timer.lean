import RpiBoot.Word

/-!
# Timer waits (`timer.c`)

A wait keeps the value of the microsecond counter at which it ends and a rollover flag.
`compare_timer` gets the wait by value, so that what it does to the flag is lost.

* `registerTimer`, `compareTimer`: the two calls, on the values of the counter that they read.
* `usleep`: poll until the wait is over.
* `Waits`: the wait ends at the first poll at which the time has elapsed.
* **`timer_waits_iff`**: when it does.
-/

namespace RpiBoot

/-- `struct timer_wait`. -/
structure TimerWait where
  triggerValue : ℕ
  rollover : Bool
deriving DecidableEq

/-- `register_timer(usec)`, where the counter reads `curTimer`. -/
def registerTimer (curTimer : ℕ) (usec : ℤ) : TimerWait :=
  if usec < 0 then ⟨0, false⟩
  else
    let trig := u32 (curTimer + toU32 usec)
    let trig := if curTimer = 0 then 0 else trig
    ⟨trig, if trig > curTimer then false else true⟩

/-- `compare_timer(tw)`, where the counter reads `curTimer`. -/
def compareTimer (curTimer : ℕ) (tw : TimerWait) : Bool :=
  if tw.triggerValue = 0 then true
  else if curTimer < tw.triggerValue then false -- clears the flag of its own copy
  else if !tw.rollover then true
  else false

/-- The loop of `usleep` and `TIMEOUT_WAIT`, on the values that its polls read: the number of polls
before the one at which it ends. -/
def usleep (tw : TimerWait) (readings : List ℕ) : Option ℕ :=
  readings.findIdx? fun curTimer => compareTimer curTimer tw

/-- The counter, `e` microseconds after it read `c`. -/
def counterAt (c e : ℕ) : ℕ := u32 (c + e)

/-- A wait of `usec` from the counter value `c` on, polled at the elapsed times `polls`, is not over
before its time and is over at the first poll behind it. -/
def Waits (c usec : ℕ) (polls : List ℕ) : Prop :=
  (∀ e ∈ polls, e < usec → compareTimer (counterAt c e) (registerTimer c usec) = false) ∧
    ∀ e, polls.find? (usec ≤ ·) = some e →
      compareTimer (counterAt c e) (registerTimer c usec) = true

/-- The polls at which a wait works. A trigger value of `0` ends it at once; a wait of no time, or past
the end of the counter, never ends; any other ends when it is polled before the counter wraps. -/
def PollsInTime (c usec : ℕ) (polls : List ℕ) : Prop :=
  if c = 0 ∨ c + usec = 2 ^ 32 then ∀ e ∈ polls, usec ≤ e
  else if 0 < usec ∧ c + usec < 2 ^ 32 then
    ∀ e, polls.find? (usec ≤ ·) = some e → c + e < 2 ^ 32
  else ∀ e ∈ polls, e < usec

variable {c usec e : ℕ} {polls : List ℕ}

theorem compareTimer_iff {curTimer : ℕ} {tw : TimerWait} : compareTimer curTimer tw = true ↔
    tw.triggerValue = 0 ∨ tw.triggerValue ≤ curTimer ∧ tw.rollover = false := by
  unfold compareTimer
  by_cases h₁ : tw.triggerValue = 0
  · simp [h₁]
  · by_cases h₂ : curTimer < tw.triggerValue
    · simp [h₁, h₂]
    · simp [h₁, h₂, not_lt.mp h₂]

/-- What a wait keeps. -/
theorem registerTimer_spec (c : ℕ) (hu : usec < 2 ^ 31) :
    (registerTimer c usec).triggerValue = (if c = 0 then 0 else u32 (c + usec)) ∧
    ((registerTimer c usec).rollover = false ↔ c < if c = 0 then 0 else u32 (c + usec)) := by
  have htrig : u32 (c + toU32 usec) = u32 (c + usec) := by rw [toU32_natCast (by omega)]
  rw [registerTimer, if_neg (by omega), htrig]
  dsimp only
  by_cases h : c < if c = 0 then 0 else u32 (c + usec)
  · exact ⟨rfl, by simp [h]⟩
  · exact ⟨rfl, by simp [h]⟩

/-- **One poll.** -/
theorem compareTimer_eq (hc : c < 2 ^ 32) (hu : usec < 2 ^ 31) (he : e < 2 ^ 31) :
    compareTimer (counterAt c e) (registerTimer c usec) = true ↔
      (c = 0 ∨ c + usec = 2 ^ 32) ∨ 0 < usec ∧ c + usec < 2 ^ 32 ∧ usec ≤ e ∧ c + e < 2 ^ 32 := by
  obtain ⟨htrig, hroll⟩ := registerTimer_spec c hu
  rw [compareTimer_iff, hroll, htrig]
  unfold counterAt u32
  by_cases h₀ : c = 0
  · simp [h₀]
  · rw [if_neg h₀]
    omega

/-- A wait that works ends `usleep` at the first poll behind its time. -/
theorem usleep_eq : ∀ {polls : List ℕ}, Waits c usec polls →
    usleep (registerTimer c usec) (polls.map (counterAt c)) = polls.findIdx? (usec ≤ ·)
  | [], _ => rfl
  | e :: polls, ⟨hbefore, hafter⟩ => by
    simp only [usleep, List.map_cons, List.findIdx?_cons]
    by_cases h : usec ≤ e
    · have htrue := hafter e (by simp [h])
      simp [h, htrue]
    · have hfalse := hbefore e List.mem_cons_self (not_le.mp h)
      have hrest : Waits c usec polls := ⟨fun e' he' => hbefore e' (List.mem_cons_of_mem _ he'),
        fun e' he' => hafter e' (by simpa [h] using he')⟩
      have ih := usleep_eq hrest
      unfold usleep at ih
      simp [h, hfalse, ih]

/-- A wait of 10 that is first polled when the counter has wrapped. -/
theorem timer_waits_broken : ¬ Waits 0xfffffff0 10 [0x20] := by
  rintro ⟨-, hafter⟩
  exact absurd (hafter 0x20 rfl) (by decide)

/-- **Timer waits** are over in time just when they are polled in time. -/
theorem timer_waits_iff (hc : c < 2 ^ 32) (hu : usec < 2 ^ 31) (hpolls : ∀ e ∈ polls, e < 2 ^ 31) :
    Waits c usec polls ↔ PollsInTime c usec polls := by
  have hcmp : ∀ e ∈ polls, compareTimer (counterAt c e) (registerTimer c usec) = true ↔
      (c = 0 ∨ c + usec = 2 ^ 32) ∨ 0 < usec ∧ c + usec < 2 ^ 32 ∧ usec ≤ e ∧ c + e < 2 ^ 32 :=
    fun e he => compareTimer_eq hc hu (hpolls e he)
  have hfind : ∀ e, polls.find? (usec ≤ ·) = some e → e ∈ polls ∧ usec ≤ e := fun e he =>
    ⟨List.mem_of_find?_eq_some he, by simpa using List.find?_some he⟩
  unfold Waits PollsInTime
  simp only [Bool.eq_false_iff, ne_eq]
  split_ifs with h₁ h₂
  · constructor
    · rintro ⟨hbefore, -⟩ e he
      by_contra hlt
      exact hbefore e he (not_le.mp hlt) ((hcmp e he).mpr (Or.inl h₁))
    · intro h
      exact ⟨fun e he hlt => absurd (h e he) (not_le.mpr hlt),
        fun e he => (hcmp e (hfind e he).1).mpr (Or.inl h₁)⟩
  · constructor
    · rintro ⟨-, hafter⟩ e he
      rcases (hcmp e (hfind e he).1).mp (hafter e he) with h | h
      · exact absurd h h₁
      · exact h.2.2.2
    · intro h
      refine ⟨fun e he hlt htrue => ?_, fun e he => ?_⟩
      · rcases (hcmp e he).mp htrue with h' | h'
        · exact h₁ h'
        · omega
      · obtain ⟨hmem, hle⟩ := hfind e he
        exact (hcmp e hmem).mpr (Or.inr ⟨h₂.1, h₂.2, hle, h e he⟩)
  · constructor
    · rintro ⟨-, hafter⟩ e he
      by_contra hlt
      -- there is a first poll behind the end, and it fails
      obtain ⟨e', hfirst⟩ : ∃ e', polls.find? (usec ≤ ·) = some e' :=
        Option.isSome_iff_exists.mp (List.find?_isSome.mpr ⟨e, he, by simpa using hlt⟩)
      rcases (hcmp e' (hfind e' hfirst).1).mp (hafter e' hfirst) with h | h
      · exact h₁ h
      · exact h₂ ⟨h.1, h.2.1⟩
    · intro h
      refine ⟨fun e he _ htrue => ?_, fun e he => ?_⟩
      · rcases (hcmp e he).mp htrue with h' | h'
        · exact h₁ h'
        · exact h₂ ⟨h'.1, h'.2.1⟩
      · obtain ⟨hmem, hle⟩ := hfind e he
        exact absurd (h e hmem) (not_lt.mpr hle)

/-- A wait of 50 from 100 on, polled before and behind its end. -/
theorem timer_waits_iff_fifty : Waits 100 50 [10, 60] ↔ PollsInTime 100 50 [10, 60] :=
  timer_waits_iff (by decide) (by decide) (by decide)

end RpiBoot
