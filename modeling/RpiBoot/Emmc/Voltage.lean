import RpiBoot.Emmc.Frames

/-!
# The switch to 1.8 V (`emmc.c`)

Where the switch fails, `sd_card_init` sets `failed_voltage_switch` and calls itself, not to try 1.8 V again. The
call clears the structure first, and the flag with it.

* `afterFailure`: what has happened since the flag was first set.
* `Fallback`: nothing of it is a request for 1.8 V, a switch or another failure.
* `Unready`: the card does not let the initialisation come so far again.
* `held_sdCardInit`: a call falls back, if the card is not ready.
* `voltage_fallback_when`: so does a run.
-/

namespace RpiBoot

open Eff

/-! ## Falling back -/

/-- What has happened since `failed_voltage_switch` was first set, latest first. -/
def afterFailure : List SdEvent → List SdEvent
  | [] => []
  | e :: l => if .switchFailed ∈ l then e :: afterFailure l else []

/-- Neither 1.8 V is requested in `ACMD41`, nor `VOLTAGE_SWITCH` issued, nor has a switch failed. -/
def FallsBack : SdEvent → Prop
  | .sent cmdReg argument =>
    ¬(cmdReg = sdAcommands 41 ∧ argument &&& sdBit 24 ≠ 0) ∧ cmdReg ≠ sdCommands 11
  | .answered _ _ _ => True
  | .switchFailed => False

instance decidableFallsBack : DecidablePred FallsBack
  | .sent cmdReg argument =>
    inferInstanceAs (Decidable (¬(cmdReg = sdAcommands 41 ∧ argument &&& sdBit 24 ≠ 0) ∧ cmdReg ≠ sdCommands 11))
  | .answered _ _ _ => instDecidableTrue
  | .switchFailed => instDecidableFalse

def Fallback (l : List SdEvent) : Prop := ∀ e ∈ afterFailure l, FallsBack e

instance decidableFallback (l : List SdEvent) : Decidable (Fallback l) :=
  inferInstanceAs (Decidable (∀ e ∈ afterFailure l, FallsBack e))

/-- A command is answered with success. -/
def succeeds (command : SdCommand) : SdEvent → Bool
  | .answered c success _ => c == command && success
  | .sent _ _ => false
  | .switchFailed => false

/-- An answer to `ACMD41` is ready and announces 1.8 V. -/
def announces : SdEvent → Bool
  | .answered c success r0 => c == sdSendOpCond && success && r0 >>> 31 &&& 0x1 != 0 && r0 >>> 24 &&& 0x1 != 0
  | .sent _ _ => false
  | .switchFailed => false

/-- The card does not announce 1.8 V, and does not answer both `SEND_IF_COND` and `ACMD41` with success. -/
structure Unready (l : List SdEvent) : Prop where
  unannounced : ∀ e ∈ l, announces e = false
  unidentified : ∀ e ∈ l, ∀ e' ∈ l, succeeds sendIfCond e = true → succeeds sdSendOpCond e' = false

instance decidableUnready (l : List SdEvent) : Decidable (Unready l) :=
  decidable_of_iff ((∀ e ∈ l, announces e = false) ∧
    ∀ e ∈ l, ∀ e' ∈ l, succeeds sendIfCond e = true → succeeds sdSendOpCond e' = false)
    ⟨fun h => ⟨h.1, h.2⟩, fun h => ⟨h.1, h.2⟩⟩

theorem afterFailure_of_notMem {l : List SdEvent} (h : .switchFailed ∉ l) : afterFailure l = [] := by
  cases l with
  | nil => rfl
  | cons e l => exact if_neg fun hl => h (List.mem_cons_of_mem _ hl)

theorem afterFailure_append {l m : List SdEvent} (h : .switchFailed ∈ m) :
    afterFailure (l ++ m) = l ++ afterFailure m := by
  induction l with
  | nil => rfl
  | cons e l ih =>
    rw [List.cons_append, afterFailure, if_pos (List.mem_append_right _ h), ih, List.cons_append]

theorem subset_afterFailure (l m : List SdEvent) : afterFailure m ⊆ afterFailure (l ++ m) := by
  by_cases h : .switchFailed ∈ m
  · rw [afterFailure_append h]
    exact List.subset_append_right _ _
  · rw [afterFailure_of_notMem h]
    exact List.nil_subset _

theorem Unready.mono {l m : List SdEvent} (h : Unready m) (hs : l ⊆ m) : Unready l where
  unannounced e he := h.unannounced e (hs he)
  unidentified e he e' he' := h.unidentified e (hs he) e' (hs he')

/-- A second failure is no fallback. -/
theorem Fallback.count_le {l : List SdEvent} (h : Fallback l) : l.count .switchFailed ≤ 1 := by
  induction l with
  | nil => exact Nat.zero_le _
  | cons e l ih =>
    by_cases hl : .switchFailed ∈ l
    · have ha : afterFailure (e :: l) = e :: afterFailure l := if_pos hl
      have hne : e ≠ .switchFailed := by
        rintro rfl
        exact h .switchFailed (ha ▸ List.mem_cons_self)
      rw [List.count_cons_of_ne hne]
      exact ih fun e' he' => h e' (ha ▸ List.mem_cons_of_mem _ he')
    · have h0 : l.count .switchFailed = 0 := List.count_eq_zero.mpr hl
      rw [List.count_cons, h0, Nat.zero_add]
      split_ifs
      · exact le_refl 1
      · exact Nat.zero_le 1

/-! ## Runs that fall back -/

/-- More happens, and it falls back if the card is not ready. -/
structure Held (s t : EmmcWorld) : Prop where
  trace : ∃ l, t.trace = l ++ s.trace
  fallback : Fallback s.trace → Unready (afterFailure t.trace) → Fallback t.trace

instance isPreorder_held : IsPreorder EmmcWorld Held where
  refl _ := ⟨⟨[], rfl⟩, fun h _ => h⟩
  trans s t u h h' := by
    obtain ⟨l, hl⟩ := h.trace
    obtain ⟨l', hl'⟩ := h'.trace
    refine ⟨⟨l' ++ l, by rw [hl', hl, List.append_assoc]⟩, fun hf hu => h'.fallback (h.fallback hf ?_) hu⟩
    refine hu.mono ?_
    rw [hl']
    exact subset_afterFailure _ _

theorem FallsBack.ne {e : SdEvent} (h : FallsBack e) : e ≠ .switchFailed := by
  rintro rfl
  exact h

variable {s t u : EmmcWorld}

/-- No switch fails between the two. -/
def Calm : EmmcWorld → EmmcWorld → Prop := Adds fun e => e ≠ .switchFailed

instance isPreorder_calm : IsPreorder EmmcWorld Calm := isPreorder_adds

theorem Calm.mem (h : Calm s t) (ht : .switchFailed ∈ t.trace) : .switchFailed ∈ s.trace := by
  obtain ⟨l, hl, hne⟩ := h
  rw [hl] at ht
  exact (List.mem_append.mp ht).resolve_left fun hmem => hne _ hmem rfl

theorem held_of_adds (h : Adds FallsBack s t) : Held s t := by
  have hcalm : Calm s t := h.mono fun _ => FallsBack.ne
  obtain ⟨l, hl, hA⟩ := h
  refine ⟨⟨l, hl⟩, fun hf _ => ?_⟩
  by_cases hs : .switchFailed ∈ s.trace
  · intro e he
    rw [hl, afterFailure_append hs] at he
    exact (List.mem_append.mp he).elim (hA e) (hf e)
  · intro e he
    rw [afterFailure_of_notMem fun ht => hs (hcalm.mem ht)] at he
    exact absurd he List.not_mem_nil

/-- If a switch has failed, then the card has been ready behind it. -/
def Exempt (w : EmmcWorld) : Prop := .switchFailed ∈ w.trace → ¬Unready (afterFailure w.trace)

theorem Exempt.of_calm (hs : Exempt s) (h : Calm s t) : Exempt t := by
  intro ht hu
  refine hs (h.mem ht) (hu.mono ?_)
  obtain ⟨l, hl, -⟩ := h
  rw [hl]
  exact subset_afterFailure _ _

/-- Where the card has been ready, nothing is left to show. -/
theorem Exempt.held (hs : Exempt s) (h : Calm s t) : Held s t := by
  have ht := hs.of_calm h
  refine ⟨⟨h.choose, h.choose_spec.1⟩, fun _ hu e he => ?_⟩
  by_cases hmem : .switchFailed ∈ t.trace
  · exact absurd hu (ht hmem)
  · rw [afterFailure_of_notMem hmem] at he
    exact absurd he List.not_mem_nil

theorem Exempt.switchFailed (hs : Exempt s) (h : t.trace = .switchFailed :: s.trace) : Held s t := by
  refine ⟨⟨[.switchFailed], h⟩, fun _ hu e he => ?_⟩
  by_cases hmem : .switchFailed ∈ s.trace
  · refine absurd (hu.mono ?_) (hs hmem)
    rw [h]
    exact subset_afterFailure [.switchFailed] _
  · rw [h, afterFailure, if_neg hmem] at he
    exact absurd he List.not_mem_nil

/-! ## The steps of the initialisation -/

/-- What is written for a command falls back unless it requests 1.8 V or a switch. -/
theorem fallsBack_sent {command : SdCommand} {argument : U32}
    (h41 : ¬(command.reg = sdAcommands 41 ∧ argument &&& sdBit 24 ≠ 0)) (h11 : command.reg ≠ sdCommands 11) :
    ∀ e, SentFor command argument e → FallsBack e := by
  intro e he
  cases e with
  | sent r a =>
    rcases he with rfl | rfl | ⟨rfl, rfl⟩
    · exact ⟨fun h => absurd h.1 (by decide), by decide⟩
    · exact ⟨fun h => absurd h.1 (by decide), by decide⟩
    · exact ⟨h41, h11⟩
  | answered c ok r0 => trivial
  | switchFailed => exact he

theorem calm_sent {command : SdCommand} {argument : U32} :
    ∀ e, SentFor command argument e → e ≠ .switchFailed := by
  rintro e he rfl
  exact he

/-- The commands other than `ACMD41` and `VOLTAGE_SWITCH`. -/
def Neutral (command : SdCommand) : Prop := command.reg ≠ sdAcommands 41 ∧ command.reg ≠ sdCommands 11

instance decidableNeutral (command : SdCommand) : Decidable (Neutral command) := instDecidableAnd

theorem frame_command {command : SdCommand} {argument : U32} (h : Neutral command) :
    Keeps (Frame FallsBack) (sdIssueCommand command argument) :=
  frame_sdIssueCommand (fallsBack_sent (fun h' => h.1 h'.1) h.2) fun _ _ => trivial

theorem adds_command {command : SdCommand} {argument : U32} (h : Neutral command) :
    Keeps (Adds FallsBack) (sdIssueCommand command argument) :=
  (frame_command h).mono fun _ _ h' => h'.trace

variable {A : SdEvent → Prop}

theorem adds_of_frame {α : Type} {m : EmmcM α} (h : Keeps (Frame A) m) : Keeps (Adds A) m :=
  h.mono fun _ _ ht => ht.trace

theorem adds_setDev (f : EmmcDev → EmmcDev) : Keeps (Adds A) (setDev f) := keeps_update fun _ => adds_same rfl

theorem adds_mmioRead (reg : ℕ) : Keeps (Adds A) (mmioRead reg) := adds_of_frame (frame_mmioRead reg)

theorem adds_mmioWrite (reg : ℕ) (v : U32) : Keeps (Adds A) (mmioWrite reg v) :=
  adds_of_frame (frame_mmioWrite reg v)

theorem adds_failInit : Keeps (Adds A) failInit :=
  .bind (keeps_update fun _ => adds_same rfl) fun _ => keeps_pure _

theorem adds_setupBus : Keeps (Adds FallsBack) setupBus :=
  keeps_setupBus (fun _ _ h => h.frame.trace) (adds_command (by decide))

theorem adds_readScr : Keeps (Adds FallsBack) readScr :=
  (adds_setDev _).bind fun _ => (adds_mmioRead _).bind fun _ => (adds_mmioWrite _ _).bind fun _ =>
    (adds_setDev _).bind fun _ => (adds_command (by decide)).bind fun _ =>
    (adds_setDev _).bind fun _ => (keeps_read _).bind fun _ => .ite adds_failInit adds_setupBus

theorem adds_selectPhase : Keeps (Adds FallsBack) selectPhase :=
  (keeps_read _).bind fun _ => (adds_command (by decide)).bind fun _ => (keeps_read _).bind fun _ =>
    .ite adds_failInit <| .ite adds_failInit <| .ite
      ((adds_command (by decide)).bind fun _ => (keeps_read _).bind fun _ =>
        .ite adds_failInit adds_readScr)
      adds_readScr

theorem adds_dataPhase : Keeps (Adds FallsBack) dataPhase :=
  (adds_command (by decide)).bind fun _ => (keeps_read _).bind fun _ => .ite (keeps_pure _) <|
    (adds_setDev _).bind fun _ => (adds_command (by decide)).bind fun _ =>
    (keeps_read _).bind fun _ => .ite adds_failInit <| (adds_setDev _).bind fun _ =>
    .ite adds_failInit adds_selectPhase

theorem calm_switchVoltage : Keeps Calm switchVoltage :=
  keeps_switchVoltage (fun _ _ h => h.frame.trace)
    (adds_of_frame (frame_sdIssueCommand calm_sent fun _ _ => SdEvent.noConfusion))

/-- The inquiry `ACMD41` has the argument 0. -/
theorem frame_inquiry : Keeps (Frame FallsBack) (sdIssueCommand sdSendOpCond 0) :=
  frame_sdIssueCommand (fallsBack_sent (fun h => h.2 (by decide)) (by decide)) fun _ _ => trivial

theorem frame_identifyCard : Keeps (Frame FallsBack) identifyCard :=
  keeps_identifyCard (fun _ _ h => h.frame) (frame_command (by decide))
    (frame_command (by decide)) (frame_command (by decide)) frame_inquiry

/-! ## The answers of a card that is ready -/

/-- The event is between the two. -/
def Happens (e : SdEvent) (s t : EmmcWorld) : Prop := ∃ l, t.trace = l ++ s.trace ∧ e ∈ l

variable {e : SdEvent}

theorem Happens.behind (h : Happens e t u) (hs : Adds A s t) : Happens e s u := by
  obtain ⟨l, hl, he⟩ := h
  obtain ⟨m, hm, -⟩ := hs
  exact ⟨l ++ m, by rw [hl, hm, List.append_assoc], List.mem_append_left _ he⟩

theorem Happens.before (h : Happens e s t) (hu : Adds A t u) : Happens e s u := by
  obtain ⟨l, hl, he⟩ := h
  obtain ⟨m, hm, -⟩ := hu
  exact ⟨m ++ l, by rw [hm, hl, List.append_assoc], List.mem_append_right _ he⟩

theorem Happens.mem_afterFailure (h : Happens e s t) (hs : .switchFailed ∈ s.trace) :
    e ∈ afterFailure t.trace := by
  obtain ⟨l, hl, he⟩ := h
  rw [hl, afterFailure_append hs]
  exact List.mem_append_left _ he

theorem Issued.adds {command : SdCommand} {argument : U32} (h : Issued command argument s t) :
    Adds (fun _ => True) s t := by
  obtain ⟨l, hl, -⟩ := h.trace
  exact ⟨_ :: l, hl, fun _ _ => trivial⟩

theorem Issued.happens {command : SdCommand} {argument : U32} (h : Issued command argument s t)
    (hok : t.dev.lastCmdSuccess = true) : Happens (.answered command true t.dev.lastR0) s t := by
  obtain ⟨l, hl, -⟩ := h.trace
  exact ⟨_ :: l, hl, hok ▸ List.mem_cons_self⟩

/-- The card answers `SEND_IF_COND` and `ACMD41` with success. -/
structure Identifies (s t : EmmcWorld) : Prop where
  ifCond : ∃ r, Happens (.answered sendIfCond true r) s t
  opCond : ∃ r0, Happens (.answered sdSendOpCond true r0) s t

theorem Identifies.exempt (h : Identifies s t) (hc : Calm s t) : Exempt t := by
  intro ht hu
  obtain ⟨r, hr⟩ := h.ifCond
  obtain ⟨r0, hr0⟩ := h.opCond
  have hs := hc.mem ht
  have hno := hu.unidentified _ (hr.mem_afterFailure hs) _ (hr0.mem_afterFailure hs) rfl
  cases hno

theorem exempt_of_announces {r0 : U32} {l : List SdEvent} (h : t.trace = .answered sdSendOpCond true r0 :: l)
    (hready : r0 >>> 31 &&& 0x1 ≠ 0) (h18 : r0 >>> 24 &&& 0x1 ≠ 0) : Exempt t := by
  intro ht hu
  rw [h] at ht
  have hl : .switchFailed ∈ l := (List.mem_cons.mp ht).resolve_left SdEvent.noConfusion
  have hno := hu.unannounced (.answered sdSendOpCond true r0) (by
    rw [h, afterFailure, if_pos hl]
    exact List.mem_cons_self)
  have hyes : announces (.answered sdSendOpCond true r0) = true := by
    simpa [announces] using ⟨hready, h18⟩
  rw [hyes] at hno
  cases hno

theorem checkIfCond_wp :
    checkIfCond.wp (fun v2 _ => v2 = some true → s.dev.lastCmdSuccess = true) (fun _ => True) s := by
  refine wp_bind.mpr (wp_read.mpr (wp_ite (fun _ h => ?_) fun _ => wp_ite (fun _ => ?_) fun _ =>
    wp_ite (fun _ h => ?_) fun hf => wp_ite (fun _ h => ?_) fun _ _ => EmmcDev.not_fail_iff.mp hf))
  · cases h
  · refine (frame_recoverTimeout (A := FallsBack)).wp_andThen (fun ok _ _ => wp_pure.mpr fun h => ?_)
      fun _ _ => trivial
    cases ok <;> cases h
  · cases h
  · cases h

theorem identifyCard_wp :
    identifyCard.wp (fun v2 t => v2 = some true → Identifies s t) (fun _ => True) s := by
  refine (frame_command (by decide)).wp_andThen (fun _ s₁ h₁ => ?_) fun _ _ => trivial
  refine wp_bind.mpr (wp_read.mpr (wp_ite (fun _ h => by cases h) fun _ => ?_))
  refine wp_bind.mpr (wp_mono (sdIssueCommand_wp _ _ s₁) (fun _ s₂ h₂ => ?_) fun _ _ => trivial)
  refine wp_bind.mpr (wp_mono (wp_and (keeps_checkIfCond (fun _ _ => id) s₂) checkIfCond_wp)
    (fun v2 s₃ h₃ => ?_) fun _ _ => trivial)
  cases v2 with
  | none => exact fun h => by cases h
  | some v2Later =>
    refine (frame_command (by decide)).wp_andThen (fun _ s₄ h₄ => ?_) fun _ _ => trivial
    refine (keeps_checkIoSetOpCond fun _ _ => id).wp_andThen (fun ok s₅ h₅ => ?_) fun _ _ => trivial
    refine wp_ite (fun _ => ?_) fun _ h => by cases h
    refine wp_bind.mpr (wp_mono (sdIssueCommand_wp _ _ s₅) (fun _ s₆ h₆ => ?_) fun _ _ => trivial)
    refine wp_bind.mpr (wp_read.mpr (wp_ite (fun _ h => by cases h) fun hf h => ?_))
    have h8 := h₂.happens (h₃.2 h)
    have h41 := h₆.happens (EmmcDev.not_fail_iff.mp hf)
    have hs₅ : Adds FallsBack s₂ s₅ := trans_of _ h₃.1.frame.trace (trans_of _ h₄.trace h₅.frame.trace)
    have hs₂ : Adds (fun _ => True) s₁ s₂ := h₂.adds
    refine ⟨⟨s₂.dev.lastR0, ?_⟩, s₆.dev.lastR0, ?_⟩
    · exact ((h8.before hs₅).before h₆.adds).behind h₁.trace
    · exact ((h41.behind hs₅).behind hs₂).behind h₁.trace

/-- The loop: where it ends with support for 1.8 V, the card has announced it. -/
theorem opCondLoop_wp {v2Later : Bool}
    (hsent : ∀ failed e, SentFor sdSendOpCond (opCondArgument v2Later failed) e → A e)
    (hans : ∀ success r0, A (.answered sdSendOpCond success r0)) (fuel : ℕ) :
    ∀ {s}, s.dev.cardSupports18v = 0 → (opCondLoop v2Later fuel).wp
      (fun ready t => Adds A s t ∧ (ready = true → t.dev.cardSupports18v ≠ 0 → Exempt t)) (Adds A s) s := by
  induction fuel with
  | zero => exact fun _ => wp_stop.mpr (refl_of _ _)
  | succ fuel ih =>
    intro s h18
    have hissue := (frame_sdIssueCommand (hsent s.dev.failedVoltageSwitch) hans s)
    refine wp_bind.mpr (wp_read.mpr (wp_bind.mpr (wp_mono (wp_and (sdIssueCommand_wp _ _ s) hissue)
      (fun _ t ht => ?_) fun _ ht => ht.2.trace)))
    obtain ⟨ht, hframe⟩ := ht
    have h18t : t.dev.cardSupports18v = 0 := (congrArg EmmcDev.cardSupports18v hframe.card).trans h18
    refine wp_bind.mpr (wp_read.mpr (wp_ite (fun _ => ⟨hframe.trace, fun h => by cases h⟩) fun hf =>
      wp_ite (fun hready => ?_) fun _ => ?_))
    · refine wp_bind.mpr (wp_update.mpr (wp_pure.mpr ⟨hframe.trace, fun _ hv => ?_⟩))
      dsimp only at hv
      split_ifs at hv with hfailed
      · obtain ⟨l, hl, -⟩ := ht.trace
        rw [EmmcDev.not_fail_iff.mp hf] at hl
        exact exempt_of_announces hl hready hv
      · exact absurd h18t hv
    · exact wp_mono (ih h18t) (fun _ u hu => ⟨trans_of _ hframe.trace hu.1, hu.2⟩)
        fun _ hu => trans_of _ hframe.trace hu

theorem fallsBack_opCondArgument (failed : Bool) :
    ∀ e, SentFor sdSendOpCond (opCondArgument false failed) e → FallsBack e :=
  fallsBack_sent (fun h => h.2 (by cases failed <;> decide)) (by decide)

/-- The loop, where a card that is not before version 2 has been identified. -/
theorem opCondLoop_held {v2Later : Bool} (hv : v2Later = true → Exempt s) (fuel : ℕ)
    (h18 : s.dev.cardSupports18v = 0) : (opCondLoop v2Later fuel).wp
      (fun ready t => Held s t ∧ (ready = true → t.dev.cardSupports18v ≠ 0 → Exempt t)) (Held s) s := by
  cases v2Later with
  | false =>
    exact wp_mono (opCondLoop_wp fallsBack_opCondArgument (fun _ _ => trivial) fuel h18)
      (fun _ _ ht => ⟨held_of_adds ht.1, ht.2⟩) fun _ ht => held_of_adds ht
  | true =>
    exact wp_mono (opCondLoop_wp (fun _ => calm_sent) (fun _ _ => SdEvent.noConfusion) fuel h18)
      (fun _ _ ht => ⟨(hv rfl).held ht.1, ht.2⟩) fun _ ht => (hv rfl).held ht

theorem held_adds {α : Type} {m : EmmcM α} (h : Keeps (Adds FallsBack) m) : Keeps Held m :=
  h.mono fun _ _ => held_of_adds

/-- The initialisation behind the device structure, if the nested one falls back. -/
theorem initCard_wp {again : EmmcM ℤ} (ha : Keeps Held again) (fuel : ℕ) (baseClock : U32)
    (h18 : s.dev.cardSupports18v = 0) : (initCard again fuel baseClock).wp (fun _ => Held s) (Held s) s := by
  refine wp_bind.mpr (wp_mono (wp_and (frame_identifyCard s) identifyCard_wp) (fun card t ht => ?_)
    fun t ht => held_of_adds ht.1.trace)
  have hcalm : Calm s t := ht.1.trace.mono fun _ => FallsBack.ne
  have hst : Held s t := held_of_adds ht.1.trace
  have h18t : t.dev.cardSupports18v = 0 := (congrArg EmmcDev.cardSupports18v ht.1.card).trans h18
  cases card with
  | none => exact hst
  | some v2Later =>
    have hexempt (hv : v2Later = true) : Exempt t := (ht.2 (congrArg some hv)).exempt hcalm
    refine wp_bind.mpr (wp_mono (opCondLoop_held hexempt fuel h18t) (fun ready u hu => ?_)
      fun u hu => trans_of _ hst hu)
    have hsu : Held s u := trans_of _ hst hu.1
    refine wp_ite (fun hready => ?_) fun _ => hsu
    refine (frame_sdSwitchClockRate (A := FallsBack) _ _).wp_andThen (fun _ v hv => ?_)
      fun v hv => trans_of _ hsu (held_of_adds hv.trace)
    have hsv : Held s v := trans_of _ hsu (held_of_adds hv.trace)
    have hdata {w} (hw : Held s w) : dataPhase.wp (fun _ => Held s) (Held s) w :=
      (held_adds adds_dataPhase).wp (fun _ _ h => trans_of _ hw h) fun _ h => trans_of _ hw h
    refine wp_bind.mpr (wp_read.mpr (wp_ite (fun h18v => ?_) fun _ => hdata hsv))
    -- the card has announced 1.8 V
    have hannounced : Exempt u := hu.2 hready (congrArg EmmcDev.cardSupports18v hv.card ▸ h18v)
    have hev : Exempt v := hannounced.of_calm (hv.trace.mono fun _ => FallsBack.ne)
    refine calm_switchVoltage.wp_andThen (fun switched w hw => ?_) fun w hw => trans_of _ hsv (hev.held hw)
    have hsw : Held s w := trans_of _ hsv (hev.held hw)
    refine wp_ite (fun _ => hdata hsw) fun _ => wp_bind.mpr (wp_update.mpr (wp_bind.mpr (wp_update.mpr ?_)))
    -- the switch has failed, and the nested initialisation follows
    have hfail := trans_of _ hsw ((hev.of_calm hw).switchFailed (t := { w with
      dev := { w.dev with failedVoltageSwitch := true }
      trace := .switchFailed :: w.trace }) rfl)
    exact ((held_adds (adds_of_frame frame_sdPowerOff)).bind fun _ => ha).wp
      (fun _ _ h => trans_of _ hfail h) fun _ h => trans_of _ hfail h

/-- **An initialisation falls back if the card is not ready again.** -/
theorem held_sdCardInit : ∀ fuel null, Keeps Held (sdCardInit fuel null)
  | 0, _ => keeps_stop
  | fuel + 1, null => by
    refine (held_adds (adds_of_frame frame_initController)).bind fun clock => ?_
    cases clock with
    | none => exact keeps_pure _
    | some baseClock =>
      intro s
      refine wp_bind.mpr (prepareDev_wp ?_)
      -- `failed_voltage_switch` and `card_supports_18v` are cleared
      have hs : Held s { s with allocated := null || s.allocated, dev := freshDev baseClock } :=
        held_of_adds (adds_same rfl)
      exact wp_mono (initCard_wp (held_sdCardInit fuel false) fuel baseClock rfl) (fun _ _ h => trans_of _ hs h)
        fun _ h => trans_of _ hs h

/-- **If the card is not ready behind the first failure, then neither is 1.8 V requested behind it nor a switch
issued, and no other switch fails.** -/
theorem voltage_fallback_when (fuel : ℕ) (null : Bool) (w : EmmcWorld) (ht : w.trace = [])
    (hu : Unready (afterFailure (sdCardInit fuel null w).2.trace)) :
    Fallback (sdCardInit fuel null w).2.trace ∧ (sdCardInit fuel null w).2.trace.count .switchFailed ≤ 1 := by
  have hheld : Held w (sdCardInit fuel null w).2 := wp_final (held_sdCardInit fuel null w)
  have hnil : Fallback w.trace := by
    rw [ht]
    exact fun e he => absurd he List.not_mem_nil
  have hf := hheld.fallback hnil hu
  exact ⟨hf, hf.count_le⟩

/-- The switch fails once; behind it the card does not answer `SEND_IF_COND`, and announces no 1.8 V. -/
def switchOnce : EmmcWorld := emmcStart EmmcDev.zero false <|
  controllerResponses ++ identifyResponses 0x81000000 ++ errorResponses ++ [0] ++
    (controllerResponses ++ answerResponses [] ++ timeoutResponses ++ timeoutResponses ++ appResponses 0 ++
      appResponses 0x80000000 ++ [0, 0] ++ errorResponses)

theorem voltage_fallback_when_once : Fallback (sdCardInit 3 true switchOnce).2.trace ∧
    (sdCardInit 3 true switchOnce).2.trace.count .switchFailed ≤ 1 :=
  voltage_fallback_when 3 true switchOnce rfl (by decide +kernel)

/-- The card announces 1.8 V and the switch fails, twice. -/
def switchTwice : EmmcWorld := emmcStart EmmcDev.zero false <|
  controllerResponses ++ identifyResponses 0x81000000 ++ errorResponses ++ [0] ++
    (controllerResponses ++ identifyResponses 0x81000000 ++ errorResponses ++ [0])

/-- **The nested initialisation requests 1.8 V and tries to switch again.** -/
theorem voltage_no_fallback : ¬Fallback (sdCardInit 3 true switchTwice).2.trace ∧
    (sdCardInit 3 true switchTwice).2.trace.count (.sent (sdCommands 11) 0) = 2 ∧
    (sdCardInit 3 true switchTwice).2.trace.count .switchFailed = 2 := by decide +kernel

end RpiBoot
