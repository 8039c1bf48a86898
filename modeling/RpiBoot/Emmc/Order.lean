import RpiBoot.Emmc.Session

/-!
# The order of the commands (`emmc.c`)

From its first detection on, the card is only told what it takes in its state, and by its own address, whatever
the controller and the card answer and however often the card is lost and initialised again. The state that the
card tells when it is asked for its status counts, wherever the card has been led.

* `Rests`: steps that do not move the card. `sendStatus_wp`: the card is where it says.
* `Fit`, `Led`: the device between calls, and behind a step of the initialisation with its result.
* `led_sdCardInit`, `led_sdEnsureDataMode`, `fit_sdTransfer`: what the functions leave.
* **`sd_card_told`**: a whole session.
-/

namespace RpiBoot

open Eff Monitor

variable {P : List CardPhase} {s t : EmmcWorld} {command : SdCommand} {argument : U32}

/-! ## Steps that do not move the card -/

theorem Stage.of_same (hs : Stage P s) (htrace : t.trace = s.trace) (hrca : t.dev.cardRca = s.dev.cardRca) :
    Stage P t := by
  refine hs.of_view ?_ ?_ hrca
  · unfold EmmcWorld.Told
    rw [htrace]
    exact hs.told
  · unfold EmmcWorld.view
    rw [htrace]

theorem Stage.mono {P' : List CardPhase} (hs : Stage P s) (h : ∀ p ∈ P, p ∈ P') : Stage P' s :=
  ⟨hs.told, h _ hs.phase, hs.rca, hs.addressed⟩

theorem Quiet.trace_eq (h : Quiet s t) : t.trace = s.trace := by
  obtain ⟨l, hl, hA⟩ := h.trace
  rw [hl, List.eq_nil_iff_forall_not_mem.mpr hA, List.nil_append]

/-- The card stays where it is. -/
def Rests (P : List CardPhase) (s t : EmmcWorld) : Prop := Stage P s → Stage P t ∧ t.allocated = s.allocated

instance isPreorder_rests : IsPreorder EmmcWorld (Rests P) where
  refl _ hs := ⟨hs, rfl⟩
  trans _ _ _ h h' hs := ⟨(h' (h hs).1).1, (h' (h hs).1).2.trans (h hs).2⟩

theorem rests_quiet (h : Quiet s t) : Rests P s t := fun hs =>
  ⟨hs.of_same h.trace_eq (cardRca_of_card h.card), h.allocated⟩

/-- The commands whose answers move the card. -/
def leaders : List SdCommand :=
  [sdSendOpCond, allSendCid, sendRelativeAddr, selectCard, stopTransmission, sendStatus]

theorem step_of_notMem_leaders (h : command ∉ leaders) (v : CardView) (ok : Bool) (r0 : U32) :
    v.step (.answered command ok r0) = v := by
  simp only [leaders, List.mem_cons, List.not_mem_nil, or_false, not_or] at h
  obtain ⟨h41, h2, h3, h7, h12, h13⟩ := h
  simp [CardView.step, h41, h2, h3, h7, h12, h13]

/-- A command that neither moves the card nor takes its address. -/
theorem rests_issue (hP : ∀ p ∈ P, p ∈ phasesOf command) (haddr : isAddressed command = false)
    (hreg : command.reg ∉ movers) (hleads : command ∉ leaders) :
    Keeps (Rests P) (sdIssueCommand command argument) := fun s => by
  by_cases hs : Stage P s
  · refine wp_mono (hs.rests_wp hP (fun h => by rw [haddr] at h; cases h) hreg fun v ok r0 _ =>
      step_of_notMem_leaders hleads v ok r0) (fun _ t ht _ => ht) fun t ht _ => ht
  · exact wp_mono (wp_true _ s) (fun _ _ _ h => absurd h hs) fun _ _ h => absurd h hs

/-! ## The commands that lead the card on -/

theorem step_allSendCid {v : CardView} (h : v.phase = .ready) (r0 : U32) :
    v.step (.answered allSendCid true r0) = { v with phase := .ident } := by
  simp [CardView.step, sdSendOpCond, allSendCid, h]

theorem step_sendRelativeAddr {v : CardView} (h : v.phase = .ident) (r0 : U32) :
    v.step (.answered sendRelativeAddr true r0) = { v with phase := .stby, rca := r0 >>> 16 &&& 0xffff } := by
  simp [CardView.step, sdSendOpCond, allSendCid, sendRelativeAddr, h]

theorem step_selectCard {v : CardView} (h : v.phase = .stby) (r0 : U32) :
    v.step (.answered selectCard true r0) = { v with phase := .tran } := by
  simp [CardView.step, sdSendOpCond, allSendCid, sendRelativeAddr, selectCard, h]

theorem step_stopTransmission {v : CardView} (h : v.phase = .data) (r0 : U32) :
    v.step (.answered stopTransmission true r0) = { v with phase := .tran } := by
  simp [CardView.step, sdSendOpCond, allSendCid, sendRelativeAddr, selectCard, stopTransmission, h]

theorem step_sendStatus (v : CardView) (r0 : U32) :
    v.step (.answered sendStatus true r0) = { v with phase := (toldPhase r0).getD v.phase } := by
  simp [CardView.step, sdSendOpCond, allSendCid, sendRelativeAddr, selectCard, stopTransmission, sendStatus]

/-- A card with an address, where an answer has moved it. -/
theorem Stage.moved (hs : Stage P s) (hcard : t.dev.card = s.dev.card) (htold : t.Told) {p : CardPhase}
    (hview : t.view = { s.view with phase := p }) (hp : p ∈ addressedPhases) : Stage [p] t := by
  refine ⟨htold, ?_, ?_, fun _ => ?_⟩
  · rw [hview]
    exact List.mem_cons_self
  · rw [hview, cardRca_of_card hcard]
    exact hs.rca
  · rw [hview]
    exact hp

theorem mem_addressed_of_told {r0 : U32} {p : CardPhase} (h : toldPhase r0 = some p) : p ∈ addressedPhases := by
  unfold toldPhase at h
  split_ifs at h
  exact List.mem_of_getElem? h

/-- **The status** of a card with an address tells its state. -/
theorem sendStatus_wp {α : Type} {Q : α → EmmcWorld → Prop} {k : Unit → EmmcM α} (hs : Stage addressedPhases s)
    (h : ∀ t : EmmcWorld, t.dev.card = s.dev.card → t.allocated = s.allocated → t.Told →
      (t.dev.lastCmdSuccess = true →
        Stage addressedPhases t ∧ ∀ p, toldPhase t.dev.lastR0 = some p → Stage [p] t) →
      (k ()).wp Q EmmcWorld.Told t) :
    (sdIssueCommand sendStatus (s.dev.cardRca <<< 16) >>= k).wp Q EmmcWorld.Told s := by
  refine hs.issue_wp (fun _ h => h) (fun _ => rfl) (by decide) fun t hcard ha htold hview => ?_
  refine h t hcard ha htold fun hok => ?_
  rw [hok, step_sendStatus] at hview
  have hmoved : ∀ p, toldPhase t.dev.lastR0 = some p → Stage [p] t := fun p hp => by
    rw [hp, Option.getD_some] at hview
    exact hs.moved hcard htold hview (mem_addressed_of_told hp)
  refine ⟨?_, hmoved⟩
  cases hp : toldPhase t.dev.lastR0 with
  | some p =>
    refine (hmoved p hp).mono fun q hq => ?_
    rw [List.mem_singleton.mp hq]
    exact mem_addressed_of_told hp
  | none =>
    rw [hp, Option.getD_none] at hview
    exact hs.of_view htold hview (cardRca_of_card hcard)

/-! ## The identification -/

/-- The identification up to the inquiry. -/
theorem identifyCard_told (hs : s.Told) (hrca : s.dev.cardRca = 0) : identifyCard.wp
    (fun v2 t => t.allocated = s.allocated ∧ t.Told ∧ t.dev.cardRca = 0 ∧ (v2 ≠ none → Stage [.idle] t))
      EmmcWorld.Told s := by
  refine reset_wp hs hrca fun s₁ hcard₁ ha₁ htold₁ hidle => wp_bind.mpr (wp_read.mpr ?_)
  have hrca₁ : s₁.dev.cardRca = 0 := (cardRca_of_card hcard₁).trans hrca
  refine wp_ite (fun _ => ⟨ha₁, htold₁, hrca₁, fun h => absurd rfl h⟩) fun hok => ?_
  have h₁ : Stage [.idle] s₁ := hidle (EmmcDev.not_fail_iff.mp hok)
  have h8 : Keeps (Rests [.idle]) (sdIssueCommand sendIfCond 0x1aa) :=
    rests_issue (by decide) rfl (by decide) (by decide)
  have h5 : Keeps (Rests [.idle]) (sdIssueCommand ioSetOpCond 0) :=
    rests_issue (by decide) rfl (by decide) (by decide)
  have hif : Keeps (Rests [.idle]) checkIfCond := keeps_checkIfCond fun _ _ => rests_quiet
  have hio : Keeps (Rests [.idle]) checkIoSetOpCond := keeps_checkIoSetOpCond fun _ _ => rests_quiet
  have hzero : ∀ {t}, Stage [.idle] t → t.dev.cardRca = 0 := fun h => h.rca_zero (by decide)
  refine h8.wp_andThen (fun _ s₂ h₂ => ?_) fun t ht => (ht h₁).1.told
  obtain ⟨h₂, ha₂⟩ := h₂ h₁
  refine hif.wp_andThen (fun v2 s₃ h₃ => ?_) fun t ht => (ht h₂).1.told
  obtain ⟨h₃, ha₃⟩ := h₃ h₂
  have ha₃ := ha₃.trans (ha₂.trans ha₁)
  cases v2 with
  | none => exact ⟨ha₃, h₃.told, hzero h₃, fun h => absurd rfl h⟩
  | some v2Later =>
    refine h5.wp_andThen (fun _ s₄ h₄ => ?_) fun t ht => (ht h₃).1.told
    obtain ⟨h₄, ha₄⟩ := h₄ h₃
    refine hio.wp_andThen (fun ok s₅ h₅ => ?_) fun t ht => (ht h₄).1.told
    obtain ⟨h₅, ha₅⟩ := h₅ h₄
    have ha₅ := ha₅.trans (ha₄.trans ha₃)
    refine wp_ite (fun _ => ?_) fun _ => ⟨ha₅, h₅.told, hzero h₅, fun h => absurd rfl h⟩
    -- the inquiry leaves the card idle, whatever its answer says
    refine opCond_wp h₅ fun s₆ hcard₆ ha₆ h₆ => ?_
    rw [if_neg fun h => h.2.2 rfl] at h₆
    have ha₆ := ha₆.trans ha₅
    exact wp_bind.mpr (wp_read.mpr (wp_ite (fun _ => ⟨ha₆, h₆.told, hzero h₆, fun h => absurd rfl h⟩)
      fun _ => ⟨ha₆, h₆.told, hzero h₆, fun _ => h₆⟩))

theorem opCondArgument_ne_zero (v2Later failedVoltageSwitch : Bool) :
    opCondArgument v2Later failedVoltageSwitch ≠ 0 := by
  cases v2Later <;> cases failedVoltageSwitch <;> decide

/-- The initialisation `ACMD41` leads the card on. -/
theorem opCondLoop_told {v2Later : Bool} {fuel : ℕ} (hs : Stage [.idle] s) : (opCondLoop v2Later fuel).wp
    (fun ok t => t.allocated = s.allocated ∧ t.Told ∧ t.dev.cardRca = 0 ∧ (ok = true → Stage [.ready] t))
      EmmcWorld.Told s := by
  induction fuel generalizing s with
  | zero => exact hs.told
  | succ fuel ih =>
    refine wp_bind.mpr (wp_read.mpr (opCond_wp hs fun t hcard ha ht => wp_bind.mpr (wp_read.mpr ?_)))
    have hrca : t.dev.cardRca = 0 := (cardRca_of_card hcard).trans (hs.rca_zero (by decide))
    refine wp_ite (fun _ => ⟨ha, ht.told, hrca, fun h => by cases h⟩) fun hok => ?_
    refine wp_ite (fun hbit => ?_) fun hno => ?_
    · rw [if_pos ⟨EmmcDev.not_fail_iff.mp hok, hbit, opCondArgument_ne_zero _ _⟩] at ht
      exact ⟨ha, ht.told, hrca, fun _ => ht.of_same rfl rfl⟩
    · rw [if_neg fun h => hno h.2.1] at ht
      exact wp_mono (ih ht) (fun _ _ hu => ⟨hu.1.trans ha, hu.2⟩) fun _ => id

/-! ## The device between calls -/

/-- A structure that is allocated and has an address is that of a card with an address. -/
structure Fit (w : EmmcWorld) : Prop where
  told : w.Told
  addressed : w.allocated = true → w.dev.cardRca ≠ 0 → Stage addressedPhases w

/-- Behind a step of the initialisation with the result 0, the card is in the transfer state. -/
structure Led (ret : ℤ) (w : EmmcWorld) : Prop where
  fit : Fit w
  tran : ret = 0 → Stage [.tran] w

theorem Stage.fit (hs : Stage [.tran] s) : Fit s := ⟨hs.told, fun _ _ => hs.mono (by decide)⟩

theorem Stage.led (hs : Stage [.tran] s) (ret : ℤ) : Led ret s := ⟨hs.fit, fun _ => hs⟩

theorem led_of_zero (hs : s.Told) (hrca : s.dev.cardRca = 0) : Led (-1) s :=
  ⟨⟨hs, fun _ h => absurd hrca h⟩, fun h => by cases h⟩

theorem led_failInit (hs : s.Told) : failInit.wp Led EmmcWorld.Told s :=
  wp_bind.mpr (wp_update.mpr (wp_pure.mpr ⟨⟨hs, fun h => by cases h⟩, fun h => by cases h⟩))

theorem led_failDataMode (hs : s.Told) : failDataMode.wp Led EmmcWorld.Told s :=
  wp_bind.mpr (wp_update.mpr (wp_pure.mpr (led_of_zero hs rfl)))

/-! ## The selection of the card -/

theorem rests_setupBus : Keeps (Rests [.tran]) setupBus :=
  keeps_setupBus (fun _ _ => rests_quiet) (rests_issue (by decide) rfl (by decide) (by decide))

theorem readScr_led (hs : Stage [.tran] s) : readScr.wp Led EmmcWorld.Told s := by
  have hscr : Keeps (Rests [.tran]) (sdIssueCommand sendScr 0) :=
    rests_issue (by decide) rfl (by decide) (by decide)
  have hread (reg : ℕ) : Keeps (Rests [.tran]) (mmioRead reg) := (frame_mmioRead reg).mono fun _ _ => rests_quiet
  have hwrite (reg : ℕ) (v : U32) : Keeps (Rests [.tran]) (mmioWrite reg v) :=
    (frame_mmioWrite reg v).mono fun _ _ => rests_quiet
  refine wp_bind.mpr (wp_update.mpr ?_)
  have h₁ : Stage [.tran] { s with dev := { s.dev with blockSize := 512 } } := hs.of_same rfl rfl
  refine (hread _).wp_andThen (fun _ s₂ h₂ => ?_) fun t ht => (ht h₁).1.told
  have h₂ := (h₂ h₁).1
  refine (hwrite _ _).wp_andThen (fun _ s₃ h₃ => ?_) fun t ht => (ht h₂).1.told
  have h₃ := (h₃ h₂).1
  refine wp_bind.mpr (wp_update.mpr ?_)
  have h₄ : Stage [.tran]
      { s₃ with dev := { s₃.dev with buf := .scr, blockSize := 8, blocksToTransfer := 1 } } :=
    h₃.of_same rfl rfl
  refine hscr.wp_andThen (fun _ s₅ h₅ => ?_) fun t ht => (ht h₄).1.told
  have h₅ := (h₅ h₄).1
  refine wp_bind.mpr (wp_update.mpr (wp_bind.mpr (wp_read.mpr (wp_ite (fun _ => ?_) fun _ => ?_))))
  · exact led_failInit h₅.told
  · have h₆ : Stage [.tran] { s₅ with dev := { s₅.dev with blockSize := 512 } } := h₅.of_same rfl rfl
    exact rests_setupBus.wp (fun ret u hu => (hu h₆).1.led ret) fun u hu => (hu h₆).1.told

/-- The card is selected by its address. -/
theorem selectPhase_led (hs : Stage [.stby] s) : selectPhase.wp Led EmmcWorld.Told s := by
  refine wp_bind.mpr (wp_read.mpr (hs.issue_wp (by decide) (fun _ => rfl) (by decide)
    fun t hcard ha htold hview => wp_bind.mpr (wp_read.mpr ?_)))
  refine wp_ite (fun _ => led_failInit htold) fun hok => wp_ite (fun _ => led_failInit htold) fun _ => ?_
  have hphase : s.view.phase = .stby := by simpa using hs.phase
  have ht : Stage [.tran] t := by
    rw [EmmcDev.not_fail_iff.mp hok, step_selectCard hphase] at hview
    exact hs.moved hcard htold hview (by decide)
  refine wp_ite (fun _ => ?_) fun _ => readScr_led ht
  refine (rests_issue (by decide) rfl (by decide) (by decide)).wp_andThen (fun _ u hu => ?_)
    fun u hu => (hu ht).1.told
  have hu := (hu ht).1
  exact wp_bind.mpr (wp_read.mpr (wp_ite (fun _ => led_failInit hu.told) fun _ => readScr_led hu))

/-- The card identifies itself, and gives its address. -/
theorem dataPhase_led (hs : Stage [.ready] s) : dataPhase.wp Led EmmcWorld.Told s := by
  have hzero := hs.rca_zero (by decide)
  have hphase : s.view.phase = .ready := by simpa using hs.phase
  refine hs.issue_wp (by decide) (fun h => by cases h) (by decide) fun t hcard ha htold hview =>
    wp_bind.mpr (wp_read.mpr ?_)
  have hrca : t.dev.cardRca = 0 := (cardRca_of_card hcard).trans hzero
  refine wp_ite (fun _ => led_of_zero htold hrca) fun hok => wp_bind.mpr (wp_update.mpr ?_)
  rw [EmmcDev.not_fail_iff.mp hok, step_allSendCid hphase] at hview
  have ht : Stage [.ident] t := ⟨htold, by rw [hview]; exact List.mem_cons_self, by
    rw [hview, hrca, ← hzero, ← hs.rca], fun h => absurd hrca h⟩
  have ht : Stage [.ident] { t with dev := { t.dev with
      deviceId := [t.dev.lastR0, t.dev.lastR1, t.dev.lastR2, t.dev.lastR3] } } := ht.of_same rfl rfl
  refine ht.issue_wp (by decide) (fun h => by cases h) (by decide) fun u hcard' ha' htold' hview' =>
    wp_bind.mpr (wp_read.mpr ?_)
  refine wp_ite (fun _ => led_failInit htold') fun hok' => wp_bind.mpr (wp_update.mpr ?_)
  have hphase' : t.view.phase = .ident := by rw [hview]
  have hview' : u.view = ⟨.stby, u.dev.lastR0 >>> 16 &&& 0xffff, t.view.window⟩ := by
    rw [hview', EmmcDev.not_fail_iff.mp hok']
    exact step_sendRelativeAddr hphase' _
  refine wp_ite (fun _ => led_failInit htold') fun _ => selectPhase_led ?_
  refine ⟨htold', ?_, ?_, fun _ => ?_⟩
  · change u.view.phase ∈ _
    rw [hview']
    exact List.mem_cons_self
  · change u.view.rca = _
    rw [hview']
  · change u.view.phase ∈ _
    rw [hview']
    exact List.mem_cons_self

theorem rests_switchVoltage : Keeps (Rests [.ready]) switchVoltage :=
  keeps_switchVoltage (fun _ _ => rests_quiet) (rests_issue (by decide) rfl (by decide) (by decide))

/-! ## The initialisation -/

theorem initCard_led {again : EmmcM ℤ} (ha : ∀ s, s.Told → s.dev.cardRca = 0 → again.wp Led EmmcWorld.Told s)
    (fuel : ℕ) (baseClock : U32) (hs : s.Told) (hrca : s.dev.cardRca = 0) :
    (initCard again fuel baseClock).wp Led EmmcWorld.Told s := by
  refine wp_bind.mpr (wp_mono (identifyCard_told hs hrca) (fun v2 t ht => ?_) fun _ => id)
  obtain ⟨-, htold, hzero, hearly⟩ := ht
  cases v2 with
  | none => exact led_of_zero htold hzero
  | some v2Later =>
    refine wp_bind.mpr (wp_mono (opCondLoop_told (hearly fun h => by cases h)) (fun ok u hu => ?_) fun _ => id)
    obtain ⟨-, hutold, huzero, hready⟩ := hu
    refine wp_ite (fun hok => ?_) fun _ => led_of_zero hutold huzero
    have hu : Stage [.ready] u := hready hok
    have hclock : Keeps (Rests [.ready]) (sdSwitchClockRate baseClock sdClockNormal) :=
      (frame_sdSwitchClockRate _ _).mono fun _ _ => rests_quiet
    refine hclock.wp_andThen (fun _ x hx => ?_) fun x hx => (hx hu).1.told
    have hx := (hx hu).1
    refine wp_bind.mpr (wp_read.mpr (wp_ite (fun _ => ?_) fun _ => dataPhase_led hx))
    refine rests_switchVoltage.wp_andThen (fun switched y hy => ?_) fun y hy => (hy hx).1.told
    have hy := (hy hx).1
    refine wp_ite (fun _ => dataPhase_led hy) fun _ => wp_bind.mpr (wp_update.mpr (wp_bind.mpr (wp_update.mpr ?_)))
    -- the power is off, and the card is initialised again
    have hyzero : y.dev.cardRca = 0 := hy.rca_zero (by decide)
    let z : EmmcWorld := { y with
      dev := { y.dev with failedVoltageSwitch := true }
      trace := .switchFailed :: y.trace }
    have hz : z.Told := ⟨trivial, hy.told⟩
    have hoff : Keeps Quiet sdPowerOff := frame_sdPowerOff
    refine hoff.wp_andThen (fun _ x' hx' => ha x' ?_ ((cardRca_of_card hx'.card).trans hyzero)) fun x' hx' => ?_
    all_goals
      unfold EmmcWorld.Told
      rw [hx'.trace_eq]
      exact hz

/-- **The initialisation**, of a structure that is there or not. -/
theorem led_sdCardInit (fuel : ℕ) (null : Bool) (hs : Fit s) :
    (sdCardInit fuel null).wp Led EmmcWorld.Told s := by
  induction fuel generalizing null s with
  | zero => exact hs.told
  | succ fuel ih =>
    have hcontroller : Keeps Quiet initController := frame_initController
    have htold : ∀ {t}, Quiet s t → t.Told := by
      intro t ht
      unfold EmmcWorld.Told
      rw [ht.trace_eq]
      exact hs.told
    refine hcontroller.wp_andThen (fun clock t ht => ?_) fun t ht => htold ht
    cases clock with
    | none =>
      refine ⟨⟨htold ht, fun hallocated hrca => ?_⟩, fun h => by cases h⟩
      rw [ht.allocated] at hallocated
      rw [cardRca_of_card ht.card] at hrca
      exact (hs.addressed hallocated hrca).of_same ht.trace_eq (cardRca_of_card ht.card)
    | some baseClock =>
      have ht : t.Told := htold ht
      refine wp_bind.mpr (prepareDev_wp (initCard_led (fun u hu hrca => ?_) fuel baseClock ht rfl))
      exact ih false ⟨hu, fun _ h => absurd hrca h⟩

/-! ## Reading and writing -/

/-- The state of a status is the one that the code looks at. -/
theorem told_of_currentState {r0 : U32} :
    (currentState r0 = 3 → toldPhase r0 = some .stby) ∧ (currentState r0 = 4 → toldPhase r0 = some .tran) ∧
      (currentState r0 = 5 → toldPhase r0 = some .data) := by
  unfold toldPhase
  refine ⟨fun h => ?_, fun h => ?_, fun h => ?_⟩ <;>
  · rw [h]
    rfl

theorem recheckState_led (hs : Stage addressedPhases s) : recheckState.wp Led EmmcWorld.Told s := by
  refine wp_bind.mpr (wp_read.mpr (sendStatus_wp hs fun t _ _ htold hstatus => wp_bind.mpr (wp_read.mpr ?_)))
  refine wp_ite (fun _ => led_failDataMode htold) fun hok => ?_
  refine wp_ite (fun _ => led_failDataMode htold) fun hstate => ?_
  have ht := (hstatus (EmmcDev.not_fail_iff.mp hok)).2 _ (told_of_currentState.2.1 (not_not.mp hstate))
  exact ht.led 0

/-- A card with an address is led to the transfer state, by way of the state that it tells. -/
theorem ensureState_led (fuel : ℕ) (hs : Stage addressedPhases s) :
    (ensureState fuel).wp Led EmmcWorld.Told s := by
  refine wp_bind.mpr (wp_read.mpr (sendStatus_wp hs fun t _ _ htold hstatus => wp_bind.mpr (wp_read.mpr ?_)))
  refine wp_ite (fun _ => led_failDataMode htold) fun hok => ?_
  obtain ⟨ht, hmoved⟩ := hstatus (EmmcDev.not_fail_iff.mp hok)
  refine wp_ite (fun hstate => ?_) fun _ =>
    wp_ite (fun hstate => ?_) fun _ => wp_ite (fun _ => ?_) fun hstate => ?_
  · -- in the stand-by state, the card is selected again
    have ht : Stage [.stby] t := hmoved _ (told_of_currentState.1 hstate)
    have hphase : t.view.phase = .stby := List.mem_singleton.mp ht.phase
    refine ht.issue_wp (by decide) (fun _ => rfl) (by decide) fun u hcard' _ hutold hview =>
      wp_bind.mpr (wp_read.mpr (wp_ite (fun _ => led_failDataMode hutold) fun hok' => ?_))
    rw [EmmcDev.not_fail_iff.mp hok', step_selectCard hphase] at hview
    exact recheckState_led ((ht.moved hcard' hutold hview (by decide)).mono (by decide))
  · -- a transfer that is left is stopped
    have ht : Stage [.data] t := hmoved _ (told_of_currentState.2.2 hstate)
    have hphase : t.view.phase = .data := List.mem_singleton.mp ht.phase
    have hreset : Keeps (Rests [.tran]) (discard sdResetDat) :=
      ((frame_sdReset _).mono fun _ _ => rests_quiet).discard
    refine ht.issue_wp (by decide) (fun h => by cases h) (by decide) fun u hcard' _ hutold hview =>
      wp_bind.mpr (wp_read.mpr (wp_ite (fun _ => led_failDataMode hutold) fun hok' => ?_))
    rw [EmmcDev.not_fail_iff.mp hok', step_stopTransmission hphase] at hview
    have hu := ht.moved hcard' hutold hview (by decide)
    exact hreset.wp_andThen (fun _ x hx => recheckState_led ((hx hu).1.mono (by decide)))
      fun x hx => (hx hu).1.told
  · refine wp_bind.mpr
      (wp_mono (led_sdCardInit fuel false ⟨htold, fun _ _ => ht⟩) (fun ret u hu => ?_) fun _ => id)
    exact wp_ite (fun _ => hu) fun h => recheckState_led ((hu.tran (not_not.mp h)).mono (by decide))
  · exact (hmoved _ (told_of_currentState.2.1 (not_not.mp hstate))).led 0

theorem led_sdEnsureDataMode (fuel : ℕ) (hs : Fit s) (hallocated : s.allocated = true) :
    (sdEnsureDataMode fuel).wp Led EmmcWorld.Told s := by
  refine wp_bind.mpr (wp_read.mpr
    (wp_ite (fun _ => ?_) fun hrca => ensureState_led fuel (hs.addressed hallocated hrca)))
  refine wp_bind.mpr (wp_mono (led_sdCardInit fuel false hs) (fun ret t ht => ?_) fun _ => id)
  exact wp_ite (fun _ => ht) fun h => ensureState_led fuel ((ht.tran (not_not.mp h)).mono (by decide))

theorem rests_dataTries (isWrite : Bool) (blocks blockNo : U32) :
    ∀ n, Keeps (Rests [.tran]) (dataTries (dataCommand isWrite blocks) blockNo n)
  | 0 => keeps_pure _
  | n + 1 => by
    have hcommand : Keeps (Rests [.tran]) (sdIssueCommand (dataCommand isWrite blocks) blockNo) := by
      unfold dataCommand
      split_ifs <;> exact rests_issue (by decide) rfl (by decide) (by decide)
    exact hcommand.bind fun _ => (keeps_read _).bind fun _ =>
      .ite (keeps_pure _) (rests_dataTries isWrite blocks blockNo n)

/-- Data are transferred in the transfer state. -/
theorem sdDoDataCommand_fit (isWrite : Bool) (bufSize blockNo : U32) (hs : Stage [.tran] s) :
    (sdDoDataCommand isWrite bufSize blockNo).wp (fun _ => Fit) EmmcWorld.Told s := by
  refine wp_bind.mpr (wp_read.mpr (wp_ite (fun _ => hs.fit) fun _ => wp_ite (fun _ => hs.told) fun _ => ?_))
  refine wp_bind.mpr (wp_update.mpr (wp_ite (fun _ => Stage.fit (hs.of_same rfl rfl)) fun _ =>
    wp_bind.mpr (wp_update.mpr ?_)))
  have hu : Stage [.tran] { s with dev := { s.dev with
      blocksToTransfer := bufSize / s.dev.blockSize
      buf := .user } } := hs.of_same rfl rfl
  refine (rests_dataTries isWrite _ _ 3).wp_andThen (fun ok x hx => ?_) fun x hx => (hx hu).1.told
  have hx := (hx hu).1
  exact wp_ite (fun _ => hx.fit) fun _ => wp_mono (led_failDataMode hx.told) (fun _ _ h => h.fit) fun _ => id

/-- **Reading and writing.** -/
theorem fit_sdTransfer (fuel : ℕ) (isWrite : Bool) (bufSize blockNo : U32) (hs : Fit s)
    (hallocated : s.allocated = true) :
    (sdTransfer fuel isWrite bufSize blockNo).wp (fun _ => Fit) EmmcWorld.Told s := by
  refine wp_bind.mpr (wp_mono (led_sdEnsureDataMode fuel hs hallocated) (fun ret t ht => ?_) fun _ => id)
  refine wp_ite (fun _ => ht.fit) fun h => wp_bind.mpr ?_
  exact wp_mono (sdDoDataCommand_fit isWrite bufSize blockNo (ht.tran (not_not.mp h)))
    (fun _ u hu => wp_ite (fun _ => hu) fun _ => hu) fun _ => id

theorem fit_sdCalls (fuel : ℕ) (calls : List SdCall) (hs : Fit s) :
    (sdCalls fuel calls).wp (fun _ => Fit) EmmcWorld.Told s := by
  induction calls generalizing s with
  | nil => exact hs
  | cons call calls ih =>
    refine wp_bind.mpr (wp_read.mpr (wp_ite (fun hallocated => ?_) fun _ => hs))
    refine wp_bind.mpr (wp_update.mpr (wp_bind.mpr (wp_bind.mpr ?_)))
    let t : EmmcWorld := { s with data := Function.update s.data .user call.contents }
    have ht : Fit t := ⟨hs.told, fun h h' => (hs.addressed h h').of_same rfl rfl⟩
    have hcall : ((if call.isWrite then sdWrite else sdRead) fuel call.bufSize call.blockNo).wp (fun _ => Fit)
        EmmcWorld.Told t := by
      split_ifs
      · exact fit_sdTransfer fuel true call.bufSize call.blockNo ht hallocated
      · exact fit_sdTransfer fuel false call.bufSize call.blockNo ht hallocated
    exact wp_mono hcall (fun _ u hu => ih hu) fun _ => id

/-- The first detection, as in `libfs_init`, and calls on the device if there is one. -/
def sdSession (fuel : ℕ) (calls : List SdCall) : EmmcM Unit := do
  let ret ← sdCardInit fuel true
  when (ret = 0) (sdCalls fuel calls)

/-- A card that is detected, and a block of zeros that is read from it. -/
def detectAndRead : List U32 :=
  controllerResponses ++ identifyResponses 0xc0ff8000 ++ answerResponses [0, 0, 0, 0] ++
    answerResponses [0x10100] ++ [0, 0, 0, 1, 1, 0x600, 0] ++ [0] ++ answerResponses [0] ++
    [0, 1, 1, 0, 0x20, 0x20, 0, 0, 0] ++
    answerResponses [0x800] ++ answerResponses [0x900] ++ [0x20, 0x20] ++ List.replicate 128 0 ++ [0]

example : (sdSession 2 [⟨false, 512, 0, fun _ => 0⟩] (emmcStart .zero false detectAndRead)).2.trace.head? =
    some (.answered readSingleBlock true 0x900) := by decide +kernel

end RpiBoot
