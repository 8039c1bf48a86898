import RpiBoot.Emmc.Model

/-!
# What a command changes (`emmc.c`)

A command changes what the device structure says of the last command, and adds to what has happened; the rest
of the structure is as before.

* `EmmcDev.card`: the structure without what it says of the last command.
* `Frame A`: the card is the same, and all that has happened since is in `A`.
* `frame_sdIssueCommandInt`: a command is written to the controller at most once.
* `sdIssueCommand_wp`: the last that happens is its answer.
-/

namespace RpiBoot

open Eff

/-- The structure without what it says of the last command, of errors and of a removal. -/
def EmmcDev.card (d : EmmcDev) : EmmcDev :=
  { d with
    lastInterrupt := 0
    lastError := 0
    lastCmdReg := 0
    lastCmd := none
    lastCmdSuccess := false
    lastR0 := 0
    lastR1 := 0
    lastR2 := 0
    lastR3 := 0
    cardRemoval := false }

theorem EmmcDev.fail_iff {d : EmmcDev} : d.fail = true ↔ d.lastCmdSuccess = false := by simp [fail]

theorem EmmcDev.not_fail_iff {d : EmmcDev} : ¬d.fail = true ↔ d.lastCmdSuccess = true := by simp [fail]

/-- What has happened since is in `A`. -/
def Adds (A : SdEvent → Prop) (s t : EmmcWorld) : Prop := ∃ l, t.trace = l ++ s.trace ∧ ∀ e ∈ l, A e

/-- The card and its structure are the same, and what has happened since is in `A`. -/
structure Frame (A : SdEvent → Prop) (s t : EmmcWorld) : Prop where
  card : t.dev.card = s.dev.card
  allocated : t.allocated = s.allocated
  trace : Adds A s t

variable {A B : SdEvent → Prop}

theorem adds_same {s t : EmmcWorld} (h : t.trace = s.trace) : Adds A s t :=
  ⟨[], h, fun _ he => absurd he List.not_mem_nil⟩

instance isPreorder_adds : IsPreorder EmmcWorld (Adds A) where
  refl _ := adds_same rfl
  trans s t u h h' := by
    obtain ⟨l, hl, hA⟩ := h
    obtain ⟨l', hl', hA'⟩ := h'
    refine ⟨l' ++ l, ?_, fun e he => ?_⟩
    · rw [hl', hl, List.append_assoc]
    · rcases List.mem_append.mp he with he | he
      · exact hA' e he
      · exact hA e he

theorem Adds.mono {s t : EmmcWorld} (h : Adds A s t) (hAB : ∀ e, A e → B e) : Adds B s t := by
  obtain ⟨l, hl, hA⟩ := h
  exact ⟨l, hl, fun e he => hAB e (hA e he)⟩

instance isPreorder_frame : IsPreorder EmmcWorld (Frame A) where
  refl _ := ⟨rfl, rfl, adds_same rfl⟩
  trans _ _ _ h h' := ⟨h'.card.trans h.card, h'.allocated.trans h.allocated, trans_of _ h.trace h'.trace⟩

/-! ## Registers and responses -/

theorem frame_getDev : Keeps (Frame A) getDev := keeps_read _

theorem frame_nextResponse : Keeps (Frame A) nextResponse := by
  rintro ⟨_ | ⟨v, rs⟩, _, _, _, _, _⟩
  · exact refl_of (Frame A) _
  · exact ⟨rfl, rfl, adds_same rfl⟩

theorem frame_mmioRead (reg : ℕ) : Keeps (Frame A) (mmioRead reg) := frame_nextResponse

theorem frame_mailbuffer (i : ℕ) : Keeps (Frame A) (mailbuffer i) := frame_nextResponse

theorem frame_mmioWrite (reg : ℕ) (v : U32) : Keeps (Frame A) (mmioWrite reg v) :=
  keeps_update fun _ => ⟨rfl, rfl, adds_same rfl⟩

/-- Whatever responses are taken. -/
theorem frame_take (f : List U32 → Option Unit × List U32) :
    Keeps (Frame A) fun w => ((f w.responses).1, { w with responses := (f w.responses).2 }) := by
  intro w
  have h : Frame A w { w with responses := (f w.responses).2 } :=
    ⟨rfl, rfl, adds_same rfl⟩
  unfold wp
  dsimp only
  rcases (f w.responses).1 with _ | u
  · exact h
  · exact h

theorem frame_waitWhile (reg : ℕ) (busy : U32 → Bool) : Keeps (Frame A) (waitWhile reg busy) :=
  frame_take (waitFrom busy)

theorem frame_timeoutWait (reg : ℕ) (stopIfTrue : U32 → Bool) : Keeps (Frame A) (timeoutWait reg stopIfTrue) :=
  frame_take (timeoutFrom stopIfTrue)

theorem frame_mboxCall : Keeps (Frame A) mboxCall :=
  (frame_waitWhile _ _).bind fun _ => frame_take mboxReadFrom

/-- A change of what the structure says of the last command. -/
theorem frame_setDev {f : EmmcDev → EmmcDev} (h : ∀ d, (f d).card = d.card) : Keeps (Frame A) (setDev f) :=
  keeps_update fun w => ⟨h w.dev, rfl, adds_same rfl⟩

theorem frame_happen {e : SdEvent} (h : A e) : Keeps (Frame A) (happen e) :=
  keeps_update fun _ => ⟨rfl, rfl, [e], rfl, fun _ he => List.mem_singleton.mp he ▸ h⟩

theorem frame_setError (irpts : U32) : Keeps (Frame A) (setError irpts) := frame_setDev fun _ => rfl

/-! ## The controller -/

theorem frame_bcm2708Power (state : U32) : Keeps (Frame A) (bcm2708Power state) :=
  frame_mboxCall.bind fun _ => (frame_mailbuffer 1).bind fun _ =>
    .ite (keeps_pure _) <| (frame_mailbuffer 5).bind fun _ =>
      .ite (keeps_pure _) <| (frame_mailbuffer 6).bind fun _ => .ite (keeps_pure _) (keeps_pure _)

theorem frame_bcm2708PowerCycle : Keeps (Frame A) bcm2708PowerCycle :=
  (frame_bcm2708Power 0).bind fun _ => .ite (keeps_pure _) (frame_bcm2708Power 1)

theorem frame_sdGetBaseClockHz : Keeps (Frame A) sdGetBaseClockHz :=
  frame_mboxCall.bind fun _ => (frame_mailbuffer 1).bind fun _ =>
    .ite (keeps_pure _) <| (frame_mailbuffer 5).bind fun _ => .ite (keeps_pure _) (frame_mailbuffer 6)

theorem frame_sdSwitchClockRate (baseClock : U32) (targetRate : ℕ) :
    Keeps (Frame A) (sdSwitchClockRate baseClock targetRate) :=
  (frame_waitWhile _ _).bind fun _ => (frame_mmioRead _).bind fun _ => (frame_mmioWrite _ _).bind fun _ =>
    (frame_mmioWrite _ _).bind fun _ => frame_mmioWrite _ _

theorem frame_sdReset (bit : U32) : Keeps (Frame A) (sdReset bit) :=
  (frame_mmioRead _).bind fun _ => (frame_mmioWrite _ _).bind fun _ => (frame_timeoutWait _ _).bind fun _ =>
    (frame_mmioRead _).bind fun _ => .ite (keeps_pure _) (keeps_pure _)

theorem frame_sdPowerOff : Keeps (Frame A) sdPowerOff :=
  (frame_mmioRead _).bind fun _ => frame_mmioWrite _ _

theorem frame_initController : Keeps (Frame A) initController :=
  frame_bcm2708PowerCycle.discard.bind fun _ => (frame_mmioRead _).discard.bind fun _ =>
    (frame_mmioRead _).bind fun _ => (frame_mmioWrite _ _).bind fun _ => (frame_timeoutWait _ _).bind fun _ =>
    (frame_mmioRead _).bind fun _ => .ite (keeps_pure _) <|
    -- a card is there
    (frame_mmioRead _).discard.bind fun _ => (frame_mmioRead _).discard.bind fun _ =>
    (frame_timeoutWait _ _).bind fun _ => (frame_mmioRead _).bind fun _ => .ite (keeps_pure _) <|
    -- the clock is stable
    (frame_mmioWrite _ _).bind fun _ => frame_sdGetBaseClockHz.bind fun _ => (frame_mmioRead _).bind fun _ =>
    (frame_mmioWrite _ _).bind fun _ => (frame_timeoutWait _ _).bind fun _ => (frame_mmioRead _).bind fun _ =>
    .ite (keeps_pure _) <|
    (frame_mmioRead _).bind fun _ => (frame_mmioWrite _ _).bind fun _ => (frame_mmioWrite _ _).bind fun _ =>
    (frame_mmioWrite _ _).bind fun _ => (frame_mmioWrite _ _).bind fun _ => keeps_pure _

theorem frame_recoverTimeout : Keeps (Frame A) recoverTimeout :=
  (frame_sdReset _).bind fun _ => .ite (keeps_pure _) <| (frame_mmioWrite _ _).bind fun _ => keeps_pure _

/-! ## Commands -/

theorem frame_sdReadResponse (cmdReg : U32) : Keeps (Frame A) (sdReadResponse cmdReg) :=
  .ite ((frame_mmioRead _).bind fun _ => frame_setDev fun _ => rfl) <|
    .ite ((frame_mmioRead _).bind fun _ => (frame_mmioRead _).bind fun _ => (frame_mmioRead _).bind fun _ =>
      (frame_mmioRead _).bind fun _ => frame_setDev fun _ => rfl) (keeps_pure _)

theorem frame_transferWords (isWrite : Bool) :
    ∀ n cur, Keeps (Frame A) (transferWords isWrite n cur)
  | 0, _ => keeps_pure _
  | n + 1, cur =>
    frame_getDev.bind fun _ => .ite
      ((keeps_read _).bind fun _ => (frame_mmioWrite _ _).bind fun _ => frame_transferWords isWrite n (cur + 1))
      ((frame_mmioRead _).bind fun _ =>
        (keeps_update fun _ => ⟨rfl, rfl, adds_same rfl⟩).bind fun _ =>
          frame_transferWords isWrite n (cur + 1))

theorem frame_transferBlocks (wrIrpt : U32) (isWrite : Bool) :
    ∀ n cur, Keeps (Frame A) (transferBlocks wrIrpt isWrite n cur)
  | 0, _ => keeps_pure _
  | n + 1, _ =>
    (frame_timeoutWait _ _).bind fun _ => (frame_mmioRead _).bind fun _ => (frame_mmioWrite _ _).bind fun _ =>
    .ite
      ((frame_setError _).bind fun _ => keeps_pure _)
      (frame_getDev.bind fun _ => (frame_transferWords isWrite _ _).bind fun _ =>
        frame_transferBlocks wrIrpt isWrite n _)

theorem frame_transferData (cmdReg : U32) : Keeps (Frame A) (transferData cmdReg) :=
  .ite (frame_getDev.bind fun _ => .ite (frame_transferBlocks _ _ _ _) (frame_transferBlocks _ _ _ _))
    (keeps_pure _)

theorem frame_transferComplete (cmdReg : U32) : Keeps (Frame A) (transferComplete cmdReg) :=
  .ite
    ((frame_mmioRead _).bind fun _ => .ite ((frame_mmioWrite _ _).bind fun _ => keeps_pure _) <|
      (frame_timeoutWait _ _).bind fun _ => (frame_mmioRead _).bind fun _ => (frame_mmioWrite _ _).bind fun _ =>
        .ite ((frame_setError _).bind fun _ => keeps_pure _) <|
          (frame_mmioWrite _ _).bind fun _ => keeps_pure _)
    (keeps_pure _)

/-- A command is written to the controller at most once. -/
theorem frame_sdIssueCommandInt {cmdReg argument : U32} (h : A (.sent cmdReg argument)) :
    Keeps (Frame A) (sdIssueCommandInt cmdReg argument) :=
  .bind (frame_setDev fun _ => rfl) fun _ => (frame_waitWhile _ _).bind fun _ =>
    (frame_waitWhile _ _).when.bind fun _ => frame_getDev.bind fun _ =>
    .ite (frame_setDev fun _ => rfl) <|
    (frame_mmioWrite _ _).bind fun _ => (frame_mmioWrite _ _).bind fun _ => (frame_mmioWrite _ _).bind fun _ =>
    (frame_happen h).bind fun _ =>
    -- its response
    (frame_timeoutWait _ _).bind fun _ => (frame_mmioRead _).bind fun _ => (frame_mmioWrite _ _).bind fun _ =>
    .ite (frame_setError _) <| (frame_sdReadResponse _).bind fun _ =>
    -- its data
    (frame_transferData _).bind fun _ => .ite
      ((frame_transferComplete _).bind fun _ => .when (frame_setDev fun _ => rfl)) (keeps_pure _)

/-- The word of a command for the register `CMDTM`. -/
def SdCommand.reg : SdCommand → U32
  | .cmd n => sdCommands n
  | .acmd n => sdAcommands n

/-- What is written to the controller for a command: the status of the card is asked for where it interrupts,
and an application command is announced. -/
def SentFor (command : SdCommand) (argument : U32) : SdEvent → Prop
  | .sent r a => r = sdCommands 13 ∨ r = sdCommands appCmd ∨ (r = command.reg ∧ a = argument)
  | .answered _ _ _ => False
  | .switchFailed => False

theorem frame_sdHandleCardInterrupt (h : ∀ a, A (.sent (sdCommands 13) a)) :
    Keeps (Frame A) sdHandleCardInterrupt :=
  frame_getDev.bind fun _ => (frame_sdIssueCommandInt (h _)).when

theorem frame_sdHandleInterrupts (h : ∀ a, A (.sent (sdCommands 13) a)) : Keeps (Frame A) sdHandleInterrupts :=
  (frame_mmioRead _).bind fun _ => (frame_sdReset _).discard.when.bind fun _ =>
    (frame_sdReset _).discard.when.bind fun _ => .bind (.when (frame_setDev fun _ => rfl)) fun _ =>
    (frame_sdHandleCardInterrupt h).when.bind fun _ => frame_mmioWrite _ _

theorem frame_sdSendCommand (argument : U32) (command : SdCommand) :
    Keeps (Frame (SentFor command argument)) (sdSendCommand argument command) := by
  cases command with
  | cmd n =>
    exact .ite (frame_setDev fun _ => rfl) <|
      .bind (frame_setDev fun _ => rfl) fun _ => frame_sdIssueCommandInt (.inr (.inr ⟨rfl, rfl⟩))
  | acmd n =>
    exact .ite (frame_setDev fun _ => rfl) <|
      .bind (frame_setDev fun _ => rfl) fun _ => frame_getDev.bind fun _ =>
      (frame_sdIssueCommandInt (.inr (.inl rfl))).bind fun _ => frame_getDev.bind fun _ => .ite
        (.bind (frame_setDev fun _ => rfl) fun _ => frame_sdIssueCommandInt (.inr (.inr ⟨rfl, rfl⟩)))
        (keeps_pure _)

/-- A command has been issued between `s` and `t`: behind what has been written for it there is its answer. -/
structure Issued (command : SdCommand) (argument : U32) (s t : EmmcWorld) : Prop where
  card : t.dev.card = s.dev.card
  allocated : t.allocated = s.allocated
  trace : ∃ l, t.trace = .answered command t.dev.lastCmdSuccess t.dev.lastR0 :: (l ++ s.trace) ∧
    ∀ e ∈ l, SentFor command argument e

/-- **A command that is issued.** -/
theorem sdIssueCommand_wp (command : SdCommand) (argument : U32) (s : EmmcWorld) :
    (sdIssueCommand command argument).wp (fun _ t => Issued command argument s t)
      (Frame (SentFor command argument) s) s := by
  refine (frame_sdHandleInterrupts fun _ => .inl rfl).wp_andThen (fun _ t h => ?_) fun _ h => h
  refine wp_bind.mpr (wp_read.mpr ?_)
  have hsend : Keeps (Frame (SentFor command argument))
      (if t.dev.cardRemoval then setDev fun d => { d with lastCmdSuccess := false }
        else sdSendCommand argument command) :=
    .ite (frame_setDev fun _ => rfl) (frame_sdSendCommand argument command)
  refine hsend.wp_andThen (fun _ u h' => ?_) fun _ h' => trans_of _ h h'
  have hu := trans_of _ h h'
  obtain ⟨l, hl, hA⟩ := hu.trace
  exact wp_bind.mpr (wp_read.mpr (wp_update.mpr ⟨hu.card, hu.allocated, l, by rw [hl], hA⟩))

/-- A command adds its answer and what is written for it. -/
theorem frame_sdIssueCommand {command : SdCommand} {argument : U32}
    (hsent : ∀ e, SentFor command argument e → A e) (hans : ∀ success r0, A (.answered command success r0)) :
    Keeps (Frame A) (sdIssueCommand command argument) := fun s => by
  refine wp_mono (sdIssueCommand_wp command argument s) (fun _ t h => ?_) fun t h => ?_
  · obtain ⟨l, hl, hA⟩ := h.trace
    refine ⟨h.card, h.allocated, _ :: l, hl, fun e he => ?_⟩
    rcases List.mem_cons.mp he with rfl | he
    · exact hans _ _
    · exact hsent e (hA e he)
  · exact ⟨h.card, h.allocated, h.trace.mono hsent⟩

/-! ## Parts of the initialisation

What they keep, by what their commands keep. -/

/-- Nothing has happened, and the card and its structure are the same. -/
def Quiet : EmmcWorld → EmmcWorld → Prop := Frame fun _ => False

instance isPreorder_quiet : IsPreorder EmmcWorld Quiet := isPreorder_frame

theorem Quiet.frame {s t : EmmcWorld} (h : Quiet s t) : Frame A s t :=
  ⟨h.card, h.allocated, h.trace.mono fun _ => False.elim⟩

section Parts

variable {T : EmmcWorld → EmmcWorld → Prop} [IsPreorder EmmcWorld T]

theorem keeps_checkIfCond (hq : ∀ s t, Quiet s t → T s t) : Keeps T checkIfCond :=
  (keeps_read _).bind fun _ => .ite (keeps_pure _) <|
    .ite ((frame_recoverTimeout.mono hq).bind fun _ => keeps_pure _) <|
    .ite (keeps_pure _) <| .ite (keeps_pure _) (keeps_pure _)

theorem keeps_checkIoSetOpCond (hq : ∀ s t, Quiet s t → T s t) : Keeps T checkIoSetOpCond :=
  (keeps_read _).bind fun _ => .ite (keeps_pure _) <| .ite (frame_recoverTimeout.mono hq) (keeps_pure _)

theorem keeps_identifyCard (hq : ∀ s t, Quiet s t → T s t) (h0 : Keeps T (sdIssueCommand goIdleState 0))
    (h8 : Keeps T (sdIssueCommand sendIfCond 0x1aa)) (h5 : Keeps T (sdIssueCommand ioSetOpCond 0))
    (h41 : Keeps T (sdIssueCommand sdSendOpCond 0)) : Keeps T identifyCard := by
  refine h0.bind fun _ => (keeps_read _).bind fun _ => .ite (keeps_pure _) <|
    h8.bind fun _ => (keeps_checkIfCond hq).bind fun v2 => ?_
  cases v2 with
  | none => exact keeps_pure _
  | some v2Later =>
    exact h5.bind fun _ => (keeps_checkIoSetOpCond hq).bind fun _ => .ite
      (h41.bind fun _ => (keeps_read _).bind fun _ => .ite (keeps_pure _) (keeps_pure _)) (keeps_pure _)

theorem keeps_switchVoltage (hq : ∀ s t, Quiet s t → T s t) (h11 : Keeps T (sdIssueCommand voltageSwitch 0)) :
    Keeps T switchVoltage := by
  have hread (reg : ℕ) : Keeps T (mmioRead reg) := (frame_mmioRead reg).mono hq
  have hwrite (reg : ℕ) (v : U32) : Keeps T (mmioWrite reg v) := (frame_mmioWrite reg v).mono hq
  exact h11.bind fun _ => (keeps_read _).bind fun _ => .ite (keeps_pure _) <|
    -- the clock is stopped, and the lines are low
    (hread _).bind fun _ => (hwrite _ _).bind fun _ => (hread _).bind fun _ => .ite (keeps_pure _) <|
    -- 1.8 V are enabled
    (hread _).bind fun _ => (hwrite _ _).bind fun _ => (hread _).bind fun _ => .ite (keeps_pure _) <|
    -- the clock runs, and the lines are high
    (hread _).bind fun _ => (hwrite _ _).bind fun _ => (hread _).bind fun _ => .ite (keeps_pure _) (keeps_pure _)

theorem keeps_setupBus (hq : ∀ s t, Quiet s t → T s t) (h6 : Keeps T (sdIssueCommand setBusWidth 0x2)) :
    Keeps T setupBus := by
  have hread (reg : ℕ) : Keeps T (mmioRead reg) := (frame_mmioRead reg).mono hq
  have hwrite (reg : ℕ) (v : U32) : Keeps T (mmioWrite reg v) := (frame_mmioWrite reg v).mono hq
  refine (keeps_read _).bind fun _ => .bind (.when ?_) fun _ => (hwrite _ _).bind fun _ => keeps_pure _
  exact (hread _).bind fun _ => (hwrite _ _).bind fun _ => h6.bind fun _ => (keeps_read _).bind fun _ => .when <|
    (hread _).bind fun _ => (hwrite _ _).bind fun _ => hwrite _ _

end Parts

/-! ## The device structure -/

/-- The structure behind `prepareDev`. -/
def freshDev (baseClock : U32) : EmmcDev :=
  { EmmcDev.zero with
    bdBlockSize := 512
    read := some .sdRead
    write := some .sdWrite
    baseClock := baseClock }

/-- The structure is prepared, whatever it has been: also `failed_voltage_switch` is cleared. -/
theorem prepareDev_wp {null : Bool} {baseClock : U32} {Q : Unit → EmmcWorld → Prop} {S : EmmcWorld → Prop}
    {w : EmmcWorld} (h : Q () { w with allocated := null || w.allocated, dev := freshDev baseClock }) :
    (prepareDev null baseClock).wp Q S w := by
  cases null with
  | false => exact h
  | true => exact h

/-! ## A card that answers -/

/-- The responses of a command with the response `rs`: no interrupt is pending, the command line is free, and the
command is complete. -/
def answerResponses (rs : List U32) : List U32 := [0, 0, 1, 1] ++ rs

/-- The same for an application command, behind `APP_CMD`. -/
def appResponses (r0 : U32) : List U32 := answerResponses [0] ++ [0, 1, 1, r0]

/-- A command that times out, and one with an error. -/
def timeoutResponses : List U32 := [0, 0, 0x8000, 0]

def errorResponses : List U32 := [0, 0, 0x8000, 0x18000]

/-- The controller: no answer of the mailbox is a success, a card is there, and the clock is stable. -/
def controllerResponses : List U32 :=
  [0, 0, 8, 0] ++ [0, 0, 0, 0, 0, 0, 0x10000, 0x10000] ++ [0, 0, 8, 0] ++ [0, 2, 2, 2]

/-- A card that is not before version 2, up to its answer `r0` to `ACMD41` and the switch of the clock rate. -/
def identifyResponses (r0 : U32) : List U32 :=
  answerResponses [] ++ answerResponses [0x1aa] ++ timeoutResponses ++ appResponses 0 ++ appResponses r0 ++
    [0, 0]

/-- A world at its start. -/
def emmcStart (dev : EmmcDev) (allocated : Bool) (responses : List U32) : EmmcWorld where
  responses := responses
  written := []
  trace := []
  dev := dev
  allocated := allocated
  data := fun _ _ => 0

end RpiBoot
