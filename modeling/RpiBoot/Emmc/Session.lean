import RpiBoot.Emmc.Voltage
import RpiBoot.Lib.Monitor

/-!
# What the SD card is told (`emmc.c`)

A card is led from one state to the next by commands, and takes a command in some of its states only. The
host knows the state from the answers, that to `SEND_STATUS` among them, and the address of the card too.

* `CardPhase`, `CardView`, `cardMonitor`: the states, as the answers tell them, and the commands for each.
* `Sends`: what is written to the controller for a command, with the address of the card.
* `Exchanged`, `exchange_wp`: a command and its answer. `reset_wp`: the card has been reset. `opCond_wp`: it has
  been offered voltages.
* **`Stage`**, `Stage.issue_wp`: a command that the card takes leaves the trace safe, and moves the card.
-/

namespace RpiBoot

open Eff Monitor

/-! ## The card -/

/-- The states of a card; `off` before it has been reset. -/
inductive CardPhase
  | off
  | idle
  | ready
  | ident
  | stby
  | tran
  | data
  | rcv
  | prg
  | dis
deriving DecidableEq

/-- The states of a card with an address. Only such a card tells its state. -/
def addressedPhases : List CardPhase := [.stby, .tran, .data, .rcv, .prg, .dis]

/-- The state that a status tells. -/
def toldPhase (r0 : U32) : Option CardPhase :=
  if currentState r0 < 3 then none else addressedPhases[(currentState r0).toNat - 3]?

/-- What the host knows of the card: its state, its address, and the voltages that it has last been offered;
an offer of none is an inquiry, which does not move the card. -/
structure CardView where
  phase : CardPhase
  rca : U32
  window : U32
deriving DecidableEq

/-- The card is reset when the command is sent; any other command moves it when it has been answered. -/
def CardView.step (v : CardView) : SdEvent → CardView
  | .sent r argument =>
    if r = sdCommands 0 then ⟨.idle, 0, 0⟩
    else if r = sdAcommands 41 then { v with window := argument }
    else v
  | .answered command success r0 =>
    if !success then v
    else if command = sdSendOpCond ∧ r0 >>> 31 &&& 0x1 ≠ 0 ∧ v.window ≠ 0 ∧ v.phase = .idle then
      { v with phase := .ready }
    else if command = allSendCid ∧ v.phase = .ready then { v with phase := .ident }
    else if command = sendRelativeAddr ∧ v.phase = .ident then
      { v with phase := .stby, rca := r0 >>> 16 &&& 0xffff }
    else if command = selectCard ∧ v.phase = .stby then { v with phase := .tran }
    else if command = stopTransmission ∧ v.phase = .data then { v with phase := .tran }
    else if command = stopTransmission ∧ v.phase = .rcv then { v with phase := .prg }
    else if command = sendStatus then { v with phase := (toldPhase r0).getD v.phase }
    else v
  | .switchFailed => v

/-- The states in which a card takes a command. -/
def phasesOf : SdCommand → List CardPhase
  | .cmd 0 => [.off, .idle, .ready, .ident, .stby, .tran, .data, .rcv, .prg, .dis]
  | .cmd 2 => [.ready]
  | .cmd 3 => [.ident]
  | .cmd 5 => [.idle]
  | .cmd 7 => [.stby]
  | .cmd 8 => [.idle]
  | .cmd 11 => [.ready]
  | .cmd 12 => [.data, .rcv]
  | .cmd 13 => addressedPhases
  | .cmd 16 => [.tran]
  | .cmd 17 => [.tran]
  | .cmd 18 => [.tran]
  | .cmd 24 => [.tran]
  | .cmd 25 => [.tran]
  | .cmd 55 => .idle :: addressedPhases
  | .acmd 6 => [.tran]
  | .acmd 41 => [.idle]
  | .acmd 51 => [.tran]
  | _ => []

/-- The commands whose argument is the address of the card. -/
def isAddressed (command : SdCommand) : Bool :=
  command == selectCard || command == sendStatus || command == .cmd appCmd

/-- What may be sent to the card: a command that it takes, with its own address. -/
def CardView.Allowed (v : CardView) : SdEvent → Prop
  | .sent r argument => ∃ command : SdCommand, r = command.reg ∧ v.phase ∈ phasesOf command ∧
      (isAddressed command = true → argument = v.rca <<< 16)
  | .answered _ _ _ => True
  | .switchFailed => True

/-- The host watches the card. -/
def cardMonitor : Monitor CardView SdEvent where
  start := ⟨.off, 0, 0⟩
  step := CardView.step
  Allowed := CardView.Allowed

/-! ## What is written for a command -/

/-- What is written to the controller for a command: also the status of a card with an address is asked for,
where it interrupts, and an application command is announced to the card. -/
def Sends (rca : U32) (command : SdCommand) (argument : U32) : SdEvent → Prop
  | .sent r a => (r = sdCommands 13 ∧ rca ≠ 0 ∧ a = rca <<< 16) ∨
      (r = sdCommands appCmd ∧ (∃ n, command = .acmd n) ∧ a = rca <<< 16) ∨ (r = command.reg ∧ a = argument)
  | .answered _ _ _ => False
  | .switchFailed => False

/-- To a card without an address, an application command is announced, and nothing else is sent. -/
theorem Sends.of_zero {command : SdCommand} {argument : U32} {e : SdEvent} (h : Sends 0 command argument e) :
    e = .sent command.reg argument ∨ (∃ n, command = .acmd n) ∧ e = .sent (sdCommands appCmd) 0 := by
  cases e with
  | answered c ok r0 => exact absurd h id
  | switchFailed => exact absurd h id
  | sent r a =>
    rcases h with ⟨-, h, -⟩ | ⟨rfl, hn, rfl⟩ | ⟨rfl, rfl⟩
    · exact absurd rfl h
    · exact Or.inr ⟨hn, rfl⟩
    · exact Or.inl rfl

/-- With the address `rca`, a frame. -/
def At (rca : U32) (A : SdEvent → Prop) (s t : EmmcWorld) : Prop := s.dev.cardRca = rca → Frame A s t

variable {rca : U32} {A : SdEvent → Prop} {command : SdCommand} {argument : U32}

theorem cardRca_of_card {d d' : EmmcDev} (h : d'.card = d.card) : d'.cardRca = d.cardRca :=
  show d'.card.cardRca = d.card.cardRca by rw [h]

instance isPreorder_at : IsPreorder EmmcWorld (At rca A) where
  refl s _ := refl_of (Frame A) s
  trans s t u h h' hs := by
    have ht := h hs
    exact trans_of (Frame A) ht (h' ((cardRca_of_card ht.card).trans hs))

theorem at_of_frame {α : Type} {m : EmmcM α} (h : Keeps (Frame A) m) : Keeps (At rca A) m :=
  h.mono fun _ _ h _ => h

/-- The structure is read, with its address. -/
theorem at_getDev {α : Type} {f : EmmcDev → EmmcM α} (h : ∀ d, d.cardRca = rca → Keeps (At rca A) (f d)) :
    Keeps (At rca A) (getDev >>= f) := fun s => by
  refine wp_bind.mpr (wp_read.mpr ?_)
  by_cases hs : s.dev.cardRca = rca
  · exact h s.dev hs s
  · exact wp_mono (wp_true _ s) (fun _ _ _ hs' => absurd hs' hs) fun _ _ hs' => absurd hs' hs

theorem at_sdHandleInterrupts (rca : U32) : Keeps (At rca (Sends rca command argument)) sdHandleInterrupts := by
  have hcard : Keeps (At rca (Sends rca command argument)) sdHandleCardInterrupt :=
    at_getDev fun d hd => by
      unfold Eff.when
      split_ifs with h
      · rw [hd] at h ⊢
        exact at_of_frame (frame_sdIssueCommandInt (.inl ⟨rfl, h, rfl⟩))
      · exact keeps_pure ()
  exact (at_of_frame (frame_mmioRead _)).bind fun _ => (at_of_frame (frame_sdReset _)).discard.when.bind fun _ =>
    (at_of_frame (frame_sdReset _)).discard.when.bind fun _ =>
    .bind (.when (at_of_frame (frame_setDev fun _ => rfl))) fun _ => hcard.when.bind fun _ =>
    at_of_frame (frame_mmioWrite _ _)

theorem at_sdSendCommand : Keeps (At rca (Sends rca command argument)) (sdSendCommand argument command) := by
  cases command with
  | cmd n =>
    exact at_of_frame <| .ite (frame_setDev fun _ => rfl) <|
      .bind (frame_setDev fun _ => rfl) fun _ => frame_sdIssueCommandInt (.inr (.inr ⟨rfl, rfl⟩))
  | acmd n =>
    refine .ite (at_of_frame (frame_setDev fun _ => rfl)) <|
      .bind (at_of_frame (frame_setDev fun _ => rfl)) fun _ => at_getDev fun d hd => .bind ?_ fun _ =>
      (at_of_frame frame_getDev).bind fun _ => at_of_frame <| .ite
        (.bind (frame_setDev fun _ => rfl) fun _ => frame_sdIssueCommandInt (.inr (.inr ⟨rfl, rfl⟩)))
        (keeps_pure _)
    -- an argument of zero is the address of a card that has none
    have harg : (if d.cardRca ≠ 0 then d.cardRca <<< 16 else 0) = rca <<< 16 := by
      split_ifs with h
      · rw [hd]
      · rw [← hd, not_not.mp h]
        rfl
    rw [harg]
    exact at_of_frame (frame_sdIssueCommandInt (.inr (.inl ⟨rfl, ⟨n, rfl⟩, rfl⟩)))

/-- A command has been issued between `s` and `t`: behind what has been sent for it there is its answer. -/
structure Exchanged (command : SdCommand) (argument : U32) (s t : EmmcWorld) : Prop where
  card : t.dev.card = s.dev.card
  allocated : t.allocated = s.allocated
  trace : ∃ l, t.trace = .answered command t.dev.lastCmdSuccess t.dev.lastR0 :: (l ++ s.trace) ∧
    ∀ e ∈ l, Sends s.dev.cardRca command argument e

/-- **A command and its answer**, with the address of the card. -/
theorem exchange_wp (command : SdCommand) (argument : U32) (s : EmmcWorld) :
    (sdIssueCommand command argument).wp (fun _ t => Exchanged command argument s t)
      (Frame (Sends s.dev.cardRca command argument) s) s := by
  refine (at_sdHandleInterrupts s.dev.cardRca).wp_andThen (fun _ t h => ?_) fun _ h => h rfl
  have h := h rfl
  refine wp_bind.mpr (wp_read.mpr ?_)
  have hsend : Keeps (At s.dev.cardRca (Sends s.dev.cardRca command argument))
      (if t.dev.cardRemoval then setDev fun d => { d with lastCmdSuccess := false }
        else sdSendCommand argument command) :=
    .ite (at_of_frame (frame_setDev fun _ => rfl)) at_sdSendCommand
  have hrca : t.dev.cardRca = s.dev.cardRca := cardRca_of_card h.card
  refine hsend.wp_andThen (fun _ u h' => ?_) fun _ h' => trans_of (Frame _) h (h' hrca)
  have hu := trans_of (Frame _) h (h' hrca)
  obtain ⟨l, hl, hA⟩ := hu.trace
  exact wp_bind.mpr (wp_read.mpr (wp_update.mpr ⟨hu.card, hu.allocated, l, by rw [hl], hA⟩))

/-! ## The reset -/

variable {s t : EmmcWorld}

/-- A command that is successful has been sent. -/
theorem sent_sdIssueCommandInt (r a : U32) (s : EmmcWorld) : (sdIssueCommandInt r a).wp
    (fun _ t => t.dev.lastCmdSuccess = true → Happens (.sent r a) s t) (fun _ => True) s := by
  let Any : SdEvent → Prop := fun _ => True
  refine Keeps.wp_andThen (frame_setDev (A := Any) fun _ => rfl) (fun _ s₁ h₁ => ?_) fun _ _ => trivial
  refine (frame_waitWhile (A := Any) _ _).wp_andThen (fun _ s₂ h₂ => ?_) fun _ _ => trivial
  refine (frame_waitWhile (A := Any) _ _).when.wp_andThen (fun _ s₃ h₃ => ?_) fun _ _ => trivial
  refine wp_bind.mpr (wp_read.mpr (wp_ite (fun _ h => by cases h) fun _ => ?_))
  refine (frame_mmioWrite (A := Any) _ _).wp_andThen (fun _ s₄ h₄ => ?_) fun _ _ => trivial
  refine (frame_mmioWrite (A := Any) _ _).wp_andThen (fun _ s₅ h₅ => ?_) fun _ _ => trivial
  refine (frame_mmioWrite (A := Any) _ _).wp_andThen (fun _ s₆ h₆ => ?_) fun _ _ => trivial
  have hbefore : Adds Any s s₆ := trans_of _ h₁.trace (trans_of _ h₂.trace (trans_of _ h₃.trace
    (trans_of _ h₄.trace (trans_of _ h₅.trace h₆.trace))))
  refine wp_bind.mpr (wp_update.mpr ?_)
  -- whatever follows, the command is in the trace
  have hrest : Keeps (Frame Any) (do
      timeoutWait emmcInterrupt fun v => v &&& 0x8001 != 0
      let irpts ← mmioRead emmcInterrupt
      mmioWrite emmcInterrupt 0xffff0001
      if irpts &&& 0xffff0001 ≠ 0x1 then setError irpts
      else do
        sdReadResponse r
        let transferred ← transferData r
        if transferred then do
          let complete ← transferComplete r
          when complete (setDev fun d => { d with lastCmdSuccess := true })
        else pure ()) :=
    (frame_timeoutWait _ _).bind fun _ => (frame_mmioRead _).bind fun _ => (frame_mmioWrite _ _).bind fun _ =>
      .ite (frame_setError _) <| (frame_sdReadResponse _).bind fun _ => (frame_transferData _).bind fun _ => .ite
        ((frame_transferComplete _).bind fun _ => .when (frame_setDev fun _ => rfl)) (keeps_pure _)
  refine hrest.wp (fun _ t ht _ => ?_) fun _ _ => trivial
  obtain ⟨l, hl, -⟩ := ht.trace
  obtain ⟨m, hm, -⟩ := hbefore
  exact ⟨l ++ .sent r a :: m, by rw [hl, hm, List.append_assoc]; rfl, by simp⟩

/-- A command that is issued with success has been sent, also one that has been announced. -/
theorem sent_wp (command : SdCommand) (a : U32) (s : EmmcWorld) : (sdIssueCommand command a).wp
    (fun _ t => t.dev.lastCmdSuccess = true → Happens (.sent command.reg a) s t) (fun _ => True) s := by
  have hsend : ∀ t, (sdSendCommand a command).wp
      (fun _ u => u.dev.lastCmdSuccess = true → Happens (.sent command.reg a) t u) (fun _ => True) t := by
    intro t
    cases command with
    | cmd n =>
      exact wp_ite (fun _ h => by cases h) fun _ => wp_bind.mpr (wp_update.mpr (sent_sdIssueCommandInt _ _ _))
    | acmd n =>
      refine wp_ite (fun _ h => by cases h) fun _ => ?_
      refine wp_bind.mpr (wp_update.mpr (wp_bind.mpr (wp_read.mpr ?_)))
      refine (frame_sdIssueCommandInt (A := fun _ => True) trivial).wp_andThen (fun _ u hu => ?_) fun _ _ => trivial
      refine wp_bind.mpr (wp_read.mpr (wp_ite (fun _ => ?_) fun hno h => absurd h hno))
      refine wp_bind.mpr (wp_update.mpr ?_)
      refine wp_mono (sent_sdIssueCommandInt _ _ _) (fun _ x hx hok => ?_) fun _ _ => trivial
      exact (hx hok).behind (s := t) hu.trace
  refine (frame_sdHandleInterrupts (A := fun _ => True) fun _ => trivial).wp_andThen (fun _ t ht => ?_)
    fun _ _ => trivial
  refine wp_bind.mpr (wp_read.mpr (wp_bind.mpr (wp_ite (fun _ => ?_) fun _ => ?_)))
  · exact fun h => by cases h
  · refine wp_mono (hsend t) (fun _ u hu hok => ?_) fun _ _ => trivial
    exact ((hu hok).behind (s := s) ht.trace).before ⟨[_], rfl, fun _ _ => trivial⟩

/-! ## A card that is told what it takes -/

/-- All that has been sent has been allowed. -/
def EmmcWorld.Told (w : EmmcWorld) : Prop := cardMonitor.Safe w.trace

/-- What the host knows of the card. -/
def EmmcWorld.view (w : EmmcWorld) : CardView := cardMonitor.view w.trace

theorem told_answered {ok : Bool} {r0 : U32} {l : List SdEvent} (hl : t.trace = .answered command ok r0 :: l)
    (h : cardMonitor.Safe l) : t.Told := by
  unfold EmmcWorld.Told
  rw [hl]
  exact ⟨trivial, h⟩

theorem view_answered {ok : Bool} {r0 : U32} {l : List SdEvent} (hl : t.trace = .answered command ok r0 :: l) :
    t.view = (cardMonitor.view l).step (.answered command ok r0) := by
  unfold EmmcWorld.view
  rw [hl]
  rfl

/-- The card has been led to one of some states, and the structure has its address, which is zero as long as the
card has none. -/
structure Stage (P : List CardPhase) (w : EmmcWorld) : Prop where
  told : w.Told
  phase : w.view.phase ∈ P
  rca : w.view.rca = w.dev.cardRca
  addressed : w.dev.cardRca ≠ 0 → w.view.phase ∈ phasesOf sendStatus

variable {P : List CardPhase}

/-- A card that takes an application command takes the announcement. -/
theorem phasesOf_acmd {n : ℕ} {p : CardPhase} (h : p ∈ phasesOf (.acmd n)) : p ∈ phasesOf (.cmd appCmd) := by
  have hcases : p = .tran ∨ p = .idle := by
    unfold phasesOf at h
    split at h <;> simp_all
  rcases hcases with rfl | rfl <;> decide

/-- What moves the card when it is sent. -/
def movers : List U32 := [sdCommands 0, sdAcommands 41]

theorem step_sent {v : CardView} {r a : U32} (h : r ∉ movers) : cardMonitor.step v (.sent r a) = v := by
  simp only [movers, List.mem_cons, List.not_mem_nil, or_false, not_or] at h
  exact (if_neg h.1).trans (if_neg h.2)

theorem step_reset (v : CardView) (a : U32) : cardMonitor.step v (.sent (sdCommands 0) a) = ⟨.idle, 0, 0⟩ := by
  simp [cardMonitor, CardView.step]

theorem step_offer (v : CardView) (a : U32) :
    cardMonitor.step v (.sent (sdAcommands 41) a) = ⟨v.phase, v.rca, a⟩ := by
  have hne : sdAcommands 41 ≠ sdCommands 0 := by decide
  simp [cardMonitor, CardView.step, hne]

/-- What is sent for a command that the card takes does not move it, if it is none of these, and is allowed. -/
theorem Stage.sends (hs : Stage P s) (hP : ∀ p ∈ P, p ∈ phasesOf command)
    (haddr : isAddressed command = true → argument = s.dev.cardRca <<< 16)
    (hreg : command.reg ∉ movers) {e : SdEvent} (he : Sends s.dev.cardRca command argument e) :
    cardMonitor.Still s.view e := by
  have hphase := hP _ hs.phase
  cases e with
  | answered c ok r0 => exact absurd he id
  | switchFailed => exact absurd he id
  | sent r a =>
    rcases he with ⟨rfl, hrca, rfl⟩ | ⟨rfl, ⟨n, rfl⟩, rfl⟩ | ⟨rfl, rfl⟩
    · exact ⟨step_sent (by decide), sendStatus, rfl, hs.addressed hrca, fun _ => by rw [hs.rca]⟩
    · exact ⟨step_sent (by decide), .cmd appCmd, rfl, phasesOf_acmd hphase, fun _ => by rw [hs.rca]⟩
    · exact ⟨step_sent hreg, command, rfl, hphase, fun h => by rw [hs.rca, haddr h]⟩

/-- **A command that the card takes** leaves the trace safe, and its answer moves the card. -/
theorem Stage.exchanged (hs : Stage P s) (hP : ∀ p ∈ P, p ∈ phasesOf command)
    (haddr : isAddressed command = true → argument = s.dev.cardRca <<< 16)
    (hreg : command.reg ∉ movers) (h : Exchanged command argument s t) :
    t.Told ∧ t.view = s.view.step (.answered command t.dev.lastCmdSuccess t.dev.lastR0) := by
  obtain ⟨l, hl, hA⟩ := h.trace
  have hsends := fun e he => hs.sends hP haddr hreg (hA e he)
  have hview : cardMonitor.view (l ++ s.trace) = s.view := view_append fun e he => (hsends e he).1
  refine ⟨told_answered hl (safe_append hsends hs.told), ?_⟩
  rw [view_answered hl, hview]

/-- The same, and what follows. -/
theorem Stage.issue_wp {α : Type} {Q : α → EmmcWorld → Prop} {k : Unit → EmmcM α} (hs : Stage P s)
    (hP : ∀ p ∈ P, p ∈ phasesOf command) (haddr : isAddressed command = true → argument = s.dev.cardRca <<< 16)
    (hreg : command.reg ∉ movers)
    (h : ∀ t, t.dev.card = s.dev.card → t.allocated = s.allocated → t.Told →
      t.view = s.view.step (.answered command t.dev.lastCmdSuccess t.dev.lastR0) →
      (k ()).wp Q EmmcWorld.Told t) :
    (sdIssueCommand command argument >>= k).wp Q EmmcWorld.Told s := by
  refine wp_bind.mpr (wp_mono (exchange_wp command argument s) (fun _ t ht => ?_) fun t ht => ?_)
  · obtain ⟨htold, hview⟩ := hs.exchanged hP haddr hreg ht
    exact h t ht.card ht.allocated htold hview
  · obtain ⟨l, hl, hA⟩ := ht.trace
    unfold EmmcWorld.Told
    rw [hl]
    exact safe_append (fun e he => hs.sends hP haddr hreg (hA e he)) hs.told

theorem Stage.of_view (hs : Stage P s) (htold : t.Told) (hview : t.view = s.view)
    (hrca : t.dev.cardRca = s.dev.cardRca) : Stage P t :=
  ⟨htold, hview ▸ hs.phase, by rw [hview, hrca, hs.rca], fun h => hview ▸ hs.addressed (hrca ▸ h)⟩

/-- **A command that does not move the card.** -/
theorem Stage.rests_wp (hs : Stage P s) (hP : ∀ p ∈ P, p ∈ phasesOf command)
    (haddr : isAddressed command = true → argument = s.dev.cardRca <<< 16) (hreg : command.reg ∉ movers)
    (hstill : ∀ v ok r0, v.phase ∈ P → CardView.step v (.answered command ok r0) = v) :
    (sdIssueCommand command argument).wp (fun _ t => Stage P t ∧ t.allocated = s.allocated)
      (fun t => Stage P t ∧ t.allocated = s.allocated) s := by
  refine wp_mono (exchange_wp command argument s) (fun _ t ht => ⟨?_, ht.allocated⟩) fun t ht =>
    ⟨?_, ht.allocated⟩
  · obtain ⟨htold, hview⟩ := hs.exchanged hP haddr hreg ht
    rw [hstill _ _ _ hs.phase] at hview
    exact hs.of_view htold hview (cardRca_of_card ht.card)
  · obtain ⟨l, hl, hA⟩ := ht.trace
    have hsends := fun e he => hs.sends hP haddr hreg (hA e he)
    refine hs.of_view ?_ ?_ (cardRca_of_card ht.card)
    · unfold EmmcWorld.Told
      rw [hl]
      exact safe_append hsends hs.told
    · unfold EmmcWorld.view
      rw [hl]
      exact view_append fun e he => (hsends e he).1

/-- A card that is not yet on its way to data has no address. -/
theorem Stage.rca_zero (hs : Stage P s) (hP : ∀ p ∈ P, p ∉ phasesOf sendStatus) : s.dev.cardRca = 0 := by
  by_contra h
  exact hP _ hs.phase (hs.addressed h)

/-- An event is among those before the last, if it is not the last. -/
theorem Happens.mem {e a : SdEvent} {l : List SdEvent} (h : Happens e s t) (hl : t.trace = a :: (l ++ s.trace))
    (hne : e ≠ a) : e ∈ l := by
  obtain ⟨m, hm, hmem⟩ := h
  rw [hl, ← List.cons_append] at hm
  rw [← List.append_cancel_right hm] at hmem
  exact (List.mem_cons.mp hmem).resolve_left hne

/-- **A reset**: the card is idle where it is successful. -/
theorem reset_wp {α : Type} {Q : α → EmmcWorld → Prop} {k : Unit → EmmcM α} (hs : s.Told)
    (hrca : s.dev.cardRca = 0) (h : ∀ t, t.dev.card = s.dev.card → t.allocated = s.allocated → t.Told →
      (t.dev.lastCmdSuccess = true → Stage [.idle] t) → (k ()).wp Q EmmcWorld.Told t) :
    (sdIssueCommand goIdleState 0 >>= k).wp Q EmmcWorld.Told s := by
  -- with no address, only the reset is sent
  have honly : ∀ e, Sends s.dev.cardRca goIdleState 0 e → e = .sent (sdCommands 0) 0 := by
    intro e he
    rw [hrca] at he
    rcases he.of_zero with he | ⟨⟨n, hn⟩, -⟩
    · exact he
    · cases hn
  have hallowed : ∀ v : CardView, v.Allowed (.sent (sdCommands 0) 0) := by
    intro v
    refine ⟨goIdleState, rfl, ?_, fun h => by cases h⟩
    cases v.phase <;> decide
  have hsends : ∀ l : List SdEvent, (∀ e ∈ l, Sends s.dev.cardRca goIdleState 0 e) →
      cardMonitor.Safe (l ++ s.trace) ∧
        (.sent (sdCommands 0) 0 ∈ l → cardMonitor.view (l ++ s.trace) = ⟨.idle, 0, 0⟩) := by
    intro l hA
    obtain ⟨hsafe, hin, -⟩ := append_move (hallowed _) ⟨by rw [step_reset, step_reset], hallowed _⟩
      (fun e he => Or.inl (honly e (hA e he))) hs
    exact ⟨hsafe, fun hmem => (hin hmem).trans (step_reset _ _)⟩
  refine wp_bind.mpr (wp_mono (wp_and (exchange_wp goIdleState 0 s) (sent_wp goIdleState 0 s)) (fun _ t ht => ?_)
    fun t ht => ?_)
  · obtain ⟨l, hl, hA⟩ := ht.1.trace
    obtain ⟨hsafe, hin⟩ := hsends l hA
    have htold : t.Told := told_answered hl hsafe
    refine h t ht.1.card ht.1.allocated htold fun hok => ?_
    have hview : t.view = ⟨.idle, 0, 0⟩ := by
      rw [view_answered hl, hin ((ht.2 hok).mem hl SdEvent.noConfusion), hok]
      rfl
    have hrca' : t.dev.cardRca = 0 := (cardRca_of_card ht.1.card).trans hrca
    exact ⟨htold, by rw [hview]; decide, by rw [hview, hrca'], fun h => absurd hrca' h⟩
  · obtain ⟨l, hl, hA⟩ := ht.1.trace
    unfold EmmcWorld.Told
    rw [hl]
    exact (hsends l hA).1

theorem step_opCond (v : CardView) (ok : Bool) (r0 : U32) : v.step (.answered sdSendOpCond ok r0) =
    if ok = true ∧ r0 >>> 31 &&& 0x1 ≠ 0 ∧ v.window ≠ 0 ∧ v.phase = .idle then { v with phase := .ready }
    else v := by
  cases ok <;> simp [CardView.step, sdSendOpCond, allSendCid, sendRelativeAddr, selectCard, stopTransmission,
    sendStatus]

/-- Of what is sent for `ACMD41` to an idle card, only the command itself tells it anything. -/
theorem Stage.offered (hs : Stage [.idle] s) {l : List SdEvent}
    (hl : ∀ e ∈ l, Sends s.dev.cardRca sdSendOpCond argument e) : cardMonitor.Safe (l ++ s.trace) ∧
      (.sent (sdAcommands 41) argument ∈ l → cardMonitor.view (l ++ s.trace) = ⟨.idle, s.view.rca, argument⟩) ∧
      (.sent (sdAcommands 41) argument ∉ l → cardMonitor.view (l ++ s.trace) = s.view) := by
  have hrca := hs.rca_zero (by decide)
  have hzero : s.view.rca = 0 := hs.rca.trans hrca
  have hphase : s.view.phase = .idle := List.mem_singleton.mp hs.phase
  have hoffer : ∀ v : CardView, v.phase = .idle → v.Allowed (.sent (sdAcommands 41) argument) := fun v hv =>
    ⟨sdSendOpCond, rfl, by rw [hv]; decide, fun h => by cases h⟩
  have hannounce : ∀ v : CardView, v.phase = .idle → v.rca = 0 →
      cardMonitor.Still v (.sent (sdCommands appCmd) 0) := fun v hv hv' =>
    ⟨step_sent (by decide), .cmd appCmd, rfl, by rw [hv]; decide, fun _ => by rw [hv']; rfl⟩
  rw [← hphase, ← step_offer]
  refine append_move (hoffer _ hphase) ?_ (fun e he => ?_) hs.told
  · rw [step_offer]
    exact ⟨step_offer _ _, hoffer _ hphase⟩
  · have he := hl e he
    rw [hrca] at he
    refine he.of_zero.imp_right fun ⟨_, he⟩ => ?_
    rw [he, step_offer]
    exact ⟨hannounce _ hphase hzero, hannounce _ hphase hzero⟩

/-- **`ACMD41`**: an idle card is ready when it says so to an offer that is no inquiry. -/
theorem opCond_wp {α : Type} {Q : α → EmmcWorld → Prop} {k : Unit → EmmcM α} (hs : Stage [.idle] s)
    (h : ∀ t : EmmcWorld, t.dev.card = s.dev.card → t.allocated = s.allocated →
      Stage (if t.dev.lastCmdSuccess = true ∧ t.dev.lastR0 >>> 31 &&& 0x1 ≠ 0 ∧ argument ≠ 0 then [.ready]
        else [.idle]) t → (k ()).wp Q EmmcWorld.Told t) :
    (sdIssueCommand sdSendOpCond argument >>= k).wp Q EmmcWorld.Told s := by
  have hrca := hs.rca_zero (by decide)
  have hphase : s.view.phase = .idle := List.mem_singleton.mp hs.phase
  refine wp_bind.mpr (wp_mono (wp_and (exchange_wp sdSendOpCond argument s) (sent_wp sdSendOpCond argument s))
    (fun _ t ht => ?_) fun t ht => ?_)
  · obtain ⟨l, hl, hA⟩ := ht.1.trace
    obtain ⟨hsafe, hin, hout⟩ := hs.offered hA
    have hrca' : t.dev.cardRca = 0 := (cardRca_of_card ht.1.card).trans hrca
    have hstage : ∀ {p w}, t.view = ⟨p, s.view.rca, w⟩ → Stage [p] t := fun h =>
      ⟨told_answered hl hsafe, by rw [h]; exact List.mem_cons_self, by rw [h, hs.rca, hrca, hrca'],
        fun h => absurd hrca' h⟩
    have hview := view_answered hl
    refine h t ht.1.card ht.1.allocated ?_
    by_cases hok : t.dev.lastCmdSuccess = true
    · -- it has been sent, and the answer tells whether the card is ready
      rw [hin ((ht.2 hok).mem hl SdEvent.noConfusion), step_opCond] at hview
      split_ifs with hready
      · exact hstage (hview.trans (if_pos ⟨hready.1, hready.2.1, hready.2.2, rfl⟩))
      · exact hstage (hview.trans (if_neg fun h => hready ⟨h.1, h.2.1, h.2.2.1⟩))
    · obtain ⟨w, hw⟩ : ∃ w, cardMonitor.view (l ++ s.trace) = ⟨.idle, s.view.rca, w⟩ := by
        by_cases hmem : .sent (sdAcommands 41) argument ∈ l
        · exact ⟨argument, hin hmem⟩
        · exact ⟨s.view.window, by rw [hout hmem, ← hphase]⟩
      rw [step_opCond, if_neg fun h => hok h.1, hw] at hview
      rw [if_neg fun h => hok h.1]
      exact hstage hview
  · obtain ⟨l, hl, hA⟩ := ht.1.trace
    unfold EmmcWorld.Told
    rw [hl]
    exact (hs.offered hA).1

end RpiBoot
