import RpiBoot.Emmc.Frames

/-!
# A device that is initialised again (`emmc.c`)

`sd_read` and `sd_write` initialise the card again, in its structure, where it has been lost. Some failures of
`sd_card_init` free the structure, also then; who has registered the device still uses it.

* `answersOk`: none of these failures.
* `DevInv`: the structure is allocated for as long as there has been none.
* `inv_sdCardInit`, `inv_sdTransfer`: the invariant is kept.
* `sd_device_kept_iff`: calls leave the device usable if and only if there has been none.
-/

namespace RpiBoot

open Eff

/-! ## The answers behind which the structure is freed -/

/-- The last command with an answer is `SEND_RELATIVE_ADDR`. -/
def behindAddress : List SdEvent → Bool
  | [] => false
  | .answered command _ _ :: _ => command == sendRelativeAddr
  | .sent _ _ :: l => behindAddress l
  | .switchFailed :: l => behindAddress l

/-- What `sd_card_init` needs to be answered so that it does not free the structure. `SELECT_CARD` is its own
directly behind `SEND_RELATIVE_ADDR`. -/
def answerOk (behind : Bool) (command : SdCommand) (success : Bool) (r0 : U32) : Bool :=
  if command = sendRelativeAddr then success && relativeAddrOk r0
  else if command = selectCard then !behind || success && selectCardOk r0
  else if command = setBlocklen ∨ command = sendScr then success
  else true

theorem answerOk_sendRelativeAddr {behind : Bool} {r0 : U32} :
    answerOk behind sendRelativeAddr true r0 = relativeAddrOk r0 := rfl

theorem answerOk_selectCard {r0 : U32} : answerOk true selectCard true r0 = selectCardOk r0 := rfl

/-- All answers are as `sd_card_init` needs them. -/
def answersOk : List SdEvent → Bool
  | [] => true
  | .answered command success r0 :: l => answerOk (behindAddress l) command success r0 && answersOk l
  | .sent _ _ :: l => answersOk l
  | .switchFailed :: l => answersOk l

/-- Commands are written to the controller. -/
def IsSent : SdEvent → Prop
  | .sent _ _ => True
  | .answered _ _ _ => False
  | .switchFailed => False

theorem isSent_of_sentFor {command : SdCommand} {argument : U32} {e : SdEvent} (h : SentFor command argument e) :
    IsSent e := by
  cases e with
  | sent r a => trivial
  | answered c ok r0 => exact h
  | switchFailed => exact h

theorem sent_append {l m : List SdEvent} (h : ∀ e ∈ l, IsSent e) :
    answersOk (l ++ m) = answersOk m ∧ behindAddress (l ++ m) = behindAddress m := by
  induction l with
  | nil => exact ⟨rfl, rfl⟩
  | cons e l ih =>
    have ih := ih fun e he => h e (List.mem_cons_of_mem _ he)
    cases e with
    | sent r a => exact ih
    | answered c ok r0 => exact absurd (h _ List.mem_cons_self) id
    | switchFailed => exact absurd (h _ List.mem_cons_self) id

variable {s t : EmmcWorld} {command : SdCommand} {argument : U32}

theorem Issued.answersOk_eq (h : Issued command argument s t) : answersOk t.trace =
    (answerOk (behindAddress s.trace) command t.dev.lastCmdSuccess t.dev.lastR0 && answersOk s.trace) := by
  obtain ⟨l, hl, hsent⟩ := h.trace
  have hl' := sent_append (m := s.trace) fun e he => isSent_of_sentFor (hsent e he)
  rw [hl, answersOk, hl'.1, hl'.2]

theorem Issued.behindAddress_eq (h : Issued command argument s t) :
    behindAddress t.trace = (command == sendRelativeAddr) := by
  obtain ⟨l, hl, -⟩ := h.trace
  rw [hl]
  rfl

/-! ## The invariant -/

/-- The fields that the block cache and the partitions use. -/
structure EmmcDev.Registered (d : EmmcDev) : Prop where
  read : d.read = some .sdRead
  write : d.write = some .sdWrite
  bdBlockSize : d.bdBlockSize = 512

theorem EmmcDev.Registered.of_card {d d' : EmmcDev} (h : d.Registered) (hc : d'.card = d.card) :
    d'.Registered :=
  ⟨(congrArg EmmcDev.read hc).trans h.read, (congrArg EmmcDev.write hc).trans h.write,
    (congrArg EmmcDev.bdBlockSize hc).trans h.bdBlockSize⟩

/-- The structure has its fields, and it is allocated for as long as the answers are as needed. -/
structure DevInv (w : EmmcWorld) : Prop where
  registered : w.dev.Registered
  allocated : w.allocated = answersOk w.trace

theorem DevInv.of_frame {A : SdEvent → Prop} (hs : DevInv s) (h : Frame A s t) (hA : ∀ e, A e → IsSent e) :
    DevInv t := by
  obtain ⟨l, hl, hl'⟩ := h.trace
  refine ⟨hs.registered.of_card h.card, ?_⟩
  rw [h.allocated, hs.allocated, hl, (sent_append fun e he => hA e (hl' e he)).1]

theorem inv_of_frame {α : Type} {m : EmmcM α} (h : Keeps (Frame IsSent) m) : Keeps (Preserves DevInv) m :=
  h.mono fun _ _ ht hs => hs.of_frame ht fun _ => id

theorem inv_setDev {f : EmmcDev → EmmcDev} (h : ∀ d, d.Registered → (f d).Registered) :
    Keeps (Preserves DevInv) (setDev f) := keeps_update fun w hw => ⟨h w.dev hw.registered, hw.allocated⟩

/-- Behind a command, the invariant holds where its answer is as needed. -/
theorem DevInv.issued (hs : DevInv s) (h : Issued command argument s t)
    (hok : answerOk (behindAddress s.trace) command t.dev.lastCmdSuccess t.dev.lastR0 = true) : DevInv t := by
  refine ⟨hs.registered.of_card h.card, ?_⟩
  rw [h.allocated, hs.allocated, h.answersOk_eq, hok, Bool.true_and]

/-- A command, and what follows. -/
theorem issue_wp {α : Type} {k : Unit → EmmcM α} (hs : DevInv s)
    (h : ∀ t, Issued command argument s t → (k ()).wp (fun _ => DevInv) DevInv t) :
    (sdIssueCommand command argument >>= k).wp (fun _ => DevInv) DevInv s :=
  wp_bind.mpr (wp_mono (sdIssueCommand_wp command argument s) (fun _ t ht => h t ht)
    fun _ ht => hs.of_frame ht fun _ => isSent_of_sentFor)

/-- The commands whose answers `sd_card_init` does not need. -/
theorem inv_issue (hc : ∀ behind success r0, answerOk behind command success r0 = true) :
    Keeps (Preserves DevInv) (sdIssueCommand command argument) :=
  keeps_inv fun s hs => wp_mono (sdIssueCommand_wp command argument s)
    (fun _ _ ht => hs.issued ht (hc _ _ _)) fun _ ht => hs.of_frame ht fun _ => isSent_of_sentFor

/-- The structure is freed behind an answer that is not as needed. -/
theorem failInit_wp (hr : s.dev.Registered) (hno : answersOk s.trace = false) :
    failInit.wp (fun _ => DevInv) DevInv s := wp_bind.mpr (wp_update.mpr (wp_pure.mpr ⟨hr, hno.symm⟩))

/-- An answer that is not as needed. -/
theorem Issued.failed (h : Issued command argument s t)
    (hno : answerOk (behindAddress s.trace) command t.dev.lastCmdSuccess t.dev.lastR0 = false) :
    answersOk t.trace = false := by
  rw [h.answersOk_eq, hno, Bool.false_and]

/-! ## The steps of the initialisation -/

theorem inv_getDev : Keeps (Preserves DevInv) getDev := keeps_read _

theorem inv_mmioRead (reg : ℕ) : Keeps (Preserves DevInv) (mmioRead reg) := inv_of_frame (frame_mmioRead reg)

theorem inv_mmioWrite (reg : ℕ) (v : U32) : Keeps (Preserves DevInv) (mmioWrite reg v) :=
  inv_of_frame (frame_mmioWrite reg v)

theorem inv_of_quiet (h : Quiet s t) : Preserves DevInv s t := fun hs => hs.of_frame h.frame fun _ => id

theorem inv_setupBus : Keeps (Preserves DevInv) setupBus :=
  keeps_setupBus (fun _ _ => inv_of_quiet) (inv_issue fun _ _ _ => rfl)

theorem inv_readScr : Keeps (Preserves DevInv) readScr := by
  refine .bind (inv_setDev fun _ h => ⟨h.1, h.2, h.3⟩) fun _ => (inv_mmioRead _).bind fun _ =>
    (inv_mmioWrite _ _).bind fun _ => .bind (inv_setDev fun _ h => ⟨h.1, h.2, h.3⟩) fun _ =>
    keeps_inv fun s hs => issue_wp hs fun t ht => ?_
  have hr := hs.registered.of_card ht.card
  refine wp_bind.mpr (wp_update.mpr (wp_bind.mpr (wp_read.mpr (wp_ite (fun hf => ?_) fun hf => ?_))))
  · exact failInit_wp ⟨hr.1, hr.2, hr.3⟩ (ht.failed (EmmcDev.fail_iff.mp hf))
  · have ht' := hs.issued ht (EmmcDev.not_fail_iff.mp hf)
    exact inv_setupBus.inv ⟨⟨hr.1, hr.2, hr.3⟩, ht'.allocated⟩

theorem selectPhase_wp (hs : DevInv s) (hb : behindAddress s.trace = true) :
    selectPhase.wp (fun _ => DevInv) DevInv s := by
  refine wp_bind.mpr (wp_read.mpr (issue_wp hs fun t ht => wp_bind.mpr (wp_read.mpr ?_)))
  have hr := hs.registered.of_card ht.card
  refine wp_ite (fun hf => ?_) fun hf => wp_ite (fun hsel => ?_) fun hsel => ?_
  · refine failInit_wp hr (ht.failed ?_)
    rw [hb, EmmcDev.fail_iff.mp hf]
    rfl
  · refine failInit_wp hr (ht.failed ?_)
    rw [hb, EmmcDev.not_fail_iff.mp hf, answerOk_selectCard]
    simpa using hsel
  · have ht' : DevInv t := by
      refine hs.issued ht ?_
      rw [hb, EmmcDev.not_fail_iff.mp hf, answerOk_selectCard]
      simpa using hsel
    refine wp_ite (fun _ => ?_) fun _ => inv_readScr.inv ht'
    -- a card whose blocks are not all of 512 bytes
    refine issue_wp ht' fun u hu => wp_bind.mpr (wp_read.mpr (wp_ite (fun hf => ?_) fun hf => ?_))
    · exact failInit_wp (ht'.registered.of_card hu.card) (hu.failed (EmmcDev.fail_iff.mp hf))
    · exact inv_readScr.inv (ht'.issued hu (EmmcDev.not_fail_iff.mp hf))

theorem inv_dataPhase : Keeps (Preserves DevInv) dataPhase := by
  refine (inv_issue fun _ _ _ => rfl).bind fun _ => inv_getDev.bind fun _ => .ite (keeps_pure _) <|
    .bind (inv_setDev fun _ h => ⟨h.1, h.2, h.3⟩) fun _ => keeps_inv fun s hs => issue_wp hs fun t ht => ?_
  have hr := hs.registered.of_card ht.card
  refine wp_bind.mpr (wp_read.mpr (wp_ite (fun hf => ?_) fun hf => ?_))
  · refine failInit_wp hr (ht.failed ?_)
    rw [EmmcDev.fail_iff.mp hf]
    rfl
  · refine wp_bind.mpr (wp_update.mpr (wp_ite (fun haddr => ?_) fun haddr => ?_))
    · refine failInit_wp ⟨hr.1, hr.2, hr.3⟩ (ht.failed ?_)
      rw [EmmcDev.not_fail_iff.mp hf, answerOk_sendRelativeAddr]
      simpa using haddr
    · have ht' : DevInv t := by
        refine hs.issued ht ?_
        rw [EmmcDev.not_fail_iff.mp hf, answerOk_sendRelativeAddr]
        simpa using haddr
      exact selectPhase_wp ⟨⟨hr.1, hr.2, hr.3⟩, ht'.allocated⟩ ht.behindAddress_eq

theorem inv_identifyCard : Keeps (Preserves DevInv) identifyCard :=
  keeps_identifyCard (fun _ _ => inv_of_quiet) (inv_issue fun _ _ _ => rfl) (inv_issue fun _ _ _ => rfl)
    (inv_issue fun _ _ _ => rfl) (inv_issue fun _ _ _ => rfl)

theorem inv_opCondLoop (v2Later : Bool) : ∀ fuel, Keeps (Preserves DevInv) (opCondLoop v2Later fuel)
  | 0 => keeps_stop
  | fuel + 1 =>
    inv_getDev.bind fun _ => (inv_issue fun _ _ _ => rfl).bind fun _ => inv_getDev.bind fun _ =>
      .ite (keeps_pure _) <| .ite
        (.bind (inv_setDev fun _ h => ⟨h.1, h.2, h.3⟩) fun _ => keeps_pure _) (inv_opCondLoop v2Later fuel)

theorem inv_switchVoltage : Keeps (Preserves DevInv) switchVoltage :=
  keeps_switchVoltage (fun _ _ => inv_of_quiet) (inv_issue fun _ _ _ => rfl)

theorem inv_initCard {again : EmmcM ℤ} (h : Keeps (Preserves DevInv) again) (fuel : ℕ) (baseClock : U32) :
    Keeps (Preserves DevInv) (initCard again fuel baseClock) := by
  refine inv_identifyCard.bind fun card => ?_
  cases card with
  | none => exact keeps_pure _
  | some v2Later =>
    exact (inv_opCondLoop v2Later fuel).bind fun _ => .ite
      ((inv_of_frame (frame_sdSwitchClockRate _ _)).bind fun _ => inv_getDev.bind fun _ => .ite
        (inv_switchVoltage.bind fun _ => .ite inv_dataPhase <|
          .bind (inv_setDev fun _ h => ⟨h.1, h.2, h.3⟩) fun _ =>
          .bind (keeps_update fun _ hw => ⟨hw.registered, hw.allocated⟩) fun _ =>
          (inv_of_frame frame_sdPowerOff).bind fun _ => h)
        inv_dataPhase)
      (keeps_pure _)

/-- **The invariant is kept by an initialisation of a structure that is there.** -/
theorem inv_sdCardInit : ∀ fuel, Keeps (Preserves DevInv) (sdCardInit fuel false)
  | 0 => keeps_stop
  | fuel + 1 => by
    refine (inv_of_frame frame_initController).bind fun clock => ?_
    cases clock with
    | none => exact keeps_pure _
    | some baseClock =>
      refine .bind (keeps_inv fun s hs => prepareDev_wp ?_) fun _ =>
        inv_initCard (inv_sdCardInit fuel) fuel baseClock
      exact ⟨⟨rfl, rfl, rfl⟩, hs.allocated⟩

/-! ## Reading and writing -/

theorem inv_failDataMode : Keeps (Preserves DevInv) failDataMode :=
  .bind (inv_setDev fun _ h => ⟨h.1, h.2, h.3⟩) fun _ => keeps_pure _

theorem inv_recheckState : Keeps (Preserves DevInv) recheckState :=
  inv_getDev.bind fun _ => (inv_issue fun _ _ _ => rfl).bind fun _ => inv_getDev.bind fun _ =>
    .ite inv_failDataMode <| .ite inv_failDataMode (keeps_pure _)

/-- `SELECT_CARD` is here behind `SEND_STATUS`, so its answer is not one that frees the structure. -/
theorem inv_ensureState (fuel : ℕ) : Keeps (Preserves DevInv) (ensureState fuel) := by
  refine inv_getDev.bind fun _ => keeps_inv fun s hs => issue_wp hs fun t ht => ?_
  have hs' : DevInv t := hs.issued ht rfl
  have hb : behindAddress t.trace = false := ht.behindAddress_eq
  refine wp_bind.mpr (wp_read.mpr (wp_ite (fun _ => inv_failDataMode.inv hs') fun _ =>
    wp_ite (fun _ => ?_) fun _ => wp_ite (fun _ => ?_) fun _ => wp_ite (fun _ => ?_) fun _ => hs'))
  · refine issue_wp hs' fun u hu => ?_
    have hu' : DevInv u := by
      refine hs'.issued hu ?_
      rw [hb]
      rfl
    exact (inv_getDev.bind fun _ => .ite inv_failDataMode inv_recheckState).inv hu'
  · exact Keeps.inv ((inv_issue fun _ _ _ => rfl).bind fun _ => inv_getDev.bind fun _ =>
      .ite inv_failDataMode <| (inv_of_frame (frame_sdReset _)).discard.bind fun _ => inv_recheckState) hs'
  · exact ((inv_sdCardInit fuel).bind fun _ => .ite (keeps_pure _) inv_recheckState).inv hs'

theorem inv_sdEnsureDataMode (fuel : ℕ) : Keeps (Preserves DevInv) (sdEnsureDataMode fuel) :=
  inv_getDev.bind fun _ => .ite
    ((inv_sdCardInit fuel).bind fun _ => .ite (keeps_pure _) (inv_ensureState fuel)) (inv_ensureState fuel)

theorem inv_dataTries {command : SdCommand} (hc : ∀ behind success r0, answerOk behind command success r0 = true)
    (blockNo : U32) : ∀ n, Keeps (Preserves DevInv) (dataTries command blockNo n)
  | 0 => keeps_pure _
  | n + 1 =>
    (inv_issue hc).bind fun _ => inv_getDev.bind fun _ => .ite (keeps_pure _) (inv_dataTries hc blockNo n)

theorem answerOk_dataCommand (isWrite : Bool) (blocks : U32) (behind success : Bool) (r0 : U32) :
    answerOk behind (dataCommand isWrite blocks) success r0 = true := by
  unfold dataCommand
  split_ifs <;> rfl

theorem inv_sdDoDataCommand (isWrite : Bool) (bufSize blockNo : U32) :
    Keeps (Preserves DevInv) (sdDoDataCommand isWrite bufSize blockNo) :=
  inv_getDev.bind fun _ => .ite (keeps_pure _) <| .ite keeps_stop <|
    .bind (inv_setDev fun _ h => ⟨h.1, h.2, h.3⟩) fun _ => .ite (keeps_pure _) <|
    .bind (inv_setDev fun _ h => ⟨h.1, h.2, h.3⟩) fun _ =>
    (inv_dataTries (answerOk_dataCommand _ _) _ 3).bind fun _ => .ite (keeps_pure _) inv_failDataMode

/-- **The invariant is kept by `sd_read` and `sd_write`.** -/
theorem inv_sdTransfer (fuel : ℕ) (isWrite : Bool) (bufSize blockNo : U32) :
    Keeps (Preserves DevInv) (sdTransfer fuel isWrite bufSize blockNo) :=
  (inv_sdEnsureDataMode fuel).bind fun _ => .ite (keeps_pure _) <|
    (inv_sdDoDataCommand isWrite bufSize blockNo).bind fun _ => .ite (keeps_pure _) (keeps_pure _)

theorem inv_call (fuel : ℕ) (call : SdCall) : Keeps (Preserves DevInv)
    ((if call.isWrite then sdWrite else sdRead) fuel call.bufSize call.blockNo) := by
  split_ifs
  · exact inv_sdTransfer fuel true call.bufSize call.blockNo
  · exact inv_sdTransfer fuel false call.bufSize call.blockNo

theorem inv_sdCalls (fuel : ℕ) : ∀ calls, Keeps (Preserves DevInv) (sdCalls fuel calls)
  | [] => keeps_pure _
  | call :: calls =>
    (keeps_read _).bind fun _ => .ite
      (.bind (keeps_update fun _ hw => ⟨hw.registered, hw.allocated⟩) fun _ =>
        (inv_call fuel call).discard.bind fun _ => inv_sdCalls fuel calls)
      (keeps_pure _)

/-- The device can be used: its structure is allocated and has its fields. -/
structure EmmcWorld.Usable (w : EmmcWorld) : Prop where
  allocated : w.allocated = true
  registered : w.dev.Registered

/-- **Calls on a registered device leave it usable if and only if all answers have been as `sd_card_init` needs
them.** -/
theorem sd_device_kept_iff (fuel : ℕ) (calls : List SdCall) (w : EmmcWorld) (hw : w.Usable) (ht : w.trace = []) :
    (sdCalls fuel calls w).2.Usable ↔ answersOk (sdCalls fuel calls w).2.trace = true := by
  have hinv : DevInv w := ⟨hw.registered, by rw [hw.allocated, ht]; rfl⟩
  have hfin : DevInv (sdCalls fuel calls w).2 := wp_final ((inv_sdCalls fuel calls).inv hinv)
  constructor
  · intro h
    rw [← hfin.allocated, h.allocated]
  · intro h
    exact ⟨hfin.allocated.trans h, hfin.registered⟩

/-- A device that has been registered. -/
def registeredDev : EmmcDev := { freshDev 100000000 with cardRca := 1, blockSize := 512 }

/-- A read of one block. -/
def readOne : SdCall := ⟨false, 512, 0, fun _ => 0⟩

/-- The card does not give its status; then it is initialised, from the controller to its SCR register, gives
its status and a block of zeros. -/
def reinitWorld : EmmcWorld := emmcStart registeredDev true
  (errorResponses ++ controllerResponses ++ identifyResponses 0xc0000000 ++ answerResponses [0, 0, 0, 0] ++
    answerResponses [0x10100] ++ [0, 0, 0, 1, 1, 0x600, 0] ++ [0] ++ appResponses 0 ++ [0x20, 0x20, 0, 0, 0] ++
    answerResponses [0x800] ++ answerResponses [0] ++ [0x20, 0x20] ++ List.replicate 128 0 ++ [0])

/-- The first read fails, the second initialises the card again, and the device is usable. -/
theorem sd_device_kept_iff_reinit :
    (sdCalls 2 [readOne, readOne] reinitWorld).2.Usable ∧
      (sdCalls 2 [readOne, readOne] reinitWorld).2.dev.lastCmdSuccess = true :=
  ⟨(sd_device_kept_iff 2 [readOne, readOne] reinitWorld ⟨rfl, rfl, rfl, rfl⟩ rfl).mpr (by decide +kernel),
    by decide +kernel⟩

/-- **The second of two reads frees the device.** The first has failed, so the second initialises the card
again, and it does not answer `SEND_RELATIVE_ADDR`. -/
theorem sd_device_freed : ¬(sdCalls 2 [readOne, readOne] (emmcStart registeredDev true
    (errorResponses ++ controllerResponses ++ identifyResponses 0x80000000 ++ answerResponses [0, 0, 0, 0] ++
      errorResponses))).2.Usable := by
  intro h
  exact absurd h.allocated (by decide +kernel)

end RpiBoot
