import RpiBoot.Emmc.Reinit

/-!
# The first detection (`emmc.c`)

The first call of `sd_card_init`, in `libfs.c`, allocates the structure.

* `FreesOnFailure`: a result other than -1 tells that the structure is still allocated.
* `sdCardInit_usable`: with the result 0, the structure is usable.
-/

namespace RpiBoot

open Eff

/-- The structure is allocated as before. -/
def SameAllocated (s t : EmmcWorld) : Prop := t.allocated = s.allocated

instance isPreorder_sameAllocated : IsPreorder EmmcWorld SameAllocated where
  refl _ := rfl
  trans _ _ _ h h' := h'.trans h

theorem same_of_quiet {s t : EmmcWorld} (h : Quiet s t) : SameAllocated s t := h.allocated

theorem same_issue (command : SdCommand) (argument : U32) :
    Keeps SameAllocated (sdIssueCommand command argument) :=
  (frame_sdIssueCommand (A := fun _ => True) (fun _ _ => trivial) fun _ _ => trivial).mono fun _ _ h => h.allocated

theorem same_setDev (f : EmmcDev → EmmcDev) : Keeps SameAllocated (setDev f) := keeps_update fun _ => rfl

theorem same_opCondLoop (v2Later : Bool) : ∀ fuel, Keeps SameAllocated (opCondLoop v2Later fuel)
  | 0 => keeps_stop
  | fuel + 1 =>
    (keeps_read _).bind fun _ => (same_issue _ _).bind fun _ => (keeps_read _).bind fun _ =>
      .ite (keeps_pure _) <| .ite ((same_setDev _).bind fun _ => keeps_pure _) (same_opCondLoop v2Later fuel)

/-! ## Results -/

/-- A result other than -1 tells that the structure is allocated as before. -/
def FreesOnFailure (m : EmmcM ℤ) : Prop :=
  ∀ s, m.wp (fun ret t => ret = -1 ∨ SameAllocated s t) (fun _ => True) s

theorem frees_of_same {m : EmmcM ℤ} (h : Keeps SameAllocated m) : FreesOnFailure m :=
  fun _ => h.wp (fun _ _ => .inr) fun _ _ => trivial

theorem frees_pure (ret : ℤ) : FreesOnFailure (pure ret) := frees_of_same (keeps_pure ret)

theorem frees_failInit : FreesOnFailure failInit := fun _ => .inl rfl

theorem frees_bind {α : Type} {m : EmmcM α} {f : α → EmmcM ℤ} (hm : Keeps SameAllocated m)
    (hf : ∀ a, FreesOnFailure (f a)) : FreesOnFailure (m >>= f) := fun _ =>
  hm.wp_andThen (fun a t h => wp_mono (hf a t) (fun _ _ h' => h'.imp_right (trans_of _ h)) fun _ => id)
    fun _ _ => trivial

theorem frees_ite {c : Prop} [Decidable c] {m m' : EmmcM ℤ} (h : FreesOnFailure m) (h' : FreesOnFailure m') :
    FreesOnFailure (if c then m else m') := fun s => wp_ite (fun _ => h s) fun _ => h' s

theorem frees_setupBus : FreesOnFailure setupBus :=
  frees_of_same (keeps_setupBus (fun _ _ => same_of_quiet) (same_issue _ _))

theorem frees_readScr : FreesOnFailure readScr :=
  frees_bind (same_setDev _) fun _ => frees_bind ((frame_mmioRead _).mono fun _ _ => same_of_quiet) fun _ =>
    frees_bind ((frame_mmioWrite _ _).mono fun _ _ => same_of_quiet) fun _ => frees_bind (same_setDev _) fun _ =>
    frees_bind (same_issue _ _) fun _ => frees_bind (same_setDev _) fun _ => frees_bind (keeps_read _) fun _ =>
    frees_ite frees_failInit frees_setupBus

theorem frees_selectPhase : FreesOnFailure selectPhase :=
  frees_bind (keeps_read _) fun _ => frees_bind (same_issue _ _) fun _ => frees_bind (keeps_read _) fun _ =>
    frees_ite frees_failInit <| frees_ite frees_failInit <| frees_ite
      (frees_bind (same_issue _ _) fun _ => frees_bind (keeps_read _) fun _ =>
        frees_ite frees_failInit frees_readScr)
      frees_readScr

theorem frees_dataPhase : FreesOnFailure dataPhase :=
  frees_bind (same_issue _ _) fun _ => frees_bind (keeps_read _) fun _ => frees_ite (frees_pure _) <|
    frees_bind (same_setDev _) fun _ => frees_bind (same_issue _ _) fun _ => frees_bind (keeps_read _) fun _ =>
    frees_ite frees_failInit <| frees_bind (same_setDev _) fun _ => frees_ite frees_failInit frees_selectPhase

theorem frees_initCard {again : EmmcM ℤ} (h : FreesOnFailure again) (fuel : ℕ) (baseClock : U32) :
    FreesOnFailure (initCard again fuel baseClock) := by
  refine frees_bind (keeps_identifyCard (fun _ _ => same_of_quiet) (same_issue _ _) (same_issue _ _)
    (same_issue _ _) (same_issue _ _)) fun card => ?_
  cases card with
  | none => exact frees_pure _
  | some v2Later =>
    refine frees_bind (same_opCondLoop v2Later fuel) fun _ => frees_ite ?_ (frees_pure _)
    refine frees_bind ((frame_sdSwitchClockRate _ _).mono fun _ _ => same_of_quiet) fun _ =>
      frees_bind (keeps_read _) fun _ => frees_ite ?_ frees_dataPhase
    refine frees_bind (keeps_switchVoltage (fun _ _ => same_of_quiet) (same_issue _ _)) fun _ =>
      frees_ite frees_dataPhase ?_
    exact frees_bind (same_setDev _) fun _ => frees_bind (keeps_update fun _ => rfl) fun _ =>
      frees_bind (frame_sdPowerOff.mono fun _ _ => same_of_quiet) fun _ => h

theorem frees_sdCardInit : ∀ fuel, FreesOnFailure (sdCardInit fuel false)
  | 0 => frees_of_same keeps_stop
  | fuel + 1 => by
    refine frees_bind (frame_initController.mono fun _ _ => same_of_quiet) fun clock => ?_
    cases clock with
    | none => exact frees_pure _
    | some baseClock =>
      exact frees_bind (fun _ => prepareDev_wp rfl) fun _ => frees_initCard (frees_sdCardInit fuel) fuel baseClock

/-- **A first detection with the result 0 leaves a structure that is usable.** -/
theorem sdCardInit_usable (fuel : ℕ) (s : EmmcWorld) (hs : s.trace = []) :
    (sdCardInit fuel true).wp (fun ret t => ret = 0 → t.Usable) (fun _ => True) s := by
  cases fuel with
  | zero => exact wp_stop.mpr trivial
  | succ fuel =>
    refine (frame_initController (A := IsSent)).wp_andThen (fun clock t ht => ?_) fun _ _ => trivial
    cases clock with
    | none => exact fun h => by cases h
    | some baseClock =>
      refine wp_bind.mpr (prepareDev_wp ?_)
      obtain ⟨l, hl, hsent⟩ := ht.trace
      have hok : answersOk t.trace = true := by
        rw [hl, (sent_append hsent).1, hs]
        rfl
      have hinv : DevInv { t with allocated := true || t.allocated, dev := freshDev baseClock } :=
        ⟨⟨rfl, rfl, rfl⟩, hok.symm⟩
      refine wp_mono (wp_and (frees_initCard (frees_sdCardInit fuel) fuel baseClock _)
        ((inv_initCard (inv_sdCardInit fuel) fuel baseClock).inv hinv)) (fun ret u hu h0 => ?_) fun _ _ => trivial
      have hkept := hu.1.resolve_left fun h => by rw [h0] at h; cases h
      exact ⟨hkept, hu.2.registered⟩

end RpiBoot
