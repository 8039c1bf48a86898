import RpiBoot.Lib.Run
import RpiBoot.Multiboot.Model

/-!
# Which segments are loaded

`method_multiboot` and `method_kernel` return `retno` when the allocator refuses a segment, and `retno`
is still `ELF_OK` then.

* `segmentLoop`: the loop over the program headers that a command comes to, if it does.
* `AllLoaded`: every segment to be loaded is granted and loaded; `MeetsRefusal`: the loop comes to one
  that is refused.
* `loadSegments_none_iff`, `loadSegments_ok_iff`: how the loop ends.
* **`elf_load_iff`**: a command that returns `0` has loaded all segments, just when none is refused; and
  so along every configuration.
-/

namespace RpiBoot

open Runs

variable {σ : Type}

section Loop

variable (fsRead : FsTransfer σ) (onLoad : Phdr → ℕ → ℕ)

/-- The state behind a segment. -/
def afterSegment (phdr : Phdr) (l : Loading σ) : Loading σ :=
  let l := l.withChunks (chunkGetChunk l.boot.chunks phdr.pPaddr phdr.pMemsz).2
  (l.withIo (elf32LoadSegment fsRead phdr l.io).2).withEntry (onLoad phdr l.boot.entryAddr)

/-- The allocator grants the chunk of the segment. -/
def Granted (phdr : Phdr) (l : Loading σ) : Prop :=
  (chunkGetChunk l.boot.chunks phdr.pPaddr phdr.pMemsz).1 ≠ 0

/-- `elf32_load_segment` returns `ELF_OK` for the segment. -/
def SegmentLoaded (phdr : Phdr) (l : Loading σ) : Prop :=
  (elf32LoadSegment fsRead phdr
    (l.withChunks (chunkGetChunk l.boot.chunks phdr.pPaddr phdr.pMemsz).2).io).1 = elfOk

/-- Every segment with `PT_LOAD` is granted and loaded in its turn. -/
def AllLoaded : List Phdr → Loading σ → Prop
  | [], _ => True
  | phdr :: phdrs, l =>
    if phdr.pType = ptLoad then
      Granted phdr l ∧ SegmentLoaded fsRead phdr l ∧ AllLoaded phdrs (afterSegment fsRead onLoad phdr l)
    else AllLoaded phdrs l

/-- The segments before one that is refused are granted and loaded. -/
def MeetsRefusal : List Phdr → Loading σ → Prop
  | [], _ => False
  | phdr :: phdrs, l =>
    if phdr.pType = ptLoad then
      ¬ Granted phdr l ∨
        SegmentLoaded fsRead phdr l ∧ MeetsRefusal phdrs (afterSegment fsRead onLoad phdr l)
    else MeetsRefusal phdrs l

variable {fsRead onLoad}

/-- One round of the loop, on a segment to be loaded. -/
theorem loadSegments_cons (fsRead : FsTransfer σ) (onLoad : Phdr → ℕ → ℕ) {phdr : Phdr}
    (phdrs : List Phdr) (retno : ℤ) (l : Loading σ) (h : phdr.pType = ptLoad) :
    (¬ Granted phdr l → (loadSegments fsRead onLoad (phdr :: phdrs) retno l).1 = some retno) ∧
    (Granted phdr l → ¬ SegmentLoaded fsRead phdr l →
      ∃ r, r ≠ elfOk ∧ (loadSegments fsRead onLoad (phdr :: phdrs) retno l).1 = some r) ∧
    (Granted phdr l → SegmentLoaded fsRead phdr l →
      loadSegments fsRead onLoad (phdr :: phdrs) retno l =
        loadSegments fsRead onLoad phdrs elfOk (afterSegment fsRead onLoad phdr l)) := by
  rw [loadSegments, if_neg (not_not.mpr h)]
  refine ⟨fun hg => ?_, fun hg hs => ?_, fun hg hs => ?_⟩
  · simp only [if_pos (not_not.mp hg)]
  · refine ⟨_, hs, ?_⟩
    unfold SegmentLoaded at hs
    simp only [if_neg hg, ne_eq, if_pos hs]
  · unfold SegmentLoaded at hs
    simp only [if_neg hg, ne_eq, if_neg (not_not.mpr hs)]
    rw [hs]
    rfl

/-- **The loop runs to its end** just when every segment is granted and loaded. -/
theorem loadSegments_none_iff {phdrs : List Phdr} (retno : ℤ) {l : Loading σ} :
    (loadSegments fsRead onLoad phdrs retno l).1 = none ↔ AllLoaded fsRead onLoad phdrs l := by
  induction phdrs generalizing retno l with
  | nil => exact iff_of_true rfl trivial
  | cons phdr phdrs ih =>
    by_cases h : phdr.pType = ptLoad
    · obtain ⟨hrefused, hfailed, hnext⟩ := loadSegments_cons fsRead onLoad phdrs retno l h
      rw [AllLoaded, if_pos h]
      by_cases hg : Granted phdr l
      · by_cases hs : SegmentLoaded fsRead phdr l
        · rw [hnext hg hs, ih]
          exact ⟨fun h => ⟨hg, hs, h⟩, fun h => h.2.2⟩
        · obtain ⟨r, -, hr⟩ := hfailed hg hs
          rw [hr]
          exact iff_of_false nofun fun h => hs h.2.1
      · rw [hrefused hg]
        exact iff_of_false nofun fun h => hg h.1
    · rw [loadSegments, if_pos h, AllLoaded, if_neg h, ih]

/-- **The loop returns `ELF_OK`** just when it comes to a segment that is refused. -/
theorem loadSegments_ok_iff {phdrs : List Phdr} {l : Loading σ} :
    (loadSegments fsRead onLoad phdrs elfOk l).1 = some elfOk ↔ MeetsRefusal fsRead onLoad phdrs l := by
  induction phdrs generalizing l with
  | nil => exact iff_of_false nofun id
  | cons phdr phdrs ih =>
    by_cases h : phdr.pType = ptLoad
    · obtain ⟨hrefused, hfailed, hnext⟩ := loadSegments_cons fsRead onLoad phdrs elfOk l h
      rw [MeetsRefusal, if_pos h]
      by_cases hg : Granted phdr l
      · by_cases hs : SegmentLoaded fsRead phdr l
        · rw [hnext hg hs, ih]
          exact ⟨fun h => Or.inr ⟨hs, h⟩, fun h => h.elim (absurd hg) And.right⟩
        · obtain ⟨r, hne, hr⟩ := hfailed hg hs
          rw [hr]
          exact iff_of_false (fun h => hne (Option.some.inj h)) fun h => h.elim (absurd hg) fun h => hs h.1
      · exact iff_of_true (hrefused hg) (Or.inl hg)
    · rw [loadSegments, if_pos h, MeetsRefusal, if_neg h, ih]

theorem not_meetsRefusal {phdrs : List Phdr} {l : Loading σ} (h : AllLoaded fsRead onLoad phdrs l) :
    ¬ MeetsRefusal fsRead onLoad phdrs l := by
  rw [← loadSegments_ok_iff, (loadSegments_none_iff elfOk).mpr h]
  nofun

end Loop

/-! ## The commands -/

/-- A loop over program headers: how the file is read, what happens to `entry_addr`, the headers and the
state at its start. -/
structure SegmentLoop (σ : Type) where
  fsRead : FsTransfer σ
  onLoad : Phdr → ℕ → ℕ
  phdrs : List Phdr
  state : Loading σ

variable (env : BootEnv σ)

/-- The loop that a command comes to, if it loads an ELF file. -/
def segmentLoop (b : Boot σ) : BootCommand → Option (SegmentLoop σ)
  | .multiboot args =>
    match openMultiboot env args b with
    | .error _ => none
    | .ok k =>
      if k.header.flags &&& 1 <<< 16 ≠ 0 then none
      else match elfHeaders env k with
        | .error _ => none
        | .ok h => some ⟨k.opened.fsRead, translateEntry, h.phdrs, h.state⟩
  | .kernel args =>
    match openKernel env args b with
    | .error _ => none
    | .ok k =>
      if k.type = .elf then
        match kernelHeaders env k with
        | .error _ => none
        | .ok (_, phdrs, l) => some ⟨k.opened.fsRead, fun _ entryAddr => entryAddr, phdrs, l⟩
      else none
  | _ => none

/-- The ELF file that the command loads, if it loads one, is loaded in full. -/
def Complete (b : Boot σ) (c : BootCommand) : Prop :=
  ∀ s ∈ segmentLoop env b c, AllLoaded s.fsRead s.onLoad s.phdrs s.state

/-- No segment of the ELF file that the command loads, if it loads one, is refused. -/
def NoneRefused (b : Boot σ) (c : BootCommand) : Prop :=
  ∀ s ∈ segmentLoop env b c, ¬ MeetsRefusal s.fsRead s.onLoad s.phdrs s.state

variable {env} {b : Boot σ} {c : BootCommand}

/-- A loop that runs to its end loads every segment. -/
theorem complete_of_run (h : (segmentLoop env b c).map
    (fun s => (loadSegments s.fsRead s.onLoad s.phdrs elfOk s.state).1) = some none) :
    Complete env b c := by
  obtain ⟨s, hs, hnone⟩ := Option.map_eq_some_iff.mp h
  intro s' hs'
  obtain rfl := Option.some.inj (hs.symm.trans hs')
  exact (loadSegments_none_iff elfOk).mp hnone

/-- What the loop returns with, the command returns. -/
theorem bootMethod_of_stop {s : SegmentLoop σ} (hs : segmentLoop env b c = some s) {retno : ℤ}
    (h : (loadSegments s.fsRead s.onLoad s.phdrs elfOk s.state).1 = some retno) :
    ∃ b', bootMethod env b c = some (retno, b') := by
  cases c with
  | multiboot args =>
    simp only [segmentLoop] at hs
    split at hs
    · cases hs
    · rename_i k hk
      split_ifs at hs with hflag
      split at hs
      · cases hs
      · rename_i hd hhd
        obtain rfl := Option.some.inj hs
        refine ⟨((loadSegments k.opened.fsRead translateEntry hd.phdrs elfOk hd.state).2).close env, ?_⟩
        simp only [bootMethod, methodMultiboot, hk, if_neg hflag, loadElf, hhd]
        rw [← Prod.mk.eta (p := loadSegments k.opened.fsRead translateEntry hd.phdrs elfOk hd.state), h]
        rfl
  | kernel args =>
    simp only [segmentLoop] at hs
    split at hs
    · cases hs
    · rename_i k hk
      split_ifs at hs with htype
      split at hs
      · cases hs
      · rename_i ehdr phdrs l hhd
        obtain rfl := Option.some.inj hs
        refine ⟨((loadSegments k.opened.fsRead (fun _ e => e) phdrs elfOk l).2).close env, ?_⟩
        simp only [bootMethod, methodKernel, hk, htype, loadElfKernel, hhd]
        rw [← Prod.mk.eta (p := loadSegments k.opened.fsRead (fun _ e => e) phdrs elfOk l), h]
  | _ => cases hs

/-- One command: whether it returns `0` only with all segments loaded. -/
theorem complete_iff :
    ((∃ b', bootMethod env b c = some (0, b')) → Complete env b c) ↔ NoneRefused env b c := by
  constructor
  · intro h s hs hrefused
    have hstop := loadSegments_ok_iff.mpr hrefused
    exact not_meetsRefusal (h (bootMethod_of_stop hs hstop) s hs) hrefused
  · rintro h ⟨b', hb'⟩ s hs
    rw [← loadSegments_none_iff elfOk]
    cases hstop : (loadSegments s.fsRead s.onLoad s.phdrs elfOk s.state).1 with
    | none => rfl
    | some retno =>
      obtain ⟨b'', hb''⟩ := bootMethod_of_stop hs hstop
      obtain ⟨rfl, -⟩ := Prod.mk.inj (Option.some.inj (hb'.symm.trans hb''))
      exact absurd (loadSegments_ok_iff.mp hstop) (h s hs)

/-- The kernel's only segment is refused, and control is transferred to its entry point all the same. -/
theorem elf_load_broken :
    ((run (bootStep (filesEnv fun _ => some elfImage)) (Boot.init (fun _ => 0) () Chunks.init)
      [.multiboot [], .boot []]).bind (·.handoff)).map Handoff.entry = some 0x8000 ∧
    ¬ ((∃ b', bootMethod (filesEnv fun _ => some elfImage) (Boot.init (fun _ => 0) () Chunks.init)
        (.multiboot []) = some (0, b')) →
      Complete (filesEnv fun _ => some elfImage) (Boot.init (fun _ => 0) () Chunks.init)
        (.multiboot [])) := by
  refine ⟨by decide +kernel, fun h => ?_⟩
  have hloop : (segmentLoop (filesEnv fun _ => some elfImage) (Boot.init (fun _ => 0) () Chunks.init)
      (.multiboot [])).map (fun s => (loadSegments s.fsRead s.onLoad s.phdrs elfOk s.state).1) =
      some (some elfOk) := by decide +kernel
  obtain ⟨s, hs, hstop⟩ := Option.map_eq_some_iff.mp hloop
  exact complete_iff.mp h s hs (loadSegments_ok_iff.mp hstop)

/-- **ELF kernels.** A command returns `0` only with every segment granted and loaded, just when no
segment is refused. Along every configuration, whether or not it ends with a transfer of control, all ELF
kernels are loaded in full just when none of their segments is refused. -/
theorem elf_load_iff (env : BootEnv σ) :
    (∀ b c, ((∃ b', bootMethod env b c = some (0, b')) → Complete env b c) ↔ NoneRefused env b c) ∧
    ∀ b cs t, run (bootStep env) b cs = some t →
      (Along (bootStep env) (Complete env) b cs ↔ Along (bootStep env) (NoneRefused env) b cs) := by
  refine ⟨fun b c => complete_iff, fun b cs t hrun => along_congr (fun b c b' hstep => ?_) hrun⟩
  have hret : ∃ b', bootMethod env b c = some (0, b') := by
    unfold bootStep at hstep
    split_ifs at hstep
    obtain ⟨r, hr, hr'⟩ := Option.bind_eq_some_iff.mp hstep
    split_ifs at hr' with h0
    exact ⟨r.2, by rw [hr, ← h0]⟩
  rw [← complete_iff]
  exact ⟨fun h _ => h, fun h => h hret⟩

/-- The same kernel where its segment is free: the configuration runs to the transfer of control. -/
theorem elf_load_iff_free :
    Along (bootStep (filesEnv fun _ => some elfImage)) (Complete (filesEnv fun _ => some elfImage))
        (Boot.init (fun _ => 0) () ⟨[⟨0x8000, 0x1000⟩], [], 0x9000⟩) [.multiboot [], .boot []] ↔
      Along (bootStep (filesEnv fun _ => some elfImage)) (NoneRefused (filesEnv fun _ => some elfImage))
        (Boot.init (fun _ => 0) () ⟨[⟨0x8000, 0x1000⟩], [], 0x9000⟩) [.multiboot [], .boot []] := by
  have hrun : (run (bootStep (filesEnv fun _ => some elfImage))
      (Boot.init (fun _ => 0) () ⟨[⟨0x8000, 0x1000⟩], [], 0x9000⟩)
      [.multiboot [], .boot []]).isSome = true := by decide +kernel
  obtain ⟨t, ht⟩ := Option.isSome_iff_exists.mp hrun
  exact (elf_load_iff _).2 _ _ t ht

end RpiBoot
