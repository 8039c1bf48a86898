import Mathlib.Data.Set.Basic
import Mathlib.Order.CompletePartialOrder
import RpiBoot.Multiboot.Steps

/-!
# Where control goes

`method_multiboot` rewrites `entry_addr` whenever it lies in the segment that has just been loaded, also
when an earlier segment has made a physical address of it; `method_kernel` leaves it as it is in the file.

* `Phdr.virtual`, `Phdr.physical`: the addresses of a segment.
* `mem_physical_of_translateAll`: an address that the loop rewrites ends up in a physical range.
* `elfFile`: the ELF file that a command loads. `entryAddr_multiboot`, `entryAddr_kernel`: the entry
  address behind it.
* **`entry_iff`**: when that is the physical address of the entry point.
-/

namespace RpiBoot

open Store Bytes

variable {σ : Type}

/-- The virtual addresses of a segment. A range that reaches the end of the address space goes on at
its start. -/
def Phdr.virtual (phdr : Phdr) : Set ℕ := {a | ∃ i < phdr.pMemsz, a = u32 (phdr.pVaddr + i)}

/-- The physical addresses of a segment. -/
def Phdr.physical (phdr : Phdr) : Set ℕ := {a | ∃ i < phdr.pMemsz, a = u32 (phdr.pPaddr + i)}

/-- The test of `method_multiboot`. -/
def InSegment (phdr : Phdr) (entryAddr : ℕ) : Prop :=
  entryAddr ≥ phdr.pVaddr ∧ entryAddr < u32 (phdr.pVaddr + phdr.pMemsz)

/-- The physical address of an entry point in a segment. -/
def Phdr.toPhysical (phdr : Phdr) (entryAddr : ℕ) : ℕ :=
  u32 (sub32 entryAddr phdr.pVaddr + phdr.pPaddr)

/-! ## The loop -/

theorem translateEntry_of_mem {phdr : Phdr} {entryAddr : ℕ} (h : InSegment phdr entryAddr) :
    translateEntry phdr entryAddr = phdr.toPhysical entryAddr := if_pos h

theorem translateEntry_of_notMem {phdr : Phdr} {entryAddr : ℕ} (h : ¬ InSegment phdr entryAddr) :
    translateEntry phdr entryAddr = entryAddr := if_neg h

theorem InSegment.mem_virtual {phdr : Phdr} {entryAddr : ℕ} (h : InSegment phdr entryAddr) :
    entryAddr ∈ phdr.virtual := by
  obtain ⟨h₁, h₂⟩ := h
  refine ⟨entryAddr - phdr.pVaddr, ?_, ?_⟩ <;> unfold u32 at * <;> omega

theorem toPhysical_mem {phdr : Phdr} {entryAddr : ℕ} (h : entryAddr ∈ phdr.virtual) :
    phdr.toPhysical entryAddr ∈ phdr.physical := by
  obtain ⟨i, hi, rfl⟩ := h
  refine ⟨i, hi, ?_⟩
  unfold Phdr.toPhysical sub32 u32
  omega

theorem eq_toPhysical_iff {phdr : Phdr} (hvaddr : phdr.pVaddr < 2 ^ 32) (hpaddr : phdr.pPaddr < 2 ^ 32)
    {entryAddr : ℕ} (h : entryAddr ∈ phdr.virtual) :
    entryAddr = phdr.toPhysical entryAddr ↔ phdr.pVaddr = phdr.pPaddr := by
  obtain ⟨i, hi, rfl⟩ := h
  unfold Phdr.toPhysical sub32 u32
  omega

/-- Within a segment the test fails just where the range reaches the end of the address space. -/
theorem inSegment_iff {phdr : Phdr} (hvaddr : phdr.pVaddr < 2 ^ 32) (hmemsz : phdr.pMemsz < 2 ^ 32)
    {entryAddr : ℕ} (h : entryAddr ∈ phdr.virtual) :
    InSegment phdr entryAddr ↔ phdr.pVaddr + phdr.pMemsz < 2 ^ 32 := by
  obtain ⟨i, hi, rfl⟩ := h
  unfold InSegment u32
  omega

/-- The entry address behind the segments that have been loaded. -/
def translateAll (phdrs : List Phdr) (entryAddr : ℕ) : ℕ :=
  phdrs.foldl (fun entryAddr phdr => translateEntry phdr entryAddr) entryAddr

theorem translateAll_of_notMem {phdrs : List Phdr} {entryAddr : ℕ}
    (h : ∀ phdr ∈ phdrs, ¬ InSegment phdr entryAddr) : translateAll phdrs entryAddr = entryAddr := by
  induction phdrs with
  | nil => rfl
  | cons phdr phdrs ih =>
    rw [translateAll, List.foldl_cons, translateEntry_of_notMem (h phdr List.mem_cons_self)]
    exact ih fun p hp => h p (List.mem_cons_of_mem _ hp)

/-- **An address that is rewritten** ends up in the physical range of a segment. -/
theorem mem_physical_of_translateAll {phdrs : List Phdr} {entryAddr : ℕ}
    (h : ∃ phdr ∈ phdrs, InSegment phdr entryAddr) :
    ∃ phdr ∈ phdrs, translateAll phdrs entryAddr ∈ phdr.physical := by
  induction phdrs generalizing entryAddr with
  | nil => exact absurd h (by simp)
  | cons phdr phdrs ih =>
    rw [translateAll, List.foldl_cons]
    by_cases hrest : ∃ p ∈ phdrs, InSegment p (translateEntry phdr entryAddr)
    · obtain ⟨p, hp, hmem⟩ := ih hrest
      exact ⟨p, List.mem_cons_of_mem _ hp, hmem⟩
    · have hkept := translateAll_of_notMem fun p hp hin => hrest ⟨p, hp, hin⟩
      rw [translateAll] at hkept
      have hin : InSegment phdr entryAddr := by
        by_contra hnot
        rw [translateEntry_of_notMem hnot] at hrest
        obtain ⟨p, hp, hp'⟩ := h
        rcases List.mem_cons.mp hp with rfl | hp
        · exact hnot hp'
        · exact hrest ⟨p, hp, hp'⟩
      rw [hkept, translateEntry_of_mem hin]
      exact ⟨phdr, List.mem_cons_self, toPhysical_mem hin.mem_virtual⟩

/-- The virtual ranges are apart, and the physical ranges are. -/
structure Apart (phdrs : List Phdr) : Prop where
  virtual : phdrs.Pairwise fun p q => Disjoint p.virtual q.virtual
  physical : phdrs.Pairwise fun p q => Disjoint p.physical q.physical

/-- The entry point stays where its segment puts it: the range ends within the address space, and no
segment behind has the physical address among its virtual ones. -/
def StaysPut (seg : Phdr) (later : List Phdr) (entryAddr : ℕ) : Prop :=
  if seg.pVaddr + seg.pMemsz < 2 ^ 32 then ∀ phdr ∈ later, ¬ InSegment phdr (seg.toPhysical entryAddr)
  else seg.pVaddr = seg.pPaddr

/-- **The loop of `method_multiboot`.** -/
theorem translateAll_iff {before later : List Phdr} {seg : Phdr} {entryAddr : ℕ}
    (hapart : Apart (before ++ seg :: later)) (hmem : entryAddr ∈ seg.virtual)
    (hvaddr : seg.pVaddr < 2 ^ 32) (hpaddr : seg.pPaddr < 2 ^ 32) (hmemsz : seg.pMemsz < 2 ^ 32) :
    translateAll (before ++ seg :: later) entryAddr = seg.toPhysical entryAddr ↔
      StaysPut seg later entryAddr := by
  obtain ⟨hv, hp⟩ := hapart
  obtain ⟨-, hv', hbefore⟩ := List.pairwise_append.mp hv
  obtain ⟨-, hp', -⟩ := List.pairwise_append.mp hp
  have hskip : translateAll before entryAddr = entryAddr :=
    translateAll_of_notMem fun p hp hin =>
      Set.disjoint_left.mp (hbefore p hp seg List.mem_cons_self) hin.mem_virtual hmem
  have hlater : ∀ p ∈ later, ¬ InSegment p entryAddr := fun p hp hin =>
    Set.disjoint_left.mp (List.rel_of_pairwise_cons hv' hp) hmem hin.mem_virtual
  have hsplit : translateAll (before ++ seg :: later) entryAddr =
      translateAll later (translateEntry seg entryAddr) := by
    unfold translateAll at hskip ⊢
    rw [List.foldl_append, hskip, List.foldl_cons]
  rw [hsplit, StaysPut]
  split_ifs with hfits
  · rw [translateEntry_of_mem ((inSegment_iff hvaddr hmemsz hmem).mpr hfits)]
    constructor
    · -- an address that moves on ends up in another physical range
      intro heq p hp hin
      obtain ⟨q, hq, hmem'⟩ := mem_physical_of_translateAll ⟨p, hp, hin⟩
      rw [heq] at hmem'
      exact Set.disjoint_left.mp (List.rel_of_pairwise_cons hp' hq) (toPhysical_mem hmem) hmem'
    · exact translateAll_of_notMem
  · rw [translateEntry_of_notMem fun h => hfits ((inSegment_iff hvaddr hmemsz hmem).mp h),
      translateAll_of_notMem hlater]
    exact eq_toPhysical_iff hvaddr hpaddr hmem

/-! ## The commands -/

/-- The entry address behind a loop that has loaded all segments. -/
theorem loadSegments_entryAddr {fsRead : FsTransfer σ} {onLoad : Phdr → ℕ → ℕ} {phdrs : List Phdr}
    {retno : ℤ} {l : Loading σ} (h : (loadSegments fsRead onLoad phdrs retno l).1 = none) :
    (loadSegments fsRead onLoad phdrs retno l).2.boot.entryAddr =
      (phdrs.filter (·.pType = ptLoad)).foldl (fun e p => onLoad p e) l.boot.entryAddr := by
  induction phdrs generalizing retno l with
  | nil => rfl
  | cons phdr phdrs ih =>
    by_cases htype : phdr.pType = ptLoad
    · have hall := (loadSegments_none_iff retno).mp h
      rw [AllLoaded, if_pos htype] at hall
      rw [(loadSegments_cons fsRead onLoad phdrs retno l htype).2.2 hall.1 hall.2.1] at h ⊢
      rw [ih h, List.filter_cons_of_pos (by simpa using htype), List.foldl_cons]
      rfl
    · rw [loadSegments, if_pos htype] at h ⊢
      rw [ih h, List.filter_cons_of_neg (by simpa using htype)]

variable (env : BootEnv σ)

/-- The ELF header and the program headers of the ELF file that a command loads, if it comes to that. -/
def elfFile (b : Boot σ) : BootCommand → Option (Ehdr × List Phdr)
  | .multiboot args =>
    match openMultiboot env args b with
    | .error _ => none
    | .ok k =>
      if k.header.flags &&& 1 <<< 16 ≠ 0 then none
      else match elfHeaders env k with
        | .error _ => none
        | .ok h => some (h.ehdr, h.phdrs)
  | .kernel args =>
    match openKernel env args b with
    | .error _ => none
    | .ok k =>
      if k.type = .elf then
        match kernelHeaders env k with
        | .error _ => none
        | .ok (ehdr, phdrs, _) => some (ehdr, phdrs)
      else none
  | _ => none

/-- The segments that are loaded. -/
def loadable (phdrs : List Phdr) : List Phdr := phdrs.filter (·.pType = ptLoad)

variable {env} {b b' : Boot σ} {c : BootCommand}

theorem elfHeaders_ok {k : MbKernel σ} {h : ElfHeaders σ} (hk : elfHeaders env k = .ok h) :
    h.state.boot.entryAddr = h.ehdr.eEntry ∧ ∃ phBuf, h.phdrs = phdrsAt phBuf h.ehdr := by
  unfold elfHeaders at hk
  simp only at hk
  split_ifs at hk
  obtain rfl := Except.ok.inj hk
  exact ⟨rfl, _, rfl⟩

theorem kernelHeaders_ok {k : KernelFile σ} {ehdr : Ehdr} {phdrs : List Phdr} {l : Loading σ}
    (hk : kernelHeaders env k = .ok (ehdr, phdrs, l)) : ∃ phBuf, phdrs = phdrsAt phBuf ehdr := by
  unfold kernelHeaders at hk
  simp only at hk
  split_ifs at hk
  obtain ⟨rfl, h⟩ := Prod.mk.inj (Except.ok.inj hk)
  obtain ⟨rfl, -⟩ := Prod.mk.inj h
  exact ⟨_, rfl⟩

/-- The file and the headers that `multiboot` has come to. -/
theorem elfFile_multiboot {args : List UInt8} {ehdr : Ehdr} {phdrs : List Phdr}
    (h : elfFile env b (.multiboot args) = some (ehdr, phdrs)) :
    ∃ k hd, openMultiboot env args b = .ok k ∧ ¬ k.header.flags &&& 1 <<< 16 ≠ 0 ∧
      elfHeaders env k = .ok hd ∧ hd.ehdr = ehdr ∧ hd.phdrs = phdrs := by
  simp only [elfFile] at h
  split at h
  · cases h
  rename_i k hk
  split_ifs at h with hflag
  split at h
  · cases h
  rename_i hd hhd
  obtain ⟨hehdr, hphdrs⟩ := Prod.mk.inj (Option.some.inj h)
  exact ⟨k, hd, hk, hflag, hhd, hehdr, hphdrs⟩

/-- The file and the headers that `kernel` has come to. -/
theorem elfFile_kernel {args : List UInt8} {ehdr : Ehdr} {phdrs : List Phdr}
    (h : elfFile env b (.kernel args) = some (ehdr, phdrs)) :
    ∃ k l, openKernel env args b = .ok k ∧ k.type = .elf ∧ kernelHeaders env k = .ok (ehdr, phdrs, l) := by
  simp only [elfFile] at h
  split at h
  · cases h
  rename_i k hk
  split_ifs at h with htype
  split at h
  · cases h
  rename_i ehdr' phdrs' l hhd
  obtain ⟨rfl, rfl⟩ := Prod.mk.inj (Option.some.inj h)
  exact ⟨k, l, hk, htype, hhd⟩

theorem elfFile_phdrs {ehdr : Ehdr} {phdrs : List Phdr} (h : elfFile env b c = some (ehdr, phdrs)) :
    ∃ phBuf, phdrs = phdrsAt phBuf ehdr := by
  cases c with
  | multiboot args =>
    obtain ⟨k, hd, -, -, hhd, rfl, rfl⟩ := elfFile_multiboot h
    exact (elfHeaders_ok hhd).2
  | kernel args =>
    obtain ⟨k, l, -, -, hhd⟩ := elfFile_kernel h
    exact kernelHeaders_ok hhd
  | _ => cases h

/-- The entry address behind a successful `multiboot`. -/
theorem entryAddr_multiboot {args : List UInt8} {ehdr : Ehdr} {phdrs : List Phdr}
    (hfile : elfFile env b (.multiboot args) = some (ehdr, phdrs))
    (hret : bootMethod env b (.multiboot args) = some (0, b'))
    (hall : Complete env b (.multiboot args)) :
    b'.entryAddr = translateAll (loadable phdrs) ehdr.eEntry := by
  obtain ⟨k, hd, hk, hflag, hhd, rfl, rfl⟩ := elfFile_multiboot hfile
  have hloaded := hall ⟨k.opened.fsRead, translateEntry, hd.phdrs, hd.state⟩ (by
    simp only [segmentLoop, hk, if_neg hflag, hhd]
    rfl)
  have hnone := (loadSegments_none_iff elfOk).mpr hloaded
  have hentry := loadSegments_entryAddr hnone
  rw [(elfHeaders_ok hhd).1] at hentry
  simp only [bootMethod, methodMultiboot, hk, if_neg hflag, loadElf, hhd] at hret
  rw [← Prod.mk.eta (p := loadSegments k.opened.fsRead translateEntry hd.phdrs elfOk hd.state),
    hnone] at hret
  simp only [Option.map_eq_some_iff] at hret
  obtain ⟨r, ⟨s, hs, rfl⟩, hr⟩ := hret
  obtain ⟨-, hkept, hne⟩ := loadSections_spec _ _ _ _ hs
  rcases s with ⟨_ | retno, shBuf, l⟩
  · obtain ⟨-, rfl⟩ := Prod.mk.inj hr
    exact hkept.trans hentry
  · exact absurd (congrArg some (Prod.mk.inj hr).1) hne

/-- The entry address behind a successful `kernel`. -/
theorem entryAddr_kernel {args : List UInt8} {ehdr : Ehdr} {phdrs : List Phdr}
    (hfile : elfFile env b (.kernel args) = some (ehdr, phdrs))
    (hret : bootMethod env b (.kernel args) = some (0, b'))
    (hall : Complete env b (.kernel args)) : b'.entryAddr = ehdr.eEntry := by
  obtain ⟨k, l, hk, htype, hhd⟩ := elfFile_kernel hfile
  have hloaded := hall ⟨k.opened.fsRead, fun _ e => e, phdrs, l⟩ (by
    simp only [segmentLoop, hk, if_pos htype, hhd]
    rfl)
  have hnone := (loadSegments_none_iff elfOk).mpr hloaded
  simp only [bootMethod, methodKernel, hk, htype, loadElfKernel, hhd] at hret
  rw [← Prod.mk.eta (p := loadSegments k.opened.fsRead (fun _ e => e) phdrs elfOk l), hnone] at hret
  obtain ⟨-, rfl⟩ := Prod.mk.inj (Option.some.inj hret)
  rfl

/-- A command that succeeds hands over the physical address of the entry point: that which the segment
`seg` of the file gives it. -/
def EntryRight (env : BootEnv σ) (b : Boot σ) (c : BootCommand) : Prop :=
  ∀ ehdr phdrs seg b', elfFile env b c = some (ehdr, phdrs) → Apart (loadable phdrs) →
    seg ∈ loadable phdrs → ehdr.eEntry ∈ seg.virtual → bootMethod env b c = some (0, b') →
    Complete env b c → b'.entryAddr = seg.toPhysical ehdr.eEntry

/-- When the entry point of a segment is handed over right, by the command. -/
def EntryFits (c : BootCommand) (seg : Phdr) (later : List Phdr) (entryAddr : ℕ) : Prop :=
  match c with
  | .multiboot _ => StaysPut seg later entryAddr
  | _ => seg.pVaddr = seg.pPaddr

deriving instance DecidableEq for Ehdr, Phdr

/-- An ELF kernel with two segments: the first is loaded to the virtual addresses of the second. -/
def chainImage : List UInt8 :=
  [0x7f, 0x45, 0x4c, 0x46, 1, 1] ++ List.replicate 10 0 ++ toBytes 2 2 ++ toBytes 2 40 ++
  [1, 0x8000, 52, 116, 0].flatMap (toBytes 4) ++ [52, 32, 2, 40, 1, 0].flatMap (toBytes 2) ++
  [ptLoad, 0, 0x8000, 0x10000, 0, 0x1000, 0, 0].flatMap (toBytes 4) ++
  [ptLoad, 0, 0x10000, 0x20000, 0, 0x1000, 0, 0].flatMap (toBytes 4) ++ List.replicate 40 0 ++
  [multibootHeaderMagic, 0, 2 ^ 32 - multibootHeaderMagic].flatMap (toBytes 4)

/-- The program headers of the two segments. -/
def chainPhdrs : List Phdr :=
  [⟨ptLoad, 0, 0x8000, 0x10000, 0, 0x1000⟩, ⟨ptLoad, 0, 0x10000, 0x20000, 0, 0x1000⟩]

/-- Memory for both segments is free. -/
def chainBoot : Boot Unit := Boot.init (fun _ => 0) () ⟨[⟨0x10000, 0x20000⟩], [], 0x30000⟩

theorem chainPhdrs_apart : Apart (loadable chainPhdrs) := by
  rw [show loadable chainPhdrs = chainPhdrs by decide]
  refine ⟨List.pairwise_pair.mpr ?_, List.pairwise_pair.mpr ?_⟩ <;> refine Set.disjoint_left.mpr ?_ <;>
    rintro _ ⟨i, hi, rfl⟩ ⟨j, hj, h⟩ <;> simp only [u32] at hi hj h <;> omega

/-- What a run of a command on the two segments tells. -/
theorem not_entryRight {env : BootEnv σ} {b : Boot σ} {c : BootCommand} (entryAddr : ℕ)
    (hfile : (elfFile env b c).map (fun f => (f.1.eEntry, f.2)) = some (0x8000, chainPhdrs))
    (hret : (bootMethod env b c).map (fun r => (r.1, r.2.entryAddr)) = some (0, entryAddr))
    (hloop : (segmentLoop env b c).map
      (fun s => (loadSegments s.fsRead s.onLoad s.phdrs elfOk s.state).1) = some none)
    (hne : entryAddr ≠ 0x10000) : ¬ EntryRight env b c := by
  intro hright
  obtain ⟨⟨ehdr, phdrs⟩, hfile, hentry⟩ := Option.map_eq_some_iff.mp hfile
  obtain ⟨hentry, rfl⟩ := Prod.mk.inj hentry
  obtain ⟨⟨ret, b'⟩, hrun, hb'⟩ := Option.map_eq_some_iff.mp hret
  obtain ⟨rfl, rfl⟩ := Prod.mk.inj hb'
  refine hne ((hright ehdr _ ⟨ptLoad, 0, 0x8000, 0x10000, 0, 0x1000⟩ b' hfile chainPhdrs_apart (by decide)
    ?_ hrun (complete_of_run hloop)).trans ?_)
  · rw [hentry]
    exact ⟨0, by simp, rfl⟩
  · rw [hentry]
    rfl

/-- `multiboot` hands over `0x20000` and `kernel` `0x8000`, where the entry point is at `0x10000`. -/
theorem entry_broken :
    ¬ EntryRight (filesEnv fun _ => some chainImage) chainBoot (.multiboot []) ∧
      ¬ EntryRight (filesEnv fun _ => some chainImage) chainBoot (.kernel []) :=
  ⟨not_entryRight 0x20000 (by decide +kernel) (by decide +kernel) (by decide +kernel)
      (by decide),
    not_entryRight 0x8000 (by decide +kernel) (by decide +kernel) (by decide +kernel)
      (by decide)⟩

/-- **The entry point**, of every ELF file whose segments are apart, behind every command that loads it
in full. `multiboot` hands over the physical address just when it stays put behind its segment, and
`kernel` just when it is the virtual address. -/
theorem entry_iff {env : BootEnv σ} {b b' : Boot σ} {c : BootCommand} {ehdr : Ehdr}
    {phdrs before later : List Phdr} {seg : Phdr} (hfile : elfFile env b c = some (ehdr, phdrs))
    (hsplit : loadable phdrs = before ++ seg :: later) (hapart : Apart (loadable phdrs))
    (hmem : ehdr.eEntry ∈ seg.virtual) (hret : bootMethod env b c = some (0, b'))
    (hall : Complete env b c) :
    b'.entryAddr = seg.toPhysical ehdr.eEntry ↔ EntryFits c seg later ehdr.eEntry := by
  have hseg : seg ∈ phdrs := by
    have hin : seg ∈ loadable phdrs := by
      rw [hsplit]
      exact List.mem_append_right _ List.mem_cons_self
    exact (List.mem_filter.mp hin).1
  obtain ⟨phBuf, rfl⟩ := elfFile_phdrs hfile
  obtain ⟨i, -, rfl⟩ := List.mem_map.mp hseg
  rw [hsplit] at hapart
  cases c with
  | multiboot args =>
    rw [entryAddr_multiboot hfile hret hall, hsplit]
    exact translateAll_iff hapart hmem (le32_lt _ _) (le32_lt _ _) (le32_lt _ _)
  | kernel args =>
    rw [entryAddr_kernel hfile hret hall]
    exact eq_toPhysical_iff (le32_lt _ _) (le32_lt _ _) hmem
  | _ => cases hfile

/-- The kernel with its entry point in the second segment. -/
def lateImage : List UInt8 := (chainImage.set 25 0).set 26 1

/-- It is handed over at the physical address of the second segment, which is not translated again. -/
theorem entry_iff_lateImage :
    ∃ b', bootMethod (filesEnv fun _ => some lateImage) chainBoot (.multiboot []) = some (0, b') ∧
      b'.entryAddr = 0x20000 := by
  have hfile : (elfFile (filesEnv fun _ => some lateImage) chainBoot (.multiboot [])).map
      (fun f => (f.1.eEntry, f.2)) = some (0x10000, chainPhdrs) := by decide +kernel
  have hret : (bootMethod (filesEnv fun _ => some lateImage) chainBoot (.multiboot [])).map (·.1) = some 0 := by
    decide +kernel
  have hloop : (segmentLoop (filesEnv fun _ => some lateImage) chainBoot (.multiboot [])).map
      (fun s => (loadSegments s.fsRead s.onLoad s.phdrs elfOk s.state).1) = some none := by decide +kernel
  obtain ⟨⟨ehdr, phdrs⟩, hfile, hf⟩ := Option.map_eq_some_iff.mp hfile
  obtain ⟨hentry, rfl⟩ := Prod.mk.inj hf
  obtain ⟨⟨ret, b'⟩, hret, rfl⟩ := Option.map_eq_some_iff.mp hret
  have hsplit : loadable chainPhdrs = [⟨ptLoad, 0, 0x8000, 0x10000, 0, 0x1000⟩] ++
      ⟨ptLoad, 0, 0x10000, 0x20000, 0, 0x1000⟩ :: [] := by decide
  have h := entry_iff hfile hsplit chainPhdrs_apart (by rw [hentry]; exact ⟨0, by simp, rfl⟩) hret
    (complete_of_run hloop)
  rw [hentry] at h
  have hfits : StaysPut ⟨ptLoad, 0, 0x10000, 0x20000, 0, 0x1000⟩ [] 0x10000 := by
    unfold StaysPut
    rw [if_pos (by decide)]
    exact fun phdr hphdr => absurd hphdr List.not_mem_nil
  exact ⟨b', hret, h.mpr hfits⟩

end RpiBoot
