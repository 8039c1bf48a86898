import RpiBoot.Multiboot.Steps

/-!
# The flags of the boot information

`method_multiboot` sets bit 6 for the section table of an ELF file, where bit 5 announces it.

* `Consistent`: bits 3, 5 and 6 of the boot information say which tables it has.
* `LoadsElf`: a `multiboot` command comes to the section table.
* `since_multiboot`, `since_step`: what the commands do to the boot information.
* **`boot_info_iff`**: what the kernel gets is consistent just when the last `multiboot` command has not
  come to a section table.
-/

namespace RpiBoot

open Store Bytes Runs

variable {σ : Type}

/-- The memory map of the boot information has been filled with the regions. -/
def MmapFilled (regions : List Chunk) (info : MultibootInfo) : Prop :=
  ∃ buf ∈ info.mmap, slice buf 0 info.mmapLength = (regions.flatMap mmapEntry).take info.mmapLength

/-- Bits 3, 5 and 6 stand for the modules, the section table and the memory map. -/
def Consistent (regions : List Chunk) (info : MultibootInfo) : Prop :=
  (info.flags.testBit 3 = true ↔ 0 < info.modsCount) ∧
  (info.flags.testBit 5 = true ↔ info.elfSec.isSome) ∧
  (info.flags.testBit 6 = true ↔ MmapFilled regions info)

/-- A `multiboot` command on an ELF file, without a segment that is refused. -/
def LoadsElf (env : BootEnv σ) (args : List UInt8) (b : Boot σ) : Prop :=
  ∃ k, openMultiboot env args b = .ok k ∧ k.header.flags &&& 1 <<< 16 = 0 ∧
    NoneRefused env b (.multiboot args)

/-! ## The memory map -/

theorem memCb_mmapLength (regions : List Chunk) (info : MultibootInfo) (h : info.mmapLength < 2 ^ 32) :
    (regions.foldl MultibootInfo.memCb info).mmapLength = u32 (info.mmapLength + 24 * regions.length) := by
  induction regions generalizing info with
  | nil => exact (u32_of_lt h).symm
  | cons region regions ih =>
    rw [List.foldl_cons, ih _ (Nat.mod_lt _ (by decide))]
    simp only [MultibootInfo.memCb, u32, Nat.mod_add_mod, List.length_cons]
    congr 1
    omega

theorem memCb_kept (regions : List Chunk) (info : MultibootInfo) :
    (regions.foldl MultibootInfo.memCb info).flags = info.flags ∧
    (regions.foldl MultibootInfo.memCb info).modsCount = info.modsCount ∧
    (regions.foldl MultibootInfo.memCb info).elfSec = info.elfSec := by
  induction regions generalizing info with
  | nil => exact ⟨rfl, rfl, rfl⟩
  | cons region regions ih => exact ih _

theorem mmapEntry_length (region : Chunk) : (mmapEntry region).length = 24 := by
  simp [mmapEntry]

/-- The second pass writes one entry behind the other. -/
theorem memCb2_foldl (regions : List Chunk) (m : Mem × ℕ) :
    regions.foldl memCb2 m = (patch m.1 m.2 (regions.flatMap mmapEntry), m.2 + 24 * regions.length) := by
  induction regions generalizing m with
  | nil => simp
  | cons region regions ih =>
    rw [List.foldl_cons, ih, memCb2, List.flatMap_cons, patch_append, mmapEntry_length,
      List.length_cons]
    congr 1
    omega

theorem flatMap_mmapEntry_length (regions : List Chunk) :
    (regions.flatMap mmapEntry).length = 24 * regions.length := by
  induction regions with
  | nil => rfl
  | cons region regions ih =>
    rw [List.flatMap_cons, List.length_append, ih, mmapEntry_length, List.length_cons]
    omega

theorem memInfo_filled (regions : List Chunk) (fresh : Mem) :
    MmapFilled regions (memInfo regions fresh MultibootInfo.clear) := by
  refine ⟨_, rfl, ?_⟩
  have hlen : (memInfo regions fresh MultibootInfo.clear).mmapLength ≤
      (regions.flatMap mmapEntry).length := by
    rw [flatMap_mmapEntry_length]
    simp only [memInfo]
    rw [memCb_mmapLength regions _ (by decide)]
    exact (Nat.mod_le _ _).trans (by simp [MultibootInfo.clear])
  rw [memCb2_foldl, ← min_eq_left hlen, ← take_slice, slice_patch, min_eq_left hlen]

/-! ## What `method_multiboot` leaves -/

/-- Boot information without modules: it has the section table when `p`, and else its flags are those of
its tables. -/
structure Prepared (regions : List Chunk) (p : Prop) (info : MultibootInfo) : Prop where
  bit3 : info.flags.testBit 3 = false
  bit5 : info.flags.testBit 5 = false
  elfSec : info.elfSec.isSome ↔ p
  bit6 : ¬ p → (info.flags.testBit 6 = true ↔ MmapFilled regions info)

theorem prepared_newInfo (env : BootEnv σ) (dev : σ) (header : MbHeader) :
    Prepared env.regions False (newInfo env dev header) := by
  obtain ⟨hflags, -, helf⟩ := memCb_kept env.regions MultibootInfo.clear
  unfold newInfo
  split_ifs
  · have hbits : (memInfo env.regions (env.fresh dev) MultibootInfo.clear).flags = 65 := by
      simp only [memInfo, hflags]
      decide
    refine ⟨by rw [hbits]; decide, by rw [hbits]; decide, ?_, fun _ => ?_⟩
    · simp only [memInfo, helf]
      exact iff_of_false (by decide) id
    · rw [hbits]
      exact iff_of_true (by decide) (memInfo_filled env.regions (env.fresh dev))
  · refine ⟨by decide, by decide, by simp [MultibootInfo.clear], fun _ => ?_⟩
    exact iff_of_false (by decide) fun ⟨buf, hbuf, _⟩ => nomatch hbuf

variable {regions : List Chunk} {p : Prop} {info : MultibootInfo}

theorem Prepared.setElfSec (h : Prepared regions p info) (ehdr : Ehdr) (shBuf : Mem) :
    Prepared regions True (setElfSec ehdr shBuf info) where
  bit3 := by simp only [RpiBoot.setElfSec, Nat.testBit_or, h.bit3]; decide
  bit5 := by simp only [RpiBoot.setElfSec, Nat.testBit_or, h.bit5]; decide
  elfSec := by simp [RpiBoot.setElfSec]
  bit6 := fun h => absurd trivial h

theorem Prepared.setKernelInfo (h : Prepared regions p info) (env : BootEnv σ)
    (cmdline device : List UInt8) : Prepared regions p (setKernelInfo env cmdline device info) where
  bit3 := by simp only [RpiBoot.setKernelInfo, Nat.testBit_or, h.bit3]; decide
  bit5 := by simp only [RpiBoot.setKernelInfo, Nat.testBit_or, h.bit5]; decide
  elfSec := h.elfSec
  bit6 := fun hp => by
    have hbit : (RpiBoot.setKernelInfo env cmdline device info).flags.testBit 6 =
        info.flags.testBit 6 := by
      simp only [RpiBoot.setKernelInfo, Nat.testBit_or]
      cases info.flags.testBit 6 <;> decide
    rw [hbit]
    exact h.bit6 hp

/-- The table and bit 3. -/
theorem fillMods_eq {k : ℕ} {modules : List Module} (h : modules.length = k) (info : MultibootInfo) :
    fillMods k modules info = { info with
      mods := info.mods ++ modules.map fun m => ⟨m.start, m.stop, m.name, 0⟩
      flags := if k = 0 then info.flags else info.flags ||| 1 <<< 3 } := by
  induction modules generalizing k info with
  | nil =>
    subst h
    simp [fillMods]
  | cons m modules ih =>
    subst h
    rw [List.length_cons, fillMods, ih rfl]
    simp only [List.map_cons, List.append_assoc, List.singleton_append, if_neg (Nat.succ_ne_zero _),
      MultibootInfo.mk.injEq, and_true]
    split_ifs
    · rfl
    · rw [Nat.or_assoc, Nat.or_self]

/-- **With the modules added**, the boot information is consistent just when it has no section table. -/
theorem Prepared.consistent_iff (h : Prepared regions p info) {k : ℕ} {modules : List Module}
    (hk : modules.length = k) : Consistent regions (addMultibootModules modules k info) ↔ ¬ p := by
  have hbit (i : ℕ) (hi : i ≠ 3) : (addMultibootModules modules k info).flags.testBit i =
      info.flags.testBit i := by
    rw [addMultibootModules, fillMods_eq hk]
    simp only
    split_ifs
    · rfl
    · rw [Nat.testBit_or, Nat.one_shiftLeft, Nat.testBit_two_pow_of_ne hi.symm, Bool.or_false]
  have hkept : (addMultibootModules modules k info).elfSec = info.elfSec ∧
      (addMultibootModules modules k info).modsCount = k ∧
      (MmapFilled regions (addMultibootModules modules k info) ↔ MmapFilled regions info) := by
    rw [addMultibootModules, fillMods_eq hk]
    exact ⟨rfl, rfl, Iff.rfl⟩
  have hbit3 : (addMultibootModules modules k info).flags.testBit 3 = true ↔ 0 < k := by
    rw [addMultibootModules, fillMods_eq hk]
    simp only
    split_ifs with hk0
    · simp [h.bit3, hk0]
    · simp only [Nat.testBit_or, h.bit3, Nat.pos_of_ne_zero hk0, iff_true]
      decide
  unfold Consistent
  rw [hkept.1, hkept.2.1, hkept.2.2, hbit 5 (by decide), hbit 6 (by decide), h.bit5, h.elfSec]
  constructor
  · rintro ⟨-, h5, -⟩ hp
    exact absurd (h5.mpr hp) (by decide)
  · exact fun hp => ⟨hbit3, iff_of_false (by decide) hp, h.bit6 hp⟩

/-! ## The commands -/

variable {env : BootEnv σ}

theorem loadsElf_iff {args : List UInt8} {b : Boot σ} {k : MbKernel σ} {hd : ElfHeaders σ}
    (hk : openMultiboot env args b = .ok k) (hflag : ¬ k.header.flags &&& 1 <<< 16 ≠ 0)
    (hhd : elfHeaders env k = .ok hd) :
    LoadsElf env args b ↔ ¬ MeetsRefusal k.opened.fsRead translateEntry hd.phdrs hd.state := by
  have hloop : segmentLoop env b (.multiboot args) =
      some ⟨k.opened.fsRead, translateEntry, hd.phdrs, hd.state⟩ := by
    simp only [segmentLoop, hk, hhd, if_neg hflag]
  have hrefused : NoneRefused env b (.multiboot args) ↔
      ¬ MeetsRefusal k.opened.fsRead translateEntry hd.phdrs hd.state := by
    simp [NoneRefused, hloop]
  rw [← hrefused]
  constructor
  · rintro ⟨-, -, -, h⟩
    exact h
  · exact fun h => ⟨k, hk, not_not.mp hflag, h⟩

/-- `finishMultiboot` changes the boot information alone. -/
theorem finishMultiboot_tables {args : List UInt8} {k : MbKernel σ} {l : Loading σ} {b b' : Boot σ}
    {p : Prop} (h : some (finishMultiboot env args k l) = some (0, b'))
    (hl : ∃ info, Prepared env.regions p info ∧
      l.boot.tables = (some info, b.modules, b.modCount, b.handoff)) :
    ∃ info, Prepared env.regions p info ∧ b'.tables = (some info, b.modules, b.modCount, b.handoff) := by
  obtain ⟨info, hinfo, hkept⟩ := hl
  obtain rfl := (Prod.mk.inj (Option.some.inj h)).2
  refine ⟨_, hinfo.setKernelInfo env (args.takeWhile (· == 0x20) ++ methodName 0x20 args)
    k.opened.device, ?_⟩
  exact (tables_mapInfo _ l.boot).trans (by rw [hkept]; rfl)

/-- **What `multiboot` leaves** when it returns `0`. -/
theorem methodMultiboot_tables {args : List UInt8} {b b' : Boot σ}
    (h : methodMultiboot env args b = some (0, b')) :
    ∃ info, Prepared env.regions (LoadsElf env args b) info ∧
      b'.tables = (some info, b.modules, b.modCount, b.handoff) := by
  unfold methodMultiboot at h
  have hopen := openMultiboot_spec env args b
  cases hk : openMultiboot env args b with
  | error r =>
    simp only [hk] at h hopen
    exact absurd (congrArg Prod.fst (Option.some.inj h)) hopen
  | ok k =>
    simp only [hk] at h hopen
    obtain ⟨dev, hopen⟩ := hopen
    have hnew := prepared_newInfo env dev k.header
    split_ifs at h with hflag hret
    · exact absurd (congrArg Prod.fst (Option.some.inj h)) hret
    · have hnot : LoadsElf env args b ↔ False := by
        refine iff_of_false (fun ⟨k', hk', hflag', _⟩ => hflag ?_) id
        obtain rfl := Except.ok.inj (hk.symm.trans hk')
        exact hflag'
      rw [hnot]
      exact finishMultiboot_tables h ⟨_, hnew, (loadAout_tables k).trans hopen⟩
    · obtain ⟨r, hr, hr'⟩ := Option.map_eq_some_iff.mp h
      have hcases := loadElf_cases hr
      rcases r with r | l
      · subst hr'
        obtain ⟨hkept, hd, hhd, hrefused⟩ := hcases rfl
        rw [loadsElf_iff hk hflag hhd, iff_false_intro (not_not.mpr hrefused)]
        exact ⟨_, hnew, hkept.trans hopen⟩
      · obtain ⟨hd, shBuf, hhd, hrefused, hkept⟩ := hcases
        rw [loadsElf_iff hk hflag hhd, iff_true_intro hrefused]
        refine finishMultiboot_tables (congrArg some hr') ⟨_, hnew.setElfSec hd.ehdr shBuf, ?_⟩
        rw [hkept, tables_mapInfo, hopen]
        rfl

/-- What a command that goes on does to the tables. -/
inductive TablesStep (env : BootEnv σ) (b : Boot σ) : BootCommand → Boot σ → Prop
  | multiboot {args info b'} (hinfo : Prepared env.regions (LoadsElf env args b) info)
      (h : b'.tables = (some info, b.modules, b.modCount, none)) : TablesStep env b (.multiboot args) b'
  | boot {args b'} (h : b'.tables = (b.mbinfo.map (addMultibootModules b.modules b.modCount),
      b.modules, b.modCount, some ⟨b.entryAddr, b.mbinfo.map (addMultibootModules b.modules b.modCount)⟩)) :
      TablesStep env b (.boot args) b'
  | module {args m b'} (h : b'.tables = (b.mbinfo, m :: b.modules, b.modCount + 1, none)) :
      TablesStep env b (.module args) b'
  | other {c b'} (h : b'.tables = b.tables) (hc : ∀ args, c ≠ .multiboot args) : TablesStep env b c b'

/-- **One command** of a configuration. -/
theorem bootStep_tables {b b' : Boot σ} {c : BootCommand} (h : bootStep env b c = some b') :
    b.handoff = none ∧ TablesStep env b c b' := by
  unfold bootStep at h
  split_ifs at h with hhandoff
  obtain ⟨r, hr, hr'⟩ := Option.bind_eq_some_iff.mp h
  split_ifs at hr' with h0
  obtain rfl : r.2 = b' := Option.some.inj hr'
  have hnone : b.handoff = none := Option.not_isSome_iff_eq_none.mp hhandoff
  refine ⟨hnone, ?_⟩
  cases c with
  | multiboot args =>
    obtain ⟨info, hinfo, hkept⟩ := methodMultiboot_tables
      (show methodMultiboot env args b = some (0, r.2) from hr.trans (by rw [← h0]))
    exact .multiboot hinfo (hnone ▸ hkept)
  | boot args =>
    obtain rfl := Option.some.inj hr
    have hentry : b.entryAddr ≠ 0 := fun h => by simp [methodBoot, h] at h0
    exact .boot (by simp only [methodBoot, if_neg hentry]; rfl)
  | module args =>
    obtain ⟨m, hm⟩ := methodModule_tables
      (show methodModule env args b = some (0, r.2) from hr.trans (by rw [← h0]))
    exact .module (hnone ▸ hm)
  | kernel args => exact .other (methodKernel_tables hr) nofun
  | entryAddr args =>
    obtain rfl := Option.some.inj hr
    refine .other ?_ nofun
    unfold methodEntryAddr
    cases env.parseAddr args <;> rfl
  | binaryLoadAddr args =>
    obtain rfl := Option.some.inj hr
    refine .other ?_ nofun
    unfold methodBinaryLoadAddr
    cases env.parseAddr args <;> rfl
  | consoleLog args =>
    obtain rfl := Option.some.inj hr
    exact .other rfl nofun

/-! ## Configurations -/

/-- The boot information behind a `multiboot` command that found `p`, and what is handed over. -/
def Since (regions : List Chunk) (p : Prop) (b : Boot σ) : Prop :=
  match b.handoff with
  | none => ∃ info ∈ b.mbinfo, Prepared regions p info
  | some handoff => ∃ info ∈ handoff.info, (Consistent regions info ↔ ¬ p)

/-- No boot information. -/
def NoInfo (b : Boot σ) : Prop := b.mbinfo = none ∧ ∀ handoff ∈ b.handoff, handoff.info = none

/-- The number of the modules. -/
def Counted (b : Boot σ) : Prop := b.modules.length = b.modCount

theorem counted_step {b b' : Boot σ} {c : BootCommand} (hb : Counted b)
    (h : bootStep env b c = some b') : Counted b' := by
  unfold Counted at hb ⊢
  obtain ⟨-, hstep⟩ := bootStep_tables h
  cases hstep with
  | multiboot _ h => simp only [Boot.tables, Prod.mk.injEq] at h; simp [h, hb]
  | boot h => simp only [Boot.tables, Prod.mk.injEq] at h; simp [h, hb]
  | module h => simp only [Boot.tables, Prod.mk.injEq] at h; simp [h, hb]
  | other h _ => simp only [Boot.tables, Prod.mk.injEq] at h; simp [h, hb]

theorem noInfo_step {b b' : Boot σ} {c : BootCommand} (hb : NoInfo b)
    (hc : ¬ ∃ args, c = .multiboot args) (h : bootStep env b c = some b') : NoInfo b' := by
  obtain ⟨hnone, hstep⟩ := bootStep_tables h
  unfold NoInfo at hb ⊢
  cases hstep with
  | multiboot _ _ => exact absurd ⟨_, rfl⟩ hc
  | boot h => simp only [Boot.tables, Prod.mk.injEq] at h; simp [h, hb]
  | module h => simp only [Boot.tables, Prod.mk.injEq] at h; simp [h, hb]
  | other h _ => simp only [Boot.tables, Prod.mk.injEq] at h; simp [h, hb, hnone]

theorem since_multiboot {b b' : Boot σ} {args : List UInt8}
    (h : bootStep env b (.multiboot args) = some b') :
    Since env.regions (LoadsElf env args b) b' := by
  obtain ⟨-, hstep⟩ := bootStep_tables h
  cases hstep with
  | multiboot hinfo h =>
    simp only [Boot.tables, Prod.mk.injEq] at h
    simpa [Since, h] using hinfo
  | other _ hc => exact absurd rfl (hc args)

theorem since_step {p : Prop} {b b' : Boot σ} {c : BootCommand} (hcount : Counted b)
    (hb : Since env.regions p b) (hc : ¬ ∃ args, c = .multiboot args)
    (h : bootStep env b c = some b') : Since env.regions p b' := by
  obtain ⟨hnone, hstep⟩ := bootStep_tables h
  simp only [Since, hnone] at hb
  obtain ⟨info, hmb, hinfo⟩ := hb
  have hmb : b.mbinfo = some info := hmb
  cases hstep with
  | multiboot _ _ => exact absurd ⟨_, rfl⟩ hc
  | boot h =>
    simp only [Boot.tables, Prod.mk.injEq] at h
    simpa [Since, h, hmb] using hinfo.consistent_iff hcount
  | module h =>
    simp only [Boot.tables, Prod.mk.injEq] at h
    simpa [Since, h, hmb] using hinfo
  | other h _ =>
    simp only [Boot.tables, Prod.mk.injEq] at h
    simpa [Since, h, hmb, hnone] using hinfo

/-- An ELF kernel gets a section table with bit 6, and bit 5 clear. -/
theorem boot_info_broken :
    ∃ t entry info, run (bootStep (filesEnv fun _ => some elfImage))
        (Boot.init (fun _ => 0) () ⟨[⟨0x8000, 0x1000⟩], [], 0x9000⟩) [.multiboot [], .boot []] = some t ∧
      t.handoff = some ⟨entry, some info⟩ ∧ ¬ Consistent [] info := by
  have hinfo : (((run (bootStep (filesEnv fun _ => some elfImage))
      (Boot.init (fun _ => 0) () ⟨[⟨0x8000, 0x1000⟩], [], 0x9000⟩) [.multiboot [], .boot []]).bind
      (·.handoff)).bind (·.info)).map (fun info => (info.flags.testBit 5, info.elfSec.isSome)) =
      some (false, true) := by decide +kernel
  obtain ⟨info, hinfo, hflags⟩ := Option.map_eq_some_iff.mp hinfo
  obtain ⟨⟨entry, _⟩, hhandoff, rfl⟩ := Option.bind_eq_some_iff.mp hinfo
  obtain ⟨t, ht, hhandoff⟩ := Option.bind_eq_some_iff.mp hhandoff
  obtain ⟨hbit, helf⟩ := Prod.mk.inj hflags
  refine ⟨t, entry, info, ht, hhandoff, fun h => ?_⟩
  rw [h.2.1.mpr helf] at hbit
  exact absurd hbit (by decide)

/-- **Boot information.** Of every configuration that reaches a Multiboot boot: the flags of what the
kernel gets stand for its tables just when the last `multiboot` command has loaded an a.out file, or an
ELF file with a segment that is refused. -/
theorem boot_info_iff (env : BootEnv σ) (ram : Mem) (dev : σ) (chunks : Chunks) {cs : List BootCommand}
    {t : Boot σ} (hrun : run (bootStep env) (Boot.init ram dev chunks) cs = some t) {entry : ℕ}
    {info : MultibootInfo} (ht : t.handoff = some ⟨entry, some info⟩) :
    ∃ pre args post u, cs = pre ++ .multiboot args :: post ∧ (∀ c ∈ post, ∀ args', c ≠ .multiboot args') ∧
      run (bootStep env) (Boot.init ram dev chunks) pre = some u ∧
      (Consistent env.regions info ↔ ¬ LoadsElf env args u) := by
  have hlast := run_since (d := fun c : BootCommand => ∃ args, c = .multiboot args)
    (Q := fun u c b => ∀ args, c = .multiboot args → Since env.regions (LoadsElf env args u) b)
    (fun _ _ _ hb h => counted_step hb h) (fun _ _ _ _ hN hc h => noInfo_step hN hc h)
    (fun _ _ _ _ _ h args hc => since_multiboot (hc ▸ h))
    (fun _ _ _ _ _ hb hQ hc h args ho => since_step hb (hQ args ho) hc h)
    (show Counted (Boot.init ram dev chunks) from rfl)
    (show NoInfo (Boot.init ram dev chunks) from ⟨rfl, fun _ h => nomatch h⟩) hrun
  rcases hlast with hnone | ⟨pre, c, post, u, rfl, hpost, ⟨args, rfl⟩, hu, hQ⟩
  · exact nomatch hnone.2 _ ht
  · refine ⟨pre, args, post, u, rfl, fun c hc args' h => hpost c hc ⟨args', h⟩, hu, ?_⟩
    have hsince := hQ args rfl
    simp only [Since, ht] at hsince
    obtain ⟨info', hinfo, hiff⟩ := hsince
    obtain rfl := Option.some.inj hinfo
    exact hiff

/-- An a.out kernel that asks for the memory map. -/
def infoImage : List UInt8 :=
  [multibootHeaderMagic, 0x10002, 2 ^ 32 - 0x10002 - multibootHeaderMagic, 0x100000, 0x100000, 0x100020,
    0x100020, 0x100000].flatMap (toBytes 4)

/-- A loader with this kernel, and two regions of memory. -/
def infoEnv : BootEnv Unit :=
  { filesEnv fun _ => some infoImage with regions := [⟨0, 0x8000000⟩, ⟨0x8000000, 0x4000000⟩] }

def infoBoot : Boot Unit := Boot.init (fun _ => 0) () ⟨[⟨0x100000, 0x10000⟩], [], 0x110000⟩

/-- The kernel, with two modules. -/
def infoScript : List BootCommand := [.multiboot [], .module [0x61], .module [0x62], .boot []]

/-- It gets the modules and the memory map, and its boot information is consistent just when it is no ELF
file. -/
theorem boot_info_iff_modules :
    ∃ t entry info, run (bootStep infoEnv) infoBoot infoScript = some t ∧
      t.handoff = some ⟨entry, some info⟩ ∧ info.modsCount = 2 ∧ info.mmapLength = 48 ∧
      ∃ pre args post u, infoScript = pre ++ .multiboot args :: post ∧
        (∀ c ∈ post, ∀ args', c ≠ .multiboot args') ∧ run (bootStep infoEnv) infoBoot pre = some u ∧
        (Consistent infoEnv.regions info ↔ ¬ LoadsElf infoEnv args u) := by
  have hinfo : (((run (bootStep infoEnv) infoBoot infoScript).bind (·.handoff)).bind (·.info)).map
      (fun info => (info.modsCount, info.mmapLength)) = some (2, 48) := by decide +kernel
  obtain ⟨info, hinfo, hcounts⟩ := Option.map_eq_some_iff.mp hinfo
  obtain ⟨⟨entry, _⟩, hhandoff, rfl⟩ := Option.bind_eq_some_iff.mp hinfo
  obtain ⟨t, ht, hhandoff⟩ := Option.bind_eq_some_iff.mp hhandoff
  obtain ⟨hmods, hmmap⟩ := Prod.mk.inj hcounts
  exact ⟨t, entry, info, ht, hhandoff, hmods, hmmap, boot_info_iff _ _ _ _ ht hhandoff⟩

end RpiBoot
