import RpiBoot.Atag
import RpiBoot.Multiboot.Info

/-!
# The memory information

`method_multiboot` walks twice over the regions: the first walk adds up the size of the buffer and looks
for the end of the memory beyond 1 MiB, the second one fills the buffer.

* `memoryInfo`: the two walks. `memoryInfo_eq`: what they come to.
* `walkMmap`: the regions in the buffer, as a kernel reads them.
* `MemoryRight`: the buffer holds the regions, no store leaves it, and `mem_upper` is right.
* `memUpper_foldl`: `mem_upper` behind the first walk.
* **`memory_info_iff`**: the memory information is right just when no region spans 1 MiB and the size of
  the buffer does not wrap.
-/

namespace RpiBoot

open Store Bytes

variable {σ : Type}

/-- The part of `method_multiboot` that fills in the memory information; the buffer holds `fresh`. -/
def memoryInfo (fuel : ℕ) (src : RegionSource) (fresh : Mem) (info : MultibootInfo) :
    Option MultibootInfo :=
  (parseAtagOrDtb MultibootInfo.memCb fuel src info).bind fun info =>
    (parseAtagOrDtb memCb2 fuel src (fresh, 0)).map fun mmap =>
      { info with mmap := some mmap.1, flags := info.flags ||| 1 <<< 0 ||| 1 <<< 6 }

/-- **The two walks** come to the information that is made of the reported regions. -/
theorem memoryInfo_eq {fuel : ℕ} {src : RegionSource} {regions : List Chunk}
    (h : reported fuel src = some regions) (fresh : Mem) (info : MultibootInfo) :
    memoryInfo fuel src fresh info = some (memInfo regions fresh info) := by
  simp only [memoryInfo, parseAtagOrDtb_eq, h, Option.map_some, Option.bind_some, memInfo]

/-- The regions in the first `n` bytes of a buffer, from offset `off` on: an entry starts with its size
without that word, and has the base address and the length as two words each. -/
def walkMmap (buf : Mem) (n : ℕ) : (fuel off : ℕ) → List Chunk
  | 0, _ => []
  | fuel + 1, off =>
    if off < n then
      ⟨le32 buf (off + 4) + 2 ^ 32 * le32 buf (off + 8), le32 buf (off + 12) + 2 ^ 32 * le32 buf (off + 16)⟩ ::
        walkMmap buf n fuel (off + (le32 buf off + 4))
    else []

/-- The region reaches from below 1 MiB to beyond it. -/
def Spans1MiB (region : Chunk) : Prop := region.start < 0x100000 ∧ 0x100000 < region.start + region.length

/-- The memory information is right: a walk over the buffer gives the regions, every store of the second
pass lies in the buffer, and `mem_upper` is the number of KiB from 1 MiB to the end of the region that
spans it. -/
structure MemoryRight (regions : List Chunk) (info : MultibootInfo) : Prop where
  walk : ∃ buf ∈ info.mmap, walkMmap buf info.mmapLength (info.mmapLength + 1) 0 = regions
  inside : ∀ pre region post, regions = pre ++ region :: post → ∀ fresh,
    (pre.foldl memCb2 (fresh, 0)).2 + (mmapEntry region).length ≤ info.mmapLength
  upper : ∀ region ∈ regions, Spans1MiB region →
    info.memUpper = (region.start + region.length - 0x100000) / 1024

/-! ## The buffer -/

theorem le32_eq_ofBytes (mem : Mem) (a : ℕ) : le32 mem a = ofBytes (slice mem a 4) := by
  simp only [slice, List.range, List.range.loop, List.map_cons, List.map_nil, ofBytes, le32, le16]
  ring_nf

theorem le32_of_slice {mem : Mem} {a n : ℕ} (h : slice mem a 4 = toBytes 4 n) (hn : n < 2 ^ 32) :
    le32 mem a = n := by
  rw [le32_eq_ofBytes, h, ofBytes_toBytes, Nat.mod_eq_of_lt (by omega)]

/-- The words of a buffer that holds a list of words. -/
theorem le32_of_words {mem : Mem} {ws : List ℕ} : ∀ {a : ℕ},
    slice mem a (4 * ws.length) = ws.flatMap (toBytes 4) →
      ∀ {i w : ℕ}, ws[i]? = some w → w < 2 ^ 32 → le32 mem (a + 4 * i) = w := by
  induction ws with
  | nil =>
    intro a _ i w hw
    cases hw
  | cons v ws ih =>
    intro a h i w hw hlt
    rw [List.length_cons, show 4 * (ws.length + 1) = 4 + 4 * ws.length by ring, slice_add,
      List.flatMap_cons] at h
    obtain ⟨hhead, htail⟩ := List.append_inj h (by rw [length_slice, length_toBytes])
    cases i with
    | zero =>
      obtain rfl : v = w := Option.some.inj hw
      exact le32_of_slice hhead hlt
    | succ i =>
      rw [show a + 4 * (i + 1) = a + 4 + 4 * i by ring]
      exact ih htail hw hlt

/-- A step of the walk, at an entry. -/
theorem walkMmap_entry {buf : Mem} {n fuel off : ℕ} {region : Chunk} (hr : region.Words)
    (h : slice buf off 24 = mmapEntry region) (hoff : off < n) :
    walkMmap buf n (fuel + 1) off = region :: walkMmap buf n fuel (off + 24) := by
  have hword : ∀ i w, [20, region.start, 0, region.length, 0, 1][i]? = some w → w < 2 ^ 32 →
      le32 buf (off + 4 * i) = w := fun i w hw hlt => le32_of_words h hw hlt
  have h0 : le32 buf off = 20 := hword 0 20 rfl (by decide)
  have h1 : le32 buf (off + 4) = region.start := hword 1 _ rfl hr.1
  have h2 : le32 buf (off + 8) = 0 := hword 2 0 rfl (by decide)
  have h3 : le32 buf (off + 12) = region.length := hword 3 _ rfl hr.2
  have h4 : le32 buf (off + 16) = 0 := hword 4 0 rfl (by decide)
  rw [walkMmap, if_pos hoff, h0, h1, h2, h3, h4, Nat.mul_zero, Nat.add_zero, Nat.add_zero]

/-- **The walk over a buffer** that is filled with regions. -/
theorem walkMmap_eq {buf : Mem} {regions : List Chunk} : ∀ {fuel off : ℕ}, (∀ r ∈ regions, r.Words) →
    slice buf off (24 * regions.length) = regions.flatMap mmapEntry → regions.length < fuel →
      walkMmap buf (off + 24 * regions.length) fuel off = regions := by
  induction regions with
  | nil =>
    intro fuel off _ _ hf
    obtain ⟨fuel, rfl⟩ : ∃ k, fuel = k + 1 := ⟨fuel - 1, by simp at hf; omega⟩
    simp [walkMmap]
  | cons region regions ih =>
    intro fuel off hr h hf
    obtain ⟨fuel, rfl⟩ : ∃ k, fuel = k + 1 := ⟨fuel - 1, by simp at hf; omega⟩
    rw [List.length_cons] at h hf ⊢
    rw [show 24 * (regions.length + 1) = 24 + 24 * regions.length by ring, slice_add,
      List.flatMap_cons] at h
    obtain ⟨hhead, htail⟩ := List.append_inj h (by rw [length_slice, mmapEntry_length])
    rw [walkMmap_entry (hr region List.mem_cons_self) hhead (by omega),
      show off + 24 * (regions.length + 1) = off + 24 + 24 * regions.length by ring,
      ih (fun r hr' => hr r (List.mem_cons_of_mem _ hr')) htail (by omega)]

/-! ## The end of the memory -/

/-- **The first walk** takes `mem_upper` from a region that spans 1 MiB and does not wrap, if there is
one. -/
theorem memUpper_foldl {regions : List Chunk} (hr : ∀ r ∈ regions, r.Words) (info : MultibootInfo) :
    (∃ r ∈ regions, Spans1MiB r ∧
      (regions.foldl MultibootInfo.memCb info).memUpper = (r.start + r.length) / 1024) ∨
    ((∀ r ∈ regions, Spans1MiB r → 2 ^ 32 ≤ r.start + r.length) ∧
      (regions.foldl MultibootInfo.memCb info).memUpper = info.memUpper) := by
  induction regions generalizing info with
  | nil => exact Or.inr ⟨by simp, rfl⟩
  | cons region regions ih =>
    rw [List.foldl_cons]
    rcases ih (fun r hr' => hr r (List.mem_cons_of_mem _ hr')) (info.memCb region) with
      ⟨r, hmem, hspans, hupper⟩ | ⟨hnone, hupper⟩
    · exact Or.inl ⟨r, List.mem_cons_of_mem _ hmem, hspans, hupper⟩
    · obtain ⟨hstart, hlength⟩ := hr region List.mem_cons_self
      rw [hupper, MultibootInfo.memCb]
      dsimp only
      split_ifs with hcond
      · -- the sum has not wrapped: else it is below 1 MiB
        have hfits : region.start + region.length < 2 ^ 32 := by
          unfold u32 at hcond
          omega
        rw [u32_of_lt hfits] at hcond ⊢
        exact Or.inl ⟨region, List.mem_cons_self, hcond, rfl⟩
      · refine Or.inr ⟨fun r hr' hspans => ?_, rfl⟩
        rcases List.mem_cons.mp hr' with rfl | hr'
        · by_contra hlt
          rw [u32_of_lt (by omega)] at hcond
          exact hcond hspans
        · exact hnone r hr' hspans

/-! ## The boot information -/

/-- The fields of the memory information. -/
def MultibootInfo.memory (info : MultibootInfo) : ℕ × ℕ × Option Mem :=
  (info.memUpper, info.mmapLength, info.mmap)

theorem memoryRight_congr {regions : List Chunk} {info info' : MultibootInfo}
    (h : info.memory = info'.memory) : MemoryRight regions info ↔ MemoryRight regions info' := by
  obtain ⟨hupper, hlength, hmmap⟩ : info.memUpper = info'.memUpper ∧ info.mmapLength = info'.mmapLength ∧
      info.mmap = info'.mmap := by simpa [MultibootInfo.memory] using h
  constructor
  · rintro ⟨hw, hi, hu⟩
    exact ⟨by rwa [← hlength, ← hmmap], by rwa [← hlength], by rwa [← hupper]⟩
  · rintro ⟨hw, hi, hu⟩
    exact ⟨by rwa [hlength, hmmap], by rwa [hlength], by rwa [hupper]⟩

theorem mmapLength_memInfo (regions : List Chunk) (fresh : Mem) :
    (memInfo regions fresh MultibootInfo.clear).mmapLength = u32 (24 * regions.length) := by
  simp only [memInfo]
  rw [memCb_mmapLength regions _ (by decide)]
  simp [MultibootInfo.clear]

/-- Every store of the second pass lies in a buffer that has room for all entries, and in no other. -/
theorem regionsInside_iff {regions : List Chunk} {n : ℕ} :
    (∀ pre region post, regions = pre ++ region :: post → ∀ fresh,
      (pre.foldl memCb2 (fresh, 0)).2 + (mmapEntry region).length ≤ n) ↔ 24 * regions.length ≤ n := by
  constructor
  · intro h
    rcases List.eq_nil_or_concat regions with rfl | ⟨pre, region, rfl⟩
    · simp
    · have := h pre region [] (by simp) fun _ => 0
      rw [memCb2_foldl, mmapEntry_length] at this
      simp only [List.concat_eq_append, List.length_append, List.length_singleton]
      omega
  · rintro h pre region post rfl fresh
    rw [List.length_append, List.length_cons] at h
    rw [memCb2_foldl, mmapEntry_length]
    dsimp only
    omega

/-- **The memory information of the reported regions.** -/
theorem memoryRight_memInfo {regions : List Chunk} (hr : ∀ r ∈ regions, r.Words) (fresh : Mem) :
    MemoryRight regions (memInfo regions fresh MultibootInfo.clear) ↔
      (∀ r ∈ regions, ¬ Spans1MiB r) ∧ 24 * regions.length < 2 ^ 32 := by
  have hlen := mmapLength_memInfo regions fresh
  have hupper : (memInfo regions fresh MultibootInfo.clear).memUpper =
      (regions.foldl MultibootInfo.memCb MultibootInfo.clear).memUpper := rfl
  constructor
  · rintro ⟨-, hin, hup⟩
    rw [regionsInside_iff, hlen] at hin
    have hfits := u32_lt (24 * regions.length)
    refine ⟨fun r hmem hspans => ?_, by omega⟩
    have hval := hup r hmem hspans
    unfold Spans1MiB at hspans
    rw [hupper] at hval
    rcases memUpper_foldl hr MultibootInfo.clear with ⟨c, hc, hcspans, hcval⟩ | ⟨hnone, hzero⟩
    · -- the region that `mem_upper` was taken from is too long by the first MiB
      have hcval' := hup c hc hcspans
      unfold Spans1MiB at hcspans
      rw [hupper, hcval] at hcval'
      omega
    · have hwrap := hnone r hmem hspans
      rw [hzero] at hval
      simp only [MultibootInfo.clear] at hval
      omega
  · rintro ⟨hno, hlt⟩
    rw [u32_of_lt hlt] at hlen
    refine ⟨⟨_, rfl, ?_⟩, by rw [regionsInside_iff, hlen], fun r hmem hspans => absurd hspans (hno r hmem)⟩
    have hbuf := slice_patch fresh 0 (regions.flatMap mmapEntry)
    rw [flatMap_mmapEntry_length] at hbuf
    have hwalk : walkMmap _ (0 + 24 * regions.length) (24 * regions.length + 1) 0 = regions :=
      walkMmap_eq hr hbuf (by omega)
    rw [hlen, memCb2_foldl]
    rwa [Nat.zero_add] at hwalk

/-! ## The command -/

section Command

variable {env : BootEnv σ} {args : List UInt8} {b : Boot σ} {k : MbKernel σ} {r : ℤ × Boot σ}

theorem elfHeaders_error (h : elfHeaders env k = .error r) : r.2.tables = k.state.boot.tables := by
  unfold elfHeaders at h
  dsimp only at h
  split_ifs at h <;> cases h <;> rfl

/-- An error behind the header leaves the tables as they were. -/
theorem loadElf_error (h : loadElf env k = some (.error r)) : r.2.tables = k.state.boot.tables := by
  unfold loadElf at h
  have hheaders := elfHeaders_spec env k
  rcases hk : elfHeaders env k with r' | hd
  · simp only [hk] at h
    cases h
    exact elfHeaders_error hk
  simp only [hk] at h hheaders
  have hloop := loadSegments_tables k.opened.fsRead translateEntry hd.phdrs elfOk hd.state
  rw [hheaders] at hloop
  rcases hl : loadSegments k.opened.fsRead translateEntry hd.phdrs elfOk hd.state with ⟨_ | retno, l⟩
  · simp only [hl] at h hloop
    obtain ⟨s, hs, hr⟩ := Option.map_eq_some_iff.mp h
    obtain ⟨hkept, -, -⟩ := loadSections_spec _ _ _ _ hs
    rcases s with ⟨_ | retno, shBuf, l'⟩
    · cases hr
    · cases hr
      exact hkept.trans hloop
  · simp only [hl] at h hloop
    cases h
    exact hloop

/-- **The memory information is kept** by the rest of the command, also when it fails. -/
theorem methodMultiboot_memory (h : methodMultiboot env args b = some r)
    (hk : openMultiboot env args b = .ok k) :
    ∃ dev info, r.2.mbinfo = some info ∧ info.memory = (newInfo env dev k.header).memory := by
  have hopen := openMultiboot_spec env args b
  unfold methodMultiboot at h
  simp only [hk] at h hopen
  obtain ⟨dev, hopen⟩ := hopen
  have hinfo : k.state.boot.mbinfo = some (newInfo env dev k.header) := congrArg Prod.fst hopen
  refine ⟨dev, ?_⟩
  have hfinish : ∀ (l : Loading σ) info, l.boot.mbinfo = some info →
      info.memory = (newInfo env dev k.header).memory →
      ∃ info, (finishMultiboot env args k l).2.mbinfo = some info ∧
        info.memory = (newInfo env dev k.header).memory := by
    intro l info hl hmem
    have hb : (finishMultiboot env args k l).2.mbinfo = l.boot.mbinfo.map (setKernelInfo env
        (args.takeWhile (· == 0x20) ++ methodName 0x20 args) k.opened.device) := rfl
    rw [hl, Option.map_some] at hb
    exact ⟨_, hb, hmem⟩
  split_ifs at h with hflag hret
  · obtain rfl := Option.some.inj h
    exact ⟨_, (congrArg Prod.fst (loadAout_tables k)).trans hinfo, rfl⟩
  · obtain rfl := Option.some.inj h
    exact hfinish _ _ ((congrArg Prod.fst (loadAout_tables k)).trans hinfo) rfl
  · obtain ⟨res, hres, rfl⟩ := Option.map_eq_some_iff.mp h
    rcases res with r' | l
    · exact ⟨_, (congrArg Prod.fst (loadElf_error hres)).trans hinfo, rfl⟩
    · obtain ⟨hd, shBuf, -, -, hkept⟩ := loadElf_cases hres
      have helf : l.boot.mbinfo = some (setElfSec hd.ehdr shBuf (newInfo env dev k.header)) := by
        rw [show l.boot.mbinfo = (k.state.boot.mbinfo).map _ from congrArg Prod.fst hkept, hinfo,
          Option.map_some]
      exact hfinish l _ helf rfl

end Command

/-- **Memory information.** Behind `multiboot` with a kernel that asks for it, the memory information is
that of the reported regions, if and only if no region spans 1 MiB and there are fewer than
`2 ^ 32 / 24` regions. -/
theorem memory_info_iff {env : BootEnv σ} {args : List UInt8} {b : Boot σ} {k : MbKernel σ}
    {r : ℤ × Boot σ} {fuel : ℕ} {src : RegionSource} (hsrc : reported fuel src = some env.regions)
    (hk : openMultiboot env args b = .ok k) (hflag : k.header.flags &&& 1 <<< 1 ≠ 0)
    (h : methodMultiboot env args b = some r) :
    (∃ info, r.2.mbinfo = some info ∧ MemoryRight env.regions info) ↔
      (∀ region ∈ env.regions, ¬ Spans1MiB region) ∧ 24 * env.regions.length < 2 ^ 32 := by
  obtain ⟨dev, info, hinfo, hmem⟩ := methodMultiboot_memory h hk
  rw [newInfo, if_pos hflag] at hmem
  rw [← memoryRight_memInfo (reported_words hsrc) (env.fresh dev), ← memoryRight_congr hmem]
  constructor
  · rintro ⟨info', hinfo', hright⟩
    obtain rfl := Option.some.inj (hinfo.symm.trans hinfo')
    exact hright
  · exact fun hright => ⟨info, hinfo, hright⟩

/-! ## Examples -/

/-- A kernel of 32 bytes, its header, that asks for memory information. -/
def askingImage : List UInt8 :=
  [multibootHeaderMagic, 0x10002, 2 ^ 32 - 0x10002 - multibootHeaderMagic, 0x100000, 0x100000, 0x100020,
    0x100020, 0x100000].flatMap (toBytes 4)

/-- A list of tags at `0x100`, with one region. -/
def oneTag (region : Chunk) : RegionSource :=
  .atags (patch (fun _ => 0) 0x100 ([4, atagMem, region.length, region.start, 2, 0].flatMap (toBytes 4)))
    0x100

/-- A loader that is told of one region. -/
def tagEnv (region : Chunk) : BootEnv Unit := { filesEnv fun _ => some askingImage with regions := [region] }

def tagBoot : Boot Unit := Boot.init (fun _ => 0) () ⟨[⟨0x100000, 0x1000⟩], [], 0x101000⟩

/-- A region beyond 1 MiB. -/
def highRegion : Chunk := ⟨0x100000, 0x1000⟩

/-- A region from below 1 MiB on. -/
def lowRegion : Chunk := ⟨0, 0x20000000⟩

theorem tagBoot_runs {region : Chunk} (h : region = highRegion ∨ region = lowRegion) :
    ∃ k r, openMultiboot (tagEnv region) [] tagBoot = .ok k ∧ k.header.flags &&& 1 <<< 1 ≠ 0 ∧
      methodMultiboot (tagEnv region) [] tagBoot = some r := by
  have hopen : (openMultiboot (tagEnv region) [] tagBoot).toOption.map (·.header.flags) = some 0x10002 := by
    rcases h with rfl | rfl <;> decide +kernel
  have hrun : (methodMultiboot (tagEnv region) [] tagBoot).isSome = true := by
    rcases h with rfl | rfl <;> decide +kernel
  obtain ⟨r, hr⟩ := Option.isSome_iff_exists.mp hrun
  cases hk : openMultiboot (tagEnv region) [] tagBoot with
  | error r' =>
    rw [hk] at hopen
    cases hopen
  | ok k =>
    rw [hk] at hopen
    have hflags : k.header.flags = 0x10002 := Option.some.inj hopen
    exact ⟨k, r, rfl, by rw [hflags]; decide, hr⟩

/-- The memory information of a region beyond 1 MiB. -/
theorem memory_info_iff_high :
    ∃ r, methodMultiboot (tagEnv highRegion) [] tagBoot = some r ∧
      ((∃ info, r.2.mbinfo = some info ∧ MemoryRight [highRegion] info) ↔
        (∀ region ∈ [highRegion], ¬ Spans1MiB region) ∧ 24 * 1 < 2 ^ 32) := by
  obtain ⟨k, r, hk, hflag, hr⟩ := tagBoot_runs (Or.inl rfl)
  have hsrc : reported 2 (oneTag highRegion) = some (tagEnv highRegion).regions := by decide +kernel
  exact ⟨r, hr, memory_info_iff hsrc hk hflag hr⟩

/-- With the region from 0 on, `mem_upper` is the number of KiB from 0 to its end. -/
theorem memory_info_broken :
    reported 2 (oneTag lowRegion) = some [lowRegion] ∧
      ∃ r, methodMultiboot (tagEnv lowRegion) [] tagBoot = some r ∧
        ¬ ∃ info, r.2.mbinfo = some info ∧ MemoryRight [lowRegion] info := by
  obtain ⟨k, r, hk, hflag, hr⟩ := tagBoot_runs (Or.inr rfl)
  have hsrc : reported 2 (oneTag lowRegion) = some [lowRegion] := by decide +kernel
  refine ⟨hsrc, r, hr, ?_⟩
  rintro ⟨info, hinfo, hright⟩
  obtain ⟨dev, info', hinfo', hmem⟩ := methodMultiboot_memory hr hk
  obtain rfl := Option.some.inj (hinfo.symm.trans hinfo')
  rw [newInfo, if_pos hflag] at hmem
  have hno := (memoryRight_memInfo (reported_words hsrc) _).mp ((memoryRight_congr hmem).mp hright)
  exact hno.1 lowRegion (List.mem_singleton_self _) ⟨by decide, by decide⟩

end RpiBoot
