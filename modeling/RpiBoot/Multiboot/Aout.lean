import RpiBoot.Multiboot.Contents

/-!
# What the load of an a.out kernel leaves in memory

`load_end_addr` may be zero, and then the rest of the file is loaded. The zeros start at
`load_end_addr` all the same, which is address `0` then.

* `MbKernel.fileOffset`, `MbKernel.loadLen`, `MbKernel.bssLen`: what is loaded, and how much is cleared.
* `AoutLoaded`: what a load is to leave.
* `loadAout_eq_zero`, `AoutSucceeds`: how a load that succeeds has gone.
* `AoutFits`, `AoutSpares`: the headers and the reads with which it does.
* **`aout_load_iff`**: it leaves that just when `bss_end_addr` is zero where `load_end_addr` is, the
  offset in the file fits a `long`, the range ends within the address space, and the read leaves alone what
  lies behind it.
-/

namespace RpiBoot

open Store Bytes

variable {σ : Type}

/-- The place in the file of the byte at `load_addr`. -/
def MbKernel.fileOffset (k : MbKernel σ) : ℕ :=
  u32 (sub32 k.headerOffset k.header.headerAddr + k.header.loadAddr)

/-- The number of bytes that are loaded of a file of `fileLen` bytes. -/
def MbKernel.loadLen (fileLen : ℕ) (k : MbKernel σ) : ℕ :=
  if k.header.loadEndAddr ≠ 0 then sub32 k.header.loadEndAddr k.header.loadAddr
  else sub32 fileLen k.fileOffset

/-- The number of bytes that are cleared. -/
def MbKernel.bssLen (k : MbKernel σ) : ℕ :=
  if k.header.bssEndAddr > k.header.loadEndAddr then sub32 k.header.bssEndAddr k.header.loadEndAddr else 0

/-- What the load of an a.out kernel is to leave: the bytes of the file, zeros up to `bss_end_addr`, and
the rest as it was; what has changed has been reserved, from 1 MiB on. -/
structure AoutLoaded (data : List UInt8) (k : MbKernel σ) (b b' : Boot σ) : Prop where
  bytes : slice b'.ram k.header.loadAddr (k.loadLen data.length) =
    (data.drop k.fileOffset).take (k.loadLen data.length)
  bss : ∀ a, k.header.loadAddr + k.loadLen data.length ≤ a → a < k.header.bssEndAddr → b'.ram a = 0
  frame : ∀ a, a < k.header.loadAddr ∨
    max (k.header.loadAddr + k.loadLen data.length) k.header.bssEndAddr ≤ a → b'.ram a = b.ram a
  reserved : ∃ n, chunkGetChunk b.chunks k.header.loadAddr n = (k.header.loadAddr, b'.chunks) ∧
    -- an address behind the end of the address space is one at its start
    ∀ a, b'.ram a ≠ b.ram a → 0x100000 ≤ u32 a ∧ a ∈ (Chunk.mk k.header.loadAddr n).range

/-- The header fields under which a file of `fileLen` bytes is loaded right. -/
structure AoutFits (fileLen : ℕ) (k : MbKernel σ) : Prop where
  bss : k.header.loadEndAddr = 0 → k.header.bssEndAddr = 0
  stop : k.header.loadAddr + k.loadLen fileLen ≤ 2 ^ 32
  offset : k.fileOffset < 2 ^ 31 ∨ k.loadLen fileLen = 0

/-- The read of a file of `fileLen` bytes leaves alone what lies behind the range of the kernel. -/
def AoutSpares (fileLen : ℕ) (k : MbKernel σ) : Prop :=
  Keeps k.opened.fsRead k.header.loadAddr (k.loadLen fileLen) (k.state.io.seek k.fileOffset)
    (Set.Ici (max (k.header.loadAddr + k.loadLen fileLen) k.header.bssEndAddr))

/-! ## One load -/

/-- The read of the load, behind the seek. -/
def aoutRead (k : MbKernel σ) (fileLen : ℕ) : ℕ × FileIo σ :=
  fread k.opened.fsRead k.header.loadAddr 1 (k.loadLen fileLen) (k.state.io.seek k.fileOffset)

/-- The chunk that the load asks for. -/
def aoutChunk (k : MbKernel σ) (fileLen : ℕ) : ℕ × Chunks :=
  chunkGetChunk k.state.boot.chunks k.header.loadAddr (u32 (k.loadLen fileLen + k.bssLen))

theorem loadAout_eq (k : MbKernel σ) {fileLen : ℕ} (hlen : toU32 k.state.file.len = fileLen) :
    loadAout k =
      if k.header.loadAddr < 0x100000 then (-1, k.state)
      else
        let l := (k.state.withEntry k.header.entryAddr).withChunks (aoutChunk k fileLen).2
        if (aoutChunk k fileLen).1 = 0 then (-1, l)
        else if (aoutRead k fileLen).1 ≠ k.loadLen fileLen then (-1, l.withIo (aoutRead k fileLen).2)
        else (0, l.withIo { (aoutRead k fileLen).2 with
          mem := clearMem k.header.loadEndAddr k.bssLen (aoutRead k fileLen).2.mem }) := by
  subst hlen
  rfl

/-- The load succeeds. -/
structure AoutSucceeds (k : MbKernel σ) (fileLen : ℕ) : Prop where
  fromMiB : 0x100000 ≤ k.header.loadAddr
  granted : (aoutChunk k fileLen).1 ≠ 0
  read : (aoutRead k fileLen).1 = k.loadLen fileLen

/-- **How a load has gone that returns `0`.** -/
theorem loadAout_eq_zero {k : MbKernel σ} {fileLen : ℕ} (hlen : toU32 k.state.file.len = fileLen) :
    (loadAout k).1 = 0 ↔ AoutSucceeds k fileLen := by
  rw [loadAout_eq k hlen]
  simp only
  split_ifs with hlow hrefused hshort
  · exact iff_of_false (by simp) fun h => absurd h.fromMiB (not_le.mpr hlow)
  · exact iff_of_false (by simp) fun h => h.granted hrefused
  · exact iff_of_false (by simp) fun h => hshort h.read
  · exact iff_of_true rfl ⟨not_lt.mp hlow, hrefused, not_not.mp hshort⟩

theorem AoutSucceeds.state {k : MbKernel σ} {fileLen : ℕ} (h : AoutSucceeds k fileLen)
    (hlen : toU32 k.state.file.len = fileLen) :
    (loadAout k).2.boot.chunks = (aoutChunk k fileLen).2 ∧
      (loadAout k).2.boot.ram = clearMem k.header.loadEndAddr k.bssLen (aoutRead k fileLen).2.mem := by
  rw [loadAout_eq k hlen, if_neg (not_lt.mpr h.fromMiB)]
  simp only [if_neg h.granted, h.read, ne_eq, not_true_eq_false, if_false]
  exact ⟨rfl, rfl⟩

/-- The file has been opened, and what it holds is known. -/
structure AoutOpened (data : List UInt8) (ok : σ → Prop) (k : MbKernel σ) : Prop where
  reads : ReadsFile k.opened.fsRead data ok
  dev : ok k.state.boot.dev
  len : k.state.file.len = data.length
  words : k.header.loadAddr < 2 ^ 32 ∧ k.header.loadEndAddr < 2 ^ 32 ∧ k.header.bssEndAddr < 2 ^ 32

/-- The same file, where memory holds something else. -/
def MbKernel.withRam (ram : Mem) (k : MbKernel σ) : MbKernel σ :=
  { k with state := k.state.withIo { k.state.io with mem := ram } }

variable {data : List UInt8} {ok : σ → Prop} {k : MbKernel σ}

theorem AoutOpened.toU32_len (h : AoutOpened data ok k) : toU32 k.state.file.len = data.length := by
  have hlt := h.reads.length_lt
  rw [h.len, toU32_natCast (by omega)]

theorem loadLen_lt (fileLen : ℕ) (k : MbKernel σ) : k.loadLen fileLen < 2 ^ 32 := by
  unfold MbKernel.loadLen
  split_ifs <;> exact u32_lt _

/-- Whether the load succeeds does not depend on what memory holds. -/
theorem AoutOpened.succeeds_withRam (h : AoutOpened data ok k) (ram : Mem) :
    AoutSucceeds (k.withRam ram) data.length ↔ AoutSucceeds k data.length := by
  have hreply : (aoutRead (k.withRam ram) data.length).1 = (aoutRead k data.length).1 :=
    h.reads.reply_seek k.state.io h.dev h.len _ (loadLen_lt _ k) _ ram
  constructor
  · rintro ⟨hmib, hgranted, hread⟩
    exact ⟨hmib, hgranted, hreply.symm.trans hread⟩
  · rintro ⟨hmib, hgranted, hread⟩
    exact ⟨hmib, hgranted, hreply.trans hread⟩

/-- What the read of a load that succeeds has done. -/
structure AoutFilled (data : List UInt8) (k : MbKernel σ) (mem : Mem) : Prop where
  inside : seekPos data.length k.fileOffset + k.loadLen data.length ≤ data.length
  bytes : slice mem k.header.loadAddr (k.loadLen data.length) =
    (data.drop (seekPos data.length k.fileOffset)).take (k.loadLen data.length)
  frame : ∀ a, a < k.header.loadAddr ∨ k.header.loadAddr + k.loadLen data.length + 16 ≤ a →
    mem a = k.state.boot.ram a

theorem AoutOpened.filled (h : AoutOpened data ok k) (hs : AoutSucceeds k data.length) :
    AoutFilled data k (aoutRead k data.length).2.mem := by
  have hle := seekPos_le data.length k.fileOffset
  have hback := h.reads.fread_seek k.state.io h.dev h.len k.header.loadAddr
    (loadLen_lt data.length k) k.fileOffset
  have hread := hs.read
  unfold aoutRead at hread ⊢
  have hmin : min (k.loadLen data.length) (data.length - seekPos data.length k.fileOffset) =
      k.loadLen data.length := by
    have hcount := hback.count
    omega
  rw [hmin] at hback
  exact ⟨by omega, hback.bytes hread, hback.frame⟩

/-! ## When it is right -/

/-- The cleared range of a header that fits is behind the bytes that are loaded. -/
theorem AoutFits.bss_eq (hfits : AoutFits data.length k) (h : AoutOpened data ok k) :
    k.header.loadAddr + k.loadLen data.length + k.bssLen =
        max (k.header.loadAddr + k.loadLen data.length) k.header.bssEndAddr ∧
      (k.bssLen = 0 ∨ k.header.loadEndAddr = k.header.loadAddr + k.loadLen data.length) := by
  obtain ⟨hbss, hstop, -⟩ := hfits
  obtain ⟨hload, hend, hbssEnd⟩ := h.words
  by_cases h0 : k.header.loadEndAddr = 0
  · rw [MbKernel.bssLen, hbss h0, if_neg (by omega)]
    omega
  have hlen : k.loadLen data.length = sub32 k.header.loadEndAddr k.header.loadAddr := if_pos h0
  have hle : k.header.loadAddr ≤ k.header.loadEndAddr := by
    by_contra hlt
    rw [hlen, sub32, u32_of_lt hload, u32_of_lt (by omega)] at hstop
    omega
  rw [hlen, sub32_of_le hle hend, MbKernel.bssLen]
  split_ifs with hgt
  · rw [sub32_of_le (by omega) hbssEnd]
    omega
  · omega

/-- The clearing touches nothing but the zeros of a header that fits. -/
theorem AoutFits.clearMem_apply (hfits : AoutFits data.length k) (h : AoutOpened data ok k) (mem : Mem) {a : ℕ}
    (ha : a < k.header.loadAddr + k.loadLen data.length ∨
      max (k.header.loadAddr + k.loadLen data.length) k.header.bssEndAddr ≤ a) :
    clearMem k.header.loadEndAddr k.bssLen mem a = mem a := by
  obtain ⟨htotal, hapart⟩ := hfits.bss_eq h
  rcases hapart with h0 | hend
  · rw [clearMem, h0, List.replicate_zero, patch_nil]
  · apply patch_apply_of_notMem
    rw [List.length_replicate]
    omega

/-- **A header that fits** is loaded right, where the read leaves the rest alone. -/
theorem AoutFits.loaded (hfits : AoutFits data.length k) (hspares : AoutSpares data.length k)
    (h : AoutOpened data ok k) (hs : AoutSucceeds k data.length) {b b' : Boot σ} (hram : k.state.boot.ram = b.ram)
    (hchunks : k.state.boot.chunks = b.chunks) (hram' : b'.ram = (loadAout k).2.boot.ram)
    (hchunks' : b'.chunks = (loadAout k).2.boot.chunks) : AoutLoaded data k b b' := by
  obtain ⟨hinside, hbytes, hframe⟩ := h.filled hs
  obtain ⟨hc, hr⟩ := hs.state h.toU32_len
  rw [hc] at hchunks'
  rw [hr] at hram'
  obtain ⟨htotal, hapart⟩ := hfits.bss_eq h
  have hmib := hs.fromMiB
  have hbound := h.words.2.2
  have hstop := hfits.stop
  have hclear : ∀ a, a < k.header.loadAddr + k.loadLen data.length ∨
      max (k.header.loadAddr + k.loadLen data.length) k.header.bssEndAddr ≤ a →
      b'.ram a = (aoutRead k data.length).2.mem a := fun a ha => by
    rw [hram', hfits.clearMem_apply h _ ha]
  have hframe' : ∀ a, a < k.header.loadAddr ∨
      max (k.header.loadAddr + k.loadLen data.length) k.header.bssEndAddr ≤ a → b'.ram a = b.ram a := by
    intro a ha
    rw [hclear a (by omega)]
    rcases ha with ha | ha
    · rw [hframe a (Or.inl ha), hram]
    · exact (hspares k.state.boot.ram a ha).trans (congrFun hram a)
  refine ⟨?_, fun a h₁ h₂ => ?_, hframe', u32 (k.loadLen data.length + k.bssLen), ?_, fun a ha => ?_⟩
  · rw [slice_congr fun i hi => hclear _ (by omega), hbytes]
    rcases hfits.offset with hlt | h0
    · rw [seekPos_of_lt hlt] at hinside ⊢
      rcases Nat.le_total k.fileOffset data.length with hle | hle
      · rw [min_eq_left hle]
      · rw [show k.loadLen data.length = 0 by omega, List.take_zero, List.take_zero]
    · rw [h0, List.take_zero, List.take_zero]
  · have hend : k.header.loadEndAddr = k.header.loadAddr + k.loadLen data.length := by omega
    rw [hram', clearMem, patch_apply_of_mem _ _ _ (by omega) (by rw [List.length_replicate]; omega),
      List.getElem_replicate]
  · have hgranted := hs.granted
    unfold aoutChunk chunkGetChunk at hgranted hchunks'
    unfold chunkGetChunk
    rw [hchunks] at hgranted hchunks'
    split_ifs at hgranted hchunks' ⊢
    · rw [hchunks']
    · exact absurd rfl hgranted
  · have hin : k.header.loadAddr ≤ a ∧
        a < max (k.header.loadAddr + k.loadLen data.length) k.header.bssEndAddr := by
      by_contra hout
      exact ha (hframe' a (by omega))
    rw [u32_of_lt (show a < 2 ^ 32 by omega),
      u32_of_lt (show k.loadLen data.length + k.bssLen < 2 ^ 32 by omega)]
    refine ⟨by omega, Set.mem_Ico.mpr ⟨hin.1, ?_⟩⟩
    show a < k.header.loadAddr + (k.loadLen data.length + k.bssLen)
    omega

/-- The bytes that are loaded do not depend on what memory holds: `v` is one of them. -/
theorem AoutFilled.getElem {mem : Mem} (h : AoutFilled data k mem) {i : ℕ}
    (hi : i < k.loadLen data.length) :
    some (mem (k.header.loadAddr + i)) = data[seekPos data.length k.fileOffset + i]? := by
  have hget := congrArg (·[i]?) h.bytes
  simp only [getElem?_slice, if_pos hi, List.getElem?_take, List.getElem?_drop] at hget
  exact hget

/-- **A load that is right** is that of a header that fits. -/
theorem AoutFits.of_loaded (h : AoutOpened data ok k) (hs : AoutSucceeds k data.length) {b : Boot σ}
    (hloaded : ∀ ram, ∃ b', b'.ram = (loadAout (k.withRam ram)).2.boot.ram ∧
      AoutLoaded data k { b with ram := ram } b') : AoutFits data.length k := by
  obtain ⟨hload, hend, hbssEnd⟩ := h.words
  have hmib := hs.fromMiB
  have hram : ∀ ram, ∃ b' mem, AoutFilled data (k.withRam ram) mem ∧
      b'.ram = clearMem k.header.loadEndAddr k.bssLen mem ∧
      AoutLoaded data k { b with ram := ram } b' := fun ram => by
    have h' : AoutOpened data ok (k.withRam ram) := ⟨h.reads, h.dev, h.len, h.words⟩
    have hs' := (h.succeeds_withRam ram).mpr hs
    obtain ⟨b', hb', hl⟩ := hloaded ram
    exact ⟨b', _, h'.filled hs', hb'.trans (hs'.state h'.toU32_len).2, hl⟩
  refine ⟨fun h0 => ?_, ?_, ?_⟩
  · -- the cells from address `0` on are cleared
    by_contra hne
    obtain ⟨b', mem, -, hb', hl⟩ := hram fun _ => 1
    have hlen : k.bssLen = k.header.bssEndAddr := by
      rw [MbKernel.bssLen, h0, if_pos (by omega), sub32_of_le (Nat.zero_le _) hbssEnd, Nat.sub_zero]
    have hzero : b'.ram 0 = 0 := by
      rw [hb', h0, hlen, clearMem, patch_apply_of_mem _ _ _ (le_refl _) (by
        rw [List.length_replicate]; omega), List.getElem_replicate]
    have hkept : b'.ram 0 = 1 := hl.frame 0 (Or.inl (by omega))
    rw [hzero] at hkept
    exact absurd hkept (by decide)
  · -- a byte lands behind the end of the address space
    by_contra hgt
    obtain ⟨i, hi⟩ : ∃ i, k.header.loadAddr + i = 2 ^ 32 := ⟨2 ^ 32 - k.header.loadAddr, by omega⟩
    have hi' : i < k.loadLen data.length := by omega
    have hbyte : ∃ v, data[seekPos data.length k.fileOffset + i]? = some v := by
      obtain ⟨-, mem, hfill, -⟩ := hram fun _ => 0
      exact ⟨_, (hfill.getElem hi').symm⟩
    obtain ⟨v, hv⟩ := hbyte
    obtain ⟨b', mem, hfill, hb', hl⟩ := hram fun _ => v + 1
    have hmem : b'.ram (2 ^ 32) = v := by
      have hget : some (mem (2 ^ 32)) = some v := by
        rw [← hi, ← hv]
        exact hfill.getElem hi'
      rw [hb', clearMem, patch_apply_of_notMem _ _ _ ?_]
      · exact Option.some.inj hget
      · rw [List.length_replicate, MbKernel.bssLen]
        split_ifs
        · rw [sub32_of_le (by omega) hbssEnd]
          omega
        · omega
    obtain ⟨n, -, hres⟩ := hl.reserved
    have hbad := (hres (2 ^ 32) (by rw [hmem]; simp)).1
    exact absurd hbad (by decide)
  · by_contra hboth
    obtain ⟨b', -, -, -, hl⟩ := hram fun _ => 0
    have hlength := congrArg List.length hl.bytes
    have hlt := h.reads.length_lt
    rw [length_slice, List.length_take, List.length_drop] at hlength
    omega

/-- Its read leaves the rest alone. -/
theorem AoutFits.spares (hfits : AoutFits data.length k) (h : AoutOpened data ok k)
    (hs : AoutSucceeds k data.length) {b : Boot σ}
    (hloaded : ∀ ram, ∃ b', b'.ram = (loadAout (k.withRam ram)).2.boot.ram ∧
      AoutLoaded data k { b with ram := ram } b') : AoutSpares data.length k := by
  intro ram a ha
  have h' : AoutOpened data ok (k.withRam ram) := ⟨h.reads, h.dev, h.len, h.words⟩
  have hfits' : AoutFits data.length (k.withRam ram) := ⟨hfits.bss, hfits.stop, hfits.offset⟩
  obtain ⟨b', hb', hl⟩ := hloaded ram
  have hkept := hl.frame a (Or.inr ha)
  rw [hb', (((h.succeeds_withRam ram).mpr hs).state h'.toU32_len).2,
    hfits'.clearMem_apply h' _ (Or.inr ha)] at hkept
  exact hkept

/-! ## The command -/

section Command

variable {env : BootEnv σ} {contents : List UInt8 → List UInt8} {args : List UInt8} {b b' : Boot σ}

theorem openMultiboot_withRam (h : openMultiboot env args b = .ok k) (ram : Mem) :
    openMultiboot env args { b with ram := ram } = .ok (k.withRam ram) := by
  unfold openMultiboot at h ⊢
  rcases hf : env.fopen (methodName 0x20 args) b.dev with ⟨_ | f, dev⟩
  · simp only [hf] at h
    exact nomatch h
  simp only [hf] at h ⊢
  have hread : freadNew f.fsRead (env.fresh dev) 8192 ⟨ram, dev, f.file⟩ =
      ((freadNew f.fsRead (env.fresh dev) 8192 ⟨b.ram, dev, f.file⟩).1,
        (freadNew f.fsRead (env.fresh dev) 8192 ⟨b.ram, dev, f.file⟩).2.1,
        { (freadNew f.fsRead (env.fresh dev) 8192 ⟨b.ram, dev, f.file⟩).2.2 with mem := ram }) := rfl
  rw [hread]
  split at h
  · exact nomatch h
  · rename_i headerOffset hfind
    obtain rfl := Except.ok.inj h
    rw [hfind]
    rfl

/-- What is known of a kernel that has been opened. -/
theorem openMultiboot_opened (hfiles : OpensFiles env contents ok ReadsFile) (hok : ok b.dev)
    (h : openMultiboot env args b = .ok k) :
    AoutOpened (contents (methodName 0x20 args)) ok k ∧ k.state.boot.ram = b.ram ∧
      k.state.boot.chunks = b.chunks := by
  unfold openMultiboot at h
  have hdev := hfiles.dev (methodName 0x20 args) b.dev hok
  rcases hf : env.fopen (methodName 0x20 args) b.dev with ⟨_ | f, dev⟩
  · simp only [hf] at h
    exact nomatch h
  obtain ⟨hreads, hlen, hpos⟩ := hfiles.file _ _ hok f (by rw [hf]; rfl)
  rw [hf] at hdev
  simp only [hf] at h
  have hback := hreads.fread_at ⟨env.fresh dev, dev, f.file⟩ hdev hlen hpos (Nat.zero_le _) 0
    (n := 8192) (by decide)
  split at h
  · exact nomatch h
  · obtain rfl := Except.ok.inj h
    exact ⟨⟨hreads, hback.dev, hback.len.trans hlen, le32_lt _ _, le32_lt _ _, le32_lt _ _⟩, rfl, rfl⟩

theorem methodMultiboot_aout (h : openMultiboot env args b = .ok k)
    (hflag : k.header.flags &&& 1 <<< 16 ≠ 0) :
    methodMultiboot env args b = some (0, b') ↔
      (loadAout k).1 = 0 ∧ b' = (finishMultiboot env args k (loadAout k).2).2 := by
  have heq : methodMultiboot env args b = if (loadAout k).1 ≠ 0 then
      some ((loadAout k).1, (loadAout k).2.boot)
    else some (finishMultiboot env args k (loadAout k).2) := by
    unfold methodMultiboot
    simp only [h, if_pos hflag]
  rw [heq]
  split_ifs with h0
  · exact iff_of_false (fun h => h0 (Prod.mk.inj (Option.some.inj h)).1) fun h => h0 h.1
  · rw [Option.some.injEq, Prod.ext_iff, and_iff_right (not_not.mp h0)]
    exact ⟨fun h => h.2.symm, fun h => ⟨rfl, h.symm⟩⟩

end Command

/-- A kernel of 32 bytes, its header: `load_end_addr` is zero, and `bss_end_addr` is `0x101000`. -/
def bssImage : List UInt8 :=
  [multibootHeaderMagic, 1 <<< 16, 2 ^ 32 - 1 <<< 16 - multibootHeaderMagic, 0x100000, 0x100000, 0,
    0x101000, 0x100000].flatMap (toBytes 4)

/-- A megabyte is free from 1 MiB on, and every cell holds `1`. -/
def aoutBoot : Boot Unit := Boot.init (fun _ => 1) () ⟨[⟨0x100000, 0x200000⟩], [], 0x300000⟩

/-- What is read off a kernel that has been opened. -/
def openedHeader (r : Except (ℤ × Boot σ) (MbKernel σ)) : Option (ℕ × ℕ) :=
  match r with
  | .error _ => none
  | .ok k => some (k.header.flags, k.header.loadAddr)

/-- Cell `0` is cleared, far from where the kernel is loaded. -/
theorem aout_load_broken :
    ∃ k b', openMultiboot (filesEnv fun _ => some bssImage) [] aoutBoot = .ok k ∧
      k.header.flags &&& 1 <<< 16 ≠ 0 ∧
      methodMultiboot (filesEnv fun _ => some bssImage) [] aoutBoot = some (0, b') ∧
      ¬ AoutLoaded bssImage k aoutBoot b' := by
  have hopen : openedHeader (openMultiboot (filesEnv fun _ => some bssImage) [] aoutBoot) =
      some (1 <<< 16, 0x100000) := by decide +kernel
  have hrun : (methodMultiboot (filesEnv fun _ => some bssImage) [] aoutBoot).map
      (fun r => (r.1, r.2.ram 0)) = some (0, 0) := by decide +kernel
  obtain ⟨⟨ret, b'⟩, hret, hb'⟩ := Option.map_eq_some_iff.mp hrun
  obtain ⟨rfl, hzero⟩ := Prod.mk.inj hb'
  cases hk : openMultiboot (filesEnv fun _ => some bssImage) [] aoutBoot with
  | error r =>
    rw [hk] at hopen
    exact nomatch hopen
  | ok k =>
    rw [hk] at hopen
    obtain ⟨hflags, hload⟩ := Prod.mk.inj (Option.some.inj hopen)
    refine ⟨k, b', rfl, by rw [hflags]; decide, hret, fun hl => ?_⟩
    have hkept : b'.ram 0 = 1 := hl.frame 0 (Or.inl (by rw [hload]; decide))
    rw [hzero] at hkept
    exact absurd hkept (by decide)

/-- **The load of an a.out kernel.** Of every file with a header whose flag bit 16 is set, and for
which the command returns `0`: whatever memory holds before, the load leaves what it is to, just when
the header fits and the read leaves alone what lies behind the kernel. -/
theorem aout_load_iff {env : BootEnv σ} {contents : List UInt8 → List UInt8} {args : List UInt8}
    {b b' : Boot σ} (hfiles : OpensFiles env contents ok ReadsFile) (hok : ok b.dev)
    (hk : openMultiboot env args b = .ok k) (hflag : k.header.flags &&& 1 <<< 16 ≠ 0)
    (hret : methodMultiboot env args b = some (0, b')) :
    (∀ ram t, methodMultiboot env args { b with ram := ram } = some (0, t) →
        AoutLoaded (contents (methodName 0x20 args)) k { b with ram := ram } t) ↔
      AoutFits (contents (methodName 0x20 args)).length k ∧
        AoutSpares (contents (methodName 0x20 args)).length k := by
  obtain ⟨h, -, hchunks⟩ := openMultiboot_opened hfiles hok hk
  have hs := (loadAout_eq_zero h.toU32_len).mp ((methodMultiboot_aout hk hflag).mp hret).1
  have h' : ∀ ram, AoutOpened (contents (methodName 0x20 args)) ok (k.withRam ram) :=
    fun ram => ⟨h.reads, h.dev, h.len, h.words⟩
  have hs' := fun ram => (h.succeeds_withRam ram).mpr hs
  have hrun : ∀ ram t, methodMultiboot env args { b with ram := ram } = some (0, t) ↔
      (loadAout (k.withRam ram)).1 = 0 ∧
        t = (finishMultiboot env args (k.withRam ram) (loadAout (k.withRam ram)).2).2 :=
    fun ram t => methodMultiboot_aout (openMultiboot_withRam hk ram) hflag
  constructor
  · intro hloaded
    have hleft : ∀ ram, ∃ t : Boot σ, t.ram = (loadAout (k.withRam ram)).2.boot.ram ∧
        AoutLoaded (contents (methodName 0x20 args)) k { b with ram := ram } t := fun ram => by
      refine ⟨_, ?_, hloaded ram _ ((hrun ram _).mpr ⟨?_, rfl⟩)⟩
      · rfl
      · exact (loadAout_eq_zero (h' ram).toU32_len).mpr (hs' ram)
    have hfits := AoutFits.of_loaded h hs hleft
    exact ⟨hfits, hfits.spares h hs hleft⟩
  · rintro ⟨hfits, hspares⟩ ram t ht
    obtain ⟨-, rfl⟩ := (hrun ram t).mp ht
    have hfits' : AoutFits (contents (methodName 0x20 args)).length (k.withRam ram) :=
      ⟨hfits.bss, hfits.stop, hfits.offset⟩
    have hspares' : AoutSpares (contents (methodName 0x20 args)).length (k.withRam ram) := hspares
    obtain ⟨hbytes, hbss, hframe, hreserved⟩ : AoutLoaded (contents (methodName 0x20 args))
        (k.withRam ram) { b with ram := ram }
        (finishMultiboot env args (k.withRam ram) (loadAout (k.withRam ram)).2).2 :=
      hfits'.loaded hspares' (h' ram) (hs' ram) rfl hchunks rfl rfl
    exact ⟨hbytes, hbss, hframe, hreserved⟩

/-- A kernel whose header fits. -/
theorem aout_load_iff_aoutImage :
    ∃ k b', openMultiboot (filesEnv fun _ => some aoutImage) [] aoutBoot = .ok k ∧
      methodMultiboot (filesEnv fun _ => some aoutImage) [] aoutBoot = some (0, b') ∧
      ((∀ ram t, methodMultiboot (filesEnv fun _ => some aoutImage) [] { aoutBoot with ram := ram } =
          some (0, t) → AoutLoaded aoutImage k { aoutBoot with ram := ram } t) ↔
        AoutFits aoutImage.length k ∧ AoutSpares aoutImage.length k) := by
  have hopen : openedHeader (openMultiboot (filesEnv fun _ => some aoutImage) [] aoutBoot) =
      some (1 <<< 16, 0x100000) := by decide +kernel
  have hrun : (methodMultiboot (filesEnv fun _ => some aoutImage) [] aoutBoot).map (fun r => r.1) =
      some 0 := by decide +kernel
  obtain ⟨⟨ret, b'⟩, hret, rfl⟩ := Option.map_eq_some_iff.mp hrun
  cases hk : openMultiboot (filesEnv fun _ => some aoutImage) [] aoutBoot with
  | error r =>
    rw [hk] at hopen
    exact nomatch hopen
  | ok k =>
    rw [hk] at hopen
    obtain ⟨hflags, -⟩ := Prod.mk.inj (Option.some.inj hopen)
    have hfiles := filesEnv_opensFiles (fun _ => some aoutImage) fun path image h => by
      obtain rfl := Option.some.inj h
      decide
    exact ⟨k, b', rfl, hret, aout_load_iff hfiles.readsFile trivial hk (by rw [hflags]; decide) hret⟩

end RpiBoot
