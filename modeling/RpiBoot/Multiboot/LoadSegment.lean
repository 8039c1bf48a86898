import RpiBoot.Multiboot.Contents

/-!
# What the load of a segment leaves in memory

`p_filesz` may exceed `p_memsz`, and then the rest to be cleared wraps; an offset of `2 ^ 31` or more is
negative for `fseek`, which goes to the start of the file.

* `SegmentHeld`: what `elf32_load_segment` is to do. `SegmentFits`, `SegmentSpares`: the headers and the
  reads for which it does.
* `ImageLoaded`: what is known of the file image. `elf32LoadSegment_mem`: the whole load.
* **`segment_held_iff`**: a header that fits and a read that leaves the rest alone are enough, and where no
  read fails nothing else is.
-/

namespace RpiBoot

open Store Bytes

variable {σ : Type}

/-- The fields of a program header are 32-bit words. -/
structure Phdr.Words (phdr : Phdr) : Prop where
  offset : phdr.pOffset < 2 ^ 32
  paddr : phdr.pPaddr < 2 ^ 32
  filesz : phdr.pFilesz < 2 ^ 32
  memsz : phdr.pMemsz < 2 ^ 32

theorem phdrAt_words (mem : Mem) (a : ℕ) : (phdrAt mem a).Words :=
  ⟨le32_lt _ _, le32_lt _ _, le32_lt _ _, le32_lt _ _⟩

/-- What `elf32_load_segment` is to do: no memory outside the range of the segment changes, and with
`ELF_OK` the range holds the bytes of the file, followed by zeros. -/
structure SegmentHeld (data : List UInt8) (phdr : Phdr) (io : FileIo σ) (r : ℤ × FileIo σ) : Prop where
  -- an address behind the end of the address space is one at its start
  frame : ∀ a, r.2.mem a ≠ io.mem a →
    phdr.pPaddr ≤ u32 a ∧ u32 a < phdr.pPaddr + phdr.pMemsz
  inside : r.1 = elfOk → ((data.drop phdr.pOffset).take phdr.pFilesz).length = phdr.pFilesz
  held : r.1 = elfOk → slice r.2.mem phdr.pPaddr phdr.pMemsz =
    (data.drop phdr.pOffset).take phdr.pFilesz ++ List.replicate (phdr.pMemsz - phdr.pFilesz) 0

/-- The number of bytes of the segment that a file of `fileLen` bytes has, from where the seek leads. -/
def Phdr.copied (fileLen : ℕ) (phdr : Phdr) : ℕ :=
  min phdr.pFilesz (fileLen - seekPos fileLen phdr.pOffset)

/-- The headers that are loaded right from a file of `fileLen` bytes. -/
structure SegmentFits (fileLen : ℕ) (phdr : Phdr) : Prop where
  copied : phdr.copied fileLen ≤ phdr.pMemsz
  stop : phdr.pPaddr + (if phdr.copied fileLen = phdr.pFilesz then phdr.pMemsz
    else phdr.copied fileLen) ≤ 2 ^ 32
  offset : phdr.copied fileLen = phdr.pFilesz → phdr.pFilesz = 0 ∨ phdr.pOffset < 2 ^ 31

/-- The read of the image, if there is one, leaves alone what lies behind the segment, or behind the end of
the address space. -/
def SegmentSpares (fsRead : FsTransfer σ) (phdr : Phdr) (io : FileIo σ) : Prop :=
  phdr.pFilesz ≠ 0 → Keeps fsRead phdr.pPaddr phdr.pFilesz (io.seek phdr.pOffset)
    (Set.Ici (min (phdr.pPaddr + phdr.pMemsz) (2 ^ 32)))

variable {fsRead : FsTransfer σ} {data : List UInt8} {ok : σ → Prop} {io : FileIo σ} {phdr : Phdr}

/-! ## The file image -/

/-- What is known of `loadImage`. -/
structure ImageLoaded (data : List UInt8) (phdr : Phdr) (io : FileIo σ) (r : ℤ × FileIo σ) : Prop where
  copied : r.1 = elfOk → phdr.copied data.length = phdr.pFilesz
  frame : ∀ a, a < phdr.pPaddr ∨ phdr.pPaddr + phdr.copied data.length + 16 ≤ a → r.2.mem a = io.mem a
  bytes : r.1 = elfOk → slice r.2.mem phdr.pPaddr phdr.pFilesz =
    (data.drop (seekPos data.length phdr.pOffset)).take phdr.pFilesz

theorem ReadsFile.imageLoaded (hf : ReadsFile fsRead data ok) (io : FileIo σ) (hok : ok io.dev)
    (hlen : io.file.len = data.length) (hphdr : phdr.Words) :
    ImageLoaded data phdr io (loadImage fsRead phdr io) := by
  unfold loadImage
  split_ifs with h0
  · have hcopied : phdr.copied data.length = 0 := by rw [Phdr.copied, h0, Nat.zero_min]
    exact ⟨fun _ => hcopied.trans h0.symm, fun _ _ => rfl, fun _ => by rw [h0]; rfl⟩
  obtain ⟨hcount, -, -, hframe, hbytes⟩ := hf.fread_seek io hok hlen phdr.pPaddr hphdr.filesz phdr.pOffset
  refine ⟨fun hret => ?_, hframe, fun hret => ?_⟩
  · simp only at hret
    split_ifs at hret with hall
    · exact absurd hret (by decide)
    · unfold Phdr.copied
      omega
  · simp only at hret
    split_ifs at hret with hall
    · exact absurd hret (by decide)
    · have hmin : min phdr.pFilesz (data.length - seekPos data.length phdr.pOffset) = phdr.pFilesz := by
        omega
      rw [hmin] at hbytes
      exact hbytes (not_not.mp hall)

/-- What the read of the image leaves alone. -/
theorem loadImage_kept (mem : Mem) (hspares : SegmentSpares fsRead phdr io) {a : ℕ}
    (ha : min (phdr.pPaddr + phdr.pMemsz) (2 ^ 32) ≤ a) :
    (loadImage fsRead phdr { io with mem := mem }).2.mem a = mem a := by
  unfold loadImage
  split_ifs with h0
  · rfl
  · exact hspares h0 mem a ha

/-- Where no read fails, the bytes that the file has are copied. -/
theorem ReadsInFull.imageLoaded (hf : ReadsInFull fsRead data ok) (io : FileIo σ) (hok : ok io.dev)
    (hlen : io.file.len = data.length) (hphdr : phdr.Words) :
    (phdr.copied data.length = phdr.pFilesz → (loadImage fsRead phdr io).1 = elfOk) ∧
      slice (loadImage fsRead phdr io).2.mem phdr.pPaddr (phdr.copied data.length) =
        (data.drop (seekPos data.length phdr.pOffset)).take (phdr.copied data.length) := by
  unfold loadImage
  split_ifs with h0
  · have hcopied : phdr.copied data.length = 0 := by rw [Phdr.copied, h0, Nat.zero_min]
    exact ⟨fun _ => rfl, by rw [hcopied]; rfl⟩
  have hcount := hf.count_seek io hok hlen phdr.pPaddr hphdr.filesz phdr.pOffset
  have hback := hf.toReadsFile.fread_seek io hok hlen phdr.pPaddr hphdr.filesz phdr.pOffset
  refine ⟨fun hall => ?_, hback.bytes hcount⟩
  unfold Phdr.copied at hall
  simp only
  rw [hcount, if_neg (not_not.mpr hall)]

/-- The whole load. -/
theorem elf32LoadSegment_mem (fsRead : FsTransfer σ) (phdr : Phdr) (io : FileIo σ) :
    (elf32LoadSegment fsRead phdr io).1 = (loadImage fsRead phdr io).1 ∧
      (elf32LoadSegment fsRead phdr io).2.mem = if (loadImage fsRead phdr io).1 = elfOk then
          clearMem (u32 (phdr.pPaddr + phdr.pFilesz)) (sub32 phdr.pMemsz phdr.pFilesz)
            (loadImage fsRead phdr io).2.mem
        else (loadImage fsRead phdr io).2.mem := by
  unfold elf32LoadSegment
  by_cases hret : (loadImage fsRead phdr io).1 = elfOk
  · simp only [hret, ne_eq, not_true_eq_false, if_false, if_true, and_self]
  · simp only [hret, ne_eq, not_false_eq_true, if_false, if_true, and_self]

/-! ## When it is right -/

theorem SegmentFits.seekPos_eq (hfits : SegmentFits data.length phdr)
    (hcopied : phdr.copied data.length = phdr.pFilesz) :
    phdr.pFilesz = 0 ∨ seekPos data.length phdr.pOffset = phdr.pOffset ∧
      phdr.pOffset + phdr.pFilesz ≤ data.length := by
  rcases hfits.offset hcopied with h0 | hlt
  · exact Or.inl h0
  · rw [Phdr.copied, seekPos_of_lt hlt] at hcopied
    rw [seekPos_of_lt hlt]
    omega

/-- The zeros of a header that fits. -/
theorem SegmentFits.clearMem_eq (hfits : SegmentFits data.length phdr) (hphdr : phdr.Words)
    (hcopied : phdr.copied data.length = phdr.pFilesz) (mem : Mem) :
    clearMem (u32 (phdr.pPaddr + phdr.pFilesz)) (sub32 phdr.pMemsz phdr.pFilesz) mem =
      patch mem (phdr.pPaddr + phdr.pFilesz) (List.replicate (phdr.pMemsz - phdr.pFilesz) 0) := by
  have hle := hcopied ▸ hfits.copied
  have hstop := hfits.stop
  rw [if_pos hcopied] at hstop
  rw [sub32_of_le hle hphdr.memsz, clearMem]
  rcases Nat.eq_or_lt_of_le hle with heq | hlt
  · rw [heq, Nat.sub_self, List.replicate_zero, patch_nil, patch_nil]
  · rw [u32_of_lt (by omega)]

/-- **A header that fits** is loaded right, where the read leaves the rest alone. -/
theorem SegmentFits.held (hfits : SegmentFits data.length phdr) (hf : ReadsFile fsRead data ok)
    (io : FileIo σ) (hok : ok io.dev) (hlen : io.file.len = data.length) (hphdr : phdr.Words)
    (hspares : SegmentSpares fsRead phdr io) :
    SegmentHeld data phdr io (elf32LoadSegment fsRead phdr io) := by
  obtain ⟨hcopied, hframe, hbytes⟩ := hf.imageLoaded io hok hlen hphdr
  obtain ⟨hret, hmem⟩ := elf32LoadSegment_mem fsRead phdr io
  have hkept : ∀ a, a < phdr.pPaddr ∨ min (phdr.pPaddr + phdr.pMemsz) (2 ^ 32) ≤ a →
      (loadImage fsRead phdr io).2.mem a = io.mem a := fun a ha => by
    rcases ha with ha | ha
    · exact hframe a (Or.inl ha)
    · exact loadImage_kept io.mem hspares ha
  have hle := hfits.copied
  have hstop := hfits.stop
  rw [← hret] at hcopied hbytes hmem
  by_cases hend : (elf32LoadSegment fsRead phdr io).1 = elfOk
  · rw [if_pos hend, hfits.clearMem_eq hphdr (hcopied hend)] at hmem
    rw [if_pos (hcopied hend)] at hstop
    rw [hcopied hend] at hle
    refine ⟨fun a ha => ?_, fun _ => ?_, fun _ => ?_⟩
    · have hin : phdr.pPaddr ≤ a ∧ a < phdr.pPaddr + phdr.pMemsz := by
        by_contra hout
        apply ha
        rw [hmem, patch_apply_of_notMem _ _ _ (by rw [List.length_replicate]; omega), hkept a (by omega)]
      rwa [u32_of_lt (by omega)]
    · rcases hfits.seekPos_eq (hcopied hend) with h0 | ⟨-, hinside⟩
      · rw [h0, List.take_zero, List.length_nil]
      · rw [List.length_take, List.length_drop]
        omega
    · have hsplit : phdr.pMemsz = phdr.pFilesz + (phdr.pMemsz - phdr.pFilesz) := by omega
      have hzeros := slice_patch (loadImage fsRead phdr io).2.mem (phdr.pPaddr + phdr.pFilesz)
        (List.replicate (phdr.pMemsz - phdr.pFilesz) 0)
      rw [List.length_replicate] at hzeros
      rw [hmem, hsplit, slice_add, ← hsplit, hzeros, slice_patch_of_disjoint (by omega), hbytes hend]
      rcases hfits.seekPos_eq (hcopied hend) with h0 | ⟨hpos, -⟩
      · rw [h0, List.take_zero, List.take_zero]
      · rw [hpos]
  · rw [if_neg hend] at hmem
    refine ⟨fun a ha => ?_, fun h => absurd h hend, fun h => absurd h hend⟩
    have hin : phdr.pPaddr ≤ a ∧ a < min (phdr.pPaddr + phdr.pMemsz) (2 ^ 32) := by
      by_contra hout
      apply ha
      rw [hmem, hkept a (by omega)]
    rw [u32_of_lt (by omega)]
    omega

/-! ## When it is not -/

/-- An address that gets the same byte whatever memory holds is in the range. -/
theorem inside_of_written {r : Mem → ℤ × FileIo σ}
    (hheld : ∀ mem, SegmentHeld data phdr { io with mem := mem } (r mem)) {a : ℕ} {v : UInt8}
    (hv : ∀ mem, (r mem).2.mem a = v) : phdr.pPaddr ≤ u32 a ∧ u32 a < phdr.pPaddr + phdr.pMemsz := by
  refine (hheld fun _ => v + 1).frame a ?_
  rw [hv]
  simp

section Full

variable (hf : ReadsInFull fsRead data ok) (hok : ok io.dev) (hlen : io.file.len = data.length)
  (hphdr : phdr.Words)

include hf hok hlen hphdr

theorem loadImage_ok_iff (mem : Mem) :
    (loadImage fsRead phdr { io with mem := mem }).1 = elfOk ↔
      phdr.copied data.length = phdr.pFilesz :=
  ⟨(hf.toReadsFile.imageLoaded { io with mem := mem } hok hlen hphdr).copied,
    (hf.imageLoaded { io with mem := mem } hok hlen hphdr).1⟩

/-- The bytes that are copied. -/
theorem copied_image {a : ℕ} (h₁ : phdr.pPaddr ≤ a) (h₂ : a < phdr.pPaddr + phdr.copied data.length) :
    ∃ v, ∀ mem, (elf32LoadSegment fsRead phdr { io with mem := mem }).2.mem a = v := by
  obtain ⟨i, rfl⟩ : ∃ i, a = phdr.pPaddr + i := ⟨a - phdr.pPaddr, by omega⟩
  have hbyte : ∀ mem, some ((loadImage fsRead phdr { io with mem := mem }).2.mem (phdr.pPaddr + i)) =
      data[seekPos data.length phdr.pOffset + i]? := fun mem => by
    have hget := congrArg (·[i]?) (hf.imageLoaded { io with mem := mem } hok hlen hphdr).2
    simp only [getElem?_slice, List.getElem?_take, List.getElem?_drop] at hget
    rwa [if_pos (by omega), if_pos (by omega)] at hget
  obtain ⟨w, hw⟩ : ∃ w, ∀ mem,
      (loadImage fsRead phdr { io with mem := mem }).2.mem (phdr.pPaddr + i) = w :=
    ⟨_, fun mem => Option.some.inj ((hbyte mem).trans (hbyte fun _ => 0).symm)⟩
  by_cases hc : phdr.copied data.length = phdr.pFilesz
  · refine ⟨patch (fun _ => w) (u32 (phdr.pPaddr + phdr.pFilesz))
      (List.replicate (sub32 phdr.pMemsz phdr.pFilesz) 0) (phdr.pPaddr + i), fun mem => ?_⟩
    rw [(elf32LoadSegment_mem _ _ _).2, if_pos ((loadImage_ok_iff hf hok hlen hphdr mem).mpr hc), clearMem,
      patch_apply, patch_apply, hw]
  · refine ⟨w, fun mem => ?_⟩
    rw [(elf32LoadSegment_mem _ _ _).2, if_neg fun h => hc ((loadImage_ok_iff hf hok hlen hphdr mem).mp h),
      hw]

/-- The bytes that are cleared. -/
theorem cleared_zero (hc : phdr.copied data.length = phdr.pFilesz) {a : ℕ}
    (h₁ : u32 (phdr.pPaddr + phdr.pFilesz) ≤ a)
    (h₂ : a < u32 (phdr.pPaddr + phdr.pFilesz) + sub32 phdr.pMemsz phdr.pFilesz) (mem : Mem) :
    (elf32LoadSegment fsRead phdr { io with mem := mem }).2.mem a = 0 := by
  rw [(elf32LoadSegment_mem _ _ _).2, if_pos ((loadImage_ok_iff hf hok hlen hphdr mem).mpr hc), clearMem,
    patch_apply_of_mem _ _ _ h₁ (by rw [List.length_replicate]; omega), List.getElem_replicate]

/-- **A header that is loaded right** fits. -/
theorem SegmentFits.of_held (hheld : ∀ mem, SegmentHeld data phdr { io with mem := mem }
    (elf32LoadSegment fsRead phdr { io with mem := mem })) : SegmentFits data.length phdr := by
  have hpaddr := hphdr.paddr
  have hfilesz := hphdr.filesz
  have hmemsz := hphdr.memsz
  have hcopied : phdr.copied data.length ≤ phdr.pMemsz := by
    by_contra hgt
    obtain ⟨v, hv⟩ := copied_image hf hok hlen hphdr (a := phdr.pPaddr + phdr.pMemsz) (by omega) (by omega)
    have hin := inside_of_written hheld hv
    unfold u32 at hin
    omega
  have hle : phdr.copied data.length ≤ phdr.pFilesz := Nat.min_le_left _ _
  refine ⟨hcopied, ?_, fun hc => ?_⟩
  · -- otherwise address `0` is written
    by_contra hgt
    by_cases himage : 2 ^ 32 < phdr.pPaddr + phdr.copied data.length
    · obtain ⟨v, hv⟩ := copied_image hf hok hlen hphdr (a := 2 ^ 32) (by omega) himage
      have hin : phdr.pPaddr ≤ 0 := (inside_of_written hheld hv).1
      omega
    · have hc : phdr.copied data.length = phdr.pFilesz := by
        by_contra hc
        rw [if_neg hc] at hgt
        exact himage (not_le.mp hgt)
      rw [if_pos hc] at hgt
      have hrest : sub32 phdr.pMemsz phdr.pFilesz = phdr.pMemsz - phdr.pFilesz :=
        sub32_of_le (hc ▸ hcopied) hmemsz
      obtain ⟨a, ha, hzero⟩ : ∃ a, a = u32 (phdr.pPaddr + phdr.pFilesz) +
          (2 ^ 32 - (phdr.pPaddr + phdr.pFilesz)) ∧ u32 a = 0 := by
        refine ⟨_, rfl, ?_⟩
        unfold u32
        omega
      have hin := (inside_of_written hheld (cleared_zero hf hok hlen hphdr hc (a := a) (by omega)
        (by omega))).1
      omega
  · by_contra hboth
    have hlt := hf.length_lt
    have hret := (loadImage_ok_iff hf hok hlen hphdr fun _ => 0).mpr hc
    have hinside := (hheld fun _ => 0).inside ((elf32LoadSegment_mem _ _ _).1.trans hret)
    rw [List.length_take, List.length_drop] at hinside
    omega

/-- Its read leaves the rest alone. -/
theorem SegmentFits.spares (hfits : SegmentFits data.length phdr)
    (hheld : ∀ mem, SegmentHeld data phdr { io with mem := mem }
      (elf32LoadSegment fsRead phdr { io with mem := mem })) : SegmentSpares fsRead phdr io := by
  intro h0 mem a (ha : min (phdr.pPaddr + phdr.pMemsz) (2 ^ 32) ≤ a)
  by_contra hne
  have himage : (loadImage fsRead phdr { io with mem := mem }).2.mem a ≠ mem a := by
    unfold loadImage
    rw [if_neg h0]
    exact hne
  have hcopied := hfits.copied
  have hlt := hf.length_lt
  have hfile : phdr.copied data.length ≤ data.length := (Nat.min_le_right _ _).trans (Nat.sub_le _ _)
  -- the byte lies in the 16 behind the image
  have hnear : phdr.pPaddr ≤ a ∧ a < phdr.pPaddr + phdr.copied data.length + 16 := by
    by_contra hout
    exact himage ((hf.toReadsFile.imageLoaded { io with mem := mem } hok hlen hphdr).frame a (by omega))
  have hload : (elf32LoadSegment fsRead phdr { io with mem := mem }).2.mem a =
      (loadImage fsRead phdr { io with mem := mem }).2.mem a := by
    rw [(elf32LoadSegment_mem _ _ _).2]
    split_ifs with hret
    · have hc := (loadImage_ok_iff hf hok hlen hphdr mem).mp hret
      have hstop := hfits.stop
      rw [if_pos hc] at hstop
      rw [hfits.clearMem_eq hphdr hc]
      exact patch_apply_of_notMem _ _ _ (by rw [List.length_replicate]; omega)
    · rfl
  have hin := (hheld mem).frame a (by rw [hload]; exact himage)
  rcases Nat.lt_or_ge a (2 ^ 32) with hsmall | hlarge
  · rw [u32_of_lt hsmall] at hin
    omega
  · unfold u32 at hin
    omega

end Full

/-- A segment with two bytes in the file and one in memory: the second byte lies behind its range. -/
theorem segment_held_broken :
    ¬ SegmentHeld elfImage ⟨ptLoad, 0, 0x8000, 0x8000, 2, 1⟩
      ⟨fun _ => 0, (), ⟨0, vfsModeR, elfImage.length, 0⟩⟩
      (elf32LoadSegment (imageRead elfImage) ⟨ptLoad, 0, 0x8000, 0x8000, 2, 1⟩
        ⟨fun _ => 0, (), ⟨0, vfsModeR, elfImage.length, 0⟩⟩) := by
  intro h
  exact absurd (h.frame 0x8001 (by decide +kernel)) (by decide)

/-- **The load of a segment**, of every file and every program header. A header that fits is loaded right,
also where reads fail, if the read leaves alone what lies behind the segment. Where no read fails, every
other header and read is not: some memory is changed that is not to be, or left as it should not be. -/
theorem segment_held_iff (hf : ReadsFile fsRead data ok) (io : FileIo σ) (hok : ok io.dev)
    (hlen : io.file.len = data.length) (phdr : Phdr) (hphdr : phdr.Words) :
    (SegmentFits data.length phdr ∧ SegmentSpares fsRead phdr io →
        SegmentHeld data phdr io (elf32LoadSegment fsRead phdr io)) ∧
      (ReadsInFull fsRead data ok → ((∀ mem, SegmentHeld data phdr { io with mem := mem }
          (elf32LoadSegment fsRead phdr { io with mem := mem })) ↔
        SegmentFits data.length phdr ∧ SegmentSpares fsRead phdr io)) := by
  refine ⟨fun ⟨hfits, hspares⟩ => hfits.held hf io hok hlen hphdr hspares, fun hfull => ⟨fun hheld => ?_,
    fun ⟨hfits, hspares⟩ mem => hfits.held hf { io with mem := mem } hok hlen hphdr hspares⟩⟩
  have hfits := SegmentFits.of_held hfull hok hlen hphdr hheld
  exact ⟨hfits, SegmentFits.spares hfull hok hlen hphdr hfits hheld⟩

/-- A segment with two bytes in the file and four in memory. -/
theorem segment_held_iff_elfImage :
    (SegmentFits elfImage.length ⟨ptLoad, 0, 0x8000, 0x8000, 2, 4⟩ ∧
        SegmentSpares (imageRead elfImage) ⟨ptLoad, 0, 0x8000, 0x8000, 2, 4⟩
          ⟨fun _ => 0, (), ⟨0, vfsModeR, elfImage.length, 0⟩⟩ →
      SegmentHeld elfImage ⟨ptLoad, 0, 0x8000, 0x8000, 2, 4⟩
        ⟨fun _ => 0, (), ⟨0, vfsModeR, elfImage.length, 0⟩⟩
        (elf32LoadSegment (imageRead elfImage) ⟨ptLoad, 0, 0x8000, 0x8000, 2, 4⟩
          ⟨fun _ => 0, (), ⟨0, vfsModeR, elfImage.length, 0⟩⟩)) ∧
    ((∀ mem, SegmentHeld elfImage ⟨ptLoad, 0, 0x8000, 0x8000, 2, 4⟩
        ⟨mem, (), ⟨0, vfsModeR, elfImage.length, 0⟩⟩
        (elf32LoadSegment (imageRead elfImage) ⟨ptLoad, 0, 0x8000, 0x8000, 2, 4⟩
          ⟨mem, (), ⟨0, vfsModeR, elfImage.length, 0⟩⟩)) ↔
      SegmentFits elfImage.length ⟨ptLoad, 0, 0x8000, 0x8000, 2, 4⟩ ∧
        SegmentSpares (imageRead elfImage) ⟨ptLoad, 0, 0x8000, 0x8000, 2, 4⟩
          ⟨fun _ => 0, (), ⟨0, vfsModeR, elfImage.length, 0⟩⟩) := by
  have hf := imageRead_readsInFull elfImage (by decide +kernel)
  have h := segment_held_iff hf.toReadsFile ⟨fun _ => 0, (), ⟨0, vfsModeR, elfImage.length, 0⟩⟩ trivial
    rfl ⟨ptLoad, 0, 0x8000, 0x8000, 2, 4⟩ ⟨by simp, by simp, by simp, by simp⟩
  exact ⟨h.1, h.2 hf⟩

end RpiBoot
