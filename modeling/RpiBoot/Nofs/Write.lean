import RpiBoot.Libfs.WriteFull
import RpiBoot.Nofs.Persistence

/-!
# Writing to a nofs file

Byte `i` of the file is byte `i` of the device, so a write patches the device at the position.

* `Room`: the device has the blocks up to a position, as far as nofs accepts them.
* `nofsTail`: what a last round with nothing to transfer puts behind the range.
* **`nofs_fsFwrite`**: what `fs_fwrite` makes of the device and of the file.
* `NofsWrites`, **`nofsFwrite_spec`**: the same for `nofs_fwrite`, in the file and at its end.
* `putBytes`, **`nofsFwrite_put`**: the bytes that a call puts on the device, with the end-of-file mark.
* `InNofs`: places in the file, which a seek does not leave.
-/

namespace RpiBoot

open Store

variable {σ : Type}

/-- The blocks of the device below position `stop`, and that of `stop`, which nofs accepts. -/
def nofsMap (bs stop idx : ℕ) : Option ℕ := if idx ≤ stop / bs ∧ idx < bs then some idx else none

/-- The lookups of these blocks. -/
def nofsMapNext (bs stop : ℕ) : GetNext σ Unit := fun idx _ opq io =>
  ((nofsMap bs stop idx).getD noBlock, opq, io)

/-- The device has room for a file with `stop` bytes. -/
structure Room (dev : BlockDevice σ) (good : ℕ → Prop) (stop : ℕ) : Prop where
  good_block : ∀ idx ≤ stop / dev.blockSize, idx < dev.blockSize → good idx
  fits : stop ≤ dev.blockSize * dev.blockSize
  lt : stop < 2 ^ 31

/-- What the last round of a write of `n` bytes at `pos` puts behind them. -/
def nofsTail (dev : BlockDevice σ) (temp : ℕ → ℕ) (c mem : Mem) (ptr pos n : ℕ) : List UInt8 :=
  tailBytes (nofsInit dev) (nofsMap dev.blockSize (pos + n)) temp c mem ptr pos n

/-- What a call of `nofs_fwrite` with `n` bytes at `pos` puts on the device from there on: the bytes of the
caller, and behind them, where the file of `len` bytes grows, the end-of-file mark. -/
def putBytes (dev : BlockDevice σ) (mark : ℕ) (temp tempMark : ℕ → ℕ) (c mem : Mem) (ptr pos n len : ℕ) :
    List UInt8 :=
  let tail := nofsTail dev temp c mem ptr pos n
  let tailMark := nofsTail dev tempMark c mem mark (pos + n) 9
  slice mem ptr n ++ if len < pos + n then eofMark ++ tailMark ++ tail.drop (9 + tailMark.length) else tail

variable {dev : BlockDevice σ} {inv : σ → Prop} {content : σ → Mem} {good : ℕ → Prop} {bs stop pos n : ℕ}

theorem Room.mono {stop' : ℕ} (h : Room dev good stop) (hle : stop' ≤ stop) : Room dev good stop' :=
  ⟨fun idx hidx => h.good_block idx (hidx.trans (Nat.div_le_div_right hle)), hle.trans h.fits,
    hle.trans_lt h.lt⟩

/-! ## The block map -/

theorem nofsMap_of_lt {p : ℕ} (hfits : stop ≤ bs * bs) (hp : p < stop) :
    nofsMap bs stop (p / bs) = some (p / bs) :=
  if_pos ⟨Nat.div_le_div_right hp.le, Nat.div_lt_of_lt_mul (hp.trans_le hfits)⟩

/-- Byte `p` of the file is byte `p` of the device. -/
theorem fileByte_nofsMap {p : ℕ} (h : nofsMap dev.blockSize stop (p / dev.blockSize) ≠ none) :
    fileByte (nofsInit dev) (nofsMap dev.blockSize stop) p = p := by
  have hin : p / dev.blockSize ≤ stop / dev.blockSize ∧ p / dev.blockSize < dev.blockSize := by
    by_contra hout
    exact h (if_neg hout)
  unfold fileByte nofsMap nofsInit
  rw [if_pos hin, Option.getD_some, Nat.div_add_mod']

/-- A range written to a file that lies byte for byte on the device is patched. -/
theorem Written.eq_patch {fs : Fs σ} {bm : ℕ → Option ℕ} {c₀ m₀ c : Mem} {ptr : ℕ}
    (hw : Written fs bm c₀ m₀ ptr pos n c) (hbyte : ∀ i < n, fileByte fs bm (pos + i) = pos + i) :
    c = patch c₀ pos (slice m₀ ptr n) := by
  funext a
  by_cases ha : pos ≤ a ∧ a < pos + n
  · obtain ⟨i, rfl⟩ : ∃ i, a = pos + i := ⟨a - pos, by omega⟩
    have hi : i < n := by omega
    rw [patch_apply_add _ _ _ (by rwa [length_slice]), getElem_slice, ← hw.inside i hi, hbyte i hi]
  · rw [patch_apply_of_notMem _ _ _ (by rw [length_slice]; omega)]
    refine hw.outside a fun i hi => ?_
    rw [hbyte i hi]
    omega

/-- nofs on a healthy device with room is a write setup. -/
theorem nofs_writeSetup (hr : HealthyReads dev inv content good) (hw : HealthyWrites dev inv content good)
    (hroom : Room dev good (pos + n)) {temp : ℕ → ℕ} {ptr : ℕ} (htemp : TempApart temp dev.blockSize ptr n)
    {io : FileIo σ} (hi : inv io.dev) (hpos : writePos io.file = pos) :
    WriteSetup (nofsInit dev) inv content good 1 (nofsMap dev.blockSize (pos + n))
      (nofsMapNext dev.blockSize (pos + n)) (fun _ _ _ => True) temp ptr pos n () io where
  fileMap := by
    have hlt := dev.blockSize_lt
    refine ⟨one_pos, (Nat.one_mul _).symm, hlt, fun i b hb => ?_⟩
    unfold nofsMap at hb
    split_ifs at hb with hin
    obtain rfl := Option.some.inj hb
    refine ⟨by unfold noBlock; omega, fun j hj => ?_⟩
    rw [show i + j = i by omega]
    exact hroom.good_block i hin.1 hin.2
  reads := hr
  writes := hw
  injective := by
    intro i j b b' hb hb' hne
    unfold nofsMap at hb hb'
    split_ifs at hb hb'
    obtain rfl := Option.some.inj hb
    obtain rfl := Option.some.inj hb'
    omega
  lookup := fun _ _ io hi _ => ⟨(), io, rfl, trivial, rfl, hi, rfl, rfl, rfl⟩
  stable := fun _ _ _ _ _ _ _ _ _ _ => trivial
  apart := htemp
  range := hroom.lt
  dev_inv := hi
  start := trivial
  pos_eq := hpos

/-- For a write, nofs finds these blocks. -/
theorem fsFwrite_nofsMapNext (hlt : pos + n < 2 ^ 31) {temp : ℕ → ℕ} {ptr : ℕ} {io : FileIo σ}
    (hpos : writePos io.file = pos) :
    fsFwrite (nofsGetNextBdevBlockNum (nofsInit dev)) (nofsInit dev) temp () ptr n io =
      fsFwrite (nofsMapNext dev.blockSize (pos + n)) (nofsInit dev) temp () ptr n io := by
  refine fsFwrite_congr fun idx _ io' hidx => ?_
  rw [hpos, toU32_natCast (by omega)] at hidx
  simp only [span, u32_of_lt (show pos + n < 2 ^ 32 by omega)] at hidx
  have hfound : (nofsMap dev.blockSize (pos + n) idx).getD noBlock =
      if idx < dev.blockSize then idx else noBlock := by
    by_cases hin : idx < dev.blockSize
    · rw [nofsMap, if_pos ⟨hidx, hin⟩, if_pos hin, Option.getD_some]
    · rw [nofsMap, if_neg fun h => hin h.2, if_neg hin, Option.getD_none]
  rw [nofsGetNextBdevBlockNum_true, nofsMapNext, hfound]
  rfl

/-- **What `fs_fwrite` makes of the device and of the file.** -/
theorem nofs_fsFwrite (hr : HealthyReads dev inv content good) (hw : HealthyWrites dev inv content good)
    (hroom : Room dev good (pos + n)) {temp : ℕ → ℕ} {ptr : ℕ} (htemp : TempApart temp dev.blockSize ptr n)
    {io : FileIo σ} (hi : inv io.dev) (hpos : writePos io.file = pos) (hle : (pos : ℤ) ≤ io.file.len) :
    ∃ io', fsFwrite (nofsGetNextBdevBlockNum (nofsInit dev)) (nofsInit dev) temp () ptr n io = (n, io') ∧
      inv io'.dev ∧ io'.file.mode = io.file.mode ∧ io'.file.pos = (pos + n : ℕ) ∧
      io'.file.len = max io.file.len (pos + n : ℕ) ∧
      content io'.dev = patch (patch (content io.dev) pos (slice io.mem ptr n)) (pos + n)
        (nofsTail dev temp (content io.dev) io.mem ptr pos n) ∧
      ∀ a, OffBuffers temp dev.blockSize a → io'.mem a = io.mem a := by
  have hs := nofs_writeSetup hr hw hroom htemp hi hpos
  have hmap : ∀ p, pos ≤ p → p < pos + n →
      nofsMap dev.blockSize (pos + n) (p / (nofsInit dev).blockSize) ≠ none := fun p _ hp => by
    rw [nofsInit, nofsMap_of_lt hroom.fits hp]
    exact Option.some_ne_none _
  obtain ⟨io', hwrite, hdone, hmem⟩ := hs.full hmap
  have hmode : io'.file.mode = io.file.mode := by
    have hkept : (fsFwrite (nofsMapNext dev.blockSize (pos + n)) (nofsInit dev) temp () ptr n io).2.file.mode =
        io.file.mode := fsFwrite_mode fun _ _ _ => rfl
    rwa [hwrite] at hkept
  obtain ⟨c, hwritten, hc⟩ := hdone.content_eq
  have hpatch := hwritten.eq_patch fun i hi => fileByte_nofsMap (hmap (pos + i) (by omega) (by omega))
  refine ⟨io', (fsFwrite_nofsMapNext hroom.lt hpos).trans hwrite, hdone.dev_inv, hmode, hdone.pos_eq, ?_, ?_,
    hmem⟩
  · rw [hdone.len_eq]
    split_ifs with hz
    · rw [hz.1, Nat.add_zero, max_eq_left hle]
    · rfl
  · -- a tail goes to the block of the position behind the range
    rw [hc, hpatch]
    rcases tailBytes_cases (nofsInit dev) (nofsMap dev.blockSize (pos + n)) temp (content io.dev) io.mem ptr
      pos n with hnil | ⟨-, b, hb⟩
    · rw [nofsTail, hnil, patch_nil, patch_nil]
    · have hsome : nofsMap dev.blockSize (pos + n) ((pos + n) / dev.blockSize) ≠ none := by
        rw [show nofsMap dev.blockSize (pos + n) ((pos + n) / dev.blockSize) = some b from hb]
        exact Option.some_ne_none b
      rw [fileByte_nofsMap hsome, nofsTail]

/-! ## The whole call -/

/-- What a call of `nofs_fwrite` with `n` bytes at `pos` makes of the file; it returns `n`, and leaves the
mode, and memory but for its buffers. -/
structure NofsWrites (dev : BlockDevice σ) (inv : σ → Prop) (temp tempMark : ℕ → ℕ) (pos n len : ℕ)
    (io : FileIo σ) (r : ℕ × FileIo σ) : Prop where
  count : r.1 = n
  dev_inv : inv r.2.dev
  mode_eq : r.2.file.mode = io.file.mode
  pos_eq : r.2.file.pos = (pos + n : ℕ)
  len_eq : r.2.file.len = (max len (pos + n) : ℕ)
  mem_eq : ∀ a, OffBuffers temp dev.blockSize a → OffBuffers tempMark dev.blockSize a →
    r.2.mem a = io.mem a

/-- Behind which offset a call needs no blocks: when the file of `len` bytes grows, the mark is behind it. -/
def writeStop (len pos n : ℕ) : ℕ := if len < pos + n then pos + n + 9 else pos + n

section Call

variable {temp tempMark : ℕ → ℕ} {mark ptr len : ℕ} {io : FileIo σ}

variable (tempMark mark) in
/-- **A write that ends in the file.** -/
theorem nofsFwrite_inside (hr : HealthyReads dev inv content good) (hw : HealthyWrites dev inv content good)
    (hroom : Room dev good (pos + n)) (htemp : TempApart temp dev.blockSize ptr n) (hi : inv io.dev)
    (hpos : writePos io.file = pos) (hlen : io.file.len = len) (hle : pos + n ≤ len) :
    NofsWrites dev inv temp tempMark pos n len io
        (nofsFwrite (nofsInit dev) mark temp tempMark ptr n io) ∧
      content (nofsFwrite (nofsInit dev) mark temp tempMark ptr n io).2.dev =
        patch (patch (content io.dev) pos (slice io.mem ptr n)) (pos + n)
          (nofsTail dev temp (content io.dev) io.mem ptr pos n) := by
  obtain ⟨io₁, hwrite, hi₁, hmode, hp, hl, hc, hmem⟩ :=
    nofs_fsFwrite hr hw hroom htemp hi hpos (by omega)
  have hkept : ¬ io₁.file.len > io.file.len := by omega
  have hcall : nofsFwrite (nofsInit dev) mark temp tempMark ptr n io = (n, io₁) := by
    simp only [nofsFwrite, hwrite, if_neg hkept]
  rw [hcall]
  exact ⟨⟨rfl, hi₁, hmode, hp, by dsimp only; omega, fun a ha _ => hmem a ha⟩, hc⟩

/-- **A write that ends behind the file** puts the end-of-file mark behind its bytes. -/
theorem nofsFwrite_beyond (hr : HealthyReads dev inv content good) (hw : HealthyWrites dev inv content good)
    (hroom : Room dev good (pos + n + 9)) (htemp : TempApart temp dev.blockSize ptr n)
    (hmark : TempApart tempMark dev.blockSize mark 9) (hi : inv io.dev)
    (hpos : writePos io.file = pos) (hlen : io.file.len = len) (hle : pos ≤ len) (hlt : len < pos + n) :
    NofsWrites dev inv temp tempMark pos n len io
        (nofsFwrite (nofsInit dev) mark temp tempMark ptr n io) ∧
      ∃ mem₁ c₁ : Mem, (∀ a, OffBuffers temp dev.blockSize a → mem₁ a = io.mem a) ∧
        content (nofsFwrite (nofsInit dev) mark temp tempMark ptr n io).2.dev =
          patch (patch (patch (patch (content io.dev) pos (slice io.mem ptr n)) (pos + n)
            (nofsTail dev temp (content io.dev) io.mem ptr pos n)) (pos + n) (slice mem₁ mark 9))
            (pos + n + 9) (nofsTail dev tempMark c₁ mem₁ mark (pos + n) 9) := by
  obtain ⟨io₁, hwrite, hi₁, hmode, hp, hl, hc, hmem⟩ :=
    nofs_fsFwrite hr hw (hroom.mono (Nat.le_add_right _ 9)) htemp hi hpos (by omega)
  have hl₁ : io₁.file.len = (pos + n : ℕ) := by omega
  -- in either mode the mark goes to the new end
  have hpos₁ : writePos io₁.file = (pos + n : ℕ) := by
    unfold writePos
    split_ifs
    · exact hl₁
    · exact hp
  obtain ⟨io₂, hwrite₂, hi₂, hmode₂, -, -, hc₂, hmem₂⟩ :=
    nofs_fsFwrite hr hw hroom hmark hi₁ hpos₁ hl₁.ge
  have hgrown : io₁.file.len > io.file.len := by omega
  have hcall : nofsFwrite (nofsInit dev) mark temp tempMark ptr n io =
      (n, { io₂ with file := { io₂.file with pos := io₁.file.len, len := io₁.file.len } }) := by
    have hnine : eofMark.length = 9 := rfl
    simp only [nofsFwrite, hwrite, if_pos hgrown, hnine, hwrite₂]
  rw [hcall]
  refine ⟨⟨rfl, hi₂, hmode₂.trans hmode, hl₁, by dsimp only; omega,
    fun a ha ha' => (hmem₂ a ha').trans (hmem a ha)⟩, io₁.mem, content io₁.dev, hmem, ?_⟩
  rw [← hc]
  exact hc₂

variable (io) in
/-- **A write** puts the bytes of the caller at the position, and changes nothing below it. -/
theorem nofsFwrite_spec (hr : HealthyReads dev inv content good) (hw : HealthyWrites dev inv content good)
    (hroom : Room dev good (writeStop len pos n)) (htemp : TempApart temp dev.blockSize ptr n)
    (hmark : TempApart tempMark dev.blockSize mark 9) (hi : inv io.dev)
    (hpos : writePos io.file = pos) (hlen : io.file.len = len) (hle : pos ≤ len) :
    NofsWrites dev inv temp tempMark pos n len io
        (nofsFwrite (nofsInit dev) mark temp tempMark ptr n io) ∧
      slice (content (nofsFwrite (nofsInit dev) mark temp tempMark ptr n io).2.dev) pos n =
        slice io.mem ptr n ∧
      ∀ a < pos, content (nofsFwrite (nofsInit dev) mark temp tempMark ptr n io).2.dev a =
        content io.dev a := by
  -- what follows the bytes is at `pos + n` and behind
  have hslice : ∀ (c : Mem) l, slice (patch (patch c pos (slice io.mem ptr n)) (pos + n) l) pos n =
      slice io.mem ptr n := fun c l => by
    rw [slice_patch_of_disjoint (Or.inl le_rfl), slice_patch_slice]
  have hbelow : ∀ (c : Mem) l l', ∀ a < pos, patch (patch c pos l) (pos + n) l' a = c a :=
    fun c l l' a ha => by
      rw [patch_apply_of_notMem _ _ _ (Or.inl (by omega)), patch_apply_of_notMem _ _ _ (Or.inl ha)]
  unfold writeStop at hroom
  split_ifs at hroom with hgrow
  · obtain ⟨hwrites, mem₁, c₁, -, hc⟩ :=
      nofsFwrite_beyond hr hw hroom htemp hmark hi hpos hlen hle hgrow
    refine ⟨hwrites, ?_, fun a ha => ?_⟩
    · rw [hc, slice_patch_of_disjoint (Or.inl (by omega)), slice_patch_of_disjoint (Or.inl le_rfl), hslice]
    · rw [hc, patch_apply_of_notMem _ _ _ (Or.inl (by omega)),
        patch_apply_of_notMem _ _ _ (Or.inl (by omega)), hbelow _ _ _ a ha]
  · obtain ⟨hwrites, hc⟩ := nofsFwrite_inside tempMark mark hr hw hroom htemp hi hpos
      hlen (by omega)
    exact ⟨hwrites, by rw [hc, hslice], fun a ha => by rw [hc, hbelow _ _ _ a ha]⟩

variable (io) in
/-- **What a write puts on the device.** The bytes of `eof_mark`, and those behind it, are not in the buffers. -/
theorem nofsFwrite_put (hr : HealthyReads dev inv content good) (hw : HealthyWrites dev inv content good)
    (hroom : Room dev good (writeStop len pos n)) (htemp : TempApart temp dev.blockSize ptr n)
    (hmark : TempApart tempMark dev.blockSize mark 9) (hi : inv io.dev)
    (hpos : writePos io.file = pos) (hlen : io.file.len = len) (hle : pos ≤ len)
    (heof : slice io.mem mark 9 = eofMark)
    (hoff : ∀ a, mark ≤ a → a < mark + 25 →
      OffBuffers temp dev.blockSize a ∧ OffBuffers tempMark dev.blockSize a) :
    content (nofsFwrite (nofsInit dev) mark temp tempMark ptr n io).2.dev =
      patch (content io.dev) pos (putBytes dev mark temp tempMark (content io.dev) io.mem ptr pos n len) := by
  have hslice : (slice io.mem ptr n).length = n := length_slice _ _ _
  unfold writeStop at hroom
  unfold putBytes
  dsimp only
  split_ifs at hroom ⊢ with hgrow
  · obtain ⟨-, mem₁, c₁, hmem, hc⟩ := nofsFwrite_beyond hr hw hroom htemp hmark hi hpos hlen hle hgrow
    have heof₁ : slice mem₁ mark 9 = eofMark := by
      rw [← heof, slice_eq_iff]
      exact fun i hi => hmem _ (hoff (mark + i) (by omega) (by omega)).1
    have htail : nofsTail dev tempMark c₁ mem₁ mark (pos + n) 9 =
        nofsTail dev tempMark (content io.dev) io.mem mark (pos + n) 9 :=
      tailBytes_congr dev.blockSize_pos hmark fun a ha ha' =>
        ⟨(hoff a (by omega) (by omega)).2, hmem a (hoff a (by omega) (by omega)).1⟩
    have hnine : eofMark.length = 9 := rfl
    rw [hc, heof₁, htail, ← hnine, ← patch_append, patch_patch, List.length_append, patch_append _ pos, hslice]
  · obtain ⟨-, hc⟩ := nofsFwrite_inside tempMark mark hr hw hroom htemp hi hpos hlen
      (by omega)
    rw [hc, patch_append, hslice]

end Call

/-! ## Places in the file -/

/-- The position of a file is not behind its end, nor before the end of the byte order mark, as far as the
file goes. -/
structure InNofs (file : Stream) (pos len : ℕ) : Prop where
  pos_eq : file.pos = pos
  len_eq : file.len = len
  low_le : min 3 len ≤ pos
  le_len : pos ≤ len

theorem InNofs.writePos {file : Stream} {len : ℕ} (h : InNofs file pos len) :
    ∃ place : ℕ, RpiBoot.writePos file = place ∧ min 3 len ≤ place ∧ place ≤ len := by
  have hlow := h.low_le
  have hle := h.le_len
  unfold RpiBoot.writePos
  split_ifs
  · exact ⟨len, h.len_eq, by omega, le_rfl⟩
  · exact ⟨pos, h.pos_eq, hlow, hle⟩

/-- A seek stays in the file. -/
theorem InNofs.fseek {file : Stream} {len : ℕ} (h : InNofs file pos len) (offset : ℤ) (whence : Whence) :
    (∃ pos', InNofs (nofsFseek file offset whence).2 pos' len) ∧
      (nofsFseek file offset whence).2.mode = file.mode := by
  obtain ⟨hpos, hlen, hlow, hle⟩ := h
  have hset : ∀ z : ℤ, min 3 (len : ℤ) ≤ z → z ≤ len → ∃ pos', InNofs { file with pos := z } pos' len :=
    fun z hz hz' => ⟨z.toNat, (Int.toNat_of_nonneg (show 0 ≤ z by omega)).symm, hlen, by omega, by omega⟩
  have hclamp : ∀ z : ℤ, ∃ pos', InNofs { file with
      pos := if (if z < 3 then 3 else z) > file.len then file.len else if z < 3 then 3 else z } pos' len :=
    fun z => hset _ (by split_ifs <;> omega) (by split_ifs <;> omega)
  cases whence with
  | bad => exact ⟨⟨pos, hpos, hlen, hlow, hle⟩, rfl⟩
  | set | stop | cur => exact ⟨hclamp _, rfl⟩

end RpiBoot
