import Mathlib
import RpiBoot.Fat.File
import RpiBoot.Libfs.ReadWhole
import RpiBoot.Multiboot.Contents

/-!
# Files that `fs_fread` reads

The loader sees `fs_fread` from beside the buffers that a call allocates and frees again.

* `fsFreadBeside`: `fs_fread` as seen from there. `FileOn`: a file on a healthy device.
* **`FileOn.readsInFull`**: it is read in full, and up to 16 bytes behind what has been read are spoilt.
* **`FileOn.keeps_iff`**: these are left alone just when the file has no block behind the range, or the last
  round of the read is harmless.
* `fat_fileOn`: the files of a FAT volume.
-/

namespace RpiBoot

open Store

variable {σ ο : Type}

/-- `fs_fread`, as seen from beside its buffers: they are at `temp ptr n` when `n` bytes go to `ptr`. -/
def fsFreadBeside (getNext : GetNext σ ο) (fs : Fs σ) (temp : ℕ → ℕ → ℕ → ℕ) (opq : ο) : FsTransfer σ :=
  fun ptr n io =>
    let r := fsFread getNext fs (temp ptr n) opq ptr n io
    (r.1, { r.2 with
      mem := fun a => if Scratch fs (temp ptr n) io.file.pos.toNat n a then io.mem a else r.2.mem a })

/-- A file with the bytes `data`, on a healthy device that holds `c`. The buffers of a read are apart from
that of its caller. -/
structure FileOn (fs : Fs σ) (inv : σ → Prop) (content : σ → Mem) (good : ℕ → Prop) (k : ℕ)
    (bm : ℕ → Option ℕ) (getNext : GetNext σ ο) (J : ℕ → ο → Mem → Prop) (temp : ℕ → ℕ → ℕ → ℕ) (opq : ο)
    (c : Mem) (data : List UInt8) : Prop where
  fileMap : FileMap fs good k bm
  reads : HealthyReads fs.parent inv content good
  lookup : Lookup getNext inv content false J bm
  apart : ∀ ptr n, TempApart (temp ptr n) fs.blockSize ptr n
  start : ∀ idx, J idx opq c
  length_lt : data.length < 2 ^ 31
  mapped : ∀ p < data.length, bm (p / fs.blockSize) ≠ none
  bytes : data = slice (fileBytes fs bm c) 0 data.length

variable {fs : Fs σ} {inv : σ → Prop} {content : σ → Mem} {good : ℕ → Prop} {k : ℕ}
  {bm : ℕ → Option ℕ} {getNext : GetNext σ ο} {J : ℕ → ο → Mem → Prop} {temp : ℕ → ℕ → ℕ → ℕ} {opq : ο}
  {c : Mem} {data : List UInt8}

/-- The caller's buffer is not among those of the read. -/
theorem not_scratch {temp : ℕ → ℕ} {ptr pos n a : ℕ} (h : TempApart temp fs.blockSize ptr n) (h₁ : ptr ≤ a)
    (h₂ : a < ptr + n) : ¬ Scratch fs temp pos n a := by
  unfold Scratch
  have hfirst := h (pos / fs.blockSize)
  have hlast := h ((pos + n) / fs.blockSize)
  omega

/-- A read of a range of the file. -/
theorem FileOn.range (hf : FileOn fs inv content good k bm getNext J temp opq c data) (ptr n : ℕ)
    (io : FileIo σ) {pos : ℕ} (hdev : inv io.dev ∧ content io.dev = c) (hpos : io.file.pos = pos)
    (hle : pos + n ≤ data.length) :
    ∃ io', fsFread getNext fs (temp ptr n) opq ptr n io = (n, io') ∧
      ReadDone fs inv content bm c ptr pos n io.file.len io' ∧
      (∀ a, a < ptr ∨ ptr + n + 16 ≤ a → ¬ Scratch fs (temp ptr n) pos n a → io'.mem a = io.mem a) ∧
      (bm ((pos + n) / fs.blockSize) = none ∨ TailHarmless fs (temp ptr n) pos n ptr →
        ∀ a, a < ptr ∨ ptr + n ≤ a → ¬ Scratch fs (temp ptr n) pos n a → io'.mem a = io.mem a) := by
  have hlt := hf.length_lt
  obtain ⟨hinv, rfl⟩ := hdev
  exact fsFread_range hf.fileMap hf.reads hf.lookup (hf.apart ptr n) (by omega)
    (fun p hp => hf.mapped p (by omega)) hinv (hf.start _) hpos

/-- **`fs_fread` reads its files in full.** -/
theorem FileOn.readsInFull (hf : FileOn fs inv content good k bm getNext J temp opq c data) :
    ReadsInFull (fsFreadBeside getNext fs temp opq) data fun dev => inv dev ∧ content dev = c := by
  have hcount : ∀ ptr n (io : FileIo σ) (pos : ℕ), (inv io.dev ∧ content io.dev = c) →
      io.file.len = data.length → io.file.pos = pos → pos + n ≤ data.length →
      (fsFreadBeside getNext fs temp opq ptr n io).1 = n := fun ptr n io pos hdev _ hpos hle => by
    obtain ⟨io', hread, -⟩ := hf.range ptr n io hdev hpos hle
    rw [fsFreadBeside, hread]
  refine ⟨⟨hf.length_lt, fun ptr n io pos hdev hlen hpos hle => ?_,
    fun ptr n io pos mem hdev hlen hpos hle => ?_⟩, hcount⟩
  · obtain ⟨io', hread, hdone, hframe, -⟩ := hf.range ptr n io hdev hpos hle
    simp only [fsFreadBeside, hread, hpos, Int.toNat_natCast]
    refine ⟨le_rfl, ⟨hdone.dev_inv, hdone.dev_content⟩, hdone.len_eq, fun a ha => ?_, fun _ => ?_⟩
    · show (if _ then _ else _) = _
      split_ifs with hscratch
      · rfl
      · exact hframe a ha hscratch
    · refine Eq.trans (slice_congr fun i hi => if_neg ?_) (hdone.delivered.trans ?_)
      · exact not_scratch (hf.apart ptr n) (Nat.le_add_right _ _) (Nat.add_lt_add_left hi _)
      · rw [hf.bytes, drop_slice, take_slice, min_eq_left (by omega), Nat.zero_add]
  · exact (hcount ptr n { io with mem := mem } pos hdev hlen hpos hle).trans
      (hcount ptr n io pos hdev hlen hpos hle).symm

/-- **When a read of the file spoils nothing.** -/
theorem FileOn.keeps_iff (hf : FileOn fs inv content good k bm getNext J temp opq c data) (ptr : ℕ) {n : ℕ}
    (io : FileIo σ) {pos : ℕ} (hdev : inv io.dev ∧ content io.dev = c) (hlen : io.file.len = data.length)
    (hpos : io.file.pos = pos) (hle : pos + n ≤ data.length) :
    Keeps (fsFreadBeside getNext fs temp opq) ptr n io (Set.Ici (ptr + n)) ↔
      bm ((pos + n) / fs.blockSize) = none ∨ TailHarmless fs (temp ptr n) pos n ptr := by
  have hbs := hf.fileMap.size_pos
  have hlt : fs.blockSize < 2 ^ 32 := hf.fileMap.size_lt.trans (by decide)
  have hlength := hf.length_lt
  have hfread : ∀ mem, fread (fsFreadBeside getNext fs temp opq) ptr 1 n { io with mem := mem } =
      fsFreadBeside getNext fs temp opq ptr n { io with mem := mem } := fun mem => by
    have hlen' : ({ io with mem := mem } : FileIo σ).file.len = data.length := hlen
    rw [fread_one (by omega) hlen' hpos (by omega) hlength, min_eq_left (by omega)]
  unfold Keeps
  simp only [hfread]
  constructor
  · intro hkeeps
    by_contra hspoilt
    obtain ⟨hlast, hharm⟩ := not_or.mp hspoilt
    obtain ⟨hinv, rfl⟩ := hdev
    obtain ⟨m₀, a, ha, hscratch, hne⟩ := exists_spoilt hbs hlt (by omega) hharm bm (content io.dev)
    have hset : ReadSetup fs inv content good k bm getNext J (temp ptr n) ptr pos n opq
        { io with mem := m₀ } :=
      ⟨hf.fileMap, hf.reads, hf.lookup, hf.apart ptr n, by omega,
        mapped_of_le hbs (fun p hp => hf.mapped p (by omega)) hlast, hinv, hf.start _, hpos⟩
    obtain ⟨io', hread, -, hmem⟩ := hset.mem
    rcases ha with ha | ha
    · exact hne (readMemAt_beyond hbs hlt hset.apart hset.range (Or.inl ha) hscratch)
    · have hkept := hkeeps m₀ a ha
      simp only [fsFreadBeside, hread, hpos, Int.toNat_natCast, if_neg hscratch, hmem] at hkept
      exact hne hkept
  · intro htail mem a ha
    obtain ⟨io', hread, -, -, hframe⟩ := hf.range ptr n { io with mem := mem } hdev hpos hle
    simp only [fsFreadBeside, hread, hpos, Int.toNat_natCast]
    split_ifs with hscratch
    · rfl
    · exact hframe htail a (Or.inr ha) hscratch

/-- The files of a FAT volume, of which the chain covers the length. -/
theorem fat_fileOn {parent : BlockDevice σ} {bs : FatBS} {ft : FatType} {vol : Mem} {first len : ℕ}
    {chain : List ℕ} (h : HealthyReads parent inv content (· < bs.sectors)) (hbs : parent.blockSize = 512)
    (hv : bs.Volume ft) (hc : ClusterChain bs ft vol first chain) (hlen : len < 2 ^ 31)
    (hcover : len ≤ chain.length * (bs.sectorsPerCluster * 512))
    (htemp : ∀ ptr n, TempApart (temp ptr n) (bs.sectorsPerCluster * 512) ptr n) :
    FileOn (bs.toFs parent).b inv content (· < bs.sectors) bs.sectorsPerCluster (chainMap bs chain)
      (fatGetNextBdevBlockNum (bs.toFs parent)) (fun idx opq c => c = vol ∧ opq.fBlock ≤ idx ∧ OnChain chain opq)
      temp ⟨0, first⟩ vol (fatContents bs vol chain len) := by
  obtain ⟨hb, -⟩ := toFs_spec hv parent
  have hsize : (bs.toFs parent).b.blockSize = bs.sectorsPerCluster * 512 := by rw [hb]
  have hlength : (fatContents bs vol chain len).length = len := length_fatContents parent hbs hv hcover
  refine ⟨fat_fileMap hbs hv hc, by rw [hb]; exact h, fat_lookup h hbs hv hc false, by rwa [hsize],
    fun idx => ⟨rfl, Nat.zero_le _, Or.inl hc.head⟩, by rwa [hlength], fun p hp => ?_, ?_⟩
  · rw [hlength] at hp
    rw [hsize]
    exact chainMap_ne_none hcover hp
  · rw [hlength, fatContents, flatMap_clusterBytes hbs hv, take_slice, min_eq_left hcover]

end RpiBoot
