import RpiBoot.Ext2.Entries

/-!
# Well-formed ext2 directories

Each block of a directory is filled with records. A record in use has an inode and a name; with entry
types, the second byte of the length of its name says what it is.

* `DirRecord`, `DirRecords`: a record in use; those that fill a block.
* `WellFormedDir`: a directory with the given records.
* `DirRecord.dirent`: what the code makes of a record.
* **`ext2Dirents_records`**: the code takes the records in, when it can read the inodes it looks at.
-/

namespace RpiBoot

open Store

variable {σ : Type}

/-- A record in use. -/
structure DirRecord where
  inode : ℕ
  name : List UInt8
  fileType : UInt8
  inode_ne : inode ≠ 0
  clean : 0 ∉ name

/-- `.`, `..` or `lost+found`. -/
def DirRecord.Special (r : DirRecord) : Prop := r.name ∈ specialNames

instance (r : DirRecord) : Decidable r.Special := inferInstanceAs (Decidable (r.name ∈ specialNames))

/-- The record `r` lies at `ptr`. -/
structure DirRecord.At (typed : Bool) (block : Mem) (ptr : ℕ) (r : DirRecord) : Prop where
  inode_eq : le32 block ptr = r.inode
  length_eq : (if typed then (block (ptr + 6)).toNat else le16 block (ptr + 6)) = r.name.length
  type_eq : typed = true → block (ptr + 7) = r.fileType
  name_eq : slice block (ptr + 8) r.name.length = r.name

/-- Records fill a block from `ptr` up to `limit`; the list has those in use. -/
inductive DirRecords (typed : Bool) (block : Mem) (limit : ℕ) : ℕ → List DirRecord → Prop where
  | done : DirRecords typed block limit limit []
  | unused {ptr rs} : le32 block ptr = 0 → 8 ≤ le16 block (ptr + 4) →
    ptr + le16 block (ptr + 4) ≤ limit →
    DirRecords typed block limit (ptr + le16 block (ptr + 4)) rs → DirRecords typed block limit ptr rs
  | used {ptr r rs} : r.At typed block ptr → 8 + r.name.length ≤ le16 block (ptr + 4) →
    ptr + le16 block (ptr + 4) ≤ limit →
    DirRecords typed block limit (ptr + le16 block (ptr + 4)) rs →
    DirRecords typed block limit ptr (r :: rs)

section Directories

variable (fs : Ext2Fs σ) (read : ℕ → ℕ → ℕ × Mem) (typed : Bool)

/-- The directory `d`, which is read in state `s`, can be read, and has the records `rs` in use. -/
def WellFormedDir (s : σ) (d : Option Dirent) (rs : List DirRecord) : Prop :=
  ∃ inode, fs.inode read (dirInode d) = some inode ∧ ∃ blocks : ℕ → List DirRecord,
    rs = (List.range' 0 (fs.fileBlocks inode)).flatMap blocks ∧
    ∀ idx < fs.fileBlocks inode, ∃ block,
      fs.block read (getBlockNoFromInode fs s inode idx).1 = some block ∧
        DirRecords typed block (fs.blockLimit inode idx) 0 (blocks idx)

/-- The inode that the code looks at for a record can be read: without entry types, that of a record to
be listed. -/
def DirRecord.ModeRead (r : DirRecord) : Prop :=
  typed = false → ¬ r.Special → (fs.mode read r.inode).isSome

/-- The flag `is_dir` that the code computes for a record. -/
def DirRecord.isDir (r : DirRecord) : Bool :=
  if r.Special then false
  else if typed then r.fileType == 2
  else (fs.mode read r.inode).getD 0 &&& 0x2000 != 0

/-- The `struct dirent` that the code makes of a record. -/
def DirRecord.dirent (r : DirRecord) : Dirent := ⟨r.name, r.clean, 0, r.isDir fs read typed, r.inode⟩

end Directories

variable {fs : Ext2Fs σ} {read : ℕ → ℕ → ℕ × Mem} {typed : Bool} {block : Mem} {limit ptr : ℕ}
  {r : DirRecord} {rs : List DirRecord}

theorem le16_and_255 (mem : Mem) (a : ℕ) : le16 mem a &&& 0xff = (mem a).toNat := by
  have hlt := (mem a).toNat_lt
  rw [show (0xff : ℕ) = 2 ^ 8 - 1 by decide, Nat.and_two_pow_sub_one_eq_mod, le16]
  omega

theorem nameLength_eq (h : r.At typed block ptr) : nameLength typed block ptr = r.name.length := by
  rw [nameLength, ← h.length_eq, le16_and_255]

theorem ext2Name_eq (h : r.At typed block ptr) : ext2Name typed block ptr = r.name := by
  rw [ext2Name, nameLength_eq h, h.name_eq]
  exact List.takeWhile_eq_self_iff.mpr fun b hb => by
    simpa using fun h0 : b = 0 => r.clean (h0 ▸ hb)

theorem ext2Dirent_eq (h : r.At typed block ptr) {isDir : Bool} (hdir : isDir = r.isDir fs read typed) :
    ext2Dirent typed block ptr isDir = r.dirent fs read typed := by
  unfold ext2Dirent DirRecord.dirent
  congr 1
  · exact ext2Name_eq h
  · exact h.inode_eq

variable (fs read) in
/-- A record is taken in. -/
theorem entryDirent_record (h : r.At typed block ptr)
    (hfit : ptr + 8 + r.name.length ≤ fs.b.blockSize) :
    (r.ModeRead fs read typed → entryDirent fs read typed block ptr = .ok (r.dirent fs read typed)) ∧
      (¬ r.ModeRead fs read typed → entryDirent fs read typed block ptr = .error .null) := by
  have hname := ext2Name_eq h
  unfold entryDirent
  rw [nameLength_eq h, if_neg (by omega), hname, h.inode_eq]
  by_cases hspecial : r.name ∈ specialNames
  · rw [if_pos hspecial]
    refine ⟨fun _ => congrArg _ (ext2Dirent_eq h (if_pos hspecial).symm), fun hno => ?_⟩
    exact absurd (fun _ hs => absurd hspecial hs) hno
  rw [if_neg hspecial]
  have hdir : r.isDir fs read typed = if typed then r.fileType == 2
      else (fs.mode read r.inode).getD 0 &&& 0x2000 != 0 := if_neg hspecial
  cases typed with
  | true =>
    refine ⟨fun _ => congrArg _ (ext2Dirent_eq h ?_), fun hno => absurd (fun ht => nomatch ht) hno⟩
    rw [hdir, h.type_eq rfl]
    rfl
  | false =>
    rw [if_neg Bool.false_ne_true] at hdir ⊢
    cases hmode : fs.mode read r.inode with
    | none =>
      refine ⟨fun hread => ?_, fun _ => rfl⟩
      have := hread rfl hspecial
      rw [hmode] at this
      cases this
    | some mode =>
      refine ⟨fun _ => congrArg _ (ext2Dirent_eq h ?_), fun hno => absurd (fun _ _ => ?_) hno⟩
      · rw [hdir, hmode]
        rfl
      · rw [hmode]
        exact Option.isSome_some

variable (read) in
/-- The records of a block are taken in. -/
theorem blockDirents_records (hlimit : limit ≤ fs.b.blockSize) (hbs : fs.b.blockSize ≤ 2 ^ 31)
    (h : DirRecords typed block limit ptr rs) {fuel : ℕ} (hfuel : limit ≤ ptr + fuel) :
    ((∀ r ∈ rs, r.ModeRead fs read typed) →
        blockDirents fs read typed block limit fuel ptr = .ok (rs.map (·.dirent fs read typed))) ∧
      ((¬ ∀ r ∈ rs, r.ModeRead fs read typed) →
        blockDirents fs read typed block limit fuel ptr = .error .null) := by
  induction h generalizing fuel with
  | done =>
    refine ⟨fun _ => ?_, fun hno => absurd (fun r hr => absurd hr List.not_mem_nil) hno⟩
    cases fuel with
    | zero => rw [blockDirents, if_neg (lt_irrefl _), List.map_nil]
    | succ fuel => rw [blockDirents, if_neg (lt_irrefl _), List.map_nil]
  | @unused ptr rs hinode hsize hle _ ih =>
    obtain ⟨fuel, rfl⟩ : ∃ k, fuel = k + 1 := ⟨fuel - 1, by omega⟩
    rw [blockDirents, if_pos (by omega), if_neg (by omega), if_neg (by omega), if_pos hinode,
      u32_of_lt (by omega)]
    exact ih (by omega)
  | @used ptr r rs hat hsize hle _ ih =>
    obtain ⟨fuel, rfl⟩ : ∃ k, fuel = k + 1 := ⟨fuel - 1, by omega⟩
    have hused : le32 block ptr ≠ 0 := by
      rw [hat.inode_eq]
      exact r.inode_ne
    obtain ⟨hok, herror⟩ := entryDirent_record fs read hat (by omega)
    obtain ⟨ihok, iherror⟩ := @ih fuel (by omega)
    rw [blockDirents, if_pos (by omega), if_neg (by omega), if_neg (by omega), if_neg hused,
      u32_of_lt (by omega), List.forall_mem_cons]
    refine ⟨fun hrs => ?_, fun hno => ?_⟩
    · rw [hok hrs.1, ihok hrs.2]
      rfl
    by_cases hr : r.ModeRead fs read typed
    · rw [hok hr, iherror fun hrs => hno ⟨hr, hrs⟩]
      rfl
    · rw [herror hr]
      rfl

/-- The records of the blocks are taken in. -/
theorem dirDirents_records (hpos : 0 < fs.b.blockSize) (hbs : fs.b.blockSize ≤ 2 ^ 31)
    {inode : Ext2Inode} {blockNo : ℕ → ℕ} {blocks : ℕ → List DirRecord} (n idx : ℕ)
    (h : ∀ i, idx ≤ i → i < idx + n → ∃ block, fs.block read (blockNo i) = some block ∧
      DirRecords typed block (fs.blockLimit inode i) 0 (blocks i)) :
    ((∀ r ∈ (List.range' idx n).flatMap blocks, r.ModeRead fs read typed) →
        dirDirents fs read typed inode blockNo n idx =
          .ok (((List.range' idx n).flatMap blocks).map (·.dirent fs read typed))) ∧
      ((¬ ∀ r ∈ (List.range' idx n).flatMap blocks, r.ModeRead fs read typed) →
        dirDirents fs read typed inode blockNo n idx = .error .null) := by
  induction n generalizing idx with
  | zero => exact ⟨fun _ => rfl, fun hno => absurd (fun r hr => absurd hr List.not_mem_nil) hno⟩
  | succ n ih =>
    obtain ⟨block, hblock, hrecords⟩ := h idx le_rfl (by omega)
    have hlimit := blockLimit_le inode hpos idx
    obtain ⟨hok, herror⟩ := blockDirents_records read hlimit hbs hrecords
      (Nat.le_add_left (fs.blockLimit inode idx) 0)
    obtain ⟨ihok, iherror⟩ := ih (idx + 1) fun i h₁ h₂ => h i (by omega) (by omega)
    rw [dirDirents, hblock, List.range'_succ, List.flatMap_cons, List.forall_mem_append]
    dsimp only
    refine ⟨fun hrs => ?_, fun hno => ?_⟩
    · rw [hok hrs.1, ihok hrs.2, List.map_append]
      rfl
    · by_cases hr : ∀ r ∈ blocks idx, r.ModeRead fs read typed
      · rw [hok hr, iherror fun hrs => hno ⟨hr, hrs⟩]
        rfl
      · rw [herror hr]
        rfl

/-- **The records of a directory are taken in**, if the inodes that the code looks at can be read. -/
theorem ext2Dirents_records (hpos : 0 < fs.b.blockSize) (hbs : fs.b.blockSize ≤ 2 ^ 31) {s : σ}
    {d : Option Dirent} (h : WellFormedDir fs read typed s d rs) :
    ((∀ r ∈ rs, r.ModeRead fs read typed) →
        ext2Dirents fs read typed s d = .ok (rs.map (·.dirent fs read typed))) ∧
      ((¬ ∀ r ∈ rs, r.ModeRead fs read typed) → ext2Dirents fs read typed s d = .error .null) := by
  obtain ⟨inode, hinode, blocks, rfl, hblocks⟩ := h
  rw [ext2Dirents, hinode]
  exact dirDirents_records hpos hbs (fs.fileBlocks inode) 0 fun i _ hi => hblocks i (by omega)

theorem map_dirent_name : (rs.map (·.dirent fs read typed)).map (·.name) = rs.map (·.name) := by
  rw [List.map_map]
  rfl

/-- **What `ext2_read_dir` returns for the records**: the list that is built from their entries. -/
theorem ext2ReadDir_records {σ : Type} {fs : Ext2Fs σ} {inv : σ → Prop} {s : σ} {addr : ℕ → ℕ}
    (h : SteadyReads fs.b.parent inv read) (hpos : 0 < fs.b.blockSize) (hbs : fs.b.blockSize ≤ 2 ^ 31)
    (hs : inv s) {d : Option Dirent} (hdir : WellFormedDir fs read typed s d rs) (p : DirList → Prop) :
    (∃ st s', ext2ReadDir fs typed addr d s = .ok (st, s') ∧ p st) ↔
      (∀ r ∈ rs, r.ModeRead fs read typed) ∧
        p ((rs.map (·.dirent fs read typed)).foldl (DirList.add addr) .empty) := by
  obtain ⟨s', hrun, -⟩ := ext2ReadDir_eq typed addr h d hs
  obtain ⟨hok, herror⟩ := ext2Dirents_records hpos hbs hdir
  rw [hrun]
  by_cases hread : ∀ r ∈ rs, r.ModeRead fs read typed
  · rw [hok hread, and_iff_right hread]
    constructor
    · rintro ⟨st, s'', hst, hp⟩
      obtain ⟨rfl, -⟩ := Prod.mk.inj (Except.ok.inj hst)
      exact hp
    · exact fun hp => ⟨_, s', rfl, hp⟩
  · rw [herror hread]
    refine iff_of_false ?_ fun h => hread h.1
    rintro ⟨st, s'', hst, -⟩
    cases hst

/-! ## Small directories -/

/-- A record with the given length. -/
theorem dirRecords_used {next : ℕ} (h : r.At typed block ptr)
    (hsize : 8 + r.name.length ≤ le16 block (ptr + 4)) (hnext : ptr + le16 block (ptr + 4) = next)
    (hle : next ≤ limit) (hrest : DirRecords typed block limit next rs) :
    DirRecords typed block limit ptr (r :: rs) := by
  subst hnext
  exact .used h hsize hle hrest

/-- The block of the root directory of a `dirVolume`. -/
def dirVolumeBlock (vol : Mem) : Mem :=
  ((dirFs vol).block (readAt (storeDevice 64) vol) 9).getD fun _ => 0

theorem dirVolume_wellFormed {vol : Mem}
    (hinode : ((dirFs vol).inode (readAt (storeDevice 64) vol) 2).map (fun i => ((dirFs vol).fileBlocks i,
      (dirFs vol).blockLimit i 0, (getBlockNoFromInode (dirFs vol) vol i 0).1)) = some (1, 1024, 9))
    (hblock : ((dirFs vol).block (readAt (storeDevice 64) vol) 9).isSome)
    (h : DirRecords typed (dirVolumeBlock vol) 1024 0 rs) :
    WellFormedDir (dirFs vol) (readAt (storeDevice 64) vol) typed vol none rs := by
  obtain ⟨inode, hi, hfields⟩ := Option.map_eq_some_iff.mp hinode
  simp only [Prod.mk.injEq] at hfields
  obtain ⟨hblocks, hlimit, hno⟩ := hfields
  obtain ⟨block, hb⟩ := Option.isSome_iff_exists.mp hblock
  refine ⟨inode, hi, fun _ => rs, ?_, fun idx hidx => ?_⟩
  · rw [hblocks]
    exact (List.append_nil rs).symm
  · obtain rfl : idx = 0 := by omega
    refine ⟨block, by rw [hno, hb], ?_⟩
    rw [dirVolumeBlock, hb, Option.getD_some] at h
    rw [hlimit]
    exact h

end RpiBoot
