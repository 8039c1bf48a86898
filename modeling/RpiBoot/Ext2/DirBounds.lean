import RpiBoot.Ext2.Entries

/-!
# What `ext2_read_dir` reads

The entries of a block give their own lengths, and those of their names. Only a length of `0` is noticed.

* `EntryLeads`: the places to which the lengths lead.
* `DirEntryFits`, `DirFits`: an entry lies in its block with all that is read of it; all entries of a
  directory do.
* `blockDirents_settles`: the entries of a block are read within it if and only if they fit.
* **`ext2_read_dir_bounds_iff`**: reading a directory always ends; it stays inside of the blocks, and off
  the null pointer, if and only if the directory fits.
-/

namespace RpiBoot

open Store

variable {σ : Type}

/-- From `ptr`, the lengths of the entries lead to another place in front of `limit`. -/
inductive EntryLeads (block : Mem) (limit : ℕ) : ℕ → ℕ → Prop where
  | here {ptr} : ptr < limit → EntryLeads block limit ptr ptr
  | next {ptr p} : ptr < limit → le16 block (ptr + 4) ≠ 0 →
    EntryLeads block limit (ptr + le16 block (ptr + 4)) p → EntryLeads block limit ptr p

section Fits

variable (fs : Ext2Fs σ) (read : ℕ → ℕ → ℕ × Mem) (typed : Bool)

/-- What is read of the entry in use at `ptr` lies in the block. -/
structure UsedFits (block : Mem) (ptr : ℕ) : Prop where
  name : ptr + 8 + nameLength typed block ptr ≤ fs.b.blockSize
  -- without entry types, the inode says what the entry is
  inode : typed = false → ext2Name typed block ptr ∉ specialNames →
    (fs.mode read (le32 block ptr)).isSome

/-- What is read of the entry at `ptr` lies in the block. -/
structure DirEntryFits (block : Mem) (ptr : ℕ) : Prop where
  header : ptr + 8 ≤ fs.b.blockSize
  used : le16 block (ptr + 4) ≠ 0 → le32 block ptr ≠ 0 → UsedFits fs read typed block ptr

/-- The blocks of the directory `d`, from block `idx` on, can be read, and what is read of the entries lies
in the blocks. -/
def BlocksFit (inode : Ext2Inode) (blockNo : ℕ → ℕ) (n idx : ℕ) : Prop :=
  ∀ i < n, ∃ block, fs.block read (blockNo (idx + i)) = some block ∧
    ∀ ptr, EntryLeads block (fs.blockLimit inode (idx + i)) 0 ptr → DirEntryFits fs read typed block ptr

/-- The directory `d`, which is read in state `s`, can be read within its blocks. -/
def DirFits (s : σ) (d : Option Dirent) : Prop :=
  ∃ inode, fs.inode read (dirInode d) = some inode ∧ BlocksFit fs read typed inode
    (fun idx => (getBlockNoFromInode fs s inode idx).1) (fs.fileBlocks inode) 0

end Fits

variable {fs : Ext2Fs σ} {read : ℕ → ℕ → ℕ × Mem} {typed : Bool} {block : Mem} {limit ptr : ℕ}

/-- A result that is not that of an endless loop, and a success if and only if `p` holds. -/
structure Settles {α : Type} (x : Except DirFault α) (p : Prop) : Prop where
  ends : x ≠ .error .endless
  ok_iff : x.isOk ↔ p

theorem settles_ok {α : Type} {p : Prop} (a : α) (hp : p) : Settles (.ok a) p :=
  ⟨nofun, iff_of_true rfl hp⟩

theorem settles_error {α : Type} {p : Prop} {e : DirFault} (he : e ≠ .endless) (hp : ¬ p) :
    Settles (.error e : Except DirFault α) p :=
  ⟨fun h => he (Except.error.inj h), iff_of_false Bool.false_ne_true hp⟩

theorem Settles.map {α β : Type} {x : Except DirFault α} {p : Prop} (h : Settles x p) (f : α → β) :
    Settles (x.map f) p := by
  cases x with
  | error e =>
    refine settles_error (fun he => h.ends (congrArg _ he)) fun hp => ?_
    exact Bool.noConfusion (h.ok_iff.mpr hp)
  | ok a => exact settles_ok _ (h.ok_iff.mp rfl)

/-- One after the other. -/
theorem Settles.bind {α β : Type} {x : Except DirFault α} {f : α → Except DirFault β} {p q : Prop}
    (h : Settles x p) (hf : ∀ a, Settles (f a) q) :
    Settles (x.bind f) (p ∧ q) := by
  cases x with
  | error e =>
    refine settles_error (fun he => h.ends (congrArg _ he)) fun hpq => ?_
    exact Bool.noConfusion (h.ok_iff.mpr hpq.1)
  | ok a => exact ⟨(hf a).ends, (hf a).ok_iff.trans (and_iff_right (h.ok_iff.mp rfl)).symm⟩

theorem Settles.congr {α : Type} {x : Except DirFault α} {p q : Prop} (h : Settles x p) (hpq : p ↔ q) :
    Settles x q :=
  ⟨h.ends, h.ok_iff.trans hpq⟩

theorem entryLeads_iff {p : ℕ} : EntryLeads block limit ptr p ↔ ptr < limit ∧
    (p = ptr ∨ le16 block (ptr + 4) ≠ 0 ∧ EntryLeads block limit (ptr + le16 block (ptr + 4)) p) := by
  constructor
  · rintro (h | ⟨h, hne, hnext⟩)
    · exact ⟨h, Or.inl rfl⟩
    · exact ⟨h, Or.inr ⟨hne, hnext⟩⟩
  · rintro ⟨h, rfl | ⟨hne, hnext⟩⟩
    · exact .here h
    · exact .next h hne hnext

/-- All places to which the lengths lead: the first, and those from the next on. -/
theorem forall_entryLeads_iff {p : ℕ → Prop} (hlt : ptr < limit) (hsize : le16 block (ptr + 4) ≠ 0) :
    (∀ q, EntryLeads block limit ptr q → p q) ↔
      p ptr ∧ ∀ q, EntryLeads block limit (ptr + le16 block (ptr + 4)) q → p q := by
  constructor
  · exact fun h => ⟨h ptr (.here hlt), fun q hq => h q (.next hlt hsize hq)⟩
  · rintro ⟨hfirst, hrest⟩ q hq
    obtain ⟨-, rfl | ⟨-, hnext⟩⟩ := entryLeads_iff.mp hq
    · exact hfirst
    · exact hrest q hnext

variable (fs read typed block ptr) in
theorem entryDirent_settles : Settles (entryDirent fs read typed block ptr)
    (UsedFits fs read typed block ptr) := by
  unfold entryDirent
  by_cases hname : fs.b.blockSize < ptr + 8 + nameLength typed block ptr
  · rw [if_pos hname]
    exact settles_error (by decide) fun h => absurd h.name (by omega)
  rw [if_neg hname]
  have hle : ptr + 8 + nameLength typed block ptr ≤ fs.b.blockSize := by omega
  by_cases hspecial : ext2Name typed block ptr ∈ specialNames
  · rw [if_pos hspecial]
    exact settles_ok _ ⟨hle, fun _ h => absurd hspecial h⟩
  rw [if_neg hspecial]
  cases typed with
  | true => exact settles_ok _ ⟨hle, fun h => Bool.noConfusion h⟩
  | false =>
    rw [if_neg Bool.false_ne_true]
    cases hmode : fs.mode read (le32 block ptr) with
    | none =>
      refine settles_error (by decide) fun h => ?_
      have := h.inode rfl hspecial
      rw [hmode] at this
      cases this
    | some mode => exact settles_ok _ ⟨hle, fun _ _ => by rw [hmode]; exact Option.isSome_some⟩

variable (fs read typed block) in
/-- **The entries of a block.** -/
theorem blockDirents_settles (hlimit : limit ≤ 2 ^ 31) (fuel ptr : ℕ) (hfuel : limit ≤ ptr + fuel) :
    Settles (blockDirents fs read typed block limit fuel ptr)
      (∀ p, EntryLeads block limit ptr p → DirEntryFits fs read typed block p) := by
  induction fuel generalizing ptr with
  | zero =>
    have hge : ¬ ptr < limit := by omega
    rw [blockDirents, if_neg hge]
    exact settles_ok _ fun p hp => absurd (entryLeads_iff.mp hp).1 hge
  | succ fuel ih =>
    rw [blockDirents]
    by_cases hlt : ptr < limit
    swap
    · rw [if_neg hlt]
      exact settles_ok _ fun p hp => absurd (entryLeads_iff.mp hp).1 hlt
    rw [if_pos hlt]
    by_cases hheader : fs.b.blockSize < ptr + 8
    · rw [if_pos hheader]
      exact settles_error (by decide) fun h => absurd (h ptr (.here hlt)).header (by omega)
    rw [if_neg hheader]
    have hle : ptr + 8 ≤ fs.b.blockSize := by omega
    by_cases hsize : le16 block (ptr + 4) = 0
    · rw [if_pos hsize]
      refine settles_ok _ fun p hp => ?_
      obtain ⟨-, rfl | ⟨hne, -⟩⟩ := entryLeads_iff.mp hp
      · exact ⟨hle, fun hne => absurd hsize hne⟩
      · exact absurd hsize hne
    rw [if_neg hsize]
    -- the next entry starts behind this one
    have hsize16 := le16_lt block (ptr + 4)
    rw [u32_of_lt (show ptr + le16 block (ptr + 4) < 2 ^ 32 by omega)]
    have hrest := ih (ptr + le16 block (ptr + 4)) (by omega)
    refine Settles.congr ?_ (forall_entryLeads_iff hlt hsize).symm
    by_cases hused : le32 block ptr = 0
    · rw [if_pos hused]
      exact hrest.congr (and_iff_right ⟨hle, fun _ hne => absurd hused hne⟩).symm
    · rw [if_neg hused]
      have hfits : UsedFits fs read typed block ptr ↔ DirEntryFits fs read typed block ptr :=
        ⟨fun h => ⟨hle, fun _ _ => h⟩, fun h => h.used hsize hused⟩
      exact ((entryDirent_settles fs read typed block ptr).congr hfits).bind fun d =>
        hrest.map fun ds => d :: ds

variable (fs read typed) in
/-- **The blocks of a directory.** -/
theorem dirDirents_settles (hpos : 0 < fs.b.blockSize) (hbs : fs.b.blockSize ≤ 2 ^ 31)
    (inode : Ext2Inode) (blockNo : ℕ → ℕ) (n idx : ℕ) :
    Settles (dirDirents fs read typed inode blockNo n idx)
      (BlocksFit fs read typed inode blockNo n idx) := by
  induction n generalizing idx with
  | zero => exact settles_ok _ fun i hi => absurd hi (Nat.not_lt_zero i)
  | succ n ih =>
    have hsplit : BlocksFit fs read typed inode blockNo (n + 1) idx ↔
        (∃ block, fs.block read (blockNo idx) = some block ∧ ∀ ptr,
          EntryLeads block (fs.blockLimit inode idx) 0 ptr → DirEntryFits fs read typed block ptr) ∧
          BlocksFit fs read typed inode blockNo n (idx + 1) := by
      unfold BlocksFit
      rw [Nat.forall_lt_succ_left']
      simp only [Nat.add_zero, Nat.add_assoc, Nat.add_comm 1]
    refine Settles.congr ?_ hsplit.symm
    rw [dirDirents]
    cases fs.block read (blockNo idx) with
    | none =>
      refine settles_error (by decide) ?_
      rintro ⟨⟨block, hblock, -⟩, -⟩
      cases hblock
    | some block =>
      have hlimit := blockLimit_le inode hpos idx
      simp only [Option.some.injEq, exists_eq_left']
      exact (blockDirents_settles fs read typed block (hlimit.trans hbs) _ 0 (Nat.le_add_left _ _)).bind
        fun ds => (ih (idx + 1)).map fun ds' => ds ++ ds'

/-- A directory whose first entry ends 4 bytes before its block does. -/
def cutVolume : Mem := dirVolume (dirRecordBytes 12 1020 [0x61] 0)

/-- The header of the second entry lies outside of the block. -/
theorem ext2_read_dir_out_of_bounds :
    (∃ s', ext2Init (storeDevice 64) cutVolume = (.ok (dirFs cutVolume), s')) ∧
      typeFlagsUsed (window cutVolume 1024) = false ∧
      faultOf (ext2ReadDir (dirFs cutVolume) false (fun k => 0x1000 * (k + 1)) none cutVolume) =
        some .bounds :=
  ⟨dirFs_init (by decide +kernel), by decide +kernel, by decide +kernel⟩

/-- **The bounds of a directory.** `ext2_read_dir` ends, whatever the blocks hold. It reads only bytes of
the blocks, and accesses no null pointer, if and only if the directory fits. -/
theorem ext2_read_dir_bounds_iff {parent : BlockDevice σ} {inv : σ → Prop} {s₀ s₁ s : σ}
    (h : SteadyReads parent inv read) (hinit : ext2Init parent s₀ = (.ok fs, s₁))
    (hne : fs.b.blockSize ≠ 0) (hs : inv s) (typed : Bool) (addr : ℕ → ℕ) (d : Option Dirent) :
    ext2ReadDir fs typed addr d s ≠ .error .endless ∧
      ((ext2ReadDir fs typed addr d s).isOk ↔ DirFits fs read typed s d) := by
  obtain ⟨rfl, -, -⟩ := ext2Init_ok hinit
  have hbs := blockSize_le hinit
  obtain ⟨s', hrun, -⟩ := ext2ReadDir_eq typed addr h d hs
  have hsettles : Settles (ext2Dirents fs read typed s d) (DirFits fs read typed s d) := by
    unfold ext2Dirents DirFits
    cases fs.inode read (dirInode d) with
    | none => exact settles_error (by decide) fun h => nomatch h
    | some inode =>
      simp only [Option.some.injEq, exists_eq_left']
      exact dirDirents_settles fs read typed (Nat.pos_of_ne_zero hne) hbs inode _ _ 0
  rw [hrun]
  exact ⟨(hsettles.map _).ends, (hsettles.map _).ok_iff⟩

/-- A directory with the file `a`. -/
def fileDirVolume : Mem := dirVolume (dirRecordBytes 12 1024 [0x61] 0)

theorem ext2_read_dir_bounds_iff_file :
    DirFits (dirFs fileDirVolume) (readAt (storeDevice 64) fileDirVolume) false fileDirVolume none := by
  obtain ⟨s', hinit⟩ := dirFs_init
    (by decide +kernel : (ext2Init (storeDevice 64) fileDirVolume).1.toOption.isSome)
  exact (ext2_read_dir_bounds_iff (storeDevice_steady 64 fileDirVolume) hinit (by decide +kernel) rfl
    false (fun _ => 0x1000) none).2.mp (by decide +kernel)

end RpiBoot
