import RpiBoot.Ext2.File
import RpiBoot.Ext2.Steady
import RpiBoot.Lib.Bytes

/-!
# The entries of an ext2 directory

On a device with steady contents, what `ext2_read_dir` takes from the blocks of a directory does not
depend on the list it builds.

* `entryDirent`, `blockDirents`, `dirDirents`: the entries in use of a directory, as far as they can be
  taken in.
* `DirList.add`: an entry on its way to the list.
* **`ext2ReadDir_eq`**: the code takes the entries in and adds one after another.
-/

namespace RpiBoot

open Store Bytes

variable {σ : Type}

/-- Add an entry to the list; a special one is freed again. -/
def DirList.add (addr : ℕ → ℕ) (st : DirList) (d : Dirent) : DirList :=
  if d.name ∈ specialNames then (st.append addr).free else (st.append addr).fill d

section Entries

variable (fs : Ext2Fs σ) (read : ℕ → ℕ → ℕ × Mem) (typed : Bool)

/-- The `struct dirent` of the entry in use at `ptr`; that of a special one is not filled in. -/
def entryDirent (block : Mem) (ptr : ℕ) : Except DirFault Dirent :=
  if fs.b.blockSize < ptr + 8 + nameLength typed block ptr then .error .bounds
  else if ext2Name typed block ptr ∈ specialNames then .ok (ext2Dirent typed block ptr false)
  else if typed then .ok (ext2Dirent typed block ptr (block (ptr + 7) == 2))
  else
    match fs.mode read (le32 block ptr) with
    | none => .error .null
    | some mode => .ok (ext2Dirent typed block ptr (mode &&& 0x2000 != 0))

/-- The entries in use of a block from `ptr` on. -/
def blockDirents (block : Mem) (limit : ℕ) : ℕ → ℕ → Except DirFault (List Dirent)
  | 0, ptr => if ptr < limit then .error .endless else .ok []
  | fuel + 1, ptr =>
    if ptr < limit then
      if fs.b.blockSize < ptr + 8 then .error .bounds
      else if le16 block (ptr + 4) = 0 then .ok []
      else if le32 block ptr = 0 then blockDirents block limit fuel (u32 (ptr + le16 block (ptr + 4)))
      else
        (entryDirent fs read typed block ptr).bind fun d =>
          (blockDirents block limit fuel (u32 (ptr + le16 block (ptr + 4)))).map fun ds => d :: ds
    else .ok []

/-- The entries in use of `n` blocks of a directory from block `idx` on. -/
def dirDirents (inode : Ext2Inode) (blockNo : ℕ → ℕ) : ℕ → ℕ → Except DirFault (List Dirent)
  | 0, _ => .ok []
  | n + 1, idx =>
    match fs.block read (blockNo idx) with
    | none => .error .null
    | some block =>
      (blockDirents fs read typed block (fs.blockLimit inode idx) (fs.blockLimit inode idx) 0).bind
        fun ds => (dirDirents inode blockNo n (idx + 1)).map fun ds' => ds ++ ds'

/-- The entries in use of the directory `d`, which is read in state `s`. -/
def ext2Dirents (s : σ) (d : Option Dirent) : Except DirFault (List Dirent) :=
  match fs.inode read (dirInode d) with
  | none => .error .null
  | some inode =>
    dirDirents fs read typed inode (fun idx => (getBlockNoFromInode fs s inode idx).1)
      (fs.fileBlocks inode) 0

end Entries

variable {fs : Ext2Fs σ} {inv : σ → Prop} {read : ℕ → ℕ → ℕ × Mem} {typed : Bool} {addr : ℕ → ℕ}
  {block : Mem} {ptr limit : ℕ} {st : DirList} {s : σ}

theorem blockLimit_le (inode : Ext2Inode) (hpos : 0 < fs.b.blockSize) (idx : ℕ) :
    fs.blockLimit inode idx ≤ fs.b.blockSize := by
  unfold Ext2Fs.blockLimit
  split_ifs
  · exact (Nat.mod_lt _ hpos).le
  · exact le_rfl

variable (typed addr block ptr st) in
/-- An entry is taken in, and then added. -/
theorem ext2ReadEntry_eq (h : SteadyReads fs.b.parent inv read) (hs : inv s) :
    ∃ s', ext2ReadEntry fs typed addr block ptr st s =
      (entryDirent fs read typed block ptr).map (fun d => (st.add addr d, s')) ∧ inv s' := by
  unfold ext2ReadEntry entryDirent
  dsimp only
  by_cases hbounds : fs.b.blockSize < ptr + 8 + nameLength typed block ptr
  · rw [if_pos hbounds, if_pos hbounds]
    exact ⟨s, rfl, hs⟩
  rw [if_neg hbounds, if_neg hbounds]
  by_cases hspecial : ext2Name typed block ptr ∈ specialNames
  · rw [if_pos hspecial, if_pos hspecial]
    exact ⟨s, congrArg (fun t => Except.ok (t, s)) (if_pos hspecial).symm, hs⟩
  rw [if_neg hspecial, if_neg hspecial]
  have hadd : ∀ isDir, (st.append addr).fill (ext2Dirent typed block ptr isDir) =
      st.add addr (ext2Dirent typed block ptr isDir) := fun isDir => (if_neg hspecial).symm
  by_cases ht : typed = true
  · rw [if_pos ht, if_pos ht, hadd]
    exact ⟨s, rfl, hs⟩
  · rw [if_neg ht, if_neg ht]
    obtain ⟨s', hr, hs'⟩ := ext2ReadMode_steady h hs (le32 block ptr)
    refine ⟨s', ?_, hs'⟩
    rw [hr]
    cases fs.mode read (le32 block ptr) with
    | none => rfl
    | some mode => exact congrArg (fun t => Except.ok (t, s')) (hadd _)

variable (typed addr block limit) in
/-- The entries of a block are taken in and added. -/
theorem ext2EntryLoop_eq (h : SteadyReads fs.b.parent inv read) (fuel ptr : ℕ) (st : DirList)
    (hs : inv s) :
    ∃ s', ext2EntryLoop fs typed addr block limit fuel ptr st s =
      (blockDirents fs read typed block limit fuel ptr).map
        (fun ds => (ds.foldl (DirList.add addr) st, s')) ∧ inv s' := by
  induction fuel generalizing ptr st s with
  | zero =>
    refine ⟨s, ?_, hs⟩
    rw [ext2EntryLoop, blockDirents]
    split_ifs <;> rfl
  | succ fuel ih =>
    rw [ext2EntryLoop, blockDirents]
    dsimp only
    by_cases hlim : ptr < limit
    swap
    · rw [if_neg hlim, if_neg hlim]
      exact ⟨s, rfl, hs⟩
    rw [if_pos hlim, if_pos hlim]
    by_cases hbounds : fs.b.blockSize < ptr + 8
    · rw [if_pos hbounds, if_pos hbounds]
      exact ⟨s, rfl, hs⟩
    rw [if_neg hbounds, if_neg hbounds]
    by_cases hsize : le16 block (ptr + 4) = 0
    · rw [if_pos hsize, if_pos hsize]
      exact ⟨s, rfl, hs⟩
    rw [if_neg hsize, if_neg hsize]
    by_cases hused : le32 block ptr = 0
    · rw [if_pos hused, if_pos hused]
      exact ih _ st hs
    rw [if_neg hused, if_neg hused]
    obtain ⟨s₁, he, hs₁⟩ := ext2ReadEntry_eq typed addr block ptr st h hs
    rw [he]
    cases entryDirent fs read typed block ptr with
    | error e => exact ⟨s, rfl, hs⟩
    | ok d =>
      obtain ⟨s', hl, hs'⟩ := ih (u32 (ptr + le16 block (ptr + 4))) (st.add addr d) hs₁
      refine ⟨s', hl.trans ?_, hs'⟩
      cases blockDirents fs read typed block limit fuel (u32 (ptr + le16 block (ptr + 4))) <;> rfl

variable (typed addr) in
/-- The blocks of a directory; `blockNo` are their numbers. -/
theorem ext2DirLoop_eq (h : SteadyReads fs.b.parent inv read) {inode : Ext2Inode} {blockNo : ℕ → ℕ}
    (hno : ∀ s idx, inv s → (getBlockNoFromInode fs s inode idx).1 = blockNo idx ∧
      inv (getBlockNoFromInode fs s inode idx).2) (n idx : ℕ) (st : DirList) (hs : inv s) :
    ∃ s', ext2DirLoop fs typed addr inode n idx st s =
      (dirDirents fs read typed inode blockNo n idx).map
        (fun ds => (ds.foldl (DirList.add addr) st, s')) ∧ inv s' := by
  induction n generalizing idx st s with
  | zero => exact ⟨s, rfl, hs⟩
  | succ n ih =>
    obtain ⟨hblock, hs₁⟩ := hno s idx hs
    obtain ⟨s₂, hr, hs₂⟩ := readBlock_steady h hs₁ (getBlockNoFromInode fs s inode idx).1
    rw [ext2DirLoop, dirDirents]
    dsimp only
    rw [hr, hblock]
    cases fs.block read (blockNo idx) with
    | none => exact ⟨s, rfl, hs⟩
    | some block =>
      dsimp only
      obtain ⟨s₃, hl, hs₃⟩ := ext2EntryLoop_eq typed addr block (fs.blockLimit inode idx) h
        (fs.blockLimit inode idx) 0 st hs₂
      rw [hl]
      cases blockDirents fs read typed block (fs.blockLimit inode idx) (fs.blockLimit inode idx) 0 with
      | error e => exact ⟨s, rfl, hs⟩
      | ok ds =>
        obtain ⟨s', hd, hs'⟩ := ih (idx + 1) (ds.foldl (DirList.add addr) st) hs₃
        refine ⟨s', hd.trans ?_, hs'⟩
        cases dirDirents fs read typed inode blockNo n (idx + 1) with
        | error e => rfl
        | ok ds' => exact congrArg (fun t => Except.ok (t, s')) List.foldl_append.symm

variable (typed addr) in
/-- **`ext2_read_dir` takes the entries in and adds one after another.** -/
theorem ext2ReadDir_eq (h : SteadyReads fs.b.parent inv read) (d : Option Dirent) (hs : inv s) :
    ∃ s', ext2ReadDir fs typed addr d s = (ext2Dirents fs read typed s d).map
      (fun ds => (ds.foldl (DirList.add addr) .empty, s')) ∧ inv s' := by
  obtain ⟨s₁, hr, hs₁⟩ := ext2ReadInode_steady h hs (dirInode d)
  rw [ext2ReadDir, ext2Dirents, hr]
  cases fs.inode read (dirInode d) with
  | none => exact ⟨s, rfl, hs⟩
  | some inode =>
    exact ext2DirLoop_eq typed addr h
      (fun t idx ht => getBlockNoFromInode_steady h ht hs inode idx) (fs.fileBlocks inode) 0 .empty hs₁

/-! ## Small directories -/

/-- The bytes of an entry. -/
def dirRecordBytes (inode size : ℕ) (name : List UInt8) (type : UInt8) : List UInt8 :=
  toBytes 4 inode ++ toBytes 2 size ++ [UInt8.ofNat name.length, type] ++ name ++
    List.replicate (size - 8 - name.length) 0

/-- `holeVolume` with a root directory of 1 KiB in block 9. -/
def dirVolume (entries : List UInt8) : Mem :=
  patch (patch holeVolume (5 * 1024 + 128)
    ([0xed, 0x41, 0, 0, 0, 4, 0, 0] ++ List.replicate 32 0 ++ [9] ++ List.replicate 87 0))
    (9 * 1024) entries

/-- The `struct ext2_fs` of a volume that `ext2_init` accepts. -/
def dirFs (vol : Mem) : Ext2Fs Mem := (ext2Init (storeDevice 64) vol).1.toOption.getD holeFs

theorem dirFs_init {vol : Mem} (h : (ext2Init (storeDevice 64) vol).1.toOption.isSome) :
    ∃ s', ext2Init (storeDevice 64) vol = (.ok (dirFs vol), s') := by
  obtain ⟨v, hv⟩ := Option.isSome_iff_exists.mp h
  obtain ⟨fs, s', hinit, -⟩ := exists_ext2Init (f := id) (v := v) (by rw [hv, Option.map_id_apply])
  refine ⟨s', ?_⟩
  rw [dirFs, hinit]
  rfl

/-- The fault of a run. -/
def faultOf {α : Type} : Except DirFault α → Option DirFault
  | .error e => some e
  | .ok _ => none

end RpiBoot
