import RpiBoot.Directory
import RpiBoot.Ext2.Model
import RpiBoot.Lib.LinkedList

/-!
# ext2 directories (`ext2_read_dir`)

A directory is read block by block, and entry by entry, each as long as it says. For every entry in use
a `struct dirent` is allocated and linked to the one before. `.`, `..` and `lost+found` are freed again
when their names have been read.

* `DirList`: the list as it is built on the heap.
* `ext2ReadEntry`, `ext2EntryLoop`, `ext2DirLoop`: an entry, a block, the blocks.
* `ext2ReadDir`: the directory. It may access a null pointer, or memory outside of a block.
-/

namespace RpiBoot

open Store LinkedList

variable {σ : Type}

/-- How reading a directory goes wrong: an access through a null pointer or outside of a block, or a loop
that has not ended. -/
inductive DirFault where
  | null
  | bounds
  | endless
deriving DecidableEq

/-- The variables `ret` and `prev`, the nodes that have been allocated and not been freed, and the number
of allocations. `dangling` tells that a node was written to after it had been freed. -/
structure DirList where
  ret : ℕ
  prev : ℕ
  heap : Heap Dirent
  mallocs : ℕ
  dangling : Bool

/-- The list before the first entry. -/
def DirList.empty : DirList := ⟨0, 0, fun _ => none, 0, false⟩

/-- A `struct dirent` of zeroes. -/
def zeroDirent : Dirent := ⟨[], List.not_mem_nil, 0, false, 0⟩

/-- `p->next = next`. -/
def DirList.setNext (st : DirList) (p next : ℕ) : DirList :=
  match st.heap p with
  | none => { st with dangling := true }
  | some n => { st with heap := Function.update st.heap p (some (n.1, next)) }

/-- `de = malloc(sizeof(struct dirent))`, which is `ret` if it is the first; `addr k` is the address that
`malloc` returns for node number `k`. -/
def DirList.alloc (addr : ℕ → ℕ) (st : DirList) : DirList :=
  let de := addr st.mallocs
  { st with
    ret := if st.ret = 0 then de else st.ret
    heap := Function.update st.heap de (some (zeroDirent, 0))
    mallocs := st.mallocs + 1 }

/-- Allocate a node and link it to the one before. -/
def DirList.append (addr : ℕ → ℕ) (st : DirList) : DirList :=
  let de := addr st.mallocs
  let st := st.alloc addr
  let st := if st.prev ≠ 0 then st.setNext st.prev de else st
  { st with prev := de }

/-- `free(de)`, for the node that was linked last. -/
def DirList.free (st : DirList) : DirList :=
  { st with heap := Function.update st.heap st.prev none }

/-- Fill in the node that was linked last. -/
def DirList.fill (st : DirList) (d : Dirent) : DirList :=
  { st with heap := Function.update st.heap st.prev (some (d, 0)) }

/-- `.`, `..` and `lost+found`. -/
def specialNames : List (List UInt8) :=
  [[0x2e], [0x2e, 0x2e], [0x6c, 0x6f, 0x73, 0x74, 0x2b, 0x66, 0x6f, 0x75, 0x6e, 0x64]]

instance decidableSpecialName (name : List UInt8) : Decidable (name ∈ specialNames) := inferInstance

/-- `type_flags_used`, from the superblock. -/
def typeFlagsUsed (sb : Mem) : Bool := decide (1 ≤ i32 (le32 sb 76)) && le32 sb 96 &&& 2 != 0

section Entries

variable (fs : Ext2Fs σ) (typed : Bool) (addr : ℕ → ℕ)

/-- `type_permissions` of an inode, as `ext2_read_inode` reads it. -/
def ext2ReadMode (s : σ) (inodeIdx : ℕ) : Option ℕ × σ :=
  let place := inodePlace fs inodeIdx
  let r := readBlock fs s place.1
  (r.1.map fun itable => le16 itable place.2, r.2)

/-- The length of the name of the entry at `ptr`. -/
def nameLength (block : Mem) (ptr : ℕ) : ℕ :=
  if typed then le16 block (ptr + 6) &&& 0xff else le16 block (ptr + 6)

/-- The name of the entry at `ptr`, as a string. -/
def ext2Name (block : Mem) (ptr : ℕ) : List UInt8 :=
  (slice block (ptr + 8) (nameLength typed block ptr)).takeWhile (· != 0)

theorem zero_notMem_ext2Name (block : Mem) (ptr : ℕ) : 0 ∉ ext2Name typed block ptr := fun h => by
  simpa using List.mem_takeWhile_imp h

/-- The `struct dirent` of the entry at `ptr`. -/
def ext2Dirent (block : Mem) (ptr : ℕ) (isDir : Bool) : Dirent :=
  ⟨ext2Name typed block ptr, zero_notMem_ext2Name typed block ptr, 0, isDir, le32 block ptr⟩

/-- The part of the loop of `ext2_read_dir` for an entry in use. -/
def ext2ReadEntry (block : Mem) (ptr : ℕ) (st : DirList) (s : σ) : Except DirFault (DirList × σ) :=
  let st := st.append addr
  if fs.b.blockSize < ptr + 8 + nameLength typed block ptr then .error .bounds
  else if ext2Name typed block ptr ∈ specialNames then .ok (st.free, s)
  else if typed then .ok (st.fill (ext2Dirent typed block ptr (block (ptr + 7) == 2)), s)
  else
    match ext2ReadMode fs s (le32 block ptr) with
    | (none, _) => .error .null
    | (some mode, s) => .ok (st.fill (ext2Dirent typed block ptr (mode &&& 0x2000 != 0)), s)

/-- The loop of `ext2_read_dir` over the entries of a block, up to `limit`. Every round takes an entry of
a byte or more, so that there are `limit` of them at most. -/
def ext2EntryLoop (block : Mem) (limit : ℕ) :
    ℕ → ℕ → DirList → σ → Except DirFault (DirList × σ)
  | 0, ptr, st, s => if ptr < limit then .error .endless else .ok (st, s)
  | fuel + 1, ptr, st, s =>
    if ptr < limit then
      if fs.b.blockSize < ptr + 8 then .error .bounds
      else
        let deEntrySize := le16 block (ptr + 4)
        if deEntrySize = 0 then .ok (st, s)
        else if le32 block ptr = 0 then
          ext2EntryLoop block limit fuel (u32 (ptr + deEntrySize)) st s
        else
          match ext2ReadEntry fs typed addr block ptr st s with
          | .error e => .error e
          | .ok (st, s) => ext2EntryLoop block limit fuel (u32 (ptr + deEntrySize)) st s
    else .ok (st, s)

/-- The number of blocks of a file. -/
def Ext2Fs.fileBlocks (inode : Ext2Inode) : ℕ :=
  if inode.size % fs.b.blockSize ≠ 0 then inode.size / fs.b.blockSize + 1
  else inode.size / fs.b.blockSize

/-- The number of bytes of the file in its block `idx`; the last block may be used in part. -/
def Ext2Fs.blockLimit (inode : Ext2Inode) (idx : ℕ) : ℕ :=
  if idx + 1 = fs.fileBlocks inode ∧ inode.size % fs.b.blockSize ≠ 0 then
    inode.size % fs.b.blockSize
  else fs.b.blockSize

/-- The loop of `ext2_read_dir` over `n` blocks from block `idx` on. -/
def ext2DirLoop (inode : Ext2Inode) : ℕ → ℕ → DirList → σ → Except DirFault (DirList × σ)
  | 0, _, st, s => .ok (st, s)
  | n + 1, idx, st, s =>
    let blockNo := getBlockNoFromInode fs s inode idx
    match readBlock fs blockNo.2 blockNo.1 with
    | (none, _) => .error .null
    | (some block, s) =>
      let limit := fs.blockLimit inode idx
      match ext2EntryLoop fs typed addr block limit limit 0 st s with
      | .error e => .error e
      | .ok (st, s) => ext2DirLoop inode n (idx + 1) st s

/-- The inode of a directory; that of the root directory is `2`. -/
def dirInode : Option Dirent → ℕ
  | none => 2
  | some d => d.opq

/-- `ext2_read_dir(fs, d)`. -/
def ext2ReadDir (d : Option Dirent) (s : σ) : Except DirFault (DirList × σ) :=
  match ext2ReadInode fs s (dirInode d) with
  | (none, _) => .error .null
  | (some inode, s) => ext2DirLoop fs typed addr inode (fs.fileBlocks inode) 0 .empty s

end Entries

end RpiBoot
