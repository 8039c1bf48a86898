import RpiBoot.Block.Steady
import RpiBoot.Ext2.Directory

/-!
# ext2 volumes on devices with steady contents

`read` is what the reads of the device deliver. The blocks, the inodes and the block numbers of a file do
not depend on the state of the device.

* `Ext2Fs.block`, `Ext2Fs.inode`, `Ext2Fs.mode`: what the code reads of a volume.
* `readBlock_steady`, `ext2ReadInode_steady`, `ext2ReadMode_steady`: the code reads these.
* `getBlockNoFromInode_steady`: a block number is the same in every state.
-/

namespace RpiBoot

variable {σ : Type}

section Volume

variable (fs : Ext2Fs σ) (read : ℕ → ℕ → ℕ × Mem)

/-- Block `b` as the code reads it, which looks for it at `b * block_size` modulo `2 ^ 32`; `none` is a read
that fails. -/
def Ext2Fs.block (b : ℕ) : Option Mem :=
  let r := read fs.b.blockSize (getSectorNum fs b)
  if i32 r.1 < 0 then none else some r.2

/-- Inode `n`, when its block of the inode table can be read. -/
def Ext2Fs.inode (n : ℕ) : Option Ext2Inode :=
  (fs.block read (inodePlace fs n).1).map fun itable => Ext2Inode.ofBuf itable (inodePlace fs n).2

/-- The mode in inode `n`. -/
def Ext2Fs.mode (n : ℕ) : Option ℕ :=
  (fs.block read (inodePlace fs n).1).map fun itable => le16 itable (inodePlace fs n).2

end Volume

variable {fs : Ext2Fs σ} {inv : σ → Prop} {read : ℕ → ℕ → ℕ × Mem} {s s' : σ}

theorem readBlock_steady (h : SteadyReads fs.b.parent inv read) (hs : inv s) (b : ℕ) :
    ∃ s', readBlock fs s b = (fs.block read b, s') ∧ inv s' := by
  obtain ⟨s', hr, hi⟩ := h s fs.b.blockSize (getSectorNum fs b) hs
  refine ⟨s', ?_, hi⟩
  rw [readBlock, Ext2Fs.block, hr]
  split_ifs <;> rfl

theorem ext2ReadInode_steady (h : SteadyReads fs.b.parent inv read) (hs : inv s) (n : ℕ) :
    ∃ s', ext2ReadInode fs s n = (fs.inode read n, s') ∧ inv s' := by
  obtain ⟨s', hr, hi⟩ := readBlock_steady h hs (inodePlace fs n).1
  exact ⟨s', by simp only [ext2ReadInode, hr, Ext2Fs.inode], hi⟩

theorem ext2ReadMode_steady (h : SteadyReads fs.b.parent inv read) (hs : inv s) (n : ℕ) :
    ∃ s', ext2ReadMode fs s n = (fs.mode read n, s') ∧ inv s' := by
  obtain ⟨s', hr, hi⟩ := readBlock_steady h hs (inodePlace fs n).1
  exact ⟨s', by simp only [ext2ReadMode, hr, Ext2Fs.mode], hi⟩

/-- What follows a read of a block gives the same in every state if it does so for every block. -/
theorem withBlock_steady (h : SteadyReads fs.b.parent inv read) {k : Mem → σ → ℕ × σ}
    (hk : ∀ buf s s', inv s → inv s' → (k buf s).1 = (k buf s').1 ∧ inv (k buf s).2)
    (hs : inv s) (hs' : inv s') (b : ℕ) :
    (withBlock fs s b k).1 = (withBlock fs s' b k).1 ∧ inv (withBlock fs s b k).2 := by
  obtain ⟨t, hr, ht⟩ := readBlock_steady h hs b
  obtain ⟨t', hr', ht'⟩ := readBlock_steady h hs' b
  rw [withBlock, withBlock, hr, hr']
  cases fs.block read b with
  | none => exact ⟨rfl, ht⟩
  | some buf => exact hk buf t t' ht ht'

/-- **The block numbers of a file** do not depend on the state. -/
theorem getBlockNoFromInode_steady (h : SteadyReads fs.b.parent inv read) (hs : inv s) (hs' : inv s')
    (inode : Ext2Inode) (idx : ℕ) :
    (getBlockNoFromInode fs s inode idx).1 = (getBlockNoFromInode fs s' inode idx).1 ∧
      inv (getBlockNoFromInode fs s inode idx).2 := by
  unfold getBlockNoFromInode
  dsimp only
  split_ifs
  · exact ⟨rfl, hs⟩
  · -- one pointer block
    refine withBlock_steady h ?_ hs hs' _
    exact fun _ _ _ hs _ => ⟨rfl, hs⟩
  · -- two
    refine withBlock_steady h ?_ hs hs' _
    intro dib s s' hs hs'
    refine withBlock_steady h ?_ hs hs' _
    exact fun _ _ _ hs _ => ⟨rfl, hs⟩
  · -- three
    refine withBlock_steady h ?_ hs hs' _
    intro tib s s' hs hs'
    refine withBlock_steady h ?_ hs hs' _
    intro dib s s' hs hs'
    refine withBlock_steady h ?_ hs hs' _
    exact fun _ _ _ hs _ => ⟨rfl, hs⟩
  · exact ⟨rfl, hs⟩

end RpiBoot
