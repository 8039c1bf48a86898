import RpiBoot.Block.Model

/-!
# Partition tables (`mbr.c`)

* `readMbr`: the partitions of a master boot record; each is handed to `register_fs` as it is found.
* `mbrDevice`: a partition as a block device of its own. It adds its first block and checks nothing.
* `BlockDevice.traced`: a device that keeps a list of the writes it is asked for.
-/

namespace RpiBoot

variable {σ : Type}

/-- `struct mbr_block_dev`, in blocks of the parent. -/
structure Partition where
  partNo : ℕ
  partId : ℕ
  startBlock : ℕ
  blocks : ℕ
deriving DecidableEq

/-- The block device of a partition: `mbr_read` and `mbr_write`. -/
def mbrDevice (parent : BlockDevice σ) (p : Partition) : BlockDevice σ :=
  { parent with
    numBlocks := p.blocks
    read := parent.read.map fun rd s buf n b => rd s buf n (u32 (b + p.startBlock))
    write := parent.write.map fun wr s mem buf n b => wr s mem buf n (u32 (b + p.startBlock)) }

section ReadMbr

variable (parent : BlockDevice σ) (register : BlockDevice σ → ℕ → σ → σ)

/-- The loop of `read_mbr` over the table entries; `adjust` is the number of sectors in a block. -/
def readMbrLoop (block0 : Mem) (adjust : ℕ) : List ℕ → List Partition → σ → ℤ × List Partition × σ
  | [], parts, s => (0, parts, s)
  | i :: is, parts, s =>
    let pOffset := 0x1be + i * 0x10
    if block0 (pOffset + 4) = 0 then readMbrLoop block0 adjust is parts s
    else
      let startBlock := le32 block0 (pOffset + 8)
      let blocks := le32 block0 (pOffset + 12)
      if startBlock % adjust ≠ 0 then (-1, parts, s)
      else if blocks % adjust ≠ 0 then (-1, parts, s)
      else
        let p : Partition := ⟨i, (block0 (pOffset + 4)).toNat, startBlock / adjust, blocks / adjust⟩
        readMbrLoop block0 adjust is (parts ++ [p]) (register (mbrDevice parent p) p.partId s)

/-- `read_mbr(parent, partitions, part_count)`: the result, the partitions found, each registered by
`register_fs(dev, part_id)`, and the state of the device. -/
def readMbr (s : σ) : ℤ × List Partition × σ :=
  let r := readFresh parent s 512 0
  let ret := i32 r.1
  if ret < 0 then (ret, [], r.2.2)
  else if ret ≠ 512 then (-1, [], r.2.2)
  else if r.2.1 0x1fe ≠ 0x55 ∨ r.2.1 0x1ff ≠ 0xaa then (-1, [], r.2.2)
  else if parent.blockSize < 512 then (-1, [], r.2.2)
  else if parent.blockSize % 512 ≠ 0 then (-1, [], r.2.2)
  else readMbrLoop parent register r.2.1 (parent.blockSize / 512) (List.range 4) [] r.2.2

variable {parent register}

theorem readMbrLoop_lt {block0 : Mem} {adjust : ℕ} :
    ∀ {is parts s}, (∀ p ∈ parts, p.startBlock < 2 ^ 32 ∧ p.blocks < 2 ^ 32) →
      ∀ p ∈ (readMbrLoop parent register block0 adjust is parts s).2.1,
        p.startBlock < 2 ^ 32 ∧ p.blocks < 2 ^ 32
  | [], _, _, h => h
  | i :: is, parts, s, h => by
    rw [readMbrLoop]
    dsimp only
    split_ifs
    · exact readMbrLoop_lt h
    · exact h
    · exact h
    · refine readMbrLoop_lt fun p hp => ?_
      rcases List.mem_append.mp hp with hp | hp
      · exact h p hp
      · rw [List.mem_singleton.mp hp]
        exact ⟨(Nat.div_le_self _ _).trans_lt (le32_lt _ _), (Nat.div_le_self _ _).trans_lt (le32_lt _ _)⟩

/-- The bounds of a partition are words. -/
theorem readMbr_lt {s : σ} : ∀ p ∈ (readMbr parent register s).2.1,
    p.startBlock < 2 ^ 32 ∧ p.blocks < 2 ^ 32 := by
  unfold readMbr
  dsimp only
  split_ifs
  · simp
  · simp
  · simp
  · simp
  · simp
  · exact readMbrLoop_lt (by simp)

end ReadMbr

/-! ## Observing writes -/

/-- A write that a device was asked for. -/
structure WriteRequest where
  blockNum : ℕ
  size : ℕ
deriving DecidableEq

/-- The device, with a list of the writes it is asked for, also of those that fail. -/
def BlockDevice.traced (dev : BlockDevice σ) : BlockDevice (σ × List WriteRequest) :=
  { dev with
    read := dev.read.map fun rd s buf n b => ((rd s.1 buf n b).1, (rd s.1 buf n b).2, s.2)
    write := dev.write.map fun wr s mem buf n b =>
      ((wr s.1 mem buf n b).1, (wr s.1 mem buf n b).2, s.2 ++ [⟨b, n⟩]) }

/-- The blocks of a write are among the `blocks` blocks from `start` on. -/
def WriteRequest.Within (blockSize start blocks : ℕ) (w : WriteRequest) : Prop :=
  start ≤ w.blockNum ∧ w.blockNum * blockSize + w.size ≤ (start + blocks) * blockSize

end RpiBoot
