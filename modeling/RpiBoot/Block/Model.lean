import RpiBoot.Copy

/-!
# Block devices (`block.h`, `block.c`)

A driver is a pair of functions on its own state. `read` stores bytes at the start of the caller's
buffer, `write` takes bytes from it; both return an `int` that is negative on failure.

* `BlockDevice`: `struct block_device`.
* `blockRead`, `blockWrite`: one request cut into blocks.
-/

namespace RpiBoot

open Store

/-- The outcome of a driver's `read`: its result, and the bytes stored from the start of `buf`. -/
structure ReadReply where
  ret : ℤ
  data : List UInt8
deriving DecidableEq

/-- The outcome of a driver's `write`: its result, and how far into `buf` the driver has read. -/
structure WriteReply where
  ret : ℤ
  reach : ℕ
deriving DecidableEq

/-- `read(dev, buf, buf_size, block_num)`; the address `buf` matters only to its alignment. -/
abbrev ReadFn (σ : Type) := σ → (buf bufSize blockNum : ℕ) → ReadReply × σ

/-- `write(dev, buf, buf_size, block_num)`, from the memory that holds `buf`. -/
abbrev WriteFn (σ : Type) := σ → (mem : Mem) → (buf bufSize blockNum : ℕ) → WriteReply × σ

/-- `struct block_device`; a function pointer may be null. The block size fits an `int`, as the
drivers take it for one. -/
structure BlockDevice (σ : Type) where
  blockSize : ℕ
  numBlocks : ℕ
  supportsMultipleBlockRead : Bool
  supportsMultipleBlockWrite : Bool
  read : Option (ReadFn σ)
  write : Option (WriteFn σ)
  blockSize_pos : 0 < blockSize
  blockSize_lt : blockSize < 2 ^ 31

/-! A sector of 512 bytes is a block size. -/

theorem sector_pos : 0 < 512 := by decide

theorem sector_lt : 512 < 2 ^ 31 := by decide

variable {σ : Type}

/-- The loop of `block_read`, with the buffer, its remaining size and the two offsets. The driver is
tried once (`MAX_TRIES` is 1). Every round takes a block off the size, so there are at most
`buf_size + 1` of them. -/
def blockReadLoop (dev : BlockDevice σ) (rd : ReadFn σ) (buf startingBlock : ℕ) :
    ℕ → σ → Mem → ℕ → ℕ → ℕ → ℕ × Mem × σ
  | 0, s, mem, _, bufOffset, _ => (bufOffset, mem, s)
  | fuel + 1, s, mem, bufSize, bufOffset, blockOffset =>
    let toRead := if bufSize > dev.blockSize then dev.blockSize else bufSize
    let r := rd s (buf + bufOffset) toRead (u32 (startingBlock + blockOffset))
    let mem' := patch mem (buf + bufOffset) r.1.data
    if r.1.ret < 0 then (toU32 r.1.ret, mem', r.2)
    else
      let bufSize' := if bufSize < dev.blockSize then 0 else bufSize - dev.blockSize
      if bufSize' > 0 then
        blockReadLoop dev rd buf startingBlock fuel r.2 mem' bufSize' (bufOffset + toRead)
          (blockOffset + 1)
      else (bufOffset + toRead, mem', r.2)

/-- `block_read(dev, buf, buf_size, starting_block)`: the `size_t` result, the memory with the
buffer filled, and the state of the driver. -/
def blockRead (dev : BlockDevice σ) (s : σ) (mem : Mem) (buf bufSize startingBlock : ℕ) :
    ℕ × Mem × σ :=
  match dev.read with
  | none => (0, mem, s)
  | some rd =>
    if dev.supportsMultipleBlockRead ∧ bufSize / dev.blockSize > 1 then
      let r := rd s buf bufSize startingBlock
      (toU32 r.1.ret, patch mem buf r.1.data, r.2)
    else blockReadLoop dev rd buf startingBlock (bufSize + 1) s mem bufSize 0 0

/-- A `block_read` to a buffer that has just been allocated: the result, the buffer, and the state of
the driver. -/
def readFresh (dev : BlockDevice σ) (s : σ) (bufSize startingBlock : ℕ) : ℕ × Mem × σ :=
  blockRead dev s (fun _ => 0) 0 bufSize startingBlock

/-- The loop of `block_write`. -/
def blockWriteLoop (dev : BlockDevice σ) (wr : WriteFn σ) (mem : Mem) (buf startingBlock : ℕ) :
    ℕ → σ → ℕ → ℕ → ℕ → ℕ × σ
  | 0, s, _, bufOffset, _ => (bufOffset, s)
  | fuel + 1, s, bufSize, bufOffset, blockOffset =>
    let toWrite := if bufSize > dev.blockSize then dev.blockSize else bufSize
    let r := wr s mem (buf + bufOffset) toWrite (u32 (startingBlock + blockOffset))
    if r.1.ret < 0 then (toU32 r.1.ret, r.2)
    else
      let bufSize' := if bufSize < dev.blockSize then 0 else bufSize - dev.blockSize
      if bufSize' > 0 then
        blockWriteLoop dev wr mem buf startingBlock fuel r.2 bufSize' (bufOffset + toWrite)
          (blockOffset + 1)
      else (bufOffset + toWrite, r.2)

/-- `block_write(dev, buf, buf_size, starting_block)`. -/
def blockWrite (dev : BlockDevice σ) (s : σ) (mem : Mem) (buf bufSize startingBlock : ℕ) : ℕ × σ :=
  match dev.write with
  | none => (0, s)
  | some wr => blockWriteLoop dev wr mem buf startingBlock (bufSize + 1) s bufSize 0 0

end RpiBoot
