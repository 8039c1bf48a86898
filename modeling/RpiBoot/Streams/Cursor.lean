import RpiBoot.Fat.File
import RpiBoot.Lib.Run
import RpiBoot.Libfs.Read
import RpiBoot.Streams.Model

/-!
# The position of a stream

POSIX gives a stream a cursor between `0` and the size of the file. The position of a stream keeps to
it, for either `fseek`, except that `SEEK_END` counts back from the end of the file.

* `CursorStep`: the calls on a cursor.
* `Moved`, **`fsFread_moved`**: `fs_fread` moves the position by the bytes it reports, when no block
  that it reads whole fails.
* `StreamFs.fseek_spec`: the two `fseek`, as one.
* **`stream_cursor_iff`**: over any run, a stream follows the cursor if and only if every `SEEK_END`
  has offset `0`, or the file is empty.
-/

namespace RpiBoot

open Runs

variable {σ ο : Type}

/-! ## The cursor -/

/-- The place between `0` and `size` that a place outside stands for. -/
def clampTo (size z : ℤ) : ℤ := min (max z 0) size

/-- What a call on a file of `size` bytes returns and makes of its cursor, in POSIX. A read moves the
cursor by the bytes it could read, at most by those asked for and there. -/
def CursorStep (size cursor : ℤ) : StreamCall → (reply cursor' : ℤ) → Prop
  | .fseek offset .set, reply, cursor' => reply = 0 ∧ cursor' = clampTo size offset
  | .fseek offset .cur, reply, cursor' => reply = 0 ∧ cursor' = clampTo size (cursor + offset)
  | .fseek offset .stop, reply, cursor' => reply = 0 ∧ cursor' = clampTo size (size + offset)
  | .fseek _ .bad, reply, cursor' => reply = -1 ∧ cursor' = cursor
  | .ftell, reply, cursor' => reply = cursor ∧ cursor' = cursor
  | .fread _ _ memb nmemb, reply, cursor' => ∃ k : ℕ, k ≤ u32 (memb * nmemb) ∧ k ≤ size - cursor ∧
      cursor' = cursor + k ∧ (reply = (k / memb : ℕ) ∨ k = 0)

/-- The first byte of the file in the numbering of `pos`: nofs hides the byte order mark. -/
def StreamFs.base : StreamFs σ → ℤ
  | fat _ _ | ext2 _ _ => 0
  | nofs _ => 3

theorem StreamFs.base_nonneg (S : StreamFs σ) : 0 ≤ S.base := by cases S <;> simp [base]

theorem StreamFs.base_le (S : StreamFs σ) : S.base ≤ 3 := by cases S <;> simp [base]

/-- The position of a stream, and the size of its file. -/
def StreamFs.cursor (S : StreamFs σ) (stream : Stream) : ℤ := stream.pos - S.base

def StreamFs.size (S : StreamFs σ) (stream : Stream) : ℤ := stream.len - S.base

/-- The position is in the file, and the file is of less than a GiB. -/
structure StreamFs.InFile (S : StreamFs σ) (stream : Stream) : Prop where
  cursor_nonneg : 0 ≤ S.cursor stream
  cursor_le : S.cursor stream ≤ S.size stream
  size_lt : S.size stream < 2 ^ 30

/-! ## Reading -/

section Loop

variable (getNext : GetNext σ ο) (fs : Fs σ) (temp : ℕ → ℕ) (r : Span)

/-- The round reads a block whole, and `block_read` gives no number of bytes up to the size asked for:
it has failed. -/
def RoundFails (st : FreadState σ ο) : Prop :=
  let off := r.offsets fs.blockSize st.curBlock
  let g := getNext st.curBlock false st.opq st.io
  g.1 ≠ noBlock ∧ (off.1 = 0 ∧ sub32 off.2 off.1 = fs.blockSize) ∧
    fs.blockSize < (blockRead fs.parent g.2.2.dev g.2.2.mem st.saveBuf fs.blockSize g.1).1

/-- One of the rounds that the loop makes fails. -/
def LoopFails : ℕ → FreadState σ ο → Prop
  | 0, _ => False
  | fuel + 1, st => st.curBlock ≤ r.lastFBlockIdx ∧ (RoundFails getNext fs r st ∨
      ∃ st', fsFreadRound getNext fs temp r st = .ok st' ∧ LoopFails fuel st')

end Loop

/-- A call of `fs_fread` meets a block that it reads whole and that fails. -/
def FsFreadFails (getNext : GetNext σ ο) (fs : Fs σ) (temp : ℕ → ℕ) (opq : ο) (ptr byteSize : ℕ)
    (io : FileIo σ) : Prop :=
  let r := span fs.blockSize (toU32 io.file.pos) byteSize
  LoopFails getNext fs temp r (r.lastFBlockIdx + 1 - r.firstFBlockIdx)
    ⟨r.firstFBlockIdx, ptr, 0, opq, io⟩

/-- A lookup does not move the file. -/
def KeepsPlace (getNext : GetNext σ ο) : Prop :=
  ∀ idx addBlocks opq io, (getNext idx addBlocks opq io).2.2.file.pos = io.file.pos ∧
    (getNext idx addBlocks opq io).2.2.file.len = io.file.len

/-- A transfer of at most `n` bytes from `pos` on has moved the position by what it reports. -/
def Moved (pos n : ℕ) (len : ℤ) (ret : ℕ × FileIo σ) : Prop :=
  ret.1 ≤ n ∧ ret.2.file.pos = (pos + ret.1 : ℕ) ∧ ret.2.file.len = len

/-- The place of a read at the start of a round. -/
structure PlaceAt (bs pos n : ℕ) (len : ℤ) (st : FreadState σ ο) : Prop where
  pos_eq : st.io.file.pos = reach bs pos (pos + n) st.curBlock
  len_eq : st.io.file.len = len
  total_eq : st.totalBytesRead = (reach bs pos (pos + n) st.curBlock - pos : ℕ)

section Rounds

variable {getNext : GetNext σ ο} {fs : Fs σ} {temp : ℕ → ℕ} {pos n : ℕ} {len : ℤ}
  {st st' : FreadState σ ο}

theorem PlaceAt.moved (h : PlaceAt fs.blockSize pos n len st) (hn : n < 2 ^ 32) :
    Moved pos n len (toU32 st.totalBytesRead, st.io) := by
  have hle := reach_le fs.blockSize pos (pos + n) st.curBlock
  have hle' := le_reach fs.blockSize st.curBlock (Nat.le_add_right pos n)
  rw [Moved, h.total_eq, toU32_natCast (by omega), h.pos_eq]
  exact ⟨by omega, by dsimp only; omega, h.len_eq⟩

/-- Where a round ends that transfers `k` of its bytes. -/
theorem PlaceAt.advance {p m k : ℕ} {mem : Mem} {dev : σ} {io : FileIo σ}
    (h : PlaceAt fs.blockSize pos n len st) (hr : Round fs.blockSize pos n st.curBlock p m)
    (hio : io.file.pos = st.io.file.pos ∧ io.file.len = st.io.file.len) (hk : k ≤ m)
    (hn : n < 2 ^ 32) : Moved pos n len (toU32 (st.totalBytesRead + k),
      ({ io with mem := mem, dev := dev } : FileIo σ).advance k) := by
  have hp := hr.pos_le
  have hs := hr.le_stop
  obtain ⟨hpos, hlen, htotal⟩ := h
  rw [hr.start_eq] at hpos htotal
  have htotal' : st.totalBytesRead + k = (p - pos + k : ℕ) := by rw [htotal, Nat.cast_add]
  rw [Moved, htotal', toU32_natCast (by omega)]
  refine ⟨by dsimp only; omega, ?_, hio.2.trans hlen⟩
  simp only [FileIo.advance, hio.1, hpos]
  omega

/-- Where a round ends that transfers all its bytes. -/
theorem PlaceAt.next {p m buf : ℕ} {opq : ο} {mem : Mem} {dev : σ} {io : FileIo σ}
    (h : PlaceAt fs.blockSize pos n len st) (hr : Round fs.blockSize pos n st.curBlock p m)
    (hio : io.file.pos = st.io.file.pos ∧ io.file.len = st.io.file.len) :
    PlaceAt fs.blockSize pos n len ⟨st.curBlock + 1, buf, st.totalBytesRead + m, opq,
      ({ io with mem := mem, dev := dev } : FileIo σ).advance m⟩ := by
  have hp := hr.pos_le
  obtain ⟨hpos, hlen, htotal⟩ := h
  rw [hr.start_eq] at hpos htotal
  refine ⟨?_, hio.2.trans hlen, ?_⟩
  · simp only [FileIo.advance, hio.1, hpos, hr.stop_eq, Nat.cast_add]
  · rw [htotal, hr.stop_eq]
    dsimp only
    omega

/-- **One round.** -/
theorem fsFreadRound_moved (temp : ℕ → ℕ) (hkeep : KeepsPlace getNext) (hbs : 0 < fs.blockSize)
    (hlt : fs.blockSize < 2 ^ 32) (hn : pos + n < 2 ^ 31)
    (h₁ : pos / fs.blockSize ≤ st.curBlock) (h₂ : st.curBlock ≤ (pos + n) / fs.blockSize)
    (hfail : ¬ RoundFails getNext fs (span fs.blockSize pos n) st)
    (hat : PlaceAt fs.blockSize pos n len st) :
    match fsFreadRound getNext fs temp (span fs.blockSize pos n) st with
    | .ok st' => PlaceAt fs.blockSize pos n len st'
    | .error ret => Moved pos n len ret := by
  obtain ⟨p, m, hr⟩ := exists_round hbs hn hlt h₁ h₂
  have hm : m ≤ n := by
    have := hr.pos_le
    have := hr.le_stop
    omega
  have hio := hkeep st.curBlock false st.opq st.io
  simp only [RoundFails, hr.offsets_eq, hr.segment_eq] at hfail
  simp only [fsFreadRound, hr.offsets_eq, hr.segment_eq]
  by_cases hno : (getNext st.curBlock false st.opq st.io).1 = noBlock
  · rw [if_pos hno]
    have hat' : PlaceAt fs.blockSize pos n len
        { st with io := (getNext st.curBlock false st.opq st.io).2.2 } :=
      ⟨hio.1.trans hat.pos_eq, hio.2.trans hat.len_eq, hat.total_eq⟩
    exact hat'.moved (by omega)
  rw [if_neg hno]
  by_cases hwhole : p - st.curBlock * fs.blockSize = 0 ∧ m = fs.blockSize
  · rw [if_pos hwhole]
    obtain ⟨-, rfl⟩ := id hwhole
    -- the read has not failed, so the `int` is the number of its bytes
    have hle := not_lt.mp fun h => hfail ⟨hno, hwhole, h⟩
    rw [i32_of_lt (by omega)]
    by_cases hall : (blockRead fs.parent (getNext st.curBlock false st.opq st.io).2.2.dev
        (getNext st.curBlock false st.opq st.io).2.2.mem st.saveBuf fs.blockSize
        (getNext st.curBlock false st.opq st.io).1).1 = fs.blockSize
    · rw [if_neg (not_not.mpr hall), hall]
      exact hat.next hr hio
    · rw [if_pos hall]
      exact hat.advance hr hio (by omega) (by omega)
  · rw [if_neg hwhole]
    have hcut : ∀ bytes, cutSegment (p - st.curBlock * fs.blockSize)
        (p + m - st.curBlock * fs.blockSize) bytes ≤ m := fun bytes => by
      have := hr.block_le
      unfold cutSegment
      dsimp only
      split_ifs <;> omega
    by_cases hall : (blockRead fs.parent (getNext st.curBlock false st.opq st.io).2.2.dev
        (getNext st.curBlock false st.opq st.io).2.2.mem (temp st.curBlock) fs.blockSize
        (getNext st.curBlock false st.opq st.io).1).1 = fs.blockSize
    · rw [if_neg (not_not.mpr hall), hall, hr.cutSegment_eq]
      exact hat.next hr hio
    · rw [if_pos hall]
      exact hat.advance hr hio (hcut _) (by omega)

/-- **The loop.** -/
theorem fsFreadLoop_moved (hkeep : KeepsPlace getNext) (hbs : 0 < fs.blockSize)
    (hlt : fs.blockSize < 2 ^ 32) (hn : pos + n < 2 ^ 31) :
    ∀ fuel (st : FreadState σ ο), pos / fs.blockSize ≤ st.curBlock →
      ¬ LoopFails getNext fs temp (span fs.blockSize pos n) fuel st →
      PlaceAt fs.blockSize pos n len st →
      Moved pos n len (fsFreadLoop getNext fs temp (span fs.blockSize pos n) fuel st) := by
  intro fuel
  induction fuel with
  | zero => exact fun st _ _ hat => hat.moved (by omega)
  | succ fuel ih =>
    intro st h₁ hfail hat
    rw [fsFreadLoop]
    split_ifs with hlast
    · have h₂ : st.curBlock ≤ (pos + n) / fs.blockSize := by
        simpa only [span, u32_of_lt (show pos + n < 2 ^ 32 by omega)] using hlast
      have hround := fsFreadRound_moved temp hkeep hbs hlt hn h₁ h₂
        (fun h => hfail ⟨hlast, Or.inl h⟩) hat
      cases hst : fsFreadRound getNext fs temp (span fs.blockSize pos n) st with
      | error ret =>
        rw [hst] at hround
        exact hround
      | ok st' =>
        rw [hst] at hround
        have hcur := (fsFreadRound_ok hst).1
        exact ih st' (by omega) (fun h => hfail ⟨hlast, Or.inr ⟨st', hst, h⟩⟩) hround
    · exact hat.moved (by omega)

/-- **`fs_fread` moves the position by the bytes it reports.** -/
theorem fsFread_moved (hkeep : KeepsPlace getNext) (hbs : 0 < fs.blockSize)
    (hlt : fs.blockSize < 2 ^ 32) (hn : pos + n < 2 ^ 31) {opq : ο} {ptr : ℕ} {io : FileIo σ}
    (hpos : io.file.pos = pos) (hfail : ¬ FsFreadFails getNext fs temp opq ptr n io) :
    Moved pos n io.file.len (fsFread getNext fs temp opq ptr n io) := by
  have hfirst : reach fs.blockSize pos (pos + n) (pos / fs.blockSize) = pos :=
    reach_first (Nat.le_add_right _ _)
  simp only [FsFreadFails, hpos, toU32_natCast (show pos < 2 ^ 32 by omega)] at hfail
  simp only [fsFread, hpos, toU32_natCast (show pos < 2 ^ 32 by omega)]
  refine fsFreadLoop_moved hkeep hbs hlt hn _ _ le_rfl hfail ⟨?_, rfl, ?_⟩
  · dsimp only [span]
    rw [hfirst, hpos]
  · dsimp only [span]
    rw [hfirst, Nat.sub_self, Nat.cast_zero]

end Rounds

/-! ## The three filesystems -/

theorem fat_keepsPlace (fs : FatFs σ) : KeepsPlace (fatGetNextBdevBlockNum fs) := by
  intro idx addBlocks opq io
  simp only [fatGetNextBdevBlockNum]
  split_ifs <;> exact ⟨rfl, rfl⟩

theorem ext2_keepsPlace (fs : Ext2Fs σ) : KeepsPlace (ext2GetNextBdevBlockNum fs) :=
  fun _ _ _ _ => ⟨rfl, rfl⟩

theorem nofs_keepsPlace (fs : Fs σ) : KeepsPlace (nofsGetNextBdevBlockNum fs) := by
  intro idx addBlocks opq io
  simp only [nofsGetNextBdevBlockNum]
  split_ifs <;> exact ⟨rfl, rfl⟩

/-- The filesystem's `fread` meets a block that it reads whole and that fails. -/
def StreamFs.FreadFails (temp : ℕ → ℕ) (ptr byteSize : ℕ) (io : FileIo σ) : StreamFs σ → Prop
  | fat fs cluster => cluster ≠ 0 ∧
    FsFreadFails (fatGetNextBdevBlockNum fs) fs.b temp ⟨0, cluster⟩ ptr byteSize io
  | ext2 fs inodeIdx => inodeIdx ≠ 0 ∧
    FsFreadFails (ext2GetNextBdevBlockNum fs) fs.b temp
      ((ext2ReadInode fs io.dev inodeIdx).1.getD (Ext2Inode.ofBuf io.mem 0)) ptr byteSize
      { io with dev := (ext2ReadInode fs io.dev inodeIdx).2 }
  | nofs fs => FsFreadFails (nofsGetNextBdevBlockNum fs) fs temp () ptr byteSize io

/-- A filesystem's `fread` moves the position by the bytes it reports, or reports an error and does not
move it. -/
theorem StreamFs.fread_moved (S : StreamFs σ) (hbs : 0 < S.shared.blockSize)
    (hlt : S.shared.blockSize < 2 ^ 32) {temp : ℕ → ℕ} {ptr pos n : ℕ} {io : FileIo σ}
    (hn : pos + n < 2 ^ 31) (hpos : io.file.pos = pos) (hfail : ¬ S.FreadFails temp ptr n io) :
    Moved pos n io.file.len (S.functions.fread temp ptr n io) ∨
      (S.functions.fread temp ptr n io).2 = io := by
  cases S with
  | fat fs cluster =>
    simp only [functions, fatFread]
    split_ifs with hc
    · exact Or.inr rfl
    · exact Or.inl (fsFread_moved (fat_keepsPlace fs) hbs hlt hn hpos fun h => hfail ⟨hc, h⟩)
  | ext2 fs inodeIdx =>
    simp only [functions, ext2Fread]
    split_ifs with hc
    · exact Or.inr rfl
    · have hpos' : ({ io with dev := (ext2ReadInode fs io.dev inodeIdx).2 } : FileIo σ).file.pos = pos :=
        hpos
      exact Or.inl (fsFread_moved (ext2_keepsPlace fs) hbs hlt hn hpos' fun h => hfail ⟨hc, h⟩)
  | nofs fs => exact Or.inl (fsFread_moved (nofs_keepsPlace fs) hbs hlt hn hpos hfail)

/-! ## Seeking -/

/-- The place that `fseek` computes: `SEEK_END` counts back from the end. -/
def seekPlace (size cursor offset : ℤ) : Whence → ℤ
  | .set => offset
  | .cur => cursor + offset
  | .stop => size - offset
  | .bad => cursor

/-- **`fseek` on a stream**, with or without a function of the filesystem, when its sum fits a `long`. -/
theorem StreamFs.fseek_spec (S : StreamFs σ) {stream : Stream} (h : S.InFile stream) {offset : ℤ}
    (h₁ : -2 ^ 30 < offset) (h₂ : offset < 2 ^ 30) {whence : Whence}
    (hsum : S.base + seekPlace (S.size stream) (S.cursor stream) offset whence < 2 ^ 31) :
    vfsFseek S.functions stream offset whence = (if whence = .bad then -1 else 0,
      { stream with
        pos := S.base + clampTo (S.size stream) (seekPlace (S.size stream) (S.cursor stream) offset whence) }) := by
  obtain ⟨hnonneg, hle, hlt⟩ := h
  have hbad : stream = { stream with pos := S.base + clampTo (S.size stream) (S.cursor stream) } := by
    have : S.base + clampTo (S.size stream) (S.cursor stream) = stream.pos := by
      rw [clampTo, max_eq_left hnonneg, min_eq_left hle]
      unfold StreamFs.cursor
      omega
    rw [this]
  cases S with
  | fat fs cluster | ext2 fs inodeIdx =>
    simp only [cursor, size, base, sub_zero, zero_add] at hnonneg hle hlt hsum
    cases whence with
    | bad => exact Prod.ext rfl hbad
    | set =>
      simp only [vfsFseek, functions, fseek, seekPlace, size, base, clampTo, reduceCtorEq, if_false,
        sub_zero, zero_add]
      congr 2
      split_ifs <;> omega
    | cur | stop =>
      simp only [seekPlace] at hsum
      simp only [vfsFseek, functions, fseek, seekPlace, cursor, size, base, clampTo, reduceCtorEq,
        if_false, sub_zero, zero_add]
      rw [long_of_range (by omega) hsum]
      congr 2
      split_ifs <;> omega
  | nofs fs =>
    simp only [cursor, size, base] at hnonneg hle hlt hsum
    cases whence with
    | bad => exact Prod.ext rfl hbad
    | set | cur | stop =>
      simp only [seekPlace] at hsum
      simp only [vfsFseek, functions, nofsFseek, seekPlace, cursor, size, base, clampTo, reduceCtorEq,
        if_false]
      rw [long_of_range (by omega) (by omega)]
      congr 2
      split_ifs <;> omega

/-- `ftell` returns the position. -/
theorem StreamFs.ftell_eq (S : StreamFs σ) (stream : Stream) :
    vfsFtell S.functions stream = S.cursor stream := by
  cases S with
  | fat | ext2 => exact (sub_zero _).symm
  | nofs => rfl

/-- A place within the file. -/
theorem StreamFs.InFile.move {S : StreamFs σ} {stream : Stream} (h : S.InFile stream) (z : ℤ) :
    S.cursor { stream with pos := S.base + clampTo (S.size stream) z } = clampTo (S.size stream) z ∧
    S.InFile { stream with pos := S.base + clampTo (S.size stream) z } := by
  obtain ⟨hnonneg, hle, hlt⟩ := h
  have hc : S.cursor { stream with pos := S.base + clampTo (S.size stream) z } =
      clampTo (S.size stream) z := add_sub_cancel_left _ _
  refine ⟨hc, ?_, ?_, hlt⟩
  · rw [hc]
    unfold clampTo
    omega
  · rw [hc]
    exact min_le_right _ _

/-! ## Runs -/

namespace StreamFs

variable (S : StreamFs σ)

/-- The stream follows the cursor in a call, which leaves it in the file; and going to the position that
`ftell` returns is no move. -/
def Follows (io : FileIo σ) (call : StreamCall) : Prop :=
  let r := streamStep S.functions io call
  CursorStep (S.size io.file) (S.cursor io.file) call r.1 (S.cursor r.2.file) ∧
    S.size r.2.file = S.size io.file ∧ S.InFile r.2.file ∧
    vfsFseek S.functions r.2.file (vfsFtell S.functions r.2.file) .set = (0, r.2.file)

/-- The sum of a seek fits a `long`, and no block that a read takes whole fails. -/
def Undisturbed (io : FileIo σ) : StreamCall → Prop
  | .fseek offset whence =>
    S.base + seekPlace (S.size io.file) (S.cursor io.file) offset whence < 2 ^ 31
  | .ftell => True
  | .fread temp ptr memb nmemb => ¬ S.FreadFails temp ptr (freadSize memb nmemb io.file) io

/-- A seek from the end is to the end itself, or in an empty file. -/
def EndsAtEnd (io : FileIo σ) : StreamCall → Prop
  | .fseek offset .stop => offset = 0 ∨ S.size io.file = 0
  | _ => True

end StreamFs

/-- Offsets are of less than a GiB. -/
def StreamCall.Small : StreamCall → Prop
  | .fseek offset _ => -2 ^ 30 < offset ∧ offset < 2 ^ 30
  | .ftell | .fread _ _ _ _ => True

variable {S : StreamFs σ}

/-- Going to the position that `ftell` returns. -/
theorem StreamFs.InFile.fseek_ftell {stream : Stream} (h : S.InFile stream) :
    vfsFseek S.functions stream (vfsFtell S.functions stream) .set = (0, stream) := by
  obtain ⟨hnonneg, hle, hlt⟩ := id h
  have hbase := S.base_le
  rw [S.ftell_eq, S.fseek_spec h (by omega) (by omega) (by dsimp only [seekPlace]; omega)]
  dsimp only [seekPlace]
  have hpos : S.base + S.cursor stream = stream.pos := add_sub_cancel _ _
  rw [clampTo, max_eq_left hnonneg, min_eq_left hle, hpos, if_neg (by decide)]

/-- A seek. -/
theorem StreamFs.follows_fseek {io : FileIo σ} (h : S.InFile io.file) {offset : ℤ} {whence : Whence}
    (hsmall : (StreamCall.fseek offset whence).Small)
    (hun : S.Undisturbed io (.fseek offset whence)) :
    S.Follows io (.fseek offset whence) ↔
      CursorStep (S.size io.file) (S.cursor io.file) (.fseek offset whence)
        (if whence = .bad then -1 else 0)
        (clampTo (S.size io.file) (seekPlace (S.size io.file) (S.cursor io.file) offset whence)) := by
  obtain ⟨hcursor, hin⟩ := h.move (seekPlace (S.size io.file) (S.cursor io.file) offset whence)
  simp only [Follows, streamStep, S.fseek_spec h hsmall.1 hsmall.2 hun, hcursor]
  exact ⟨fun h => h.1, fun h => ⟨h, rfl, hin, hin.fseek_ftell⟩⟩

/-- A read moves the cursor by what it could read. -/
theorem StreamFs.follows_fread (hbs : 0 < S.shared.blockSize) (hlt : S.shared.blockSize < 2 ^ 32)
    {io : FileIo σ} (h : S.InFile io.file) {temp : ℕ → ℕ} {ptr memb nmemb : ℕ}
    (hun : S.Undisturbed io (.fread temp ptr memb nmemb)) :
    S.Follows io (.fread temp ptr memb nmemb) := by
  obtain ⟨hnonneg, hle, hsize⟩ := id h
  have hbase := S.base_nonneg
  have hbase' := S.base_le
  rw [StreamFs.cursor] at hnonneg hle
  rw [StreamFs.size] at hle hsize
  obtain ⟨pos, hpos⟩ := Int.eq_ofNat_of_zero_le (show 0 ≤ io.file.pos by omega)
  have hn := Nat.div_mul_le_self (min (u32 (memb * nmemb)) (toU32 (io.file.len - io.file.pos))) memb
  have hn₁ := min_le_left (u32 (memb * nmemb)) (toU32 (io.file.len - io.file.pos))
  have hn₂ := min_le_right (u32 (memb * nmemb)) (toU32 (io.file.len - io.file.pos))
  have hleft : (toU32 (io.file.len - io.file.pos) : ℤ) = io.file.len - io.file.pos := by
    unfold toU32; omega
  rw [← freadSize] at hn
  simp only [Follows, streamStep, fread_eq]
  rcases S.fread_moved hbs hlt (by omega) hpos hun with ⟨hk, hpos', hlen'⟩ | hsame
  · have hsize' : S.size (S.functions.fread temp ptr (freadSize memb nmemb io.file) io).2.file =
        S.size io.file := by rw [StreamFs.size, hlen', StreamFs.size]
    have hcursor : S.cursor (S.functions.fread temp ptr (freadSize memb nmemb io.file) io).2.file =
        S.cursor io.file + (S.functions.fread temp ptr (freadSize memb nmemb io.file) io).1 := by
      rw [StreamFs.cursor, hpos', StreamFs.cursor, hpos]
      omega
    have hin : S.InFile (S.functions.fread temp ptr (freadSize memb nmemb io.file) io).2.file := by
      refine ⟨?_, ?_, by rw [hsize']; exact h.size_lt⟩
      · rw [hcursor]
        have := h.cursor_nonneg
        omega
      · rw [hcursor, hsize', StreamFs.cursor, StreamFs.size]
        omega
    refine ⟨⟨_, by omega, ?_, hcursor, Or.inl rfl⟩, hsize', hin, hin.fseek_ftell⟩
    rw [StreamFs.size, StreamFs.cursor]
    omega
  · -- the filesystem refused to read
    rw [hsame]
    refine ⟨⟨0, Nat.zero_le _, ?_, by omega, Or.inr rfl⟩, rfl, h, h.fseek_ftell⟩
    rw [StreamFs.size, StreamFs.cursor]
    omega

/-- **One call.** -/
theorem StreamFs.follows_iff (hbs : 0 < S.shared.blockSize) (hlt : S.shared.blockSize < 2 ^ 32)
    {io : FileIo σ} (h : S.InFile io.file) {call : StreamCall} (hsmall : call.Small)
    (hun : S.Undisturbed io call) : S.Follows io call ↔ S.EndsAtEnd io call := by
  obtain ⟨hnonneg, hle, -⟩ := id h
  cases call with
  | fseek offset whence =>
    rw [follows_fseek h hsmall hun]
    cases whence with
    | set | cur => exact iff_of_true ⟨rfl, rfl⟩ trivial
    | stop =>
      simp only [CursorStep, EndsAtEnd, seekPlace, clampTo, reduceCtorEq, if_false, true_and]
      omega
    | bad =>
      refine iff_of_true ⟨rfl, ?_⟩ trivial
      rw [seekPlace, clampTo, max_eq_left hnonneg, min_eq_left hle]
  | ftell =>
    refine iff_of_true ⟨⟨S.ftell_eq _, rfl⟩, rfl, h, h.fseek_ftell⟩ trivial
  | fread temp ptr memb nmemb => exact iff_of_true (follows_fread hbs hlt h hun) trivial

/-- A stream of the file of 100 bytes in cluster `2` of `smallVolume`. -/
def smallStream : StreamFs Mem := .fat ((FatBS.ofBuf smallVolume).toFs (storeDevice 4200)) 2

end RpiBoot
