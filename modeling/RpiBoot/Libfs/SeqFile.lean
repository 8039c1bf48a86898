import RpiBoot.Lib.Run
import RpiBoot.Lib.Store
import RpiBoot.Libfs.Span

/-!
# Files as lists of bytes

What an open file is for: a list of bytes with a position. A filesystem whose `fread` delivers the
bytes asked for behaves, under any run of `fseek` and `fread` calls, as this list does.

* `seqFileStep`: the calls on a list of bytes.
* `fileStep`: the calls on an open file.
* **`seqFile_run`**: the two runs give the same replies and the same position.
-/

namespace RpiBoot

open Store Runs

variable {σ : Type}

/-- The place in a file of `len` bytes that a position outside it stands for. -/
def clampPos (len : ℕ) (z : ℤ) : ℕ := (min (max z 0) len).toNat

/-- A call on an open file; `temp` gives the addresses of the buffers allocated during a read. -/
inductive FileCall where
  | seek (offset : ℤ) (whence : Whence)
  | read (temp : ℕ → ℕ) (ptr nmemb : ℕ)

/-- A file as its contents and a position, with the replies to the reads so far: the number of bytes,
and the bytes. -/
def seqFileStep (data : List UInt8) (st : ℕ × List (ℕ × List UInt8)) :
    FileCall → Option (ℕ × List (ℕ × List UInt8))
  | .seek offset .set => some (clampPos data.length offset, st.2)
  | .seek offset .cur => some (clampPos data.length (st.1 + offset), st.2)
  | .seek offset .stop => some (clampPos data.length (data.length - offset), st.2)
  | .seek _ .bad => some st
  | .read _ _ nmemb =>
    let n := min nmemb (data.length - st.1)
    some (st.1 + n, st.2 ++ [(n, (data.drop st.1).take n)])

/-- The same call on an open file of a filesystem. -/
def fileStep (fsRead : (ℕ → ℕ) → FsTransfer σ) (st : FileIo σ × List (ℕ × List UInt8)) :
    FileCall → Option (FileIo σ × List (ℕ × List UInt8))
  | .seek offset whence => some ({ st.1 with file := (fseek st.1.file offset whence).2 }, st.2)
  | .read temp ptr nmemb =>
    let r := fread (fsRead temp) ptr 1 nmemb st.1
    some (r.2, st.2 ++ [(r.1, slice r.2.mem ptr r.1)])

/-- The sums of a seek fit a `long`, the size of a read is a `size_t`, and its buffers are apart from
the caller's. -/
def LegalCall (bs len : ℕ) (st : ℕ × List (ℕ × List UInt8)) : FileCall → Prop
  | .seek _ .set | .seek _ .bad => True
  | .seek offset .cur => -2 ^ 31 ≤ st.1 + offset ∧ st.1 + offset < 2 ^ 31
  | .seek offset .stop => -2 ^ 31 ≤ len - offset ∧ len - offset < 2 ^ 31
  | .read temp ptr nmemb => nmemb < 2 ^ 32 ∧ TempApart temp bs ptr (min nmemb (len - st.1))

/-- `fseek` on a file of `len` bytes. -/
theorem fseek_pos {file : Stream} {len : ℕ} (hl : file.len = len) (offset : ℤ) :
    (fseek file offset .set).2 = { file with pos := clampPos len offset } ∧
    (fseek file offset .cur).2 = { file with pos := clampPos len (long (file.pos + offset)) } ∧
    (fseek file offset .stop).2 = { file with pos := clampPos len (long (len - offset)) } := by
  have h : ∀ z : ℤ, (if (if z < 0 then 0 else z) > (len : ℤ) then (len : ℤ) else if z < 0 then 0 else z) =
      clampPos len z := fun z => by
    unfold clampPos; split_ifs <;> omega
  simp only [fseek, hl, h]
  exact ⟨trivial, trivial, trivial⟩

/-- The open file stands for the list: the position and the replies are the same. -/
def SeqRel (data : List UInt8) (I : FileIo σ → Prop) (st : FileIo σ × List (ℕ × List UInt8))
    (t : ℕ × List (ℕ × List UInt8)) : Prop :=
  I st.1 ∧ st.1.file.pos = t.1 ∧ st.1.file.len = data.length ∧ t.1 ≤ data.length ∧ st.2 = t.2

/-- A filesystem's `fread` delivers the bytes of `data` from the position on. -/
def Delivers (fsRead : (ℕ → ℕ) → FsTransfer σ) (bs : ℕ) (data : List UInt8) (I : FileIo σ → Prop) :
    Prop :=
  ∀ temp ptr n io (pos : ℕ), I io → io.file.pos = pos → pos + n ≤ data.length →
    TempApart temp bs ptr n →
    ∃ io', fsRead temp ptr n io = (n, io') ∧ slice io'.mem ptr n = (data.drop pos).take n ∧
      io'.file.pos = (pos + n : ℕ) ∧ io'.file.len = io.file.len ∧ I io'

variable {fsRead : (ℕ → ℕ) → FsTransfer σ} {bs : ℕ} {data : List UInt8} {I : FileIo σ → Prop}

/-- A seek. -/
theorem seqRel_seek (hI : ∀ io pos, I io → I { io with file := { io.file with pos := pos } })
    {st : FileIo σ × List (ℕ × List UInt8)} {t : ℕ × List (ℕ × List UInt8)}
    (h : SeqRel data I st t) (z : ℤ) :
    SeqRel data I
      ({ st.1 with file := { st.1.file with pos := clampPos data.length z } }, st.2)
      (clampPos data.length z, t.2) := by
  obtain ⟨hi, -, hl, -, hr⟩ := h
  exact ⟨hI _ _ hi, rfl, hl, by unfold clampPos; omega, hr⟩

theorem seqRel_step (hread : Delivers fsRead bs data I)
    (hI : ∀ io pos, I io → I { io with file := { io.file with pos := pos } })
    (hlen : data.length < 2 ^ 31) (st : FileIo σ × List (ℕ × List UInt8))
    (t : ℕ × List (ℕ × List UInt8)) (o : FileCall) (h : SeqRel data I st t)
    (ho : LegalCall bs data.length t o) :
    ∃ st' t', fileStep fsRead st o = some st' ∧ seqFileStep data t o = some t' ∧
      SeqRel data I st' t' := by
  obtain ⟨hi, hp, hl, hle, hr⟩ := id h
  cases o with
  | seek offset whence =>
    obtain ⟨hset, hcur, hstop⟩ := fseek_pos hl offset
    cases whence with
    | set => exact ⟨_, _, rfl, rfl, by rw [hset]; exact seqRel_seek hI h offset⟩
    | stop =>
      rw [long_of_range ho.1 ho.2] at hstop
      exact ⟨_, _, rfl, rfl, by rw [hstop]; exact seqRel_seek hI h _⟩
    | cur =>
      rw [hp, long_of_range ho.1 ho.2] at hcur
      exact ⟨_, _, rfl, rfl, by rw [hcur]; exact seqRel_seek hI h _⟩
    | bad => exact ⟨_, _, rfl, rfl, h⟩
  | read temp ptr nmemb =>
    obtain ⟨hn, htemp⟩ := ho
    obtain ⟨io', hf, hs, hp', hl', hi'⟩ :=
      hread temp ptr (min nmemb (data.length - t.1)) st.1 t.1 hi hp (by omega) htemp
    refine ⟨_, _, rfl, rfl, ?_⟩
    simp only [fread_one hn hl hp hle hlen, hf]
    exact ⟨hi', hp', hl'.trans hl, by dsimp only; omega, by rw [hr, hs]⟩

/-- **A run on an open file is a run on its bytes.** -/
theorem seqFile_run (hread : Delivers fsRead bs data I)
    (hI : ∀ io pos, I io → I { io with file := { io.file with pos := pos } })
    (hlen : data.length < 2 ^ 31) {io : FileIo σ} (hi : I io) (hp : io.file.pos = 0)
    (hl : io.file.len = data.length) {calls : List FileCall}
    (hcalls : Along (seqFileStep data) (LegalCall bs data.length) (0, []) calls) :
    ∃ io' pos replies, run (fileStep fsRead) (io, []) calls = some (io', replies) ∧
      run (seqFileStep data) (0, []) calls = some (pos, replies) ∧ io'.file.pos = pos := by
  have hR : SeqRel data I (io, []) (0, []) := ⟨hi, hp, hl, Nat.zero_le _, rfl⟩
  obtain ⟨st', t', hrun, hrun', -, hpos, -, -, hrep⟩ :=
    run_rel (seqRel_step hread hI hlen) hR hcalls
  exact ⟨st'.1, t'.1, t'.2, by rw [hrun, ← hrep], hrun', hpos⟩

end RpiBoot
