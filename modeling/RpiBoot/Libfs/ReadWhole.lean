import RpiBoot.Libfs.ReadFrame

/-!
# Reading a range of a file

A read goes on to the block behind its last byte. Where the file has no such block the lookup ends the
read; else the last round has to be harmless, or up to 16 bytes behind the caller's buffer are lost.

* `readMemBefore_outside`: the rounds before the last write nothing outside the caller's buffer.
* `fsFread_unmapped`: a read that the lookup of the last block ends.
* **`fsFread_range`**: what a read delivers, and what it leaves alone.
* `fsFread_whole`: the same from the start of a file.
-/

namespace RpiBoot

open Store

variable {σ ο : Type} {fs : Fs σ} {inv : σ → Prop} {content : σ → Mem} {good : ℕ → Prop} {k : ℕ}
  {bm : ℕ → Option ℕ} {getNext : GetNext σ ο} {J : ℕ → ο → Mem → Prop} {temp : ℕ → ℕ} {c m₀ : Mem}
  {ptr pos n cur : ℕ} {len : ℤ} {opq : ο} {io : FileIo σ} {st : FreadState σ ο}

/-- Before a round, nothing has been written outside the caller's buffer and those of the read. -/
theorem readMemBefore_outside {a : ℕ} (ha : a < ptr ∨ ptr + n ≤ a) (hs : ¬ Scratch fs temp pos n a) :
    readMemBefore fs temp pos n bm c m₀ ptr cur a = m₀ a := by
  have hreach := reach_le fs.blockSize pos (pos + n) cur
  unfold Scratch at hs
  rw [readMemBefore, patch_apply_of_notMem _ _ _ (by rw [length_slice]; omega), readBase]
  split_ifs with hfirst
  · exact patch_apply_of_notMem _ _ _ (by rw [length_slice]; omega)
  · rfl

/-- A round ends the read where the lookup finds no block, and changes nothing. -/
theorem fsFreadRound_refused (temp : ℕ → ℕ) (r : Span) (hl : Lookup getNext inv content false J bm)
    (hs : inv st.io.dev) (hJ : J st.curBlock st.opq (content st.io.dev)) (hnone : bm st.curBlock = none) :
    ∃ count io', fsFreadRound getNext fs temp r st = .error (count, io') ∧ io'.mem = st.io.mem := by
  obtain ⟨opq', io', hg, -, hmem, -⟩ := hl st.curBlock st.opq st.io hs hJ
  rw [hnone, Option.getD_none] at hg
  exact ⟨toU32 st.totalBytesRead, io', by simp only [fsFreadRound, hg, if_true], hmem⟩

/-- The blocks of a file up to the one behind a range. -/
theorem mapped_of_le (hbs : 0 < fs.blockSize) (hmap : ∀ p < pos + n, bm (p / fs.blockSize) ≠ none)
    (hlast : bm ((pos + n) / fs.blockSize) ≠ none) : ∀ i ≤ (pos + n) / fs.blockSize, bm i ≠ none := by
  intro i hi
  rcases Nat.lt_or_eq_of_le hi with hlt | rfl
  · have hbyte : i * fs.blockSize < pos + n :=
      (Nat.mul_lt_mul_of_pos_right hlt hbs).trans_le (Nat.div_mul_le_self _ _)
    have := hmap (i * fs.blockSize) hbyte
    rwa [Nat.mul_div_cancel _ hbs] at this
  · exact hlast

/-- A read of a range behind which the file has no block: the lookup of that block ends the read. -/
theorem fsFread_unmapped (hfm : FileMap fs good k bm) (h : HealthyReads fs.parent inv content good)
    (hl : Lookup getNext inv content false J bm) (htemp : TempApart temp fs.blockSize ptr n)
    (hrange : pos + n < 2 ^ 31) (hmap : ∀ p < pos + n, bm (p / fs.blockSize) ≠ none)
    (hs : inv io.dev) (hJ : J (pos / fs.blockSize) opq (content io.dev)) (hpos : io.file.pos = pos)
    (hnone : bm ((pos + n) / fs.blockSize) = none) :
    ∃ io', fsFread getNext fs temp opq ptr n io = (n, io') ∧
      ReadDone fs inv content bm (content io.dev) ptr pos n io.file.len io' ∧
      ∀ a, a < ptr ∨ ptr + n ≤ a → ¬ Scratch fs temp pos n a → io'.mem a = io.mem a := by
  have hbs := hfm.size_pos
  have hdiv : pos / fs.blockSize ≤ (pos + n) / fs.blockSize :=
    Nat.div_le_div_right (Nat.le_add_right _ _)
  have hfirst : io.mem = readMemAt fs temp pos n bm (content io.dev) io.mem ptr (pos / fs.blockSize) := by
    rw [readMemAt, if_pos hdiv, readMemBefore, readBase, if_neg (by omega),
      reach_first (Nat.le_add_right _ _), Nat.sub_self, slice_zero, patch_nil]
  rw [fsFread_eq hrange hpos]
  exact fsFreadLoop_spec
    (J := fun st => (J st.curBlock st.opq (content io.dev) ∧ pos / fs.blockSize ≤ st.curBlock ∧
        st.curBlock ≤ (pos + n) / fs.blockSize) ∧
      st.io.mem = readMemAt fs temp pos n bm (content io.dev) io.mem ptr st.curBlock)
    (Q := fun io' => ∀ a, a < ptr ∨ ptr + n ≤ a → ¬ Scratch fs temp pos n a → io'.mem a = io.mem a)
    hfm h htemp hrange (fun p _ hp => hmap p hp) (fun st hJ _ _ hat => hl.lookupAt hJ.1.1 hat)
    (fun st st' hst hat hround => by
      obtain ⟨⟨hJ, h₁, hle⟩, hmem⟩ := hst
      have hcur := (fsFreadRound_ok hround).1
      have hne : st.curBlock ≠ (pos + n) / fs.blockSize := by
        intro heq
        obtain ⟨count, io', herr, -⟩ := fsFreadRound_refused temp (span fs.blockSize pos n) hl
          hat.dev_inv (by rwa [hat.dev_content]) (by rwa [heq])
        rw [herr] at hround
        cases hround
      refine ⟨⟨hl.next hJ hat hround, by omega, by omega⟩, ?_⟩
      rw [hcur]
      exact readMemAt_succ hfm h htemp hrange h₁
        (mapped_of_lt hbs (fun p _ hp => hmap p hp) h₁ (by omega)) (hl.lookupAt hJ hat) hat hround hle hmem)
    (fun st hst hend => absurd hend (by have := hst.1.2.2; omega))
    (fun st ret hst hat hle hstop hround a ha hout => by
      obtain ⟨⟨hJ, -⟩, hmem⟩ := hst
      obtain ⟨count, io', herr, hsame⟩ := fsFreadRound_refused temp (span fs.blockSize pos n) hl
        hat.dev_inv (by rwa [hat.dev_content]) hstop
      rw [herr] at hround
      obtain rfl := Except.error.inj hround
      dsimp only
      rw [hsame, hmem, readMemAt, if_pos hle, readMemBefore_outside ha hout])
    ((pos + n) / fs.blockSize + 1 - pos / fs.blockSize) ⟨pos / fs.blockSize, ptr, 0, opq, io⟩
    (by dsimp only; omega) le_rfl ⟨⟨hJ, le_rfl, hdiv⟩, hfirst⟩ (readAt_first hs hpos)

/-- **A read of a range of a file** delivers its bytes. Outside its own buffers it writes nothing but these
and the 16 bytes behind them; it leaves those alone as well when the file has no block behind the range, or
the last round is harmless. -/
theorem fsFread_range (hfm : FileMap fs good k bm) (h : HealthyReads fs.parent inv content good)
    (hl : Lookup getNext inv content false J bm) (htemp : TempApart temp fs.blockSize ptr n)
    (hrange : pos + n < 2 ^ 31) (hmap : ∀ p < pos + n, bm (p / fs.blockSize) ≠ none)
    (hs : inv io.dev) (hJ : J (pos / fs.blockSize) opq (content io.dev)) (hpos : io.file.pos = pos) :
    ∃ io', fsFread getNext fs temp opq ptr n io = (n, io') ∧
      ReadDone fs inv content bm (content io.dev) ptr pos n io.file.len io' ∧
      (∀ a, a < ptr ∨ ptr + n + 16 ≤ a → ¬ Scratch fs temp pos n a → io'.mem a = io.mem a) ∧
      (bm ((pos + n) / fs.blockSize) = none ∨ TailHarmless fs temp pos n ptr →
        ∀ a, a < ptr ∨ ptr + n ≤ a → ¬ Scratch fs temp pos n a → io'.mem a = io.mem a) := by
  have hbs := hfm.size_pos
  have hlt : fs.blockSize < 2 ^ 32 := hfm.size_lt.trans (by decide)
  by_cases hnone : bm ((pos + n) / fs.blockSize) = none
  · obtain ⟨io', hread, hdone, hframe⟩ := fsFread_unmapped hfm h hl htemp hrange hmap hs hJ hpos hnone
    exact ⟨io', hread, hdone, fun a ha => hframe a (by omega), fun _ => hframe⟩
  · have hset : ReadSetup fs inv content good k bm getNext J temp ptr pos n opq io :=
      ⟨hfm, h, hl, htemp, hrange, mapped_of_le hbs hmap hnone, hs, hJ, hpos⟩
    obtain ⟨io', hread, hdone, hmem⟩ := hset.mem
    refine ⟨io', hread, hdone, fun a ha hout => ?_, fun htail a ha hout => ?_⟩
    · rw [hmem]
      exact readMemAt_beyond hbs hlt htemp hrange ha hout
    · rw [hmem]
      exact readMemAt_frame hbs hlt htemp hrange (htail.resolve_left hnone) ha hout

/-- **A read from the start of a file** writes nothing outside the caller's buffer and its own when the file
has no block behind its bytes, or the last round is harmless. -/
theorem fsFread_whole (hfm : FileMap fs good k bm) (h : HealthyReads fs.parent inv content good)
    (hl : Lookup getNext inv content false J bm) (htemp : TempApart temp fs.blockSize ptr n)
    (hn : n < 2 ^ 31) (hmap : ∀ p < n, bm (p / fs.blockSize) ≠ none)
    (htail : bm (n / fs.blockSize) = none ∨ TailHarmless fs temp 0 n ptr) (hs : inv io.dev)
    (hJ : J 0 opq (content io.dev)) (hpos : io.file.pos = 0) :
    ∃ io', fsFread getNext fs temp opq ptr n io = (n, io') ∧
      ReadDone fs inv content bm (content io.dev) ptr 0 n io.file.len io' ∧
      ∀ a, a < ptr ∨ ptr + n ≤ a → ¬ Scratch fs temp 0 n a → io'.mem a = io.mem a := by
  have hn0 : 0 + n = n := Nat.zero_add n
  have hstart : J (0 / fs.blockSize) opq (content io.dev) := by rwa [Nat.zero_div]
  obtain ⟨io', hread, hdone, -, hframe⟩ := fsFread_range hfm h hl htemp (by rwa [hn0]) (by rwa [hn0]) hs
    hstart hpos
  exact ⟨io', hread, hdone, hframe (by rwa [hn0])⟩

end RpiBoot
