import RpiBoot.Nofs.Isolation

/-!
# Reopening a nofs file

`nofs_fopen` takes the position and the length of a file from the same variable. In a mode without
append this is `3`, the length of the byte order mark, whatever the file holds.

* `nofsFopen_of_bom`, `nofsFopen_of_new`: opening a file, with and without a byte order mark on the device.
* `nofsFopen_healthy`: opening a file on a healthy device in a mode without append.
* `nofsWrites_run`: a run of writes to the file.
* **`nofs_persistence`**: a file that is written and opened again for reading gives the bytes written if
  and only if there are none.
-/

namespace RpiBoot

open Runs Store

variable {σ ο : Type}

/-- A read of no bytes returns `0`. -/
theorem fsFread_zero {getNext : GetNext σ ο} {fs : Fs σ} {temp : ℕ → ℕ} {opq : ο} {ptr : ℕ}
    {io : FileIo σ} (hbs : 0 < fs.blockSize) (hlt : fs.blockSize < 2 ^ 32) :
    (fsFread getNext fs temp opq ptr 0 io).1 = 0 := by
  have hpos : u32 (toU32 io.file.pos) = toU32 io.file.pos := u32_of_lt (toU32_lt _)
  have hoff : ∀ o, o < fs.blockSize → sub32 o o = 0 := fun o ho => by
    rw [sub32_of_le le_rfl (by omega), Nat.sub_self]
  have hcut : ∀ o count, cutSegment o o count = 0 := fun o count => by
    simp only [cutSegment]
    split_ifs <;> omega
  have hmod := Nat.mod_lt (toU32 io.file.pos) hbs
  have hzero : toU32 0 = 0 := by decide
  simp only [fsFread, span, Nat.add_zero, hpos, Nat.add_sub_cancel_left, fsFreadLoop, le_refl, if_true,
    fsFreadRound, Span.offsets, hoff _ hmod, hcut]
  generalize getNext (toU32 io.file.pos / fs.blockSize) false opq io = g
  by_cases hno : g.1 = noBlock
  · rw [if_pos hno]
    exact hzero
  · rw [if_neg hno, if_neg (by omega)]
    split_ifs
    · exact hzero
    · exact hzero

/-! ## Sessions -/

/-- A healthy device: block 0 can be read and written, and every request keeps `inv`. -/
structure NofsHealthy (dev : BlockDevice σ) (inv : σ → Prop) (content : σ → Mem) (good : ℕ → Prop) :
    Prop where
  reads : HealthyReads dev inv content good
  writes : HealthyWrites dev inv content good
  good_zero : good 0
  keeps : NofsKeeps (nofsInit dev) inv

variable {dev : BlockDevice σ} {inv : σ → Prop} {content : σ → Mem} {good : ℕ → Prop}

/-- Block 0 is written. -/
theorem NofsHealthy.blockWrite_zero (h : NofsHealthy dev inv content good) {s : σ} (hs : inv s) (mem : Mem) :
    ∃ s', blockWrite dev s mem 0 dev.blockSize 0 = (dev.blockSize, s') ∧ inv s' ∧
      content s' = patch (content s) 0 (slice mem 0 dev.blockSize) := by
  have hgood : ∀ i < 1, good (0 + i) := fun i hi => by
    rw [show 0 + i = 0 by omega]
    exact h.good_zero
  obtain ⟨s', hw, hi, hc⟩ := blockWrite_healthy h.writes hs mem 0 one_pos hgood
  rw [Nat.one_mul] at hw hc
  rw [Nat.zero_mul] at hc
  exact ⟨s', hw, hi, hc⟩

section Open

variable {fuel buf : ℕ} {mode : String} {mem block0 : Mem} {s s₁ : σ}

/-- Opening a file on a device with the byte order mark. -/
theorem nofsFopen_of_bom (hread : readFresh dev s dev.blockSize 0 = (dev.blockSize, block0, s₁))
    (hbom : slice block0 0 3 = utfBom) :
    nofsFopen (nofsInit dev) fuel buf mode mem s =
      if fsInterpretMode mode &&& vfsModeAppend ≠ 0 ∧ dev.numBlocks ≠ 0 then
        (nofsScan (nofsInit dev) buf 0 fuel mem s₁).map fun r =>
          (some ⟨(r.1.getD 3 : ℕ), fsInterpretMode mode, (r.1.getD 3 : ℕ), 0⟩, r.2.1, r.2.2)
      else some (some ⟨(3 : ℕ), fsInterpretMode mode, (3 : ℕ), 0⟩, mem, s₁) := by
  simp only [nofsFopen, nofsInit, hread, ne_eq, not_true_eq_false, if_false, hbom, if_true]

/-- Opening a file on a device without it. -/
theorem nofsFopen_of_new (hread : readFresh dev s dev.blockSize 0 = (dev.blockSize, block0, s₁))
    (hbom : slice block0 0 3 ≠ utfBom) {s₂ : σ}
    (hwrite : blockWrite dev s₁ (patch block0 0 (utfBom ++ eofMark)) 0 dev.blockSize 0 =
      (dev.blockSize, s₂)) :
    nofsFopen (nofsInit dev) fuel buf mode mem s =
      some (some ⟨(3 : ℕ), fsInterpretMode mode, (3 : ℕ), 0⟩, mem, s₂) := by
  simp only [nofsFopen, nofsInit, hread, ne_eq, not_true_eq_false, if_false, hbom, hwrite]

end Open

/-- **Opening a file** in a mode without append. -/
theorem nofsFopen_healthy (h : NofsHealthy dev inv content good) {mode : String}
    (hmode : fsInterpretMode mode &&& vfsModeAppend = 0) (fuel buf : ℕ) (mem : Mem) {s : σ} (hs : inv s) :
    ∃ s', nofsFopen (nofsInit dev) fuel buf mode mem s =
      some (some ⟨3, fsInterpretMode mode, 3, 0⟩, mem, s') ∧ inv s' := by
  obtain ⟨block0, s₁, hr, -, hi, -⟩ := readFresh_healthy h.reads hs h.good_zero
  obtain ⟨s₂, hw, hi₂, -⟩ := h.blockWrite_zero hi (patch block0 0 (utfBom ++ eofMark))
  by_cases hbom : slice block0 0 3 = utfBom
  · exact ⟨s₁, (nofsFopen_of_bom hr hbom).trans (if_neg fun happ => happ.1 hmode), hi⟩
  · exact ⟨s₂, nofsFopen_of_new hr hbom hw, hi₂⟩

/-- One call of `fwrite` in a session: the bytes, where the caller puts them, and the buffers
allocated during the call. -/
structure WriteCall where
  data : List UInt8
  ptr : ℕ
  temp : ℕ → ℕ
  tempMark : ℕ → ℕ

/-- The call on the first file. -/
def WriteCall.call (w : WriteCall) : NofsCall :=
  .fwrite 0 w.temp w.tempMark w.data w.ptr 1 w.data.length

/-- Writes leave the first file open. -/
theorem nofsWrites_run (mark : ℕ) (h : NofsHealthy dev inv content good) :
    ∀ (writes : List WriteCall) (mem : Mem) (s : σ) (file : Stream), inv s →
      ∃ mem' s' file', run (nofsStep (nofsInit dev) mark) ⟨mem, s, [some file]⟩
        (writes.map WriteCall.call) = some ⟨mem', s', [some file']⟩ ∧ inv s'
  | [], mem, s, file, hs => ⟨mem, s, file, rfl, hs⟩
  | w :: writes, mem, s, file, hs => by
    have hstep : ∃ st, nofsStep (nofsInit dev) mark ⟨mem, s, [some file]⟩ w.call = some st ∧
        ∃ file', st.files = [some file'] := ⟨_, rfl, _, rfl⟩
    obtain ⟨⟨mem', s', files⟩, hst, file', rfl⟩ := hstep
    have hi := nofsStep_keeps h.keeps _ _ _ hs hst
    obtain ⟨mem'', s'', file'', hrun, hi'⟩ := nofsWrites_run mark h writes mem' s' file' hi
    exact ⟨mem'', s'', file'', by rw [List.map_cons, run_cons, hst]; exact hrun, hi'⟩

theorem storeDevice_nofsHealthy {numBlocks : ℕ} (h₁ : 0 < numBlocks) (h₂ : numBlocks ≤ 2 ^ 32) :
    NofsHealthy (storeDevice numBlocks) (fun _ => True) (fun c => c)
      fun b => b * 512 + 512 ≤ numBlocks * 512 := by
  have h := storeDevice_serves h₂
  have hzero : 0 * 512 + 512 ≤ numBlocks * 512 := by omega
  exact ⟨h.healthyReads, h.healthyWrites, hzero, rfl, fun _ _ _ _ _ _ _ => trivial,
    fun _ _ _ _ _ _ _ _ => trivial⟩

/-- A file of one byte. -/
def oneByte : WriteCall := ⟨[0x41], 0x1000, fun _ => 0x2000, fun _ => 0x2000⟩

/-- Nothing of it is read when it is opened again. -/
theorem nofs_persistence_broken :
    (run (nofsStep (nofsInit (storeDevice 16)) 0) ⟨fun _ => 0, fun _ => 0, []⟩
      [.fopen 0 0 "w", oneByte.call, .fclose 0, .fopen 0 0 "r"]).bind (fun st =>
        st.files[1]?.join.map fun file =>
          ((fread (nofsFread (nofsInit (storeDevice 16)) fun _ => 0x2000) 0x1000 1 1
            ⟨st.mem, st.dev, file⟩).1, nofsFsize file)) = some (0, 0) := by
  decide +kernel

/-- **Persistence.** A file is opened with "w", written in any number of calls, closed and opened again
with "r". A read of as many bytes as were written gives these bytes, and `fsize` their number, if
and only if nothing was written. -/
theorem nofs_persistence (h : NofsHealthy dev inv content good) {s : σ} (hs : inv s) (mem : Mem) (mark : ℕ)
    (writes : List WriteCall) (fuel buf ptr : ℕ) (temp : ℕ → ℕ) :
    ∃ st file, run (nofsStep (nofsInit dev) mark) ⟨mem, s, []⟩
        (.fopen fuel buf "w" :: (writes.map WriteCall.call ++ [.fclose 0, .fopen fuel buf "r"])) = some st ∧
      st.files = [none, some file] ∧
      ((fread (nofsFread (nofsInit dev) temp) ptr 1 (writes.flatMap (·.data)).length
            ⟨st.mem, st.dev, file⟩).1 = (writes.flatMap (·.data)).length ∧
          slice (fread (nofsFread (nofsInit dev) temp) ptr 1 (writes.flatMap (·.data)).length
            ⟨st.mem, st.dev, file⟩).2.mem ptr (writes.flatMap (·.data)).length = writes.flatMap (·.data) ∧
          nofsFsize file = (writes.flatMap (·.data)).length ↔
        writes.flatMap (·.data) = []) := by
  have hmodes : fsInterpretMode "w" &&& vfsModeAppend = 0 ∧ fsInterpretMode "r" &&& vfsModeAppend = 0 := by
    decide
  obtain ⟨s₁, hopen, hi₁⟩ := nofsFopen_healthy h hmodes.1 fuel buf mem hs
  obtain ⟨mem₂, s₂, file₂, hwrites, hi₂⟩ := nofsWrites_run mark h writes mem s₁
    ⟨3, fsInterpretMode "w", 3, 0⟩ hi₁
  obtain ⟨s₃, hreopen, hi₃⟩ := nofsFopen_healthy h hmodes.2 fuel buf mem₂ hi₂
  have hstep₁ : nofsStep (nofsInit dev) mark ⟨mem, s, []⟩ (.fopen fuel buf "w") =
      some ⟨mem, s₁, [some ⟨3, fsInterpretMode "w", 3, 0⟩]⟩ := by
    simp [nofsStep, hopen]
  have hstep₂ : nofsStep (nofsInit dev) mark ⟨mem₂, s₂, [some file₂]⟩ (.fclose 0) =
      some ⟨mem₂, s₂, [none]⟩ := rfl
  have hstep₃ : nofsStep (nofsInit dev) mark ⟨mem₂, s₂, [none]⟩ (.fopen fuel buf "r") =
      some ⟨mem₂, s₃, [none, some ⟨3, fsInterpretMode "r", 3, 0⟩]⟩ := by
    simp [nofsStep, hreopen]
  refine ⟨⟨mem₂, s₃, [none, some ⟨3, fsInterpretMode "r", 3, 0⟩]⟩, ⟨3, fsInterpretMode "r", 3, 0⟩, ?_,
    rfl, ?_⟩
  · rw [run_cons, hstep₁, Option.bind_some, run_append, hwrites, Option.bind_some, run_cons, hstep₂,
      Option.bind_some, run_cons, hstep₃, Option.bind_some, run_nil]
  · constructor
    · rintro ⟨-, -, hsize⟩
      apply List.eq_nil_of_length_eq_zero
      have hsize : (3 - 3 : ℤ) = (writes.flatMap (·.data)).length := hsize
      omega
    · intro hnil
      have hbs := dev.blockSize_lt
      have hzero : (nofsFread (nofsInit dev) temp ptr 0
          ⟨mem₂, s₃, ⟨3, fsInterpretMode "r", 3, 0⟩⟩).1 = 0 :=
        fsFread_zero dev.blockSize_pos (by change dev.blockSize < 2 ^ 32; omega)
      have hsize : freadSize 1 0 ⟨3, fsInterpretMode "r", 3, 0⟩ = 0 := by simp [freadSize]
      rw [hnil, List.length_nil, fread_eq, hsize, hzero]
      exact ⟨rfl, slice_zero _ _, rfl⟩

/-- A session with a file of one byte. -/
theorem nofs_persistence_oneByte :
    ∃ st file, run (nofsStep (nofsInit (storeDevice 16)) 0) ⟨fun _ => 0, fun _ => 0, []⟩
        (.fopen 0 0 "w" :: ([oneByte].map WriteCall.call ++ [.fclose 0, .fopen 0 0 "r"])) = some st ∧
      st.files = [none, some file] ∧
      ((fread (nofsFread (nofsInit (storeDevice 16)) fun _ => 0x2000) 0x1000 1
            ([oneByte].flatMap (·.data)).length ⟨st.mem, st.dev, file⟩).1 =
            ([oneByte].flatMap (·.data)).length ∧
          slice (fread (nofsFread (nofsInit (storeDevice 16)) fun _ => 0x2000) 0x1000 1
            ([oneByte].flatMap (·.data)).length ⟨st.mem, st.dev, file⟩).2.mem 0x1000
              ([oneByte].flatMap (·.data)).length = [oneByte].flatMap (·.data) ∧
          nofsFsize file = ([oneByte].flatMap (·.data)).length ↔
        [oneByte].flatMap (·.data) = []) :=
  nofs_persistence (storeDevice_nofsHealthy (by decide) (by decide)) trivial _ 0 [oneByte] 0 0 0x1000 _

end RpiBoot
