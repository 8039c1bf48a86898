import RpiBoot.Nofs.Append

/-!
# The end-of-file mark

The comment at the head of `nofs.c` promises that the bytes of the file always end with an end-of-file
byte. A new file and a write that extends the file put one there; opening a file that is already on
the device sets the length and looks for no mark, unless it is opened for appending.

* `MarkFits`: calls that have space, with `eof_mark` apart from the memory they write.
* `EndsMarked`, `Marked`: every open file ends with an end-of-file byte, in a state and after a call.
* `SparesEnds`: when a call keeps this, from the state before it.
* `Framed`: what every call keeps.
* **`nofs_marker_iff`**: along a run the files end with the mark just when every call spares the ends.
-/

namespace RpiBoot

open Runs Store

variable {σ : Type} {dev : BlockDevice σ} {inv : σ → Prop} {content : σ → Mem} {good : ℕ → Prop}

/-! ## Calls -/

/-- Any call but `fread`. There is space for what it writes, and `eof_mark` (with the 16 bytes behind it) is
apart from the buffers and from what the caller stores. -/
def MarkFits (dev : BlockDevice σ) (good : ℕ → Prop) (mark : ℕ) (st : NofsState σ) : NofsCall → Prop
  | .fopen _ buf _ => buf + dev.blockSize ≤ mark ∨ mark + 9 ≤ buf
  | .fseek _ _ _ => True
  | .fread _ _ _ _ _ => False
  | .fwrite file temp tempMark data ptr size nmemb =>
    NofsFits dev good mark st (.fwrite file temp tempMark data ptr size nmemb) ∧
    (ptr + data.length ≤ mark ∨ mark + 9 ≤ ptr) ∧
    ∀ a, mark ≤ a → a < mark + 25 → OffBuffers temp dev.blockSize a ∧ OffBuffers tempMark dev.blockSize a
  | .fclose _ => True

/-- Every open file ends with an end-of-file byte. -/
def EndsMarked (content : σ → Mem) (st : NofsState σ) : Prop :=
  ∀ (i : ℕ) (stream : Stream), st.files[i]?.join = some stream → content st.dev stream.len.toNat = eof

/-- After the call every open file ends with an end-of-file byte, and one that has grown with the whole
mark. -/
def Marked (dev : BlockDevice σ) (content : σ → Mem) (mark : ℕ) (st : NofsState σ) (call : NofsCall) : Prop :=
  ∀ st', nofsStep (nofsInit dev) mark st call = some st' → EndsMarked content st' ∧
    ∀ (i : ℕ) (stream stream' : Stream), st.files[i]?.join = some stream →
      st'.files[i]?.join = some stream' → stream.len < stream'.len →
      slice (content st'.dev) stream'.len.toNat 9 = eofMark

/-- The bytes put from `pos` on leave, or put, an end-of-file byte at `stop`. -/
def SparesEnd (put : List UInt8) (pos stop : ℕ) : Prop := pos ≤ stop → put[stop - pos]?.getD eof = eof

/-- A file is opened on a device without the byte order mark, or for appending on a device with a known
length, or where an end-of-file byte follows the byte order mark; a write puts no other byte where an
open file ends, but where it extends this file. -/
def SparesEnds (dev : BlockDevice σ) (content : σ → Mem) (mark : ℕ) (st : NofsState σ) : NofsCall → Prop
  | .fopen _ _ mode => slice (content st.dev) 0 3 ≠ utfBom ∨
    (fsInterpretMode mode &&& vfsModeAppend ≠ 0 ∧ dev.numBlocks ≠ 0) ∨ content st.dev 3 = eof
  | .fwrite file temp tempMark data ptr size nmemb => ∀ stream, st.files[file]?.join = some stream →
    ∀ (i : ℕ) (other : Stream), st.files[i]?.join = some other →
      i = file ∧ stream.len < writePos stream + fwriteSize size nmemb ∨
      SparesEnd (putBytes dev mark temp tempMark (content st.dev) (patch st.mem ptr data) ptr
        (writePos stream).toNat (fwriteSize size nmemb) stream.len.toNat) (writePos stream).toNat
        other.len.toNat
  | _ => True

theorem patch_eq_eof_iff {c : Mem} {put : List UInt8} {pos stop : ℕ} (heof : c stop = eof) :
    patch c pos put stop = eof ↔ SparesEnd put pos stop := by
  rw [patch_apply, SparesEnd, heof]
  split_ifs with hle
  · exact ⟨fun h _ => h, fun h => h hle⟩
  · exact iff_of_true rfl fun h => absurd h hle

/-! ## Files -/

section Files

variable {files : List (Option Stream)} {i j : ℕ} {stream : Stream} {x : Option Stream}

/-- The files open after one more is opened. -/
theorem join_concat (h : (files ++ [x])[j]?.join = some stream) :
    files[j]?.join = some stream ∨ j = files.length ∧ x = some stream := by
  rcases Nat.lt_trichotomy j files.length with hlt | heq | hgt
  · rw [List.getElem?_append_left hlt] at h
    exact Or.inl h
  · rw [heq, List.getElem?_concat_length, Option.join_some] at h
    exact Or.inr ⟨heq, h⟩
  · rw [List.getElem?_eq_none (by rw [List.length_append, List.length_singleton]; omega)] at h
    cases h

/-- The files open after a call on one of them. -/
theorem join_set (h : (files.set i x)[j]?.join = some stream) :
    j = i ∧ x = some stream ∨ j ≠ i ∧ files[j]?.join = some stream := by
  by_cases hij : j = i
  · subst hij
    have hlt : j < files.length := by
      by_contra hge
      rw [List.getElem?_eq_none (by rw [List.length_set]; omega)] at h
      cases h
    rw [List.getElem?_set_self hlt, Option.join_some] at h
    exact Or.inl ⟨rfl, h⟩
  · rw [List.getElem?_set_ne (Ne.symm hij)] at h
    exact Or.inr ⟨hij, h⟩

theorem join_set_ne (hij : j ≠ i) : (files.set i x)[j]?.join = files[j]?.join := by
  rw [List.getElem?_set_ne (Ne.symm hij)]

end Files

/-! ## The frame -/

/-- What every call keeps: the bytes of `eof_mark`, and while a file is open, its place behind the byte
order mark. -/
structure Framed (inv : σ → Prop) (content : σ → Mem) (mark : ℕ) (st : NofsState σ) : Prop where
  dev_inv : inv st.dev
  mark_eq : slice st.mem mark 9 = eofMark
  bom : ∀ (i : ℕ) (stream : Stream), st.files[i]?.join = some stream → slice (content st.dev) 0 3 = utfBom
  inside : ∀ (i : ℕ) (stream : Stream), st.files[i]?.join = some stream →
    ∃ pos len, 3 ≤ len ∧ InNofs stream pos len

section Open

variable {m start : ℕ} {c c' : Mem}

/-- No byte of the byte order mark is an end-of-file byte. -/
theorem three_le_of_bom {a : ℕ} (hbom : slice c 0 3 = utfBom) (heof : c a = eof) : 3 ≤ a := by
  by_contra hlt
  have hget := getElem?_slice_of_lt c 0 3 (show a < 3 by omega)
  rw [hbom, Nat.zero_add, heof] at hget
  obtain rfl | rfl | rfl : a = 0 ∨ a = 1 ∨ a = 2 := by omega
  all_goals exact absurd hget (by decide)

theorem NofsOpens.bom (h : NofsOpens dev m c c' start) : slice c' 0 3 = utfBom := by
  cases h with
  | scanned hbom | kept hbom => exact hbom
  | new hbom hnew =>
    have htake := congrArg (List.take 3) hnew
    rwa [take_slice] at htake

theorem NofsOpens.three_le (h : NofsOpens dev m c c' start) : 3 ≤ start := by
  cases h with
  | scanned hbom _ _ heof => exact three_le_of_bom hbom heof
  | kept | new => exact le_rfl

/-- When a file is opened where an end-of-file byte is. -/
theorem NofsOpens.opened_eof_iff (h : NofsOpens dev m c c' start) :
    c' start = eof ↔ slice c 0 3 ≠ utfBom ∨ (m &&& vfsModeAppend ≠ 0 ∧ dev.numBlocks ≠ 0) ∨ c 3 = eof := by
  cases h with
  | scanned hbom hmode hknown heof => exact iff_of_true heof (Or.inr (Or.inl ⟨hmode, hknown⟩))
  | kept hbom hmode =>
    exact ⟨fun heof => Or.inr (Or.inr heof), fun hor => (hor.resolve_left (not_not_intro hbom)).resolve_left hmode⟩
  | new hbom hnew =>
    have hget := getElem?_slice_of_lt c' 0 12 (show 3 < 12 by decide)
    rw [hnew, Nat.zero_add] at hget
    exact iff_of_true (Option.some.inj hget).symm (Or.inl hbom)

/-- Without a scan the call returns. -/
theorem nofsFopen_isSome {fs : Fs σ} {fuel buf : ℕ} {mode : String} {mem : Mem} {s : σ}
    (hmode : ¬(fsInterpretMode mode &&& vfsModeAppend ≠ 0 ∧ fs.parent.numBlocks ≠ 0)) :
    ∃ r, nofsFopen fs fuel buf mode mem s = some r := by
  unfold nofsFopen
  dsimp only
  split_ifs <;> exact ⟨_, rfl⟩

end Open

section Step

variable {mark : ℕ} {st : NofsState σ}

/-- `fopen` keeps the frame. -/
theorem Framed.fopen (h : NofsHealthy dev inv content good) (hbs : 12 ≤ dev.blockSize)
    (hf : Framed inv content mark st) {fuel buf : ℕ} {mode : String}
    (hfits : MarkFits dev good mark st (.fopen fuel buf mode)) {st' : NofsState σ}
    (hstep : nofsStep (nofsInit dev) mark st (.fopen fuel buf mode) = some st') :
    Framed inv content mark st' := by
  obtain ⟨r, hr, rfl⟩ := Option.map_eq_some_iff.mp hstep
  obtain ⟨start, hfile, hi, hmem, hopens⟩ := nofsFopen_spec h hf.dev_inv hr
  have hapart : buf + dev.blockSize ≤ mark ∨ mark + 9 ≤ buf := hfits
  refine ⟨hi, ?_, fun _ _ _ => (hopens hbs).bom, fun i stream hst => ?_⟩
  · rw [← hf.mark_eq, slice_eq_iff]
    exact fun j hj => hmem (mark + j) (by omega)
  · rcases join_concat hst with hold | ⟨-, hnew⟩
    · exact hf.inside i stream hold
    · obtain rfl := Option.some.inj (hfile.symm.trans hnew)
      exact ⟨start, start, (hopens hbs).three_le, rfl, rfl, min_le_right _ _, le_rfl⟩

/-- When `fopen` keeps the files marked. -/
theorem marked_fopen_iff (h : NofsHealthy dev inv content good) (hbs : 12 ≤ dev.blockSize)
    (hf : Framed inv content mark st) (hends : EndsMarked content st) {fuel buf : ℕ} {mode : String} :
    Marked dev content mark st (.fopen fuel buf mode) ↔
      SparesEnds dev content mark st (.fopen fuel buf mode) := by
  constructor
  · intro hmarked
    by_cases hmode : fsInterpretMode mode &&& vfsModeAppend ≠ 0 ∧ dev.numBlocks ≠ 0
    · exact Or.inr (Or.inl hmode)
    · obtain ⟨r, hr⟩ : ∃ r, nofsFopen (nofsInit dev) fuel buf mode st.mem st.dev = some r :=
        nofsFopen_isSome hmode
      obtain ⟨start, hfile, -, -, hopens⟩ := nofsFopen_spec h hf.dev_inv hr
      have hlast : (st.files ++ [r.1])[st.files.length]?.join =
          some ⟨start, fsInterpretMode mode, start, 0⟩ := by
        rw [List.getElem?_concat_length, Option.join_some, hfile]
      exact (hopens hbs).opened_eof_iff.mp
        ((hmarked _ (Option.map_eq_some_iff.mpr ⟨r, hr, rfl⟩)).1 st.files.length _ hlast)
  · intro hspares st' hstep
    obtain ⟨r, hr, rfl⟩ := Option.map_eq_some_iff.mp hstep
    obtain ⟨start, hfile, -, -, hopens⟩ := nofsFopen_spec h hf.dev_inv hr
    have hopens := hopens hbs
    refine ⟨fun i stream hst => ?_, fun i stream stream' hst hst' hlt => ?_⟩
    · rcases join_concat hst with hold | ⟨-, hnew⟩
      · -- a file is open, so the byte order mark is there and the device is as before
        have hsame : content r.2.2 = content st.dev := by
          generalize content r.2.2 = c' at hopens
          cases hopens with
          | scanned | kept => rfl
          | new hbom => exact absurd (hf.bom i stream hold) hbom
        exact (congrFun hsame _).trans (hends i stream hold)
      · obtain rfl := Option.some.inj (hfile.symm.trans hnew)
        exact hopens.opened_eof_iff.mpr hspares
    · rcases join_concat hst' with hold | ⟨rfl, -⟩
      · obtain rfl := Option.some.inj (hst.symm.trans hold)
        exact absurd hlt (lt_irrefl _)
      · rw [List.getElem?_eq_none le_rfl] at hst
        cases hst

/-- What `fwrite` on an open file does to the frame, and to the device. -/
theorem Framed.fwrite_spec (h : NofsHealthy dev inv content good) (hf : Framed inv content mark st) {file : ℕ}
    {temp tempMark : ℕ → ℕ} {data : List UInt8} {ptr size nmemb : ℕ}
    (hfits : MarkFits dev good mark st (.fwrite file temp tempMark data ptr size nmemb)) {stream : Stream}
    (hfile : st.files[file]?.join = some stream) :
    ∃ (place len : ℕ) (r : ℕ × FileIo σ), writePos stream = place ∧ stream.len = len ∧ 3 ≤ place ∧
      nofsStep (nofsInit dev) mark st (.fwrite file temp tempMark data ptr size nmemb) =
        some ⟨r.2.mem, r.2.dev, st.files.set file (some r.2.file)⟩ ∧
      inv r.2.dev ∧ slice r.2.mem mark 9 = eofMark ∧
      InNofs r.2.file (place + fwriteSize size nmemb) (max len (place + fwriteSize size nmemb)) ∧
      content r.2.dev = patch (content st.dev) place (putBytes dev mark temp tempMark (content st.dev)
        (patch st.mem ptr data) ptr place (fwriteSize size nmemb) len) := by
  obtain ⟨hfit, hdata, hoff⟩ := hfits
  obtain ⟨pos, len, hthree, hin⟩ := hf.inside file stream hfile
  obtain ⟨place, r, hplace, hlow, hle, hr, hstep, hwrites, -, -⟩ :=
    nofsStep_fwrite h hf.dev_inv hfile hin hfit
  obtain ⟨htemp, hmark, hroom⟩ := hfit stream hfile
  rw [hplace, hin.len_eq, Int.toNat_natCast, Int.toNat_natCast] at hroom
  have heof : slice (patch st.mem ptr data) mark 9 = eofMark := by
    rw [slice_patch_of_disjoint (by omega), hf.mark_eq]
  refine ⟨place, len, r, hplace, hin.len_eq, by omega, hstep, hwrites.dev_inv, ?_, hwrites.inNofs hlow, ?_⟩
  · rw [← heof, slice_eq_iff]
    intro i hi
    obtain ⟨ho, ho'⟩ := hoff (mark + i) (by omega) (by omega)
    exact hwrites.mem_eq (mark + i) ho ho'
  · rw [hr]
    exact nofsFwrite_put ⟨patch st.mem ptr data, st.dev, stream⟩ h.reads h.writes hroom htemp hmark hf.dev_inv
      hplace hin.len_eq hle heof hoff

/-- **Every call** keeps the frame. -/
theorem Framed.step (h : NofsHealthy dev inv content good) (hbs : 12 ≤ dev.blockSize)
    (hf : Framed inv content mark st) {call : NofsCall} (hfits : MarkFits dev good mark st call)
    {st' : NofsState σ} (hstep : nofsStep (nofsInit dev) mark st call = some st') :
    Framed inv content mark st' := by
  cases call with
  | fopen fuel buf mode => exact hf.fopen h hbs hfits hstep
  | fread => exact hfits.elim
  | fseek file offset whence =>
    obtain ⟨stream, hfile, rfl⟩ := Option.map_eq_some_iff.mp hstep
    refine ⟨hf.dev_inv, hf.mark_eq, fun i other _ => hf.bom file stream hfile, fun i other hst => ?_⟩
    rcases join_set hst with ⟨-, hnew⟩ | ⟨-, hold⟩
    · obtain rfl := Option.some.inj hnew
      obtain ⟨pos, len, hthree, hin⟩ := hf.inside file stream hfile
      obtain ⟨⟨pos', hin'⟩, -⟩ := hin.fseek offset whence
      exact ⟨pos', len, hthree, hin'⟩
    · exact hf.inside i other hold
  | fwrite file temp tempMark data ptr size nmemb =>
    obtain ⟨stream, hfile, -⟩ := Option.map_eq_some_iff.mp hstep
    obtain ⟨place, len, r, -, -, hthree, hst', hi, hmark, hin, hc⟩ := hf.fwrite_spec h hfits hfile
    obtain rfl := Option.some.inj (hst'.symm.trans hstep)
    refine ⟨hi, hmark, fun i other _ => ?_, fun i other hst => ?_⟩
    · change slice (content r.2.dev) 0 3 = utfBom
      rw [hc, slice_patch_of_disjoint (Or.inl hthree)]
      exact hf.bom file stream hfile
    · rcases join_set hst with ⟨-, hnew⟩ | ⟨-, hold⟩
      · obtain rfl := Option.some.inj hnew
        exact ⟨_, _, by omega, hin⟩
      · exact hf.inside i other hold
  | fclose file =>
    obtain ⟨stream, hfile, rfl⟩ := Option.map_eq_some_iff.mp hstep
    refine ⟨hf.dev_inv, hf.mark_eq, fun i other _ => hf.bom file stream hfile, fun i other hst => ?_⟩
    rcases join_set hst with ⟨-, hnew⟩ | ⟨-, hold⟩
    · cases hnew
    · exact hf.inside i other hold

theorem nofsFseek_len (file : Stream) (offset : ℤ) (whence : Whence) :
    (nofsFseek file offset whence).2.len = file.len := by
  cases whence <;> rfl

/-- A call that leaves the device, and the length of its file, keeps the files marked. -/
theorem marked_set (hends : EndsMarked content st) {file : ℕ} {stream : Stream} {x : Option Stream}
    (hfile : st.files[file]?.join = some stream) (hlen : ∀ stream', x = some stream' → stream'.len = stream.len) :
    EndsMarked content { st with files := st.files.set file x } ∧
      ∀ (i : ℕ) (other other' : Stream), st.files[i]?.join = some other →
        (st.files.set file x)[i]?.join = some other' → other'.len = other.len := by
  refine ⟨fun i other hother => ?_, fun i other other' hother hother' => ?_⟩
  · rcases join_set hother with ⟨-, hnew⟩ | ⟨-, hold⟩
    · rw [hlen other hnew]
      exact hends file stream hfile
    · exact hends i other hold
  · rcases join_set hother' with ⟨rfl, hnew⟩ | ⟨-, hold⟩
    · obtain rfl := Option.some.inj (hfile.symm.trans hother)
      exact hlen other' hnew
    · obtain rfl := Option.some.inj (hother.symm.trans hold)
      rfl

/-- A write that extends the file puts the mark behind its bytes. -/
theorem slice_putBytes {c₀ c mem : Mem} {temp tempMark : ℕ → ℕ} {ptr pos n len : ℕ} (hgrow : len < pos + n) :
    slice (patch c₀ pos (putBytes dev mark temp tempMark c mem ptr pos n len)) (pos + n) 9 = eofMark := by
  have hnine : eofMark.length = 9 := rfl
  have hn : (slice mem ptr n).length = n := length_slice _ _ _
  unfold putBytes
  dsimp only
  rw [if_pos hgrow, slice_patch_of_subset (Nat.le_add_right _ _) (by
    simp only [List.length_append, hn, hnine]
    omega), Nat.add_sub_cancel_left, List.drop_left' hn, List.append_assoc, List.take_left' hnine]

/-- The end of an open file behind a call of `fwrite`: that of the file written when it grows, else the one
before the call. -/
theorem Framed.fwrite_end (h : NofsHealthy dev inv content good) (hf : Framed inv content mark st)
    (hends : EndsMarked content st) {file : ℕ} {temp tempMark : ℕ → ℕ} {data : List UInt8}
    {ptr size nmemb : ℕ} (hfits : MarkFits dev good mark st (.fwrite file temp tempMark data ptr size nmemb))
    {stream : Stream} (hfile : st.files[file]?.join = some stream) {st' : NofsState σ}
    (hstep : nofsStep (nofsInit dev) mark st (.fwrite file temp tempMark data ptr size nmemb) = some st')
    {i : ℕ} {other other' : Stream} (hother : st.files[i]?.join = some other)
    (hother' : st'.files[i]?.join = some other') :
    (content st'.dev other'.len.toNat = eof ↔
      i = file ∧ stream.len < writePos stream + fwriteSize size nmemb ∨
      SparesEnd (putBytes dev mark temp tempMark (content st.dev) (patch st.mem ptr data) ptr
        (writePos stream).toNat (fwriteSize size nmemb) stream.len.toNat) (writePos stream).toNat
        other.len.toNat) ∧
    (other.len < other'.len → slice (content st'.dev) other'.len.toNat 9 = eofMark) := by
  obtain ⟨place, len, r, hplace, hlen, hthree, hst', -, -, hin, hc⟩ := hf.fwrite_spec h hfits hfile
  obtain rfl := Option.some.inj (hst'.symm.trans hstep)
  have hlen' := hin.len_eq
  rw [hplace, hlen, Int.toNat_natCast, Int.toNat_natCast]
  change (content r.2.dev other'.len.toNat = eof ↔ _) ∧ (_ → slice (content r.2.dev) other'.len.toNat 9 = eofMark)
  have hkept : other'.len = other.len → ¬(i = file ∧ (len : ℤ) < place + fwriteSize size nmemb) →
      (content r.2.dev other'.len.toNat = eof ↔
        i = file ∧ (len : ℤ) < place + fwriteSize size nmemb ∨
        SparesEnd (putBytes dev mark temp tempMark (content st.dev) (patch st.mem ptr data) ptr place
          (fwriteSize size nmemb) len) place other.len.toNat) := fun hsame hgrow => by
    rw [hc, hsame, patch_eq_eof_iff (hends i other hother), or_iff_right hgrow]
  rcases join_set hother' with ⟨rfl, hnew⟩ | ⟨hne, hold⟩
  · obtain rfl := Option.some.inj hnew
    obtain rfl := Option.some.inj (hfile.symm.trans hother)
    by_cases hgrow : len < place + fwriteSize size nmemb
    · -- the file grows, and the mark is at its new end
      have hslice : slice (content r.2.dev) r.2.file.len.toNat 9 = eofMark := by
        rw [hc, show r.2.file.len.toNat = place + fwriteSize size nmemb by omega]
        exact slice_putBytes hgrow
      have hget := getElem?_slice_of_lt (content r.2.dev) r.2.file.len.toNat 9 (show 0 < 9 by decide)
      rw [hslice, Nat.add_zero] at hget
      exact ⟨iff_of_true (Option.some.inj hget).symm (Or.inl ⟨rfl, by omega⟩), fun _ => hslice⟩
    · exact ⟨hkept (by omega) fun hown => hgrow (by omega), fun hlt => absurd hlt (by omega)⟩
  · obtain rfl := Option.some.inj (hother.symm.trans hold)
    exact ⟨hkept rfl fun hown => hne hown.1, fun hlt => absurd hlt (lt_irrefl _)⟩

/-- When `fwrite` keeps the files marked. -/
theorem marked_fwrite_iff (h : NofsHealthy dev inv content good) (hf : Framed inv content mark st)
    (hends : EndsMarked content st) {file : ℕ} {temp tempMark : ℕ → ℕ} {data : List UInt8}
    {ptr size nmemb : ℕ} (hfits : MarkFits dev good mark st (.fwrite file temp tempMark data ptr size nmemb)) :
    Marked dev content mark st (.fwrite file temp tempMark data ptr size nmemb) ↔
      SparesEnds dev content mark st (.fwrite file temp tempMark data ptr size nmemb) := by
  constructor
  · intro hmarked stream hfile i other hother
    obtain ⟨_, _, r, -, -, -, hstep, -⟩ := hf.fwrite_spec h hfits hfile
    obtain ⟨other', hother'⟩ : ∃ other', (st.files.set file (some r.2.file))[i]?.join = some other' := by
      by_cases hown : i = file
      · exact ⟨_, by rw [hown]; exact getElem?_set_join hfile _⟩
      · exact ⟨other, (join_set_ne hown).trans hother⟩
    exact (hf.fwrite_end h hends hfits hfile hstep hother hother').1.mp ((hmarked _ hstep).1 i other' hother')
  · intro hspares st' hstep
    obtain ⟨stream, hfile, hst'⟩ := Option.map_eq_some_iff.mp hstep
    refine ⟨fun i other' hother' => ?_, fun i other other' hother hother' hlt =>
      (hf.fwrite_end h hends hfits hfile hstep hother hother').2 hlt⟩
    obtain ⟨other, hother⟩ : ∃ other, st.files[i]?.join = some other := by
      subst hst'
      rcases join_set hother' with ⟨rfl, -⟩ | ⟨-, hold⟩
      · exact ⟨stream, hfile⟩
      · exact ⟨other', hold⟩
    exact (hf.fwrite_end h hends hfits hfile hstep hother hother').1.mpr (hspares stream hfile i other hother)

end Step

/-! ## Runs -/

/-- **The end-of-file mark.** In a session of `fopen`, `fseek`, `fwrite` and `fclose` the open files end with
an end-of-file byte after each call, and with the whole mark where they have grown, if and only if each
call spares the ends of the files. -/
theorem nofs_marker_iff (h : NofsHealthy dev inv content good) (hbs : 12 ≤ dev.blockSize) {s : σ} (hs : inv s)
    {mem : Mem} {mark : ℕ} (hmark : slice mem mark 9 = eofMark) {calls : List NofsCall}
    (hfits : Along (nofsStep (nofsInit dev) mark) (MarkFits dev good mark) ⟨mem, s, []⟩ calls) :
    Along (nofsStep (nofsInit dev) mark) (Marked dev content mark) ⟨mem, s, []⟩ calls ↔
      Along (nofsStep (nofsInit dev) mark) (SparesEnds dev content mark) ⟨mem, s, []⟩ calls := by
  have hnone : ∀ (i : ℕ) (stream : Stream), ([] : List (Option Stream))[i]?.join ≠ some stream := by simp
  refine along_iff (I := fun st => Framed inv content mark st ∧ EndsMarked content st) ?_
    ⟨⟨hs, hmark, fun i stream hst => absurd hst (hnone i stream),
      fun i stream hst => absurd hst (hnone i stream)⟩, fun i stream hst => absurd hst (hnone i stream)⟩ hfits
  rintro st call ⟨hf, hends⟩ hfit
  refine ⟨?_, fun st' hstep hmarked => ⟨hf.step h hbs hfit hstep, (hmarked st' hstep).1⟩⟩
  cases call with
  | fopen fuel buf mode => exact marked_fopen_iff h hbs hf hends
  | fread => exact hfit.elim
  | fwrite file temp tempMark data ptr size nmemb => exact marked_fwrite_iff h hf hends hfit
  | fseek file offset whence =>
    refine iff_of_true (fun st' hstep => ?_) trivial
    obtain ⟨stream, hfile, rfl⟩ := Option.map_eq_some_iff.mp hstep
    obtain ⟨hends', hlen⟩ := marked_set (x := some (nofsFseek stream offset whence).2) hends hfile
      fun stream' hx => by rw [← Option.some.inj hx, nofsFseek_len]
    exact ⟨hends', fun i other other' hother hother' hlt => absurd (hlen i other other' hother hother') hlt.ne'⟩
  | fclose file =>
    refine iff_of_true (fun st' hstep => ?_) trivial
    obtain ⟨stream, hfile, rfl⟩ := Option.map_eq_some_iff.mp hstep
    obtain ⟨hends', hlen⟩ := marked_set (x := none) hends hfile fun stream' hx => by cases hx
    exact ⟨hends', fun i other other' hother hother' hlt => absurd (hlen i other other' hother hother') hlt.ne'⟩

/-! ## Examples -/

/-- A new file of one byte is closed, and opened again. -/
def reopen (mode : String) : List NofsCall :=
  [.fopen 1 0x4000 "w", writeByte 0x41, .fclose 0, .fopen 1 0x4000 mode]

/-- An empty device, and `eof_mark` in memory. -/
def markStart : NofsState Mem := ⟨patch (fun _ => 0) 0x3000 eofMark, fun _ => 0, []⟩

theorem reopen_fits (mode : String) :
    Along (nofsStep (nofsInit (storeDevice 16)) 0x3000)
      (MarkFits (storeDevice 16) (fun b => b * 512 + 512 ≤ 16 * 512) 0x3000) markStart (reopen mode) := by
  have hnear : (nofsStep (nofsInit (storeDevice 16)) 0x3000 markStart (.fopen 1 0x4000 "w")).map nearStart =
      some true := by decide +kernel
  refine ⟨Or.inr (by decide), fun st hst => ⟨⟨writeByte_fits ?_ 0x41, Or.inl (by decide), fun a ha _ => ?_⟩,
    fun _ _ => ⟨trivial, fun _ _ => ⟨Or.inr (by decide), fun _ _ => trivial⟩⟩⟩⟩
  · rw [hst] at hnear
    exact Option.some.inj hnear
  · have hoff : OffBuffers (fun _ => 0x2000) (storeDevice 16).blockSize a :=
      fun _ => Or.inr (show 0x2000 + 512 + 16 ≤ a by omega)
    exact ⟨hoff, hoff⟩

/-- Opened for reading, the file has no bytes but the byte order mark, and the byte that was written is where
the mark should be. -/
theorem nofs_marker_broken :
    Along (nofsStep (nofsInit (storeDevice 16)) 0x3000)
      (MarkFits (storeDevice 16) (fun b => b * 512 + 512 ≤ 16 * 512) 0x3000) markStart (reopen "r") ∧
    ¬ Along (nofsStep (nofsInit (storeDevice 16)) 0x3000)
      (Marked (storeDevice 16) (fun c => c) 0x3000) markStart (reopen "r") := by
  have hlast : (run (nofsStep (nofsInit (storeDevice 16)) 0x3000) markStart (reopen "r")).map
      (fun st => (st.files[1]?.join, st.dev 3)) =
        some (some ⟨3, fsInterpretMode "r", 3, 0⟩, 0x41) := by decide +kernel
  refine ⟨reopen_fits "r", fun halong => ?_⟩
  obtain ⟨st, hrun, hst⟩ := Option.map_eq_some_iff.mp hlast
  obtain ⟨hfile, hbyte⟩ := Prod.ext_iff.mp hst
  have hsplit : reopen "r" = (reopen "r").take 3 ++ [.fopen 1 0x4000 "r"] := rfl
  rw [hsplit] at hrun halong
  obtain ⟨st₃, hthree, hstep⟩ := (run_append_eq_some _).mp hrun
  obtain ⟨st₄, hfour, hend⟩ := (run_cons_eq_some _).mp hstep
  obtain rfl : st₄ = st := Option.some.inj hend
  have heof := ((halong.of_append hthree).1 st₄ hfour).1 1 _ hfile
  exact absurd (hbyte.symm.trans heof) (by decide)

/-- Opened for appending, it is opened at the mark. -/
theorem reopen_spares :
    Along (nofsStep (nofsInit (storeDevice 16)) 0x3000)
      (SparesEnds (storeDevice 16) (fun c => c) 0x3000) markStart (reopen "a+") := by
  have hfiles : (nofsStep (nofsInit (storeDevice 16)) 0x3000 markStart (.fopen 1 0x4000 "w")).map (·.files) =
      some [some ⟨3, fsInterpretMode "w", 3, 0⟩] := by decide +kernel
  refine ⟨Or.inl (by decide), fun st hst => ⟨fun stream hfile i other hother => Or.inl ?_,
    fun _ _ => ⟨trivial, fun _ _ => ⟨Or.inr (Or.inl ⟨by decide, by decide⟩), fun _ _ => trivial⟩⟩⟩⟩
  rw [hst, Option.map_some, Option.some.injEq] at hfiles
  rw [hfiles] at hfile hother
  obtain rfl := Option.some.inj hfile
  cases i with
  | zero => exact ⟨rfl, by decide⟩
  | succ i => simp at hother

theorem nofs_marker_reopen :
    Along (nofsStep (nofsInit (storeDevice 16)) 0x3000)
      (Marked (storeDevice 16) (fun c => c) 0x3000) markStart (reopen "a+") :=
  (nofs_marker_iff (storeDevice_nofsHealthy (by decide) (by decide)) (by decide) trivial
    (slice_patch _ _ eofMark) (reopen_fits "a+")).mpr reopen_spares

end RpiBoot
