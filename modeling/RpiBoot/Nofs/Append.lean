import RpiBoot.Nofs.Scan
import RpiBoot.Nofs.Write

/-!
# Appending to a nofs file

`fs_fwrite` moves the position to the end of the file when the mode has both the append and the read
bit, which is so for "a+". For "a" it does not.

* `nofsFopen_spec`: what opening a file does, in any mode.
* `NofsFits`: a call that does not run out of space.
* `nofsStep_fwrite`: a call of `fwrite` in a session.
* **`nofs_append`**: where the writes to a file that is opened for appending go.
-/

namespace RpiBoot

open Runs Store

variable {σ : Type} {dev : BlockDevice σ} {inv : σ → Prop} {content : σ → Mem} {good : ℕ → Prop}

/-! ## Opening -/

/-- A scan that ends has found an end-of-file byte. -/
theorem nofsScan_returns (h : HealthyReads dev inv content good) {b buf : ℕ} (hb : good b)
    (hlt : b < dev.numBlocks) :
    ∀ (fuel : ℕ) (mem : Mem) (s : σ) (r : Option ℕ × Mem × σ), inv s →
      nofsScan (nofsInit dev) buf b fuel mem s = some r →
      inv r.2.2 ∧ content r.2.2 = content s ∧
        (∀ a, a < buf ∨ buf + dev.blockSize ≤ a → r.2.1 a = mem a) ∧
        ∃ i, r.1 = some i ∧ content s i = eof
  | 0, _, _, _, _, hr => by cases hr
  | fuel + 1, mem, s, r, hs, hr => by
    obtain ⟨mem', s', hs', hc', hmem', hround⟩ := nofsScan_round buf fuel mem h hs hb hlt
    rw [hround] at hr
    cases hfind : (List.range dev.blockSize).find? fun i => content s (b * dev.blockSize + i) = eof with
    | none =>
      rw [hfind] at hr
      obtain ⟨hi, hc, hmem, i, hsome, heof⟩ := nofsScan_returns h hb hlt fuel mem' s' r hs' hr
      rw [hc'] at hc heof
      exact ⟨hi, hc, fun a ha => (hmem a ha).trans (hmem' a ha), i, hsome, heof⟩
    | some i =>
      rw [hfind] at hr
      obtain rfl := Option.some.inj hr
      exact ⟨hs', hc', hmem', _, rfl, by simpa using (List.find?_range_eq_some.mp hfind).1⟩

/-- From the contents `c` a file with the mode bits `m` is opened at `start`, with `c'` on the device. -/
inductive NofsOpens (dev : BlockDevice σ) (m : ℕ) (c : Mem) : Mem → ℕ → Prop
  | scanned {start : ℕ} (hbom : slice c 0 3 = utfBom) (hmode : m &&& vfsModeAppend ≠ 0)
    (hknown : dev.numBlocks ≠ 0) (heof : c start = eof) : NofsOpens dev m c c start
  | kept (hbom : slice c 0 3 = utfBom) (hmode : ¬(m &&& vfsModeAppend ≠ 0 ∧ dev.numBlocks ≠ 0)) :
    NofsOpens dev m c c 3
  | new {c' : Mem} (hbom : slice c 0 3 ≠ utfBom) (hnew : slice c' 0 12 = utfBom ++ eofMark) :
    NofsOpens dev m c c' 3

/-- **Opening a file**, in any mode. -/
theorem nofsFopen_spec (h : NofsHealthy dev inv content good) {s : σ} (hs : inv s) {fuel buf : ℕ}
    {mode : String} {mem : Mem} {r : Option Stream × Mem × σ}
    (hopen : nofsFopen (nofsInit dev) fuel buf mode mem s = some r) :
    ∃ start : ℕ, r.1 = some ⟨start, fsInterpretMode mode, start, 0⟩ ∧ inv r.2.2 ∧
      (∀ a, a < buf ∨ buf + dev.blockSize ≤ a → r.2.1 a = mem a) ∧
      (12 ≤ dev.blockSize → NofsOpens dev (fsInterpretMode mode) (content s) (content r.2.2) start) := by
  obtain ⟨block0, s₁, hread, hblock, hi, hc⟩ := readFresh_healthy h.reads hs h.good_zero
  rw [Nat.zero_mul] at hblock
  have hstart : 3 ≤ dev.blockSize → slice (content s) 0 3 = slice block0 0 3 := fun hle => by
    rw [← min_eq_left hle, ← take_slice, ← take_slice, hblock]
  by_cases hbom : slice block0 0 3 = utfBom
  · rw [nofsFopen_of_bom hread hbom] at hopen
    split_ifs at hopen with happ
    · obtain ⟨t, hscan, rfl⟩ := Option.map_eq_some_iff.mp hopen
      obtain ⟨hi', hc', hmem, i, hsome, heof⟩ :=
        nofsScan_returns h.reads h.good_zero (Nat.pos_of_ne_zero happ.2) fuel mem s₁ t hi hscan
      rw [hc] at hc' heof
      refine ⟨i, by rw [hsome]; rfl, hi', hmem, fun hle => ?_⟩
      rw [hc']
      exact .scanned ((hstart (by omega)).trans hbom) happ.1 happ.2 heof
    · obtain rfl := Option.some.inj hopen
      refine ⟨3, rfl, hi, fun _ _ => rfl, fun hle => ?_⟩
      rw [hc]
      exact .kept ((hstart (by omega)).trans hbom) happ
  · obtain ⟨s₂, hwrite, hi₂, hc₂⟩ := h.blockWrite_zero hi (patch block0 0 (utfBom ++ eofMark))
    rw [nofsFopen_of_new hread hbom hwrite] at hopen
    obtain rfl := Option.some.inj hopen
    refine ⟨3, rfl, hi₂, fun _ _ => rfl, fun hle => .new ?_ ?_⟩
    · rwa [hstart (by omega)]
    · -- the first twelve bytes of the block that is written
      have htwelve : slice (patch block0 0 (utfBom ++ eofMark)) 0 12 = utfBom ++ eofMark :=
        slice_patch _ _ (utfBom ++ eofMark)
      rw [hc₂, ← min_eq_left hle, ← take_slice, slice_patch_slice, take_slice,
        min_eq_left hle, htwelve]

/-! ## Calls -/

/-- The number of bytes that `fwrite` hands to the filesystem. -/
def fwriteSize (size nmemb : ℕ) : ℕ := u32 (size * nmemb) / size * size

/-- There is space for what a call writes, and the buffers that are allocated for it are apart from the
bytes of the caller and from `eof_mark`. -/
def NofsFits (dev : BlockDevice σ) (good : ℕ → Prop) (mark : ℕ) (st : NofsState σ) : NofsCall → Prop
  | .fwrite file temp tempMark _ ptr size nmemb => ∀ stream, st.files[file]?.join = some stream →
    TempApart temp dev.blockSize ptr (fwriteSize size nmemb) ∧ TempApart tempMark dev.blockSize mark 9 ∧
    Room dev good (writeStop stream.len.toNat (writePos stream).toNat (fwriteSize size nmemb))
  | _ => True

/-- `fseek` and `fwrite` on one file. -/
def NofsCall.MovesOrWrites (file : ℕ) : NofsCall → Prop
  | .fseek f _ _ => f = file
  | .fwrite f _ _ _ _ _ _ => f = file
  | _ => False

/-- What a call on a file does. A call of `fwrite` puts the bytes of the caller on the device from `place` on,
changes nothing below, and the bytes belong to the file; other calls leave the device and the length. -/
def PlacesAt (dev : BlockDevice σ) (content : σ → Mem) (mark file : ℕ) (place : Stream → ℤ)
    (st : NofsState σ) (call : NofsCall) : Prop :=
  ∃ (st' : NofsState σ) (stream stream' : Stream), nofsStep (nofsInit dev) mark st call = some st' ∧
    st.files[file]?.join = some stream ∧ st'.files[file]?.join = some stream' ∧
    match call with
    | .fwrite _ _ _ data ptr size nmemb => ∃ p : ℕ, place stream = p ∧
      slice (content st'.dev) p (fwriteSize size nmemb) =
        slice (patch st.mem ptr data) ptr (fwriteSize size nmemb) ∧
      (∀ a < p, content st'.dev a = content st.dev a) ∧
      stream'.len = max stream.len (p + fwriteSize size nmemb : ℕ)
    | _ => content st'.dev = content st.dev ∧ stream'.len = stream.len

/-- An open file with the mode bits `m`, in which the position is. -/
def OpenIn (inv : σ → Prop) (file m : ℕ) (st : NofsState σ) : Prop :=
  inv st.dev ∧ ∃ (stream : Stream) (pos len : ℕ), st.files[file]?.join = some stream ∧ stream.mode = m ∧
    InNofs stream pos len

theorem getElem?_set_join {files : List (Option Stream)} {i : ℕ} {stream : Stream}
    (h : files[i]?.join = some stream) (stream' : Option Stream) :
    (files.set i stream')[i]?.join = stream' := by
  have hlt : i < files.length := by
    by_contra hge
    rw [List.getElem?_eq_none (by omega)] at h
    cases h
  rw [List.getElem?_set_self hlt, Option.join_some]

section Step

variable {mark file : ℕ} {st : NofsState σ} {stream : Stream} {pos len : ℕ}

/-- **A call of `fwrite`** on an open file. -/
theorem nofsStep_fwrite (h : NofsHealthy dev inv content good) (hi : inv st.dev)
    (hfile : st.files[file]?.join = some stream) (hin : InNofs stream pos len)
    {temp tempMark : ℕ → ℕ} {data : List UInt8} {ptr size nmemb : ℕ}
    (hfits : NofsFits dev good mark st (.fwrite file temp tempMark data ptr size nmemb)) :
    ∃ (place : ℕ) (r : ℕ × FileIo σ), writePos stream = place ∧ min 3 len ≤ place ∧ place ≤ len ∧
      r = nofsFwrite (nofsInit dev) mark temp tempMark ptr (fwriteSize size nmemb)
        ⟨patch st.mem ptr data, st.dev, stream⟩ ∧
      nofsStep (nofsInit dev) mark st (.fwrite file temp tempMark data ptr size nmemb) =
        some ⟨r.2.mem, r.2.dev, st.files.set file (some r.2.file)⟩ ∧
      NofsWrites dev inv temp tempMark place (fwriteSize size nmemb) len
        ⟨patch st.mem ptr data, st.dev, stream⟩ r ∧
      slice (content r.2.dev) place (fwriteSize size nmemb) =
        slice (patch st.mem ptr data) ptr (fwriteSize size nmemb) ∧
      ∀ a < place, content r.2.dev a = content st.dev a := by
  obtain ⟨place, hplace, hlow, hle⟩ := hin.writePos
  obtain ⟨htemp, hmark, hroom⟩ := hfits stream hfile
  rw [hplace, hin.len_eq, Int.toNat_natCast, Int.toNat_natCast] at hroom
  obtain ⟨hwrites, hslice, hbelow⟩ := nofsFwrite_spec ⟨patch st.mem ptr data, st.dev, stream⟩ h.reads
    h.writes hroom htemp hmark hi hplace hin.len_eq hle
  refine ⟨place, _, hplace, hlow, hle, rfl, ?_, hwrites, hslice, hbelow⟩
  simp only [nofsStep, NofsState.transfer, hfile, Option.map_some]
  rfl

/-- The file is behind the call where it was before. -/
theorem NofsWrites.inNofs {temp tempMark : ℕ → ℕ} {place n : ℕ} {io : FileIo σ} {r : ℕ × FileIo σ}
    (h : NofsWrites dev inv temp tempMark place n len io r) (hlow : min 3 len ≤ place) :
    InNofs r.2.file (place + n) (max len (place + n)) :=
  ⟨h.pos_eq, h.len_eq, by omega, le_max_right _ _⟩

/-- **One call** on an open file. -/
theorem nofsStep_places (h : NofsHealthy dev inv content good) {m : ℕ} (hopen : OpenIn inv file m st)
    {call : NofsCall} (hcall : call.MovesOrWrites file) (hfits : NofsFits dev good mark st call)
    {place : Stream → ℤ}
    (hplace : ∀ stream, st.files[file]?.join = some stream → writePos stream = place stream) :
    PlacesAt dev content mark file place st call ∧
      ∀ st', nofsStep (nofsInit dev) mark st call = some st' → OpenIn inv file m st' := by
  obtain ⟨hi, stream, pos, len, hfile, hmode, hin⟩ := hopen
  cases call with
  | fopen | fread | fclose => exact hcall.elim
  | fseek f offset whence =>
    obtain rfl : f = file := hcall
    obtain ⟨⟨pos', hin'⟩, hmode'⟩ := hin.fseek offset whence
    have hset := getElem?_set_join hfile (some (nofsFseek stream offset whence).2)
    have hstep : nofsStep (nofsInit dev) mark st (.fseek f offset whence) =
        some { st with files := st.files.set f (some (nofsFseek stream offset whence).2) } := by
      simp only [nofsStep, hfile, Option.map_some]
    refine ⟨⟨_, stream, _, hstep, hfile, hset, rfl, hin'.len_eq.trans hin.len_eq.symm⟩, fun st' hst' => ?_⟩
    obtain rfl := Option.some.inj (hstep.symm.trans hst')
    exact ⟨hi, _, pos', len, hset, hmode'.trans hmode, hin'⟩
  | fwrite f temp tempMark data ptr size nmemb =>
    obtain rfl : f = file := hcall
    obtain ⟨p, r, hp, hlow, -, -, hstep, hwrites, hslice, hbelow⟩ := nofsStep_fwrite h hi hfile hin hfits
    have hset := getElem?_set_join hfile (some r.2.file)
    have hlen : r.2.file.len = max stream.len (p + fwriteSize size nmemb : ℕ) := by
      rw [hwrites.len_eq, hin.len_eq]
      omega
    refine ⟨⟨_, stream, _, hstep, hfile, hset, p, ?_, hslice, hbelow, hlen⟩, fun st' hst' => ?_⟩
    · rw [← hplace stream hfile, hp]
    · obtain rfl := Option.some.inj (hstep.symm.trans hst')
      exact ⟨hwrites.dev_inv, _, _, _, hset, hwrites.mode_eq.trans hmode, hwrites.inNofs hlow⟩

/-- Where the position is the end of the file, writes go there. -/
theorem writePos_of_atEnd (hend : stream.pos = stream.len) : writePos stream = stream.len := by
  unfold writePos
  split_ifs
  · rfl
  · exact hend

/-- A call other than `fseek` leaves the position at the end of the file. -/
theorem nofsStep_atEnd (h : NofsHealthy dev inv content good) {m : ℕ} (hopen : OpenIn inv file m st)
    (hend : ∀ stream, st.files[file]?.join = some stream → stream.pos = stream.len)
    {call : NofsCall} (hcall : call.MovesOrWrites file) (hseek : ∀ f offset whence, call ≠ .fseek f offset whence)
    (hfits : NofsFits dev good mark st call) {st' : NofsState σ}
    (hstep : nofsStep (nofsInit dev) mark st call = some st') :
    ∀ stream, st'.files[file]?.join = some stream → stream.pos = stream.len := by
  obtain ⟨hi, stream, pos, len, hfile, -, hin⟩ := hopen
  cases call with
  | fopen | fread | fclose => exact hcall.elim
  | fseek f offset whence => exact absurd rfl (hseek f offset whence)
  | fwrite f temp tempMark data ptr size nmemb =>
    obtain rfl : f = file := hcall
    obtain ⟨p, r, hp, -, -, -, hst', hwrites, -⟩ := nofsStep_fwrite h hi hfile hin hfits
    obtain rfl := Option.some.inj (hst'.symm.trans hstep)
    intro stream' hfile'
    rw [getElem?_set_join hfile] at hfile'
    obtain rfl := Option.some.inj hfile'
    have hlen : p = len := by
      have := hp.symm.trans ((writePos_of_atEnd (hend stream hfile)).trans hin.len_eq)
      omega
    rw [hwrites.pos_eq, hwrites.len_eq, hlen, max_eq_right (Nat.le_add_right _ _)]

end Step

/-! ## Runs -/

section Run

variable {mark file : ℕ} {st : NofsState σ} {calls : List NofsCall}

/-- What is below the end stays as it is. -/
theorem below_of_placesAt {st' : NofsState σ}
    (ha : Along (nofsStep (nofsInit dev) mark) (PlacesAt dev content mark file Stream.len) st calls)
    (hr : run (nofsStep (nofsInit dev) mark) st calls = some st') {stream : Stream}
    (hfile : st.files[file]?.join = some stream) {a : ℕ} (hlt : a < stream.len) :
    content st'.dev a = content st.dev a := by
  induction calls generalizing st stream with
  | nil => obtain rfl : st = st' := Option.some.inj hr; rfl
  | cons call calls ih =>
    obtain ⟨⟨st₁, stream₀, stream₁, hstep, hfile₀, hfile₁, hplaced⟩, hrest⟩ := ha
    obtain rfl : stream = stream₀ := Option.some.inj (hfile.symm.trans hfile₀)
    rw [run_cons, hstep, Option.bind_some] at hr
    have hone : content st₁.dev a = content st.dev a ∧ stream.len ≤ stream₁.len := by
      cases call with
      | fwrite f temp tempMark data ptr size nmemb =>
        obtain ⟨p, hp, -, hbelow, hlen⟩ := hplaced
        exact ⟨hbelow a (by omega), by omega⟩
      | fopen | fseek | fread | fclose => exact ⟨congrFun hplaced.1 a, hplaced.2.ge⟩
    exact (ih (hrest st₁ hstep) hr hfile₁ (lt_of_lt_of_le hlt hone.2)).trans hone.1

/-- **Append mode.** Every write to a file opened with "a+" goes to the end of the file, and what is below
this end at some time never changes. Every write to a file opened with "a" goes to the position, which
is the end of the file unless there is a seek. -/
theorem nofs_append (h : NofsHealthy dev inv content good) {s : σ} (hs : inv s) {mem : Mem}
    {files : List (Option Stream)} {mark fuel buf : ℕ} {mode : String} {st : NofsState σ}
    (hopen : nofsStep (nofsInit dev) mark ⟨mem, s, files⟩ (.fopen fuel buf mode) = some st)
    {calls : List NofsCall} (hcalls : ∀ call ∈ calls, call.MovesOrWrites files.length)
    (hfits : Along (nofsStep (nofsInit dev) mark) (NofsFits dev good mark) st calls) :
    (mode = "a+" →
      Along (nofsStep (nofsInit dev) mark) (PlacesAt dev content mark files.length Stream.len) st calls ∧
      ∀ pre post st₁ st₂, calls = pre ++ post → run (nofsStep (nofsInit dev) mark) st pre = some st₁ →
        run (nofsStep (nofsInit dev) mark) st₁ post = some st₂ →
        ∀ stream, st₁.files[files.length]?.join = some stream →
          ∀ a : ℕ, a < stream.len → content st₂.dev a = content st₁.dev a) ∧
    (mode = "a" →
      Along (nofsStep (nofsInit dev) mark) (PlacesAt dev content mark files.length Stream.pos) st calls ∧
      ((∀ call ∈ calls, ∀ f offset whence, call ≠ .fseek f offset whence) →
        Along (nofsStep (nofsInit dev) mark) (PlacesAt dev content mark files.length Stream.len) st calls)) := by
  obtain ⟨r, hr, rfl⟩ := Option.map_eq_some_iff.mp hopen
  obtain ⟨start, hfile, hi, -, -⟩ := nofsFopen_spec h hs hr
  have hnew : (files ++ [r.1])[files.length]?.join =
      some ⟨start, fsInterpretMode mode, start, 0⟩ := by
    rw [List.getElem?_concat_length, Option.join_some, hfile]
  have hfirst : OpenIn inv files.length (fsInterpretMode mode) ⟨r.2.1, r.2.2, files ++ [r.1]⟩ :=
    ⟨hi, _, start, start, hnew, rfl, rfl, rfl, min_le_right _ _, le_rfl⟩
  have hboth := (along_of_forall hcalls _).and hfits
  -- the place where a file with these mode bits is written
  have hrun : ∀ place : Stream → ℤ,
      (∀ stream : Stream, stream.mode = fsInterpretMode mode → writePos stream = place stream) →
      Along (nofsStep (nofsInit dev) mark) (PlacesAt dev content mark files.length place)
        ⟨r.2.1, r.2.2, files ++ [r.1]⟩ calls := fun place hplace => by
    refine along_of_invariant (fun st call hopen hp => nofsStep_places h hopen hp.1 hp.2 fun stream hst => ?_)
      hfirst hboth
    obtain ⟨-, stream', pos, len, hst', hmode', -⟩ := hopen
    obtain rfl := Option.some.inj (hst.symm.trans hst')
    exact hplace stream hmode'
  refine ⟨?_, ?_⟩
  · rintro rfl
    have halong := hrun Stream.len fun stream hm => by
      rw [writePos, hm]
      rfl
    refine ⟨halong, ?_⟩
    rintro pre post st₁ st₂ rfl hpre hpost stream hst a hlt
    exact below_of_placesAt (halong.of_append hpre) hpost hst hlt
  · rintro rfl
    refine ⟨hrun Stream.pos fun stream hm => by rw [writePos, hm]; rfl, fun hseeks => ?_⟩
    refine along_of_invariant (I := fun st => OpenIn inv files.length (fsInterpretMode "a") st ∧
      ∀ stream, st.files[files.length]?.join = some stream → stream.pos = stream.len) ?_ ⟨hfirst, ?_⟩
      ((along_of_forall hseeks _).and hboth)
    · rintro st call ⟨hopen, hend⟩ ⟨hseek, hcall, hfit⟩
      obtain ⟨hplaces, hkeep⟩ := nofsStep_places h hopen hcall hfit fun stream hst =>
        writePos_of_atEnd (hend stream hst)
      exact ⟨hplaces, fun st' hst' => ⟨hkeep st' hst', nofsStep_atEnd h hopen hend hcall hseek hfit hst'⟩⟩
    · intro stream hst
      rw [hnew] at hst
      obtain rfl := Option.some.inj hst
      rfl

end Run

/-! ## Examples -/

/-- A byte is written to file 0. -/
def writeByte (b : UInt8) : NofsCall := .fwrite 0 (fun _ => 0x2000) (fun _ => 0x2000) [b] 0x1000 1 1

/-- A byte, a seek to the start, and a byte. -/
def seekBetween : List NofsCall := [writeByte 0x41, .fseek 0 0 .set, writeByte 0x42]

/-- A device with a file that ends at offset 5. -/
def appendStart : NofsState Mem := ⟨patch (fun _ => 0) 0x3000 eofMark, bomVolume 5, []⟩

theorem storeDevice_room {stop : ℕ} (h : stop < 16 * 512) :
    Room (storeDevice 16) (fun b => b * 512 + 512 ≤ 16 * 512) stop where
  good_block := fun idx hidx _ => by
    change idx ≤ stop / 512 at hidx
    omega
  fits := by
    change stop ≤ 512 * 512
    omega
  lt := by omega

/-- Whether the file ends near the start of the device. -/
def nearStart (st : NofsState Mem) : Bool :=
  st.files[0]?.join.all fun stream => decide (stream.len ≤ 100 ∧ writePos stream ≤ 100)

theorem writeByte_fits {st : NofsState Mem} (hnear : nearStart st = true) (b : UInt8) :
    NofsFits (storeDevice 16) (fun b => b * 512 + 512 ≤ 16 * 512) 0x3000 st (writeByte b) := by
  intro stream hfile
  have hn : fwriteSize 1 1 = 1 := by decide
  rw [nearStart, hfile, Option.all_some, decide_eq_true_eq] at hnear
  refine ⟨fun _ => Or.inr (show 0x1000 + fwriteSize 1 1 ≤ 0x2000 by rw [hn]; decide),
    fun _ => Or.inl (show 0x2000 + 512 ≤ 0x3000 by decide), storeDevice_room ?_⟩
  rw [hn, writeStop]
  split_ifs <;> omega

/-- The calls are of the kind asked for, and fit. -/
theorem seekBetween_fits {mode : String} (hmode : mode = "a" ∨ mode = "a+") {st : NofsState Mem}
    (hopen : nofsStep (nofsInit (storeDevice 16)) 0x3000 appendStart (.fopen 1 0x4000 mode) = some st) :
    (∀ call ∈ seekBetween, call.MovesOrWrites 0) ∧
    Along (nofsStep (nofsInit (storeDevice 16)) 0x3000)
      (NofsFits (storeDevice 16) (fun b => b * 512 + 512 ≤ 16 * 512) 0x3000) st seekBetween := by
  have hnear : (run (nofsStep (nofsInit (storeDevice 16)) 0x3000) appendStart
      [.fopen 1 0x4000 mode]).map nearStart = some true ∧
      (run (nofsStep (nofsInit (storeDevice 16)) 0x3000) appendStart
        [.fopen 1 0x4000 mode, writeByte 0x41, .fseek 0 0 .set]).map nearStart = some true := by
    rcases hmode with rfl | rfl <;> decide +kernel
  refine ⟨by simp [seekBetween, writeByte, NofsCall.MovesOrWrites],
    ⟨writeByte_fits ?_ _, fun st₁ h₁ => ⟨trivial, fun st₂ h₂ => ⟨writeByte_fits ?_ _, fun _ _ => trivial⟩⟩⟩⟩
  · have hone := hnear.1
    rw [run_cons, hopen] at hone
    exact Option.some.inj hone
  · have hthree := hnear.2
    rw [run_cons, hopen, Option.bind_some, run_cons, h₁, Option.bind_some, run_cons, h₂] at hthree
    exact Option.some.inj hthree

/-- The byte that is written with "a" after the seek lands on the first byte of the file. -/
theorem nofs_append_broken :
    ∃ st, nofsStep (nofsInit (storeDevice 16)) 0x3000 appendStart (.fopen 1 0x4000 "a") = some st ∧
      (∀ call ∈ seekBetween, call.MovesOrWrites 0) ∧
      Along (nofsStep (nofsInit (storeDevice 16)) 0x3000)
        (NofsFits (storeDevice 16) (fun b => b * 512 + 512 ≤ 16 * 512) 0x3000) st seekBetween ∧
      ¬ Along (nofsStep (nofsInit (storeDevice 16)) 0x3000)
        (PlacesAt (storeDevice 16) (fun c => c) 0x3000 0 Stream.len) st seekBetween := by
  have hstart : (nofsStep (nofsInit (storeDevice 16)) 0x3000 appendStart (.fopen 1 0x4000 "a")).map
      (fun st => (st.files[0]?.join, st.dev 3)) =
        some (some ⟨5, fsInterpretMode "a", 5, 0⟩, 0) := by decide +kernel
  have hstop : (run (nofsStep (nofsInit (storeDevice 16)) 0x3000) appendStart
      (.fopen 1 0x4000 "a" :: seekBetween)).map (fun st => st.dev 3) = some 0x42 := by decide +kernel
  obtain ⟨st, hopen, hst⟩ := Option.map_eq_some_iff.mp hstart
  obtain ⟨hfile, hthree⟩ := Prod.ext_iff.mp hst
  obtain ⟨st', hrun, hlast⟩ := Option.map_eq_some_iff.mp hstop
  rw [run_cons, hopen, Option.bind_some] at hrun
  obtain ⟨hcalls, hfits⟩ := seekBetween_fits (Or.inl rfl) hopen
  refine ⟨st, hopen, hcalls, hfits, fun halong => ?_⟩
  have hsame := below_of_placesAt halong hrun hfile (show ((3 : ℕ) : ℤ) < 5 by decide)
  exact absurd (hlast.symm.trans (hsame.trans hthree)) (by decide)

/-- With "a+" both bytes land at the end. -/
theorem nofs_append_seekBetween :
    ∃ st, nofsStep (nofsInit (storeDevice 16)) 0x3000 appendStart (.fopen 1 0x4000 "a+") = some st ∧
      Along (nofsStep (nofsInit (storeDevice 16)) 0x3000)
        (PlacesAt (storeDevice 16) (fun c => c) 0x3000 0 Stream.len) st seekBetween := by
  have hstart : (nofsStep (nofsInit (storeDevice 16)) 0x3000 appendStart (.fopen 1 0x4000 "a+")).isSome =
      true := by decide +kernel
  obtain ⟨st, hopen⟩ := Option.isSome_iff_exists.mp hstart
  obtain ⟨hcalls, hfits⟩ := seekBetween_fits (Or.inr rfl) hopen
  exact ⟨st, hopen, ((nofs_append (storeDevice_nofsHealthy (by decide) (by decide)) trivial hopen hcalls
    hfits).1 rfl).1⟩

end RpiBoot
