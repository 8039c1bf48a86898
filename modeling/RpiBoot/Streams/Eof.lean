import RpiBoot.Streams.Cursor

/-!
# The end-of-file flag

A client expects `feof` to tell whether a read since the last seek has met the end of the file. The FAT
driver raises the flag when it looks up a cluster behind the last, which a read does that ends at the
end of the last cluster; ext2 never raises it, and no call takes it back.

* `DiskFile`: a FAT or ext2 file on a healthy device.
* `eofStep`: the calls, with a note of the reads that met the end.
* `DiskFile.fread_spec`: what a read does to the flag.
* **`eof_iff`**: over any run, `feof` is right behind every read if and only if the requests suit the
  flag.
-/

namespace RpiBoot

open Runs

variable {σ ο : Type}

/-! ## Files -/

/-- The filesystem has a first cluster, or an inode, to read from; else its `fread` returns `-1`. -/
def StreamFs.Reads : StreamFs σ → Prop
  | fat _ cluster => cluster ≠ 0
  | ext2 _ inodeIdx => inodeIdx ≠ 0
  | nofs _ => True

/-- A FAT or ext2 file of `len` bytes. `fills` says that it fills the last cluster of its chain in the
table, and `kept` what the reads keep of the device. -/
inductive DiskFile : StreamFs σ → (len : ℕ) → (fills : Prop) → (kept : σ → Prop) → Prop
  | chain {parent : BlockDevice σ} {inv : σ → Prop} {content : σ → Mem} {bs : FatBS} {ft : FatType}
      {vol : Mem} {first : ℕ} {chain : List ℕ} {len : ℕ}
      (h : HealthyReads parent inv content (· < bs.sectors)) (hbs : parent.blockSize = 512)
      (hv : bs.Volume ft) (hc : ClusterChain bs ft vol first chain)
      (hcover : len ≤ chain.length * (bs.sectorsPerCluster * 512)) :
      DiskFile (.fat (bs.toFs parent) first) len (len = chain.length * (bs.sectorsPerCluster * 512))
        fun s => inv s ∧ content s = vol
  | fat12 {fs : FatFs σ} {cluster len : ℕ} (hft : fs.fatType = .fat12) (hc : cluster ≠ 0)
      (hlt : cluster < endOfChain) (hbs : 0 < fs.b.blockSize) (hbs' : fs.b.blockSize < 2 ^ 32) :
      DiskFile (.fat fs cluster) len False fun _ => True
  | ext2 {fs : Ext2Fs σ} {inodeIdx len : ℕ} (hi : inodeIdx ≠ 0) (hbs : 0 < fs.b.blockSize)
      (hbs' : fs.b.blockSize < 2 ^ 32) : DiskFile (.ext2 fs inodeIdx) len False fun _ => True
  | fatNone {fs : FatFs σ} {len : ℕ} : DiskFile (.fat fs 0) len False fun _ => True
  | ext2None {fs : Ext2Fs σ} {len : ℕ} : DiskFile (.ext2 fs 0) len False fun _ => True

/-- The stream is in the file. -/
structure OnFile (kept : σ → Prop) (len : ℕ) (io : FileIo σ) : Prop where
  dev_kept : kept io.dev
  len_eq : io.file.len = len
  pos_nonneg : 0 ≤ io.file.pos
  pos_le : io.file.pos ≤ len

/-! ## The flag -/

/-- A read asks for more than is left of the file. -/
def Asks (file : Stream) (memb nmemb : ℕ) : Prop := file.len - file.pos < (memb * nmemb : ℕ)

instance (file : Stream) (memb nmemb : ℕ) : Decidable (Asks file memb nmemb) :=
  inferInstanceAs (Decidable (_ < _))

/-- One call. The note says that some read since the last seek has returned fewer members than it was
asked for, as the file ended. -/
def eofStep (S : StreamFs σ) (st : FileIo σ × Bool) (call : StreamCall) : Option (FileIo σ × Bool) :=
  let r := streamStep S.functions st.1 call
  some (r.2, match call with
    | .fseek _ whence => if whence = .bad then st.2 else false
    | .ftell => st.2
    | .fread _ _ memb nmemb => st.2 || decide (r.1 < nmemb ∧ Asks st.1.file memb nmemb))

/-- Behind a read, `feof` tells what the note says. -/
def EofRight (S : StreamFs σ) (st : FileIo σ × Bool) : StreamCall → Prop
  | .fseek _ _ | .ftell => True
  | .fread temp ptr memb nmemb =>
    ∀ st', eofStep S st (.fread temp ptr memb nmemb) = some st' → (feof st'.1.file ≠ 0 ↔ st'.2 = true)

/-- While the flag is down, a read asks for more than is left just when the file fills its last cluster
and the members read end there. Once it is up, the first read after a seek asks for more than is
left. -/
def EofSuits (S : StreamFs σ) (len : ℕ) (fills : Prop) (st : FileIo σ × Bool) : StreamCall → Prop
  | .fseek _ _ | .ftell => True
  | .fread _ _ memb nmemb =>
    (feof st.1.file = 0 →
      (fills ∧ st.1.file.pos + freadSize memb nmemb st.1.file = len ↔
        S.Reads ∧ Asks st.1.file memb nmemb)) ∧
    (feof st.1.file ≠ 0 → st.2 = true ∨ S.Reads ∧ Asks st.1.file memb nmemb)

/-- The caller's array is in the address space, apart from the buffers of the loop, and no block that the
read takes whole fails. -/
def LegalRead (S : StreamFs σ) (st : FileIo σ × Bool) : StreamCall → Prop
  | .fseek _ _ | .ftell => True
  | .fread temp ptr memb nmemb =>
    0 < memb ∧ memb * nmemb < 2 ^ 32 ∧
      TempApart temp S.shared.blockSize ptr (freadSize memb nmemb st.1.file) ∧
      ¬ S.FreadFails temp ptr (freadSize memb nmemb st.1.file) st.1

theorem feof_raise (file : Stream) (pos len : ℤ) (mode : ℕ) :
    feof ⟨pos, mode, len, file.flags ||| vfsFlagsEof⟩ ≠ 0 := by
  simp [feof, vfsFlagsEof]

theorem feof_congr {file file' : Stream} (h : file'.flags = file.flags) : feof file' = feof file := by
  rw [feof, h, feof]

section Loop

variable {getNext : GetNext σ ο} {fs : Fs σ} {temp : ℕ → ℕ} {J : ο → Prop}

/-- A filesystem whose lookups never touch the flags. -/
theorem fsFread_keeps_flags
    (hkeep : ∀ idx opq io, J opq → (getNext idx false opq io).2.2.file.flags = io.file.flags ∧
      J (getNext idx false opq io).2.1) {opq : ο} (hJ : J opq) (ptr n : ℕ) (io : FileIo σ) :
    (fsFread getNext fs temp opq ptr n io).2.file.flags = io.file.flags := by
  have hloop : ∀ fuel (st : FreadState σ ο) (r : Span), J st.opq →
      (fsFreadLoop getNext fs temp r fuel st).2.file.flags = st.io.file.flags := by
    intro fuel
    induction fuel with
    | zero => exact fun _ _ _ => rfl
    | succ fuel ih =>
      intro st r hJ
      obtain ⟨hflags, hJ'⟩ := hkeep st.curBlock st.opq st.io hJ
      rw [fsFreadLoop]
      split_ifs with hlast
      · cases hst : fsFreadRound getNext fs temp r st with
        | error ret => exact ((fsFreadRound_flags r).2 _ hst).trans hflags
        | ok st' =>
          have hopq := (fsFreadRound_ok hst).2
          exact (ih st' r (by rwa [hopq])).trans (((fsFreadRound_flags r).1 _ hst).trans hflags)
      · rfl
  exact hloop _ _ _ hJ

end Loop

/-- On FAT12 every cluster is followed by cluster `0`, and no chain ends. -/
theorem fat12_keeps_flags {fs : FatFs σ} (hft : fs.fatType = .fat12) (idx : ℕ)
    (opq : FatFileBlockOffset) (io : FileIo σ) (hlt : opq.cluster < endOfChain) :
    (fatGetNextBdevBlockNum fs idx false opq io).2.2.file.flags = io.file.flags ∧
      (fatGetNextBdevBlockNum fs idx false opq io).2.1.cluster < endOfChain := by
  have hwalk : ∀ fuel (opq : FatFileBlockOffset) (s : σ), opq.cluster < endOfChain →
      (fatWalk fs idx fuel opq s).1.cluster < endOfChain := by
    intro fuel
    induction fuel with
    | zero => exact fun _ _ h => h
    | succ fuel ih =>
      intro opq s h
      rw [fatWalk]
      split_ifs
      · apply ih
        simp only [getNextFatEntry, hft]
        decide
      · exact h
  have h := hwalk (if opq.fBlock ≤ idx then idx - opq.fBlock else 2 ^ 32 - opq.fBlock + idx) opq io.dev hlt
  simp only [fatGetNextBdevBlockNum, if_pos h]
  exact ⟨trivial, h⟩

/-! ## One read -/

variable {S : StreamFs σ} {len : ℕ} {fills : Prop} {kept : σ → Prop} {io : FileIo σ}

/-- The bytes that `fread` passes on are there, and fewer than asked for when too many are. -/
theorem OnFile.freadSize_le (h : OnFile kept len io) (hlen : len < 2 ^ 31) (memb nmemb : ℕ)
    {pos : ℕ} (hpos : io.file.pos = pos) :
    pos + freadSize memb nmemb io.file ≤ len ∧
      (Asks io.file memb nmemb → freadSize memb nmemb io.file < memb * nmemb) := by
  obtain ⟨-, hl, -, hle⟩ := h
  have hleft : toU32 (io.file.len - io.file.pos) = len - pos := by
    unfold toU32; omega
  have hn := Nat.div_mul_le_self (min (u32 (memb * nmemb)) (toU32 (io.file.len - io.file.pos))) memb
  have hn₂ := min_le_right (u32 (memb * nmemb)) (toU32 (io.file.len - io.file.pos))
  rw [← freadSize] at hn
  refine ⟨by omega, fun hasks => ?_⟩
  unfold Asks at hasks
  omega

theorem OnFile.of_moved {r : ℕ × FileIo σ} {pos n : ℕ} (h : OnFile kept len io)
    (hr : Moved pos n io.file.len r) (hn : pos + n ≤ len) (hkept : kept r.2.dev) :
    OnFile kept len r.2 := by
  obtain ⟨hk, hpos, hl⟩ := hr
  exact ⟨hkept, hl.trans h.len_eq, by omega, by omega⟩

/-- A read that leaves the flags alone. -/
theorem OnFile.unflagged {r : ℕ × FileIo σ} {pos n : ℕ} {p : Prop} (h : OnFile (fun _ => True) len io)
    (hr : Moved pos n io.file.len r) (hn : pos + n ≤ len) (hflags : r.2.file.flags = io.file.flags) :
    OnFile (fun _ => True) len r.2 ∧ (feof r.2.file ≠ 0 ↔ feof io.file ≠ 0 ∨ False ∧ p) := by
  refine ⟨h.of_moved hr hn trivial, ?_⟩
  rw [feof_congr hflags, false_and, or_false]

/-- A read of a file with a chain. -/
theorem chain_fread {parent : BlockDevice σ} {inv : σ → Prop} {content : σ → Mem} {bs : FatBS}
    {ft : FatType} {vol : Mem} {first : ℕ} {chain : List ℕ}
    (h : HealthyReads parent inv content (· < bs.sectors)) (hbs : parent.blockSize = 512)
    (hv : bs.Volume ft) (hc : ClusterChain bs ft vol first chain)
    (hcover : len ≤ chain.length * (bs.sectorsPerCluster * 512)) (hlen : len < 2 ^ 31)
    (hio : OnFile (fun s => inv s ∧ content s = vol) len io) {temp : ℕ → ℕ} {ptr n pos : ℕ}
    (hpos : io.file.pos = pos) (hn : pos + n ≤ len)
    (htemp : TempApart temp (bs.sectorsPerCluster * 512) ptr n) :
    ∃ io', fatFread (bs.toFs parent) temp first ptr n io = (n, io') ∧
      OnFile (fun s => inv s ∧ content s = vol) len io' ∧
      (feof io'.file ≠ 0 ↔ feof io.file ≠ 0 ∨
        len = chain.length * (bs.sectorsPerCluster * 512) ∧ pos + n = len) := by
  have hflags := fat_flags h hbs hv hc hlen hcover hio.dev_kept.1 hio.dev_kept.2 hpos hn htemp
  obtain ⟨io', hread, -, hpos', hl', hkept⟩ := fat_delivers h hbs hv hc hlen hcover temp ptr n io pos
    hio.dev_kept hpos (by rwa [length_fatContents parent hbs hv hcover]) htemp
  have hmoved : Moved pos n io.file.len (n, io') := ⟨le_rfl, hpos', hl'⟩
  refine ⟨io', hread, hio.of_moved hmoved hn hkept, ?_⟩
  rw [show (fatFread (bs.toFs parent) temp first ptr n io).2 = io' from congrArg Prod.snd hread] at hflags
  split_ifs at hflags with hlast
  · refine iff_of_true ?_ (Or.inr ⟨by omega, by omega⟩)
    rw [feof, hflags]
    exact feof_raise _ 0 0 0
  · rw [feof_congr hflags]
    exact ⟨Or.inl, fun hor => hor.resolve_right fun hend => hlast (by omega)⟩

/-- What a read does: the stream stays in the file, a read that ends at the end of the last cluster
raises the flag, and a read that asks for too much returns fewer members. -/
theorem DiskFile.fread_spec (hfile : DiskFile S len fills kept) (hlen : len < 2 ^ 31)
    (h : OnFile kept len io) {note : Bool} {temp : ℕ → ℕ} {ptr memb nmemb : ℕ}
    (hlegal : LegalRead S (io, note) (.fread temp ptr memb nmemb)) :
    ∃ ret io', fread (S.functions.fread temp) ptr memb nmemb io = (ret, io') ∧
      OnFile kept len io' ∧
      (feof io'.file ≠ 0 ↔ feof io.file ≠ 0 ∨
        fills ∧ io.file.pos + freadSize memb nmemb io.file = len) ∧
      (ret < nmemb ∧ Asks io.file memb nmemb ↔ S.Reads ∧ Asks io.file memb nmemb) := by
  obtain ⟨hmemb, hfit, htemp, hfail⟩ := hlegal
  obtain ⟨hkept, hl, hnonneg, hle⟩ := id h
  obtain ⟨pos, hpos⟩ := Int.eq_ofNat_of_zero_le hnonneg
  obtain ⟨hn, hfewer⟩ := h.freadSize_le hlen memb nmemb hpos
  -- fewer bytes are fewer members
  have hshort : ∀ k, k ≤ freadSize memb nmemb io.file → Asks io.file memb nmemb → k / memb < nmemb :=
    fun k hk hasks => Nat.div_lt_of_lt_mul (lt_of_le_of_lt hk (hfewer hasks))
  -- `-1` is more members than fit the address space
  have hrefuse : ¬ toU32 (-1) / memb < nmemb := by
    have : toU32 (-1) = 2 ^ 32 - 1 := rfl
    rw [not_lt, this, Nat.le_div_iff_mul_le hmemb, Nat.mul_comm]
    omega
  rw [fread_eq]
  cases hfile with
  | @chain parent inv content bs ft vol first chain len hreads hbs hv hc hcover =>
    have hsize : (bs.toFs parent).b.blockSize = bs.sectorsPerCluster * 512 := by
      rw [(toFs_spec hv parent).1]
    have hfirst : first ≠ 0 := by
      have := (hc.isCluster first (List.mem_of_getElem? hc.head)).1
      omega
    rw [StreamFs.shared, hsize] at htemp
    obtain ⟨io', hread, hio', hfeof⟩ := chain_fread hreads hbs hv hc hcover hlen h hpos hn htemp
    refine ⟨_, _, rfl, ?_⟩
    simp only [StreamFs.functions, hread]
    exact ⟨hio', by rw [hfeof, hpos]; norm_cast, and_congr_left fun hasks =>
      iff_of_true (hshort _ le_rfl hasks) hfirst⟩
  | @fat12 fs cluster _ hft hc hlt hbs hbs' =>
    have hn' : pos + freadSize memb nmemb io.file < 2 ^ 31 := by omega
    have hmoved := fsFread_moved (fat_keepsPlace _) hbs hbs' hn' hpos fun h => hfail ⟨hc, h⟩
    obtain ⟨hio', hfeof⟩ := h.unflagged hmoved hn (fsFread_keeps_flags
      (J := fun opq : FatFileBlockOffset => opq.cluster < endOfChain) (fat12_keeps_flags hft) hlt _ _ _)
    refine ⟨_, _, rfl, ?_⟩
    simp only [StreamFs.functions, fatFread, if_neg hc]
    exact ⟨hio', hfeof, and_congr_left fun hasks => iff_of_true (hshort _ hmoved.1 hasks) hc⟩
  | @ext2 fs inodeIdx _ hi hbs hbs' =>
    have hn' : pos + freadSize memb nmemb io.file < 2 ^ 31 := by omega
    have h' : OnFile (fun _ => True) len { io with dev := (ext2ReadInode fs io.dev inodeIdx).2 } :=
      ⟨trivial, hl, hnonneg, hle⟩
    have hpos' : ({ io with dev := (ext2ReadInode fs io.dev inodeIdx).2 } : FileIo σ).file.pos = pos :=
      hpos
    have hmoved := fsFread_moved (ext2_keepsPlace fs) hbs hbs' hn' hpos' fun h => hfail ⟨hi, h⟩
    obtain ⟨hio', hfeof⟩ := h'.unflagged hmoved hn (fsFread_keeps_flags (J := fun _ => True)
      (fun _ _ _ _ => ⟨rfl, trivial⟩) trivial _ _ _)
    refine ⟨_, _, rfl, ?_⟩
    simp only [StreamFs.functions, ext2Fread, if_neg hi]
    exact ⟨hio', hfeof, and_congr_left fun hasks => iff_of_true (hshort _ hmoved.1 hasks) hi⟩
  | fatNone =>
    refine ⟨_, _, rfl, h, ?_, iff_of_false (fun hs => hrefuse hs.1) fun hs => hs.1 rfl⟩
    rw [false_and, or_false]
    rfl
  | ext2None =>
    refine ⟨_, _, rfl, h, ?_, iff_of_false (fun hs => hrefuse hs.1) fun hs => hs.1 rfl⟩
    rw [false_and, or_false]
    rfl

/-! ## Runs -/

/-- A seek in the file. -/
theorem OnFile.fseek (h : OnFile kept len io) (hS : S.functions.fseek = none) (offset : ℤ)
    (whence : Whence) :
    OnFile kept len (streamStep S.functions io (.fseek offset whence)).2 ∧
      feof (streamStep S.functions io (.fseek offset whence)).2.file = feof io.file := by
  obtain ⟨hset, hcur, hstop⟩ := fseek_pos h.len_eq offset
  have hin : ∀ z, OnFile kept len { io with file := { io.file with pos := clampPos len z } } := fun z =>
    ⟨h.dev_kept, h.len_eq, by dsimp only; omega, by unfold clampPos; dsimp only; omega⟩
  simp only [streamStep, vfsFseek, hS]
  cases whence with
  | set => rw [hset]; exact ⟨hin _, rfl⟩
  | stop => rw [hstop]; exact ⟨hin _, rfl⟩
  | cur => rw [hcur]; exact ⟨hin _, rfl⟩
  | bad => exact ⟨h, rfl⟩

/-- While the flag is down, no read since the last seek has met the end. -/
def NoteDown (st : FileIo σ × Bool) : Prop := feof st.1.file = 0 → st.2 = false

/-- **One call.** -/
theorem DiskFile.right_iff (hfile : DiskFile S len fills kept) (hlen : len < 2 ^ 31)
    {st : FileIo σ × Bool} (h : OnFile kept len st.1) (hdown : NoteDown st) {call : StreamCall}
    (hlegal : LegalRead S st call) :
    (EofRight S st call ↔ EofSuits S len fills st call) ∧
      ∀ st', eofStep S st call = some st' → EofRight S st call → OnFile kept len st'.1 ∧ NoteDown st' := by
  cases call with
  | fseek offset whence =>
    have hS : S.functions.fseek = none := by cases hfile <;> rfl
    obtain ⟨hin, hfeof⟩ := h.fseek hS offset whence
    refine ⟨Iff.rfl, fun st' hst' _ => ?_⟩
    obtain rfl := Option.some.inj hst'
    refine ⟨hin, fun h0 => ?_⟩
    dsimp only at h0 ⊢
    rw [hfeof] at h0
    split_ifs
    · exact hdown h0
    · rfl
  | ftell =>
    refine ⟨Iff.rfl, fun st' hst' _ => ?_⟩
    obtain rfl := Option.some.inj hst'
    exact ⟨h, hdown⟩
  | fread temp ptr memb nmemb =>
    obtain ⟨ret, io', hread, hin, hfeof, hshort⟩ := hfile.fread_spec hlen h hlegal
    have hstep : eofStep S st (.fread temp ptr memb nmemb) =
        some (io', st.2 || decide (ret < nmemb ∧ Asks st.1.file memb nmemb)) := by
      simp only [eofStep, streamStep, hread, Nat.cast_lt]
    have hnote : (st.2 || decide (ret < nmemb ∧ Asks st.1.file memb nmemb)) = true ↔
        st.2 = true ∨ S.Reads ∧ Asks st.1.file memb nmemb := by
      rw [Bool.or_eq_true, decide_eq_true_iff, hshort]
    simp only [EofRight, EofSuits, hstep, Option.some.injEq, forall_eq']
    refine ⟨?_, fun hright => ⟨hin, fun h0 => ?_⟩⟩
    · rw [hfeof, hnote]
      by_cases h0 : feof st.1.file = 0
      · simp [h0, hdown h0]
      · simp [h0]
    · by_contra hup
      exact hright.mpr (eq_true_of_ne_false hup) h0

/-- Reading 700 bytes of the file of 600 bytes in `smallVolume` does not raise the flag: the last cluster
has room behind the file. -/
theorem eof_broken :
    ¬ EofRight smallStream (⟨fun _ => 0, smallVolume, ⟨0, 1, 600, 0⟩⟩, false)
      (.fread (fun _ => 0x10000) 0x20000 1 700) :=
  fun h => absurd ((h _ rfl).mpr (by decide +kernel)) (by decide +kernel)

/-- **The end-of-file flag.** On a healthy device, over any run of calls on a stream of a FAT or ext2 file
that has met no end yet, `feof` tells behind every read whether some read since the last seek has
returned fewer members than asked for, as the file ended, if and only if every read suits the flag. -/
theorem eof_iff (hfile : DiskFile S len fills kept) (hlen : len < 2 ^ 31) (h : OnFile kept len io)
    {calls : List StreamCall} (hlegal : Along (eofStep S) (LegalRead S) (io, false) calls) :
    Along (eofStep S) (EofRight S) (io, false) calls ↔
      Along (eofStep S) (EofSuits S len fills) (io, false) calls :=
  along_iff (I := fun st => OnFile kept len st.1 ∧ NoteDown st)
    (fun _ _ hI hcall => hfile.right_iff hlen hI.1 hI.2 hcall) ⟨h, fun _ => rfl⟩ hlegal

/-- The file of 600 bytes of `smallVolume`. -/
theorem smallStream_file : DiskFile smallStream 600
    (600 = [2, 3].length * ((FatBS.ofBuf smallVolume).sectorsPerCluster * 512))
    fun s => True ∧ s = smallVolume :=
  .chain smallVolume_reads rfl smallVolume_volume smallVolume_chain (by decide)

/-- A seek and a read of 100 bytes. -/
theorem eof_iff_smallStream :
    Along (eofStep smallStream) (EofRight smallStream)
        (⟨fun _ => 0, smallVolume, ⟨0, 1, 600, 0⟩⟩, false)
        [.fseek 10 .set, .fread (fun _ => 0x10000) 0x20000 1 100] ↔
      Along (eofStep smallStream) (EofSuits smallStream 600
          (600 = [2, 3].length * ((FatBS.ofBuf smallVolume).sectorsPerCluster * 512)))
        (⟨fun _ => 0, smallVolume, ⟨0, 1, 600, 0⟩⟩, false)
        [.fseek 10 .set, .fread (fun _ => 0x10000) 0x20000 1 100] := by
  refine eof_iff smallStream_file (by decide) ⟨⟨trivial, rfl⟩, rfl, by decide, by decide⟩
    ⟨trivial, fun _ h => ?_⟩
  obtain rfl := Option.some.inj h
  have htemp : 0x10000 + smallStream.shared.blockSize ≤ 0x20000 := by decide
  refine ⟨⟨by decide, by decide, fun _ => Or.inl htemp, ?_⟩, fun _ _ => trivial⟩
  rintro ⟨-, -, ⟨-, ⟨hoff, -⟩, -⟩ | ⟨st, -, hst⟩⟩
  · exact absurd hoff (by decide)
  · exact hst

end RpiBoot
