import RpiBoot.Copy
import RpiBoot.Cstring
import RpiBoot.Word
import RpiBoot.Raspbootin.Protocol

/-!
# The server of the serial protocol (`raspbootin-server.c`)

The machine of the server is a `Host`: its directories, whose two passes may differ, the outcomes of
`stat`, and what is in memory that is not initialised or has been freed.

* `awaitCmd`, `doCmd`, `readDirRequest`, `fillLoop`, `sendErrorMsg`: the functions of
  `raspbootin-server.c`. A `Reply` is what is sent and where the buffer was written.
* `fillLoop_eq`, `foldl_fillEntry`: what the filling pass writes, and where.
* `Answered`: one frame is sent; a success frame lists the directory; the buffer holds all stores.
* **`server_reply_iff`**: when a request for a directory is answered so.
-/

namespace RpiBoot

open Store Bytes

/-! ## The machine -/

/-- What `readdir` returns: a name, in the array `d_name`. -/
structure HostDirent where
  dName : Mem
  name : List UInt8
  isName : Str 0 dName 0 name
  name_le : name.length ≤ 255

/-- The fields of `struct stat` that are sent. -/
structure Stat where
  stSize : ℕ
  stUid : ℕ
  stGid : ℕ
  stMode : ℕ

/-- The machine of the server. -/
structure Host where
  baseDir : List UInt8
  /-- `errno`, or the entries that the two passes over the directory find. -/
  opendir : List UInt8 → Except ℤ (List HostDirent × List HostDirent)
  /-- The outcome of the call for entry `n`, by the path. -/
  stat : ℕ → List UInt8 → Option Stat
  /-- The memory that `malloc` returns, and the same memory when it has been freed. -/
  fresh : Mem
  freed : Mem
  /-- The values of `dir_name_len` and `ccrc` before they are read. -/
  lenInit : ℕ
  ccrcInit : ℕ

/-- `ENOENT` and `ENOTDIR` of the host. -/
def Host.enoent : ℤ := 2
def Host.enotdir : ℤ := 20

def serverCaps : ℕ := 0x1f

/-! ## Requests -/

/-- The loop of `main`, with the number of breaks read: the command and what follows it. -/
def awaitCmd : ℕ → List UInt8 → Option (ℕ × List UInt8)
  | _, [] => none
  | breaksRead, buf :: input =>
    if breaksRead = 2 then some (buf.toNat, input)
    else if buf = 0x03 then awaitCmd (breaksRead + 1) input
    else awaitCmd 0 input

/-- `serial_read(fd, buf, count)` into the `count` bytes `old`: what they become when all of the input has
arrived, and the rest of it. -/
def serialRead (old input : List UInt8) : List UInt8 × List UInt8 :=
  let got := input.take old.length
  (got ++ old.drop got.length, input.drop old.length)

/-- The request of command 1: `dir_name_len` and the string `dir_name`; `none` is a wrong checksum. -/
def readDirRequest (host : Host) (input : List UInt8) : Option (ℕ × List UInt8) :=
  let len := serialRead (toBytes 2 host.lenInit) input
  let dirNameLen := ofBytes len.1
  let eccrc := crc32Append crc32Start len.1
  let dirName := serialRead (List.replicate dirNameLen 0) len.2
  let eccrc := crc32Finish (crc32Append eccrc dirName.1)
  let ccrc := serialRead (toBytes 4 host.ccrcInit) dirName.2
  if ofBytes ccrc.1 ≠ eccrc then none else some (dirNameLen, dirName.1.takeWhile (· ≠ 0))

/-! ## Replies -/

/-- What is sent, the stores into the response buffer, by offset and length, and its size. -/
structure Reply where
  sent : List UInt8
  stores : List (ℕ × ℕ)
  byteCount : ℤ

/-- `send_error_msg(fd, error_code)`: the bytes it sends. -/
def sendErrorMsg (errorCode : ℤ) : List UInt8 :=
  crcSuffix (toBytes 4 magic ++ toBytes 4 8 ++ toBytes 4 (toU32 errorCode))

/-- The bytes of the response to command 1, sent and checked in this order. -/
def sendListing (byteCount : ℤ) (entryCount : ℕ) (buf : Mem) : List UInt8 :=
  crcSuffix (toBytes 4 magic ++ toBytes 4 (toU32 (16 + byteCount)) ++ (toBytes 4 0 ++
    (toBytes 4 entryCount ++ (toBytes 4 0 ++ slice buf 0 byteCount.toNat))))

/-- The sum of the sizing pass. -/
def byteCount (first : List HostDirent) : ℤ :=
  i32 (first.map fun de => 16 + 2 + de.name.length).sum

/-- The response buffer, `bptr`, and the stores into the buffer so far. -/
structure Fill where
  buf : Mem
  bptr : ℕ
  stores : List (ℕ × ℕ)

/-- A store of some bytes at an offset from `bptr`. -/
def Fill.store (offset : ℕ) (l : List UInt8) (f : Fill) : Fill :=
  ⟨patch f.buf (f.bptr + offset) l, f.bptr, (f.bptr + offset, l.length) :: f.stores⟩

def Fill.advance (n : ℕ) (f : Fill) : Fill := { f with bptr := f.bptr + n }

/-- One entry in the filling pass. -/
def fillEntry (dirNameLen : ℕ) (f : Fill) (e : HostDirent × Stat) : Fill :=
  let f := f.store 0 (toBytes 4 e.2.stSize)
  let f := f.store 4 (toBytes 4 e.2.stUid)
  let f := f.store 8 (toBytes 4 e.2.stGid)
  let f := f.store 12 (toBytes 4 e.2.stMode)
  let f := f.advance 16
  -- the length of the request's name, not of the entry's
  let f := f.store 0 (toBytes 2 dirNameLen)
  let f := f.advance 2
  let f := f.store 0 (slice e.1.dName 0 dirNameLen)
  f.advance dirNameLen

/-- The path that is given to `stat`. -/
def entryPath (fullDir : List UInt8) (de : HostDirent) : List UInt8 := fullDir ++ [0x2f] ++ de.name

/-- The filling pass, with `entries_filled`: no number when `stat` fails. -/
def fillLoop (host : Host) (fullDir : List UInt8) (dirNameLen : ℕ) :
    ℕ → List HostDirent → Fill → Option ℕ × Fill
  | entriesFilled, [], f => (some entriesFilled, f)
  | entriesFilled, de :: second, f =>
    match host.stat entriesFilled (entryPath fullDir de) with
    | none => (none, f)
    | some st =>
      fillLoop host fullDir dirNameLen (entriesFilled + 1) second (fillEntry dirNameLen f (de, st))

/-- Command 1 after the request has been read. -/
def serveDirectory (host : Host) (dirNameLen : ℕ) (dirName : List UInt8) : Reply :=
  let fullDir := host.baseDir ++ [0x2f] ++ dirName
  match host.opendir fullDir with
  | .error errno =>
    ⟨sendErrorMsg (if errno = Host.enoent ∨ errno = Host.enotdir then pathNotFound else unknownError), [], 0⟩
  | .ok (first, second) =>
    match fillLoop host fullDir dirNameLen 0 second ⟨host.fresh, 0, []⟩ with
    | (none, f) => ⟨sendErrorMsg unknownError, f.stores, byteCount first⟩
    | (some entriesFilled, f) =>
      if u32 entriesFilled ≠ u32 first.length then
        -- the buffer is freed and the error sent, and the function goes on
        ⟨sendErrorMsg unknownError ++ sendListing (byteCount first) (u32 first.length) host.freed,
          f.stores, byteCount first⟩
      else ⟨sendListing (byteCount first) (u32 first.length) f.buf, f.stores, byteCount first⟩

/-- `do_cmd(cmd, fd)`, with the input after the command. -/
def doCmd (host : Host) (cmd : ℕ) (input : List UInt8) : Reply :=
  if cmd = 0 then
    let ccrc := serialRead (toBytes 4 host.ccrcInit) input
    if ofBytes ccrc.1 ≠ crc32 [] then ⟨sendErrorMsg crcError, [], 0⟩
    else ⟨crcSuffix (toBytes 4 magic ++ toBytes 4 12 ++ toBytes 4 0 ++ toBytes 4 serverCaps), [], 0⟩
  else if cmd = 1 then
    match readDirRequest host input with
    | none => ⟨sendErrorMsg crcError, [], 0⟩
    | some r => serveDirectory host r.1 r.2
  else ⟨[], [], 0⟩

theorem length_serialRead (old input : List UInt8) : (serialRead old input).1.length = old.length := by
  simp only [serialRead, List.length_append, List.length_drop, List.length_take]
  omega

theorem readDirRequest_lt {host : Host} {input : List UInt8} {r : ℕ × List UInt8}
    (h : readDirRequest host input = some r) : r.1 < 2 ^ 16 := by
  have hlen := ofBytes_lt (serialRead (toBytes 2 host.lenInit) input).1
  rw [length_serialRead, length_toBytes] at hlen
  unfold readDirRequest at h
  simp only [Option.ite_none_left_eq_some, Option.some.injEq] at h
  obtain ⟨-, rfl⟩ := h
  exact hlen

/-! ## The filling pass -/

/-- The entries before the first for which `stat` fails, from entry `n` on. -/
def statEntries (host : Host) (fullDir : List UInt8) : ℕ → List HostDirent → List (HostDirent × Stat)
  | _, [] => []
  | n, de :: second =>
    match host.stat n (entryPath fullDir de) with
    | none => []
    | some st => (de, st) :: statEntries host fullDir (n + 1) second

/-- The four fields of an entry. -/
def encodeStat (st : Stat) : List UInt8 :=
  toBytes 4 st.stSize ++ toBytes 4 st.stUid ++ toBytes 4 st.stGid ++ toBytes 4 st.stMode

/-- What is written for an entry, with a length for the name. -/
def writtenEntry (dirNameLen : ℕ) (e : HostDirent × Stat) : List UInt8 :=
  encodeStat e.2 ++ (toBytes 2 dirNameLen ++ slice e.1.dName 0 dirNameLen)

variable {host : Host} {fullDir : List UInt8} {dirNameLen : ℕ}

/-- The filling pass handles the entries before the first for which `stat` fails. -/
theorem fillLoop_eq (n : ℕ) (second : List HostDirent) (f : Fill) :
    fillLoop host fullDir dirNameLen n second f =
      (if (statEntries host fullDir n second).length = second.length then some (n + second.length)
        else none, (statEntries host fullDir n second).foldl (fillEntry dirNameLen) f) := by
  induction second generalizing n f with
  | nil => simp [fillLoop, statEntries]
  | cons de second ih =>
    rw [fillLoop, statEntries]
    cases hst : host.stat n (entryPath fullDir de) with
    | none => simp
    | some st => simp [ih, Nat.add_assoc, Nat.add_comm 1]

theorem length_encodeStat (st : Stat) : (encodeStat st).length = 16 := by
  simp only [encodeStat, List.length_append, length_toBytes]

theorem length_writtenEntry (e : HostDirent × Stat) :
    (writtenEntry dirNameLen e).length = 18 + dirNameLen := by
  simp only [writtenEntry, List.length_append, length_toBytes, length_encodeStat, length_slice]
  omega

theorem length_flatMap_writtenEntry (dirNameLen : ℕ) (es : List (HostDirent × Stat)) :
    (es.flatMap (writtenEntry dirNameLen)).length = es.length * (18 + dirNameLen) := by
  induction es with
  | nil => simp
  | cons e es ih =>
    rw [List.flatMap_cons, List.length_append, ih, length_writtenEntry, List.length_cons, Nat.add_mul,
      Nat.one_mul, Nat.add_comm]

theorem fillEntry_eq (f : Fill) (e : HostDirent × Stat) : fillEntry dirNameLen f e =
    ⟨patch f.buf f.bptr (writtenEntry dirNameLen e), f.bptr + (18 + dirNameLen),
      [(f.bptr + 18, dirNameLen), (f.bptr + 16, 2), (f.bptr + 12, 4), (f.bptr + 8, 4), (f.bptr + 4, 4),
        (f.bptr, 4)] ++ f.stores⟩ := by
  simp only [fillEntry, Fill.store, Fill.advance, writtenEntry, encodeStat, patch_append,
    List.length_append, length_toBytes, length_slice, Nat.add_zero, Nat.add_assoc, Nat.reduceAdd,
    List.cons_append, List.nil_append]

/-- **The filling pass.** The entries are written one after another, each with the one length; every
store ends before `bptr`, and some store ends there. -/
theorem foldl_fillEntry (dirNameLen : ℕ) (es : List (HostDirent × Stat)) (f : Fill) :
    (es.foldl (fillEntry dirNameLen) f).buf = patch f.buf f.bptr (es.flatMap (writtenEntry dirNameLen)) ∧
      (∀ s ∈ (es.foldl (fillEntry dirNameLen) f).stores,
        s ∈ f.stores ∨ s.1 + s.2 ≤ f.bptr + es.length * (18 + dirNameLen)) ∧
      (∀ s ∈ f.stores, s ∈ (es.foldl (fillEntry dirNameLen) f).stores) ∧
      (es ≠ [] → ∃ s ∈ (es.foldl (fillEntry dirNameLen) f).stores,
        s.1 + s.2 = f.bptr + es.length * (18 + dirNameLen)) := by
  induction es generalizing f with
  | nil => exact ⟨(patch_nil ..).symm, fun s hs => Or.inl hs, fun s hs => hs, fun h => absurd rfl h⟩
  | cons e es ih =>
    have hlen : f.bptr + (e :: es).length * (18 + dirNameLen) =
        f.bptr + (18 + dirNameLen) + es.length * (18 + dirNameLen) := by
      rw [List.length_cons, Nat.add_mul, Nat.one_mul]
      omega
    obtain ⟨hbuf, hle, hmem, hend⟩ := ih (fillEntry dirNameLen f e)
    rw [fillEntry_eq] at hbuf hle hmem hend
    rw [List.foldl_cons, fillEntry_eq, hlen]
    refine ⟨?_, ?_, ?_, ?_⟩
    · rw [hbuf, List.flatMap_cons, patch_append, length_writtenEntry]
    · intro s hs
      rcases hle s hs with hs | hs
      · simp only [List.cons_append, List.nil_append, List.mem_cons] at hs
        rcases hs with rfl | rfl | rfl | rfl | rfl | rfl | hs
        all_goals first | exact Or.inl hs | exact Or.inr (by simp only; omega)
      · exact Or.inr hs
    · exact fun s hs => hmem s (by simp [hs])
    · intro _
      by_cases hes : es = []
      · subst hes
        exact ⟨(f.bptr + 18, dirNameLen), hmem _ (by simp), by simp only [List.length_nil]; omega⟩
      · exact hend hes

/-! ## Replies that list the directory -/

/-- An entry as it should be sent: four words, the length of its name and its name. -/
def encodeEntry (e : HostDirent × Stat) : List UInt8 :=
  encodeStat e.2 ++ (toBytes 2 e.1.name.length ++ e.1.name)

/-- The entries of the directory that a request names, if it can be listed. -/
def listed (host : Host) (input : List UInt8) : Option (List (HostDirent × Stat)) :=
  match readDirRequest host input with
  | none => none
  | some r =>
    match host.opendir (host.baseDir ++ [0x2f] ++ r.2) with
    | .error _ => none
    | .ok d =>
      let es := statEntries host (host.baseDir ++ [0x2f] ++ r.2) 0 d.2
      if es.length = d.2.length then some es else none

/-- One frame is sent, with a length field that counts its bytes; if it reports success, its payload is
the number of entries, the version and the entries; and the response buffer holds all stores. -/
structure Answered (entries : Option (List (HostDirent × Stat))) (r : Reply) : Prop where
  one : ∃ body, 4 + body.length < 2 ^ 32 ∧ r.sent = frame body ∧
    (body.take 4 = toBytes 4 0 → ∃ es, entries = some es ∧
      body = toBytes 4 0 ++ (toBytes 4 es.length ++ (toBytes 4 0 ++ es.flatMap encodeEntry)))
  stores : ∀ s ∈ r.stores, ((s.1 + s.2 : ℕ) : ℤ) ≤ r.byteCount

/-- The request is refused or the directory cannot be opened; or `stat` fails before the filling pass has
stored more than the sizing pass has counted; or both passes find as many entries and as many bytes, and
every name is as long as the name in the request. -/
def NamesFit (host : Host) (input : List UInt8) : Prop :=
  match readDirRequest host input with
  | none => True
  | some r =>
    match host.opendir (host.baseDir ++ [0x2f] ++ r.2) with
    | .error _ => True
    | .ok d =>
      let es := statEntries host (host.baseDir ++ [0x2f] ++ r.2) 0 d.2
      if es.length = d.2.length then
        u32 d.2.length = u32 d.1.length ∧ (∀ e ∈ es, e.1.name.length = r.1) ∧
          ((es.length * (18 + r.1) : ℕ) : ℤ) = byteCount d.1
      else es = [] ∨ ((es.length * (18 + r.1) : ℕ) : ℤ) ≤ byteCount d.1

theorem sendErrorMsg_eq (errorCode : ℤ) :
    sendErrorMsg errorCode = frame (toBytes 4 (toU32 errorCode)) := rfl

/-- An error is one frame, and not of success. -/
theorem answered_error {entries : Option (List (HostDirent × Stat))} {errorCode : ℤ}
    {stores : List (ℕ × ℕ)} {count : ℤ} (he : toU32 errorCode ≠ 0) :
    Answered entries ⟨sendErrorMsg errorCode, stores, count⟩ ↔
      ∀ s ∈ stores, ((s.1 + s.2 : ℕ) : ℤ) ≤ count := by
  refine ⟨fun h => h.stores, fun h => ⟨⟨_, ?_, sendErrorMsg_eq errorCode, ?_⟩, h⟩⟩
  · rw [length_toBytes]
    decide
  · intro hbody
    rw [List.take_of_length_le (by rw [length_toBytes]),
      toBytes_inj_of_lt (toU32_lt errorCode) (by decide)] at hbody
    exact absurd hbody he

/-- The stores of the filling pass lie in the buffer just when their end does. -/
theorem stores_iff {es : List (HostDirent × Stat)} {count : ℤ} :
    (∀ s ∈ (es.foldl (fillEntry dirNameLen) ⟨host.fresh, 0, []⟩).stores, ((s.1 + s.2 : ℕ) : ℤ) ≤ count) ↔
      es = [] ∨ ((es.length * (18 + dirNameLen) : ℕ) : ℤ) ≤ count := by
  obtain ⟨-, hle, -, hend⟩ := foldl_fillEntry dirNameLen es ⟨host.fresh, 0, []⟩
  simp only [Nat.zero_add, List.not_mem_nil, false_or] at hle hend
  constructor
  · intro h
    by_cases hes : es = []
    · exact Or.inl hes
    · obtain ⟨s, hs, hsum⟩ := hend hes
      exact Or.inr (hsum ▸ h s hs)
  · rintro (rfl | h) s hs
    · simp at hs
    · have := hle s hs
      omega

/-- Entries written with one length for all names are encoded just when all names have that length. -/
theorem flatMap_writtenEntry_eq_iff {es : List (HostDirent × Stat)} {tail : List UInt8}
    (hlen : dirNameLen < 2 ^ 16) :
    es.flatMap (writtenEntry dirNameLen) ++ tail = es.flatMap encodeEntry ↔
      (∀ e ∈ es, e.1.name.length = dirNameLen) ∧ tail = [] := by
  induction es with
  | nil => simp
  | cons e es ih =>
    rw [List.flatMap_cons, List.flatMap_cons, writtenEntry, encodeEntry, List.forall_mem_cons]
    simp only [List.append_assoc, List.append_cancel_left_eq]
    constructor
    · intro h
      obtain ⟨hnum, hrest⟩ := List.append_inj h (by rw [length_toBytes, length_toBytes])
      have hname : e.1.name.length = dirNameLen :=
        ((toBytes_inj_of_lt hlen (by have := e.1.name_le; omega)).mp hnum).symm
      obtain ⟨-, hrest⟩ := List.append_inj hrest (by rw [length_slice, hname])
      obtain ⟨hall, htail⟩ := ih.mp hrest
      exact ⟨⟨hname, hall⟩, htail⟩
    · rintro ⟨⟨hname, hall⟩, htail⟩
      rw [ih.mpr ⟨hall, htail⟩, ← hname, e.1.isName.slice_eq]

/-- What the filling pass leaves in a buffer that holds it. -/
theorem slice_filled (host : Host) {es : List (HostDirent × Stat)} {n : ℕ}
    (h : es.length * (18 + dirNameLen) ≤ n) :
    ∃ tail, tail.length = n - es.length * (18 + dirNameLen) ∧
      slice (es.foldl (fillEntry dirNameLen) ⟨host.fresh, 0, []⟩).buf 0 n =
        es.flatMap (writtenEntry dirNameLen) ++ tail := by
  obtain ⟨hbuf, -⟩ := foldl_fillEntry dirNameLen es ⟨host.fresh, 0, []⟩
  have hw := length_flatMap_writtenEntry dirNameLen es
  obtain ⟨k, rfl⟩ := Nat.exists_eq_add_of_le h
  rw [hbuf, slice_add, ← hw, slice_patch]
  exact ⟨_, by rw [length_slice]; omega, rfl⟩

/-- **A success frame lists the directory** just when every name has the length of the request's name
and the sizing pass has counted the bytes that the filling pass writes. -/
theorem answered_listing {es : List (HostDirent × Stat)} {count : ℤ} (hlen : dirNameLen < 2 ^ 16)
    (hmin : -2 ^ 31 ≤ count) (hmax : count < 2 ^ 31) :
    Answered (some es) ⟨sendListing count (u32 es.length)
        (es.foldl (fillEntry dirNameLen) ⟨host.fresh, 0, []⟩).buf,
      (es.foldl (fillEntry dirNameLen) ⟨host.fresh, 0, []⟩).stores, count⟩ ↔
      (∀ e ∈ es, e.1.name.length = dirNameLen) ∧ ((es.length * (18 + dirNameLen) : ℕ) : ℤ) = count := by
  constructor
  · rintro ⟨⟨body, hbody, hsent, hsucc⟩, hstores⟩
    obtain ⟨hfield, rfl⟩ := (crcSuffix_eq_frame_iff (length_toBytes _ _)).mp hsent
    obtain ⟨es', hes, hpayload⟩ := hsucc (List.take_left' (length_toBytes 4 0))
    obtain rfl := Option.some.inj hes
    have hfield := (toBytes_inj_of_lt (toU32_lt _) hbody).mp hfield
    simp only [List.length_append, length_toBytes, length_slice] at hfield hbody
    have hnonneg : 0 ≤ count := by unfold toU32 at hfield; omega
    have hroom : es.length * (18 + dirNameLen) ≤ count.toNat := by
      have hroom := stores_iff.mp hstores
      simp only at hroom
      rcases hroom with h | h
      · simp [h]
      · omega
    have hentries : slice (es.foldl (fillEntry dirNameLen) ⟨host.fresh, 0, []⟩).buf 0 count.toNat =
        es.flatMap encodeEntry := by
      have h := List.append_cancel_left hpayload
      have h := (List.append_inj h (by rw [length_toBytes, length_toBytes])).2
      exact List.append_cancel_left h
    obtain ⟨tail, htail, hslice⟩ := slice_filled host hroom
    rw [hslice] at hentries
    obtain ⟨hnames, rfl⟩ := (flatMap_writtenEntry_eq_iff hlen).mp hentries
    refine ⟨hnames, ?_⟩
    rw [List.length_nil] at htail
    omega
  · rintro ⟨hnames, rfl⟩
    obtain ⟨tail, htail, hslice⟩ := slice_filled host
      (Nat.le_refl (es.length * (18 + dirNameLen)))
    rw [Nat.sub_self, List.length_eq_zero_iff] at htail
    subst htail
    rw [(flatMap_writtenEntry_eq_iff hlen).mpr ⟨hnames, rfl⟩] at hslice
    have hwritten : (es.flatMap encodeEntry).length = es.length * (18 + dirNameLen) := by
      rw [← hslice, length_slice]
    have hcount : toBytes 4 (u32 es.length) = toBytes 4 es.length := toBytes_mod 4 es.length
    refine ⟨⟨_, ?_, (crcSuffix_eq_frame_iff (length_toBytes _ _)).mpr ⟨?_, rfl⟩, fun _ => ⟨es, rfl, ?_⟩⟩,
      stores_iff.mpr (Or.inr (Int.le_refl _))⟩
    · simp only [List.length_append, length_toBytes, length_slice, Int.toNat_natCast]
      omega
    · simp only [List.length_append, length_toBytes, length_slice, Int.toNat_natCast]
      congr 1
      unfold toU32
      omega
    · rw [hcount, Int.toNat_natCast, hslice]

/-- When the passes disagree, a success frame follows the error. -/
theorem not_answered_mismatch {entries : Option (List (HostDirent × Stat))} {errorCode count : ℤ}
    {stores : List (ℕ × ℕ)} {n : ℕ} {buf : Mem} :
    ¬ Answered entries ⟨sendErrorMsg errorCode ++ sendListing count n buf, stores, count⟩ := by
  rintro ⟨⟨body, hbody, hsent, -⟩, -⟩
  rw [sendErrorMsg_eq] at hsent
  have hnil := (frame_append_inj (by rw [length_toBytes]; decide) hbody hsent).2
  have hlen : (sendListing count n buf).length ≠ 0 := by
    rw [sendListing, length_crcSuffix]
    omega
  exact hlen (by rw [hnil]; rfl)

/-- The entry `.`. -/
def dotEntry : HostDirent where
  dName := fun i => if i = 0 then 0x2e else 0
  name := [0x2e]
  isName := by simp [Str]
  name_le := by decide

/-- A machine whose directories hold the entry `.` only. -/
def dotHost : Host where
  baseDir := []
  opendir := fun _ => .ok ([dotEntry], [dotEntry])
  stat := fun _ _ => some ⟨0x1000, 0, 0, 0x41ed⟩
  fresh := fun _ => 0
  freed := fun _ => 0
  lenInit := 0
  ccrcInit := 0

/-- The request for the directory `boot`. -/
def bootRequest : List UInt8 := crcSuffix (toBytes 2 4 ++ [0x62, 0x6f, 0x6f, 0x74])

/-- In the listing of `boot`, four bytes are copied for the name `.`, which leaves the buffer. -/
theorem server_reply_broken : ¬ Answered (listed dotHost bootRequest) (doCmd dotHost 1 bootRequest) := by
  intro h
  have hstore := h.stores (18, 4) (by decide +kernel)
  revert hstore
  decide +kernel

/-- **Replies of the server.** A request for a directory is answered by one frame, which lists the
directory if it reports success, with all stores in the buffer, just when the names fit. -/
theorem server_reply_iff (host : Host) (input : List UInt8) :
    Answered (listed host input) (doCmd host 1 input) ↔ NamesFit host input := by
  unfold doCmd listed NamesFit
  simp only [Nat.one_ne_zero, if_false, if_true]
  cases hreq : readDirRequest host input with
  | none =>
    simp only [iff_true]
    exact (answered_error (by decide)).mpr fun s hs => absurd hs (List.not_mem_nil)
  | some r =>
    simp only [serveDirectory]
    cases hopen : host.opendir (host.baseDir ++ [0x2f] ++ r.2) with
    | error errno =>
      simp only [iff_true]
      refine (answered_error ?_).mpr fun s hs => absurd hs (List.not_mem_nil)
      split_ifs <;> decide
    | ok d =>
      simp only [fillLoop_eq, Nat.zero_add]
      split_ifs with hall
      · simp only [← hall]
        by_cases hcount : u32 (statEntries host (host.baseDir ++ [0x2f] ++ r.2) 0 d.2).length =
          u32 d.1.length
        · rw [if_neg (not_not.mpr hcount), ← hcount]
          simp only [true_and]
          exact answered_listing (readDirRequest_lt hreq) (le_i32 _) (i32_lt _)
        · rw [if_pos hcount]
          exact iff_of_false not_answered_mismatch fun h => hcount h.1
      · exact (answered_error (by decide)).trans stores_iff

end RpiBoot
