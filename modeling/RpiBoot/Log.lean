import RpiBoot.Lib.Run
import RpiBoot.Copy
import RpiBoot.Timer

/-!
# The console log (`log.c`)

`log_putc` collects characters in a buffer and writes them to the log file when it is full.
`register_log_file` and `fflush` write out what has been collected, through the callback that the
file carries; only the first of them forgets it.

* `logPutc`, `logFflush`, `registerLogFile`: the functions of `log.c`; `fflush` as in `vfs.c`.
* `logStep`: one call, with the characters passed so far.
* `LogState.Exact`: what has been written, and then what is pending, are the characters passed.
* **`log_exactly_once_iff`**: that holds just when every manual flush found the buffer empty.
-/

namespace RpiBoot

open Store Runs

/-- The globals of `log.c`, the callbacks of the files, and the blocks of bytes that have been written
to the files. Files are numbered; a buffer is numbered from its first byte on. -/
structure LogState where
  logFp : Option ℕ
  logBuf : Option Mem
  bufSize : ℕ
  bufPtr : ℕ
  lastUpdate : TimerWait
  fflushCb : ℕ → Bool
  written : List (ℕ × List UInt8)

/-- The log at reset. -/
def LogState.init : LogState := ⟨none, none, 0, 0, ⟨0, false⟩, fun _ => false, []⟩

def logTimeout : ℤ := 5000000

/-- A `fwrite` to the log file, which succeeds. -/
def LogState.fwrite (s : LogState) (fp : ℕ) (bytes : List UInt8) : LogState :=
  { s with written := s.written ++ [(fp, bytes)] }

/-- `log_fflush(fp)`. -/
def logFflush (s : LogState) (fp : ℕ) : LogState :=
  match s.logBuf with
  | some logBuf => s.fwrite fp (slice logBuf 0 s.bufPtr)
  | none => s

/-- `fflush(fp)`, up to what the filesystem does for itself. -/
def LogState.fflush (s : LogState) : Option ℕ → ℤ × LogState
  | none => (-1, s)
  | some fp => (0, if s.fflushCb fp then logFflush s fp else s)

/-- The first lines of `log_putc`, where the counter reads `clo`. -/
def LogState.startTimer (s : LogState) (clo : ℕ) : LogState :=
  if s.lastUpdate.triggerValue = 0 then { s with lastUpdate := registerTimer clo logTimeout } else s

/-- The flush of `log_putc`, behind which the counter reads `clo`. -/
def LogState.flushFull (s : LogState) (clo : ℕ) : LogState :=
  match s.logFp with
  | some logFp =>
    if s.fflushCb logFp then
      { logFflush s logFp with lastUpdate := registerTimer clo logTimeout }
    else s
  | none => s

/-- `log_putc(c)`, where the counter reads `clo` on entry and `clo'` behind a flush. -/
def logPutc (s : LogState) (c : UInt8) (clo clo' : ℕ) : ℤ × LogState :=
  let s := s.startTimer clo
  match s.logBuf, decide (s.bufSize ≠ 0), s.logFp with
  | some logBuf, true, _ =>
    let s := { s with logBuf := some (Function.update logBuf s.bufPtr c), bufPtr := s.bufPtr + 1 }
    if s.bufPtr ≥ s.bufSize then (0, { s.flushFull clo' with bufPtr := 0 }) else (0, s)
  | _, _, some logFp => (0, s.fwrite logFp [c])
  | _, _, none => (0xff, s)

/-- The first lines of `register_log_file`: the current log, if there is one, is flushed and loses the
callback. -/
def LogState.release (s : LogState) : LogState :=
  match s.logFp with
  | some logFp =>
    let s := (s.fflush (some logFp)).2
    { s with fflushCb := Function.update s.fflushCb logFp false }
  | none => s

/-- The lines of `register_log_file` that give the new file the callback, and what has been collected
while there was no file. -/
def LogState.attach (s : LogState) (fp : ℕ) : LogState :=
  let s := { s with fflushCb := Function.update s.fflushCb fp true }
  if s.logFp.isNone ∧ s.logBuf.isSome then
    (({ s with logFp := some fp } : LogState).fflush (some fp)).2
  else s

/-- `register_log_file(fp, buffer_size)`; `memory` is what `malloc` or `realloc` returns. -/
def registerLogFile (s : LogState) (fp : Option ℕ) (bufferSize : ℕ) (memory : Option Mem) :
    ℤ × LogState :=
  let s := s.release
  match fp with
  | none =>
    (0, { s with
      logBuf := if bufferSize ≠ 0 then memory else none
      bufSize := bufferSize
      bufPtr := 0
      logFp := none })
  | some fp =>
    let s := s.attach fp
    let logBuf := if s.bufSize ≠ bufferSize ∧ s.logBuf.isSome then memory
      else if s.logBuf.isNone then memory
      else s.logBuf
    (0, { s with logBuf := logBuf, bufSize := bufferSize, bufPtr := 0, logFp := some fp })

/-! ## Runs -/

/-- The calls; the log file is flushed as `fflush(get_log_file())`. -/
inductive LogCall where
  | putc (c : UInt8) (clo clo' : ℕ)
  | flush
  | register (fp : Option ℕ) (bufferSize : ℕ) (memory : Option Mem)

/-- The log, with the characters that have been passed to `log_putc`. -/
structure Logged where
  log : LogState
  passed : List UInt8

def logStep (s : Logged) : LogCall → Option Logged
  | .putc c clo clo' => some ⟨(logPutc s.log c clo clo').2, s.passed ++ [c]⟩
  | .flush => some ⟨(s.log.fflush s.log.logFp).2, s.passed⟩
  | .register fp bufferSize memory =>
    some ⟨(registerLogFile s.log fp bufferSize memory).2, s.passed⟩

/-- The bytes that have been written to the files, in order. -/
def LogState.bytes (s : LogState) : List UInt8 := s.written.flatMap Prod.snd

/-- The bytes that are pending in the buffer. -/
def LogState.pending (s : LogState) : List UInt8 :=
  match s.logBuf with
  | some logBuf => slice logBuf 0 s.bufPtr
  | none => []

/-- Behind the bytes `old`, the characters passed have been written, or are pending, once each. -/
def Logged.Exact (old : List UInt8) (s : Logged) : Prop :=
  s.log.bytes ++ s.log.pending = old ++ s.passed

/-- The call is not a manual flush with bytes pending. -/
def Unflushed (s : Logged) (o : LogCall) : Prop := o = .flush → s.log.pending = []

/-! ## One call -/

/-- A registered file carries the callback, and there is room in the buffer. -/
structure LogState.Ready (s : LogState) : Prop where
  cb : ∀ fp, s.logFp = some fp → s.fflushCb fp = true
  room : s.bufPtr = 0 ∨ s.bufPtr < s.bufSize

variable {s : LogState} {fp : ℕ}

@[simp] theorem bytes_fwrite (l : List UInt8) : (s.fwrite fp l).bytes = s.bytes ++ l := by
  simp [LogState.fwrite, LogState.bytes]

@[simp] theorem pending_fwrite (l : List UInt8) : (s.fwrite fp l).pending = s.pending := rfl

/-- A flush writes what is pending, and leaves it pending. -/
theorem logFflush_eq (s : LogState) (fp : ℕ) :
    logFflush s fp = match s.logBuf with
      | some _ => s.fwrite fp s.pending
      | none => s := by
  unfold logFflush LogState.pending
  cases s.logBuf <;> rfl

theorem bytes_logFflush : (logFflush s fp).bytes = s.bytes ++ s.pending := by
  rw [logFflush_eq]
  cases h : s.logBuf with
  | some buf => simp
  | none => simp [LogState.pending, h]

theorem pending_logFflush : (logFflush s fp).pending = s.pending := by
  rw [logFflush_eq]
  cases s.logBuf <;> rfl

theorem logFflush_frame (s : LogState) (fp : ℕ) : ∃ w, logFflush s fp = { s with written := w } := by
  unfold logFflush
  split
  · exact ⟨_, rfl⟩
  · exact ⟨_, rfl⟩

/-- What is pending when a character has been put at the end of the buffer. -/
theorem slice_update_self (buf : Mem) (n : ℕ) (c : UInt8) :
    slice (Function.update buf n c) 0 (n + 1) = slice buf 0 n ++ [c] := by
  have hbefore : slice (Function.update buf n c) 0 n = slice buf 0 n :=
    slice_congr fun i hi => Function.update_of_ne (by omega) _ _
  rw [slice_add, hbefore, Nat.zero_add]
  simp [slice]

theorem startTimer_eq (s : LogState) (clo : ℕ) : ∃ u, s.startTimer clo = { s with lastUpdate := u } := by
  unfold LogState.startTimer
  split_ifs
  · exact ⟨_, rfl⟩
  · exact ⟨_, rfl⟩

/-- A full buffer is written out. -/
theorem bytes_flushFull (hs : ∀ fp, s.logFp = some fp → s.fflushCb fp = true)
    (hfp : s.logFp = some fp) (clo : ℕ) : (s.flushFull clo).bytes = s.bytes ++ s.pending := by
  unfold LogState.flushFull
  simp only [hfp, hs fp hfp, if_true]
  exact bytes_logFflush

theorem flushFull_eq (s : LogState) (clo : ℕ) :
    ∃ u w, s.flushFull clo = { s with lastUpdate := u, written := w } := by
  unfold LogState.flushFull
  split
  · obtain ⟨w, hw⟩ := logFflush_frame s ‹ℕ›
    rw [hw]
    split_ifs
    · exact ⟨_, _, rfl⟩
    · exact ⟨_, _, rfl⟩
  · exact ⟨_, _, rfl⟩

/-- Nothing is pending in a buffer that starts anew. -/
theorem pending_of_bufPtr (h : s.bufPtr = 0) : s.pending = [] := by
  unfold LogState.pending
  rw [h]
  cases s.logBuf <;> rfl

/-- **One character**, with a file registered. -/
theorem logPutc_spec (hs : s.Ready) (hfp : s.logFp = some fp) (c : UInt8) (clo clo' : ℕ) :
    (logPutc s c clo clo').2.bytes ++ (logPutc s c clo clo').2.pending =
        s.bytes ++ s.pending ++ [c] ∧
      (logPutc s c clo clo').2.Ready ∧ (logPutc s c clo clo').2.logFp = some fp := by
  obtain ⟨u, hu⟩ := startTimer_eq s clo
  have hdirect : ∀ t : LogState, t = ({ s with lastUpdate := u } : LogState).fwrite fp [c] →
      s.pending = [] → t.bytes ++ t.pending = s.bytes ++ s.pending ++ [c] ∧ t.Ready ∧
        t.logFp = some fp := by
    rintro t rfl hp
    have hpt : LogState.pending { s with lastUpdate := u } = [] := hp
    refine ⟨?_, ⟨hs.cb, hs.room⟩, hfp⟩
    rw [bytes_fwrite, pending_fwrite, hpt, hp, List.append_nil, List.append_nil]
    rfl
  obtain ⟨logFp, logBuf, bufSize, bufPtr, lastUpdate, fflushCb, written⟩ := s
  obtain rfl : logFp = some fp := hfp
  unfold logPutc
  rw [hu]
  dsimp only
  cases logBuf with
  | none =>
    generalize decide (bufSize ≠ 0) = b
    cases b <;> exact hdirect _ rfl rfl
  | some buf =>
    by_cases hsize : bufSize = 0
    · -- a buffer without room is never used
      obtain rfl := hsize
      exact hdirect _ rfl (pending_of_bufPtr (by simpa using hs.room))
    · simp only [hsize, ne_eq, not_false_eq_true, decide_true]
      set t : LogState := ⟨some fp, some (Function.update buf bufPtr c), bufSize, bufPtr + 1, u,
        fflushCb, written⟩ with ht
      have hput : t.pending = slice buf 0 bufPtr ++ [c] := slice_update_self buf bufPtr c
      have hbytes : t.bytes ++ t.pending = LogState.bytes ⟨some fp, some buf, bufSize, bufPtr,
          lastUpdate, fflushCb, written⟩ ++ slice buf 0 bufPtr ++ [c] := by
        rw [hput, List.append_assoc]
        rfl
      split_ifs with hfull
      · -- the buffer is full: all of it is written
        obtain ⟨u', w, hw⟩ := flushFull_eq t clo'
        have hb := bytes_flushFull (s := t) hs.cb rfl clo'
        rw [hw] at hb ⊢
        refine ⟨?_, ⟨hs.cb, Or.inl rfl⟩, rfl⟩
        rw [pending_of_bufPtr rfl, List.append_nil]
        exact hb.trans hbytes
      · exact ⟨hbytes, ⟨hs.cb, Or.inr (not_le.mp hfull)⟩, rfl⟩

theorem fflush_frame (s : LogState) (fp : ℕ) :
    ∃ w, (s.fflush (some fp)).2 = { s with written := w } := by
  simp only [LogState.fflush]
  split_ifs
  · exact logFflush_frame s fp
  · exact ⟨s.written, rfl⟩

/-- **A manual flush.** What is pending is written, and stays pending. -/
theorem fflush_spec (hs : s.Ready) (hfp : s.logFp = some fp) :
    (s.fflush (some fp)).2.bytes = s.bytes ++ s.pending ∧
      (s.fflush (some fp)).2.pending = s.pending := by
  simp only [LogState.fflush, hs.cb fp hfp, if_true]
  exact ⟨bytes_logFflush, pending_logFflush⟩

/-- The current log has been flushed. -/
theorem release_spec (hs : s.Ready) (hfp : s.logFp = some fp) :
    s.release.bytes = s.bytes ++ s.pending ∧ s.release.logFp = some fp := by
  have hrelease : s.release = { (s.fflush (some fp)).2 with
      fflushCb := Function.update (s.fflush (some fp)).2.fflushCb fp false } := by
    simp only [LogState.release, hfp]
  obtain ⟨w, hw⟩ := fflush_frame s fp
  rw [hrelease]
  refine ⟨(fflush_spec hs hfp).1, ?_⟩
  rw [hw]
  exact hfp

theorem fflushCb_attach (s : LogState) (fp : ℕ) : (s.attach fp).fflushCb fp = true := by
  simp only [LogState.attach]
  split_ifs
  · obtain ⟨w, hw⟩ := fflush_frame
      { s with fflushCb := Function.update s.fflushCb fp true, logFp := some fp } fp
    rw [hw]
    exact Function.update_self fp true s.fflushCb
  · exact Function.update_self fp true s.fflushCb

/-- Registering a file makes the log ready, whatever it was before. -/
theorem registerLogFile_ready (s : LogState) (fp bufferSize : ℕ) (memory : Option Mem) :
    (registerLogFile s (some fp) bufferSize memory).2.Ready := by
  refine ⟨fun fp' h => ?_, Or.inl rfl⟩
  obtain rfl : fp = fp' := Option.some.inj h
  exact fflushCb_attach s.release fp

/-- **Registering** while a file is registered writes what is pending, once. -/
theorem registerLogFile_spec (hs : s.Ready) (hfp : s.logFp = some fp) (fp' : Option ℕ)
    (bufferSize : ℕ) (memory : Option Mem) :
    (registerLogFile s fp' bufferSize memory).2.bytes = s.bytes ++ s.pending ∧
      (registerLogFile s fp' bufferSize memory).2.pending = [] ∧
      (registerLogFile s fp' bufferSize memory).2.Ready := by
  obtain ⟨hbytes, hlog⟩ := release_spec hs hfp
  cases fp' with
  | none => exact ⟨hbytes, pending_of_bufPtr rfl, fun _ h => (nomatch h), Or.inl rfl⟩
  | some fp' =>
    refine ⟨?_, pending_of_bufPtr rfl, registerLogFile_ready s fp' bufferSize memory⟩
    simp only [registerLogFile, LogState.attach, hlog]
    exact hbytes

/-! ## Runs -/

/-- The log is ready, and as long as it has to be. -/
def Logged.Inv (old : List UInt8) (s : Logged) : Prop :=
  s.log.Ready ∧ (old ++ s.passed).length ≤ (s.log.bytes ++ s.log.pending).length

/-- **One call**, with a file registered, keeps the log exact just when it is not a flush of pending
bytes; these are written twice, and nothing makes up for them. -/
theorem logStep_spec {old : List UInt8} {s s' : Logged} {o : LogCall} (hs : s.Inv old)
    (hfp : s.log.logFp ≠ none) (hstep : logStep s o = some s') :
    s'.Inv old ∧ (s'.Exact old ↔ s.Exact old ∧ Unflushed s o) := by
  obtain ⟨fp, hfp⟩ := Option.ne_none_iff_exists'.mp hfp
  obtain ⟨hready, hlen⟩ := hs
  unfold Logged.Inv Logged.Exact
  cases o with
  | putc c clo clo' =>
    obtain rfl := Option.some.inj hstep
    obtain ⟨hbytes, hready', -⟩ := logPutc_spec hready hfp c clo clo'
    simp only [hbytes, ← List.append_assoc]
    refine ⟨⟨hready', by simp at hlen ⊢; omega⟩, ?_⟩
    rw [List.append_left_inj]
    simp [Unflushed]
  | flush =>
    obtain rfl := Option.some.inj hstep
    obtain ⟨hbytes, hpending⟩ := fflush_spec hready hfp
    obtain ⟨w, hw⟩ := fflush_frame s.log fp
    have hready' : (s.log.fflush (some fp)).2.Ready := by
      rw [hw]
      exact ⟨hready.cb, hready.room⟩
    simp only [hfp, hbytes, hpending, Unflushed, forall_const]
    refine ⟨⟨hready', by simp at hlen ⊢; omega⟩, ?_⟩
    constructor
    · intro h
      have hnil : s.log.pending = [] := by
        have := congrArg List.length h
        simp only [List.length_append] at this hlen
        exact List.eq_nil_of_length_eq_zero (by omega)
      simpa [hnil] using h
    · rintro ⟨h, hnil⟩
      simpa [hnil] using h
  | register fp' bufferSize memory =>
    obtain rfl := Option.some.inj hstep
    obtain ⟨hbytes, hpending, hready'⟩ := registerLogFile_spec hready hfp fp' bufferSize memory
    simp only [hbytes, hpending, List.append_nil]
    exact ⟨⟨hready', hlen⟩, by simp [Unflushed]⟩

/-- The log once a file has been registered. -/
def logged (s : LogState) (fp bufferSize : ℕ) (memory : Option Mem) : Logged :=
  ⟨(registerLogFile s (some fp) bufferSize memory).2, []⟩

/-- One character and two flushes. -/
theorem log_exactly_once_broken : ∃ t,
    run logStep (logged LogState.init 0 16 (some fun _ => 0))
      [.putc 0x41 1 1, .flush, .flush] = some t ∧ ¬ t.Exact [] := by
  refine ⟨_, rfl, ?_⟩
  unfold Logged.Exact
  decide

/-- **The log is exact.** From the registering of a file on, whatever was before, and as long as one is
registered, each character that is passed is written once, or is pending, if and only if every manual
flush finds the buffer empty. -/
theorem log_exactly_once_iff (s : LogState) (fp bufferSize : ℕ) (memory : Option Mem)
    {calls : List LogCall} {t : Logged}
    (hfile : Along logStep (fun u _ => u.log.logFp ≠ none) (logged s fp bufferSize memory) calls)
    (hrun : run logStep (logged s fp bufferSize memory) calls = some t) :
    t.Exact (logged s fp bufferSize memory).log.bytes ↔
      Along logStep Unflushed (logged s fp bufferSize memory) calls := by
  have hpending : (logged s fp bufferSize memory).log.pending = [] := pending_of_bufPtr rfl
  have hinv : (logged s fp bufferSize memory).Inv (logged s fp bufferSize memory).log.bytes :=
    ⟨registerLogFile_ready s fp bufferSize memory, by simp [logged]⟩
  have hexact : (logged s fp bufferSize memory).Exact (logged s fp bufferSize memory).log.bytes := by
    rw [Logged.Exact, hpending]
    rfl
  rw [run_iff (fun s o s' => logStep_spec) hinv hfile hrun, and_iff_right hexact]

/-- One character and a flush. -/
theorem log_exactly_once_iff_flush : ∃ t,
    run logStep (logged LogState.init 0 16 (some fun _ => 0)) [.putc 0x41 1 1, .flush] = some t ∧
      (t.Exact (logged LogState.init 0 16 (some fun _ => 0)).log.bytes ↔
        Along logStep Unflushed (logged LogState.init 0 16 (some fun _ => 0))
          [.putc 0x41 1 1, .flush]) := by
  refine ⟨_, rfl, log_exactly_once_iff LogState.init 0 16 (some fun _ => 0) ⟨by decide, ?_⟩ rfl⟩
  rintro s ⟨⟩
  exact ⟨by decide, fun _ _ => trivial⟩

end RpiBoot
