import RpiBoot.Copy
import RpiBoot.Cstring
import RpiBoot.Word
import RpiBoot.Raspbootin.Protocol

/-!
# The client of the serial protocol (`raspbootin.c`)

The line is a `Uart`: the bytes that come in before a read times out, the messages that went out, and
the state of the other end, whose answer to a message is a parameter (`Peer`).

* `sendMessageInt`, `sendMessage`, `raspbootinReadDirectory`: the functions of `raspbootin.c`.
* `recvLoop_append`, `padLoop_eq`: what the loops do on bytes that are there.
* `Received`: a response is taken in: its payload is in the buffer, cut or padded, and counted.
* **`client_framing_iff`**: when a success response is taken in.
-/

namespace RpiBoot

open Store Bytes

variable {σ : Type}

/-! ## The line -/

/-- The serial port: what is received, what was sent, and the other end. -/
structure Uart (σ : Type) where
  rx : List UInt8
  sent : List (List UInt8)
  host : σ

/-- The other end: what it sends in answer to a message. -/
abbrev Peer (σ : Type) := List UInt8 → σ → List UInt8 × σ

/-- `uart_putc(byte)`: the bytes it puts on the line. -/
def uartPutc (byte : UInt8) : List UInt8 := if byte = 0x0a then [byte, 0x0d] else [byte]

/-- `while(uart_getc_timeout(1000) != -1);` -/
def Uart.clear (u : Uart σ) : Uart σ := { u with rx := [] }

/-- A message goes out, and the answer comes in. -/
def Uart.send (peer : Peer σ) (msg : List UInt8) (u : Uart σ) : Uart σ :=
  let r := peer msg u.host
  ⟨u.rx ++ r.1, u.sent ++ [msg], r.2⟩

/-- The bytes of a command with its options, whose checksum follows them. -/
def request (cmdId : ℕ) (options : List UInt8) : List UInt8 :=
  ([0x03, 0x03, UInt8.ofNat cmdId] ++ crcSuffix options).flatMap uartPutc

/-! ## Receiving -/

/-- The loop of `read_lsb32`, from byte `i` on. -/
def readLsb32Loop : ℕ → ℕ → ℕ → List UInt8 → Option (ℕ × List UInt8)
  | 0, _, ret, rx => some (ret, rx)
  | _ + 1, _, _, [] => none
  | k + 1, i, ret, b :: rx => readLsb32Loop k (i + 1) (ret ||| b.toNat <<< (8 * i)) rx

/-- `read_lsb32(&val, timeout)`; `none` is a time-out. -/
def readLsb32 (rx : List UInt8) : Option (ℕ × List UInt8) := readLsb32Loop 4 0 0 rx

/-- `while(data_to_read_to_buffer--)`: the checksum, `rptr`, `data_read` and the rest of the line, or a
time-out; and memory. -/
def recvLoop : ℕ → ℕ → ℕ → ℕ → Mem → List UInt8 → Option (ℕ × ℕ × ℕ × List UInt8) × Mem
  | 0, crc, rptr, dataRead, mem, rx => (some (crc, rptr, dataRead, rx), mem)
  | _ + 1, _, _, _, mem, [] => (none, mem)
  | k + 1, crc, rptr, dataRead, mem, b :: rx =>
    recvLoop k (crc32Append crc [b]) (rptr + 1) (dataRead + 1) (Function.update mem rptr b) rx

/-- `while(data_to_discard--)`. -/
def discardLoop : ℕ → ℕ → List UInt8 → Option (ℕ × List UInt8)
  | 0, crc, rx => some (crc, rx)
  | _ + 1, _, [] => none
  | k + 1, crc, b :: rx => discardLoop k (crc32Append crc [b]) rx

/-- `while(data_to_pad--)`. -/
def padLoop : ℕ → ℕ → Mem → Mem
  | 0, _, mem => mem
  | k + 1, rptr, mem => padLoop k (rptr + 1) (Function.update mem rptr 0)

/-- The part of `send_message_int` that reads the data and the checksum of a success response;
`dataLength` is the difference `resp_length - 8`. -/
def readData (respLength dataLength recvBuf recvBufLen : ℕ) (rx : List UInt8) (mem : Mem) : ℤ × Mem :=
  let dataToReadToBuffer := if dataLength > recvBufLen then recvBufLen else dataLength
  -- the difference is taken after the first counter has been cut to `recv_buf_len`
  let dataToDiscard := if dataLength > recvBufLen then sub32 dataToReadToBuffer recvBufLen else 0
  let dataToPad :=
    if dataLength > recvBufLen then 0
    else if recvBufLen > dataToReadToBuffer then recvBufLen - dataToReadToBuffer else 0
  let crc := crc32Append crc32Start (toBytes 4 magic)
  let crc := crc32Append crc (toBytes 4 respLength)
  let crc := crc32Append crc (toBytes 4 0)
  match recvLoop dataToReadToBuffer crc recvBuf 0 mem rx with
  | (none, mem) => (timeoutError, mem)
  | (some (crc, rptr, dataRead, rx), mem) =>
    match discardLoop dataToDiscard crc rx with
    | none => (timeoutError, mem)
    | some (crc, rx) =>
      let mem := padLoop dataToPad rptr mem
      match readLsb32 rx with
      | none => (timeoutError, mem)
      | some (respCrc, _) => if respCrc ≠ crc32Finish crc then (crcError, mem) else (i32 dataRead, mem)

/-- The part of `send_message_int` that reads the response. -/
def readResponse (recvBuf recvBufLen : ℕ) (rx : List UInt8) (mem : Mem) : ℤ × Mem :=
  match readLsb32 rx with
  | none => (timeoutError, mem)
  | some (respMagic, rx) =>
    if respMagic ≠ magic then (invalidMagic, mem)
    else
      match readLsb32 rx with
      | none => (timeoutError, mem)
      | some (respLength, rx) =>
        match readLsb32 rx with
        | none => (timeoutError, mem)
        | some (errorCode, rx) =>
          if errorCode ≠ 0 then (i32 errorCode, mem)
          else readData respLength (sub32 respLength 8) recvBuf recvBufLen rx mem

/-! ## Messages -/

def clientCapabilities : ℕ := 0x1f

/-- The checks at the start of `send_message_int`: the error, or none. -/
def checkCmd (serverCapabilities : ℕ) (cmdId : ℤ) : Option ℤ :=
  if cmdId < 0 ∨ cmdId > 31 then some invalidCmd
  else if cmdId = 3 then some invalidCmd
  else if clientCapabilities &&& 1 <<< cmdId.toNat = 0 then some unsupportedCmd
  else if serverCapabilities &&& 1 <<< cmdId.toNat = 0 then some unsupportedCmd
  else none

variable (peer : Peer σ) (serverCapabilities : ℕ)

/-- `send_message_int(cmd_id, send_buf, send_buf_len, recv_buf, recv_buf_len)`. -/
def sendMessageInt (cmdId : ℤ) (sendBuf : List UInt8) (recvBuf recvBufLen : ℕ) (mem : Mem)
    (u : Uart σ) : ℤ × Mem × Uart σ :=
  match checkCmd serverCapabilities cmdId with
  | some err => (err, mem, u)
  | none =>
    let u := u.clear.send peer (request cmdId.toNat sendBuf)
    let r := readResponse recvBuf recvBufLen u.rx mem
    (r.1, r.2, u.clear)

/-- The loop of `send_message`, with the number of tries left. -/
def sendMessageLoop (cmdId : ℤ) (sendBuf : List UInt8) (recvBuf recvBufLen : ℕ) :
    ℕ → Mem → Uart σ → ℤ × Mem × Uart σ
  | 0, mem, u => (crcError, mem, u)
  | k + 1, mem, u =>
    let r := sendMessageInt peer serverCapabilities cmdId sendBuf recvBuf recvBufLen mem u
    if r.1 ≥ 0 then r
    else if r.1 ≠ crcError then r
    else sendMessageLoop cmdId sendBuf recvBuf recvBufLen k r.2.1 r.2.2

/-- `send_message(cmd_id, send_buf, send_buf_len, recv_buf, recv_buf_len)`. -/
def sendMessage (cmdId : ℤ) (sendBuf : List UInt8) (recvBuf recvBufLen : ℕ) (mem : Mem)
    (u : Uart σ) : ℤ × Mem × Uart σ :=
  sendMessageLoop peer serverCapabilities cmdId sendBuf recvBuf recvBufLen 3 mem u

/-- The string `dir_name` after the components have been copied, each with a slash after it. -/
def joinedName (name : List (List UInt8)) : List UInt8 :=
  (name.flatMap (· ++ [0x2f])).takeWhile (· ≠ 0)

/-- The string `dir_name` that is sent. -/
def dirName (name : List (List UInt8)) : List UInt8 :=
  -- the comparison holds when the strings differ
  if strcmp (joinedName name) [0x2f] ≠ 0 then [] else joinedName name

/-- `raspbootin_read_directory(fs, name)`, with the buffer for the answer at `buf`; it returns no
entries. -/
def raspbootinReadDirectory (name : List (List UInt8)) (buf : ℕ) (mem : Mem) (u : Uart σ) :
    Mem × Uart σ :=
  if serverCapabilities &&& 1 <<< 1 ≠ 0 then
    (sendMessage peer serverCapabilities 1 (dirName name) buf 0x1000 mem u).2
  else (mem, u)

/-! ## The loops on bytes that are there -/

theorem readLsb32Loop_append (l rx : List UInt8) {i ret : ℕ} (h : ret < 256 ^ i) :
    readLsb32Loop l.length i ret (l ++ rx) = some (ret + 256 ^ i * ofBytes l, rx) := by
  induction l generalizing i ret with
  | nil => simp [readLsb32Loop, ofBytes]
  | cons b l ih =>
    rw [List.length_cons, List.cons_append, readLsb32Loop, or_shiftLeft h, ih (add_mul_lt h b), ofBytes,
      Nat.pow_succ]
    congr 2
    ring

theorem readLsb32_append {l : List UInt8} (hl : l.length = 4) (rx : List UInt8) :
    readLsb32 (l ++ rx) = some (ofBytes l, rx) := by
  have h := readLsb32Loop_append l rx (show 0 < 256 ^ 0 by decide)
  rwa [hl, Nat.pow_zero, Nat.one_mul, Nat.zero_add] at h

theorem readLsb32_toBytes {n : ℕ} (hn : n < 2 ^ 32) (rx : List UInt8) :
    readLsb32 (toBytes 4 n ++ rx) = some (n, rx) := by
  rw [readLsb32_append (length_toBytes 4 n), ofBytes_toBytes, Nat.mod_eq_of_lt (by omega)]

theorem recvLoop_append (l rx : List UInt8) (crc rptr dataRead : ℕ) (mem : Mem) :
    recvLoop l.length crc rptr dataRead mem (l ++ rx) =
      (some (crc32Append crc l, rptr + l.length, dataRead + l.length, rx), patch mem rptr l) := by
  induction l generalizing crc rptr dataRead mem with
  | nil => simp [recvLoop, crc32Append]
  | cons b l ih =>
    rw [List.length_cons, List.cons_append, recvLoop, ih, ← crc32Append_append, patch_cons,
      List.singleton_append, Nat.add_right_comm, Nat.add_right_comm dataRead]
    rfl

theorem padLoop_eq (k rptr : ℕ) (mem : Mem) : padLoop k rptr mem = patch mem rptr (List.replicate k 0) := by
  induction k generalizing rptr mem with
  | zero => simp [padLoop]
  | succ k ih => rw [padLoop, ih, List.replicate_succ, patch_cons]

/-! ## A success response -/

/-- What stands before a payload of `n` bytes. -/
def successHeader (n : ℕ) : List UInt8 := toBytes 4 magic ++ toBytes 4 (n + 8) ++ toBytes 4 0

/-- The success response with the given payload. -/
def successFrame (payload : List UInt8) : List UInt8 := frame (toBytes 4 0 ++ payload)

theorem successFrame_eq (payload : List UInt8) :
    successFrame payload = crcSuffix (successHeader payload.length ++ payload) := by
  have hlen : 4 + (toBytes 4 0 ++ payload).length = payload.length + 8 := by
    rw [List.length_append, length_toBytes]
    omega
  rw [successFrame, frame, hlen, successHeader, List.append_assoc _ (toBytes 4 0)]

variable {recvBuf recvBufLen : ℕ} {mem : Mem}

theorem readResponse_success {n : ℕ} (hn : n + 8 < 2 ^ 32) (rx : List UInt8) :
    readResponse recvBuf recvBufLen (successHeader n ++ rx) mem =
      readData (n + 8) n recvBuf recvBufLen rx mem := by
  have hlen : sub32 (n + 8) 8 = n := by rw [sub32_of_le (by omega) hn, Nat.add_sub_cancel]
  rw [successHeader, List.append_assoc, List.append_assoc, readResponse,
    readLsb32_toBytes (by decide)]
  simp only [ne_eq, not_true_eq_false, if_false]
  rw [readLsb32_toBytes hn]
  simp only
  rw [readLsb32_toBytes (by decide)]
  simp only [not_true_eq_false, if_false, hlen]

/-- The bytes that fit are stored, the buffer is padded, and the four bytes after them are taken to be
the checksum. -/
theorem readData_append {n : ℕ} {data word rest : List UInt8} (hn : n < 2 ^ 32)
    (hdata : data.length = min n recvBufLen) (hword : word.length = 4) :
    readData (n + 8) n recvBuf recvBufLen (data ++ (word ++ rest)) mem =
      (if ofBytes word ≠ crc32 (successHeader n ++ data) then crcError else i32 data.length,
        patch mem recvBuf (data ++ List.replicate (recvBufLen - n) 0)) := by
  have hread : (if n > recvBufLen then recvBufLen else n) = data.length := by
    rw [hdata]
    split_ifs <;> omega
  have hdiscard : (if n > recvBufLen then sub32 data.length recvBufLen else 0) = 0 := by
    split_ifs with h
    · rw [sub32_of_le (by omega) (by omega)]
      omega
    · rfl
  have hpad : (if n > recvBufLen then 0
      else if recvBufLen > data.length then recvBufLen - data.length else 0) = recvBufLen - n := by
    split_ifs <;> omega
  have hcrc : crc32Finish (crc32Append (crc32Append (crc32Append (crc32Append crc32Start
      (toBytes 4 magic)) (toBytes 4 (n + 8))) (toBytes 4 0)) data) = crc32 (successHeader n ++ data) := by
    rw [← crc32_eq, successHeader, crc32Append_append, crc32Append_append, crc32Append_append]
  rw [readData]
  simp only [hread, hdiscard, hpad, recvLoop_append, discardLoop, padLoop_eq]
  rw [readLsb32_append hword]
  simp only [hcrc, Nat.zero_add, ← patch_append]
  exact (apply_ite (fun ret => (ret, _)) _ _ _).symm

/-! ## Taking a response in -/

/-- The response is taken in: the payload is in the buffer, cut to it or padded with zeros, its bytes
are counted, and nothing is left on the line. -/
structure Received (payload : List UInt8) (recvBuf recvBufLen : ℕ) (mem : Mem)
    (r : ℤ × Mem × Uart σ) : Prop where
  ret : r.1 = min payload.length recvBufLen
  buffer : r.2.1 = patch mem recvBuf
    (payload.take recvBufLen ++ List.replicate (recvBufLen - payload.length) 0)
  consumed : r.2.2.rx = []

/-- What follows the part of the payload that fits. -/
def tailAfter (payload : List UInt8) (recvBufLen : ℕ) : List UInt8 :=
  payload.drop recvBufLen ++ toBytes 4 (crc32 (successHeader payload.length ++ payload))

/-- The payload fits, or the four bytes after the part that fits happen to be the checksum of the
response up to there; and the count is an `int`. -/
def FitsOrCollides (payload : List UInt8) (recvBufLen : ℕ) : Prop :=
  min payload.length recvBufLen < 2 ^ 31 ∧ (payload.length ≤ recvBufLen ∨
    (tailAfter payload recvBufLen).take 4 =
      toBytes 4 (crc32 (successHeader payload.length ++ payload.take recvBufLen)))

theorem tailAfter_of_le {payload : List UInt8} (h : payload.length ≤ recvBufLen) :
    (tailAfter payload recvBufLen).take 4 =
      toBytes 4 (crc32 (successHeader payload.length ++ payload.take recvBufLen)) := by
  rw [tailAfter, List.drop_eq_nil_of_le h, List.take_of_length_le h, List.nil_append,
    List.take_of_length_le (by rw [length_toBytes])]

theorem readResponse_successFrame {payload : List UInt8} (hlen : payload.length + 8 < 2 ^ 32) :
    readResponse recvBuf recvBufLen (successFrame payload) mem =
      (if (tailAfter payload recvBufLen).take 4 =
          toBytes 4 (crc32 (successHeader payload.length ++ payload.take recvBufLen))
        then i32 (min payload.length recvBufLen) else crcError,
        patch mem recvBuf
          (payload.take recvBufLen ++ List.replicate (recvBufLen - payload.length) 0)) := by
  have htake : (payload.take recvBufLen).length = min payload.length recvBufLen := by
    rw [List.length_take, Nat.min_comm]
  have hword : ((tailAfter payload recvBufLen).take 4).length = 4 := by
    rw [List.length_take, tailAfter, List.length_append, length_toBytes]
    omega
  have hsplit : successFrame payload = successHeader payload.length ++
      (payload.take recvBufLen ++ ((tailAfter payload recvBufLen).take 4 ++
        (tailAfter payload recvBufLen).drop 4)) := by
    rw [List.take_append_drop, tailAfter, ← List.append_assoc (payload.take _), List.take_append_drop,
      successFrame_eq, crcSuffix, List.append_assoc]
  have hcrc : ∀ {w : List UInt8} {c : ℕ}, w.length = 4 → c < 2 ^ 32 →
      (ofBytes w = c ↔ w = toBytes 4 c) := by
    intro w c hw hc
    constructor
    · rintro rfl
      rw [← hw, toBytes_ofBytes]
    · rintro rfl
      rw [ofBytes_toBytes, Nat.mod_eq_of_lt (by omega)]
  rw [hsplit, readResponse_success hlen, readData_append (by omega) htake hword, htake]
  simp only [ne_eq, hcrc hword (crc32_lt _), ite_not]

/-- Five bytes for a buffer of four: the fifth is taken to be the first of the checksum. -/
theorem client_framing_broken : ¬ Received [0x1f, 0, 0, 0, 1] 0x8000 4 (fun _ => 0)
    (sendMessageInt (fun _ s => (successFrame [0x1f, 0, 0, 0, 1], s)) 9 0 [] 0x8000 4 (fun _ => 0)
      ⟨[], [], ()⟩) := by
  intro h
  have hret := h.ret
  revert hret
  decide +kernel

/-- **Client framing.** A success response that comes in whole is taken in just when its payload fits in
the buffer, collisions of checksums apart. -/
theorem client_framing_iff {cmdId : ℤ} {sendBuf payload : List UInt8} {u : Uart σ}
    (hcmd : checkCmd serverCapabilities cmdId = none) (hlen : payload.length + 8 < 2 ^ 32)
    (hpeer : (peer (request cmdId.toNat sendBuf) u.host).1 = successFrame payload) :
    Received payload recvBuf recvBufLen mem
      (sendMessageInt peer serverCapabilities cmdId sendBuf recvBuf recvBufLen mem u) ↔
      FitsOrCollides payload recvBufLen := by
  have hrx : (u.clear.send peer (request cmdId.toNat sendBuf)).rx = successFrame payload := hpeer
  have hrun : sendMessageInt peer serverCapabilities cmdId sendBuf recvBuf recvBufLen mem u =
      ((readResponse recvBuf recvBufLen (successFrame payload) mem).1,
        (readResponse recvBuf recvBufLen (successFrame payload) mem).2,
        (u.clear.send peer (request cmdId.toNat sendBuf)).clear) := by
    rw [sendMessageInt, hcmd]
    simp only [hrx]
  have hmin : min payload.length recvBufLen < 2 ^ 32 := by omega
  rw [hrun, readResponse_successFrame hlen]
  constructor
  · rintro ⟨hret, -, -⟩
    simp only at hret
    split_ifs at hret with hword
    · refine ⟨?_, Or.inr hword⟩
      have := i32_lt (min payload.length recvBufLen)
      omega
    · rw [crcError] at hret
      omega
  · rintro ⟨hint, hfit⟩
    have hword := hfit.elim tailAfter_of_le id
    exact ⟨by rw [if_pos hword, i32_of_lt hint], rfl, rfl⟩

/-- The answer to the query of the server's capabilities. -/
theorem client_framing_iff_caps : Received [0x1f, 0, 0, 0] 0x8000 4 (fun _ => 0)
    (sendMessageInt (fun _ s => (successFrame [0x1f, 0, 0, 0], s)) 9 0 [] 0x8000 4 (fun _ => 0)
      ⟨[], [], ()⟩) :=
  (client_framing_iff _ _ (by decide) (by decide) rfl).mpr ⟨by decide, Or.inl (by decide)⟩

end RpiBoot
