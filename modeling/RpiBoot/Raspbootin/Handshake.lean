import RpiBoot.Raspbootin.Bursts

/-!
# The handshake over a bad line

Before it opens a directory, the client asks the server what it can do, at most three times. The line may
damage every request and every answer, and what was on it before the first request stays with the server.

* `serverMain`, `raspbootinInit`: the loop of the server, and the client's part.
* `Line`, `link`: what the line does to a request and its answer; the server behind the line.
* `Exchange`, `Does`: what comes of a request. `agreed`: what the client makes of a series of them.
* `exists_does_of_burst`: any burst in the answer is among these.
* `exchange_sendMessageInt`: one request, from the client to the server and back.
* **`handshake`**: the client learns what the server can do, or falls back to the old protocol, or takes what its
  variable held where an error code looks like the size of the answer.
-/

namespace RpiBoot

open Store Bytes Lfsr

variable {σ : Type}

/-! ## The server -/

/-- The input that `do_cmd(cmd, fd)` leaves. -/
def cmdInput (host : Host) (cmd : ℕ) (input : List UInt8) : List UInt8 :=
  if cmd = 0 then (serialRead (toBytes 4 host.ccrcInit) input).2
  else if cmd = 1 then
    let len := serialRead (toBytes 2 host.lenInit) input
    let dirName := serialRead (List.replicate (ofBytes len.1) 0) len.2
    (serialRead (toBytes 4 host.ccrcInit) dirName.2).2
  else input

/-- The loop of `main`, with the number of breaks read: what is sent, and the number of breaks when all of
the input is read. There are as many rounds as bytes at most. -/
def serverLoop (host : Host) : ℕ → ℕ → List UInt8 → List UInt8 × ℕ
  | 0, breaksRead, _ => ([], breaksRead)
  | _ + 1, breaksRead, [] => ([], breaksRead)
  | k + 1, breaksRead, buf :: input =>
    if breaksRead = 2 then
      let r := serverLoop host k 0 (cmdInput host buf.toNat input)
      ((doCmd host buf.toNat input).sent ++ r.1, r.2)
    else if buf = 0x03 then serverLoop host k (breaksRead + 1) input
    else serverLoop host k 0 input

def serverMain (host : Host) (breaksRead : ℕ) (input : List UInt8) : List UInt8 × ℕ :=
  serverLoop host input.length breaksRead input

/-! ## The client -/

/-- `raspbootin_init(fs)`: the new `server_capabilities`; the variable for the answer lies at `caps`. -/
def raspbootinInit (peer : Peer σ) (caps : ℕ) (mem : Mem) (u : Uart σ) : ℕ × Mem × Uart σ :=
  -- the server is assumed to take commands 0 and 3
  let r := sendMessage peer 9 0 [] caps 4 mem u
  (if r.1 = 4 then ofBytes (slice r.2.1 caps 4) else 1 <<< 3, r.2)

/-! ## The line -/

/-- What the line makes of a request, and of the answer. -/
structure Line where
  toServer : List UInt8 → List UInt8
  toClient : List UInt8 → List UInt8

/-- The server, with the breaks it has read, behind a line whose next exchanges are given; after these it
is clean. -/
structure Link where
  breaksRead : ℕ
  lines : List Line

/-- The other end of the client. -/
def link (host : Host) : Peer Link := fun msg l =>
  let line := l.lines.headD ⟨id, id⟩
  let r := serverMain host l.breaksRead (line.toServer msg)
  (line.toClient r.1, ⟨r.2, l.lines.tail⟩)

/-! ## Exchanges -/

/-- The request for the capabilities, and the answer. -/
def query : List UInt8 := request 0 []
def capsFrame : List UInt8 := successFrame (toBytes 4 serverCaps)

/-- What comes of a request: the answer, a reason to send it again, nothing of use, or what the client takes
for the answer, as `send_message` returns the size of the capabilities. -/
inductive Exchange
  | clean
  | retried
  | givenUp
  | taken

/-- The ways in which the line lets an exchange end so. -/
inductive Line.Does (l : Line) : Exchange → Prop
  | clean (hs : l.toServer query = query) (hc : l.toClient capsFrame = capsFrame) : l.Does .clean
  /-- A burst in the answer that leaves its magic and its error code alone. -/
  | burst (hs : l.toServer query = query)
      (hc : Burst 32 (bufBits capsFrame) (bufBits (l.toClient capsFrame)))
      (hmagic : (l.toClient capsFrame).take 4 = toBytes 4 magic)
      (herror : ((l.toClient capsFrame).drop 8).take 4 = toBytes 4 0) : l.Does .retried
  /-- The checksum of the request is damaged. -/
  | checksum {t : List UInt8} (hs : l.toServer query = [0x03, 0x03, 0x00] ++ t) (ht : t.length = 4)
      (hne : t ≠ [0, 0, 0, 0]) (hc : l.toClient (sendErrorMsg crcError) = sendErrorMsg crcError) :
      l.Does .retried
  /-- The request becomes one for a directory. -/
  | command (hs : l.toServer query = [0x03, 0x03, 0x01, 0, 0, 0, 0])
      (hc : l.toClient (sendErrorMsg crcError) = sendErrorMsg crcError) : l.Does .retried
  /-- The request becomes one that the server does not know. -/
  | unknown {c : UInt8} {t : List UInt8} (hs : l.toServer query = [0x03, 0x03, c] ++ t) (h0 : c ≠ 0)
      (h1 : c ≠ 1) (ht : 0x03 ∉ t) (hc : l.toClient [] = []) : l.Does .givenUp
  /-- The breaks are lost. -/
  | lost (hs : 0x03 ∉ l.toServer query) (hc : l.toClient [] = []) : l.Does .givenUp
  /-- The answer is cut short. -/
  | cut {n : ℕ} (hs : l.toServer query = query) (hn : n < capsFrame.length)
      (hc : l.toClient capsFrame = capsFrame.take n) : l.Does .givenUp
  /-- The magic of the answer is damaged. -/
  | magic {m rest : List UInt8} (hs : l.toServer query = query) (hc : l.toClient capsFrame = m ++ rest)
      (hm : m.length = 4) (hne : m ≠ toBytes 4 magic) : l.Does .givenUp
  /-- The answer becomes an error, and neither one of the checksum nor the size of the capabilities. -/
  | error {len e rest : List UInt8} (hs : l.toServer query = query)
      (hc : l.toClient capsFrame = toBytes 4 RpiBoot.magic ++ (len ++ (e ++ rest))) (hlen : len.length = 4)
      (he : e.length = 4) (hne : ∀ n ∈ [0, 4, toU32 crcError], e ≠ toBytes 4 n) : l.Does .givenUp
  /-- The answer becomes the error of the checksum. -/
  | errorCrc {len rest : List UInt8} (hs : l.toServer query = query)
      (hc : l.toClient capsFrame =
        toBytes 4 RpiBoot.magic ++ (len ++ (toBytes 4 (toU32 crcError) ++ rest))) (hlen : len.length = 4) :
      l.Does .retried
  /-- The answer becomes an error with the size of the capabilities for its code. -/
  | errorSize {len rest : List UInt8} (hs : l.toServer query = query)
      (hc : l.toClient capsFrame = toBytes 4 RpiBoot.magic ++ (len ++ (toBytes 4 4 ++ rest)))
      (hlen : len.length = 4) : l.Does .taken

/-- What the client makes of a series of exchanges: the capabilities, and the number of requests; `none` is
what its variable happens to hold. -/
def agreed : ℕ → List Exchange → Option ℕ × ℕ
  | 0, _ => (some (1 <<< 3), 0)
  | _ + 1, [] => (some serverCaps, 1)
  | _ + 1, .clean :: _ => (some serverCaps, 1)
  | k + 1, .retried :: es => ((agreed k es).1, (agreed k es).2 + 1)
  | _ + 1, .givenUp :: _ => (some (1 <<< 3), 1)
  | _ + 1, .taken :: _ => (none, 1)

/-! ## The loop of the server -/

section Server

variable (host : Host)

theorem length_cmdInput (cmd : ℕ) (input : List UInt8) :
    (cmdInput host cmd input).length ≤ input.length := by
  unfold cmdInput serialRead
  split_ifs
  · simp only [List.length_drop]
    omega
  · simp only [List.length_drop]
    omega
  · exact Nat.le_refl _

/-- More rounds than bytes change nothing. -/
theorem serverLoop_rounds {k n breaksRead : ℕ} {input : List UInt8} (hk : input.length ≤ k)
    (hn : input.length ≤ n) : serverLoop host k breaksRead input = serverLoop host n breaksRead input := by
  induction k generalizing n breaksRead input with
  | zero =>
    rw [List.eq_nil_of_length_eq_zero (Nat.le_zero.mp hk)]
    cases n <;> rfl
  | succ k ih =>
    cases input with
    | nil => cases n <;> rfl
    | cons buf input =>
      cases n with
      | zero => simp at hn
      | succ n =>
        have hk : input.length ≤ k := Nat.le_of_succ_le_succ hk
        have hn : input.length ≤ n := Nat.le_of_succ_le_succ hn
        have hcmd := length_cmdInput host buf.toNat input
        rw [serverLoop, serverLoop]
        split_ifs
        · rw [ih (by omega) (by omega : _ ≤ n)]
        · exact ih hk hn
        · exact ih hk hn

theorem serverMain_break {breaksRead : ℕ} (h : breaksRead ≠ 2) (input : List UInt8) :
    serverMain host breaksRead (0x03 :: input) = serverMain host (breaksRead + 1) input := by
  rw [serverMain, List.length_cons, serverLoop, if_neg h, if_pos rfl, serverMain]

theorem serverMain_other {breaksRead : ℕ} {buf : UInt8} (h : breaksRead ≠ 2) (hbuf : buf ≠ 0x03)
    (input : List UInt8) : serverMain host breaksRead (buf :: input) = serverMain host 0 input := by
  rw [serverMain, List.length_cons, serverLoop, if_neg h, if_neg hbuf, serverMain]

theorem serverMain_cmd (buf : UInt8) (input : List UInt8) : serverMain host 2 (buf :: input) =
    ((doCmd host buf.toNat input).sent ++ (serverMain host 0 (cmdInput host buf.toNat input)).1,
      (serverMain host 0 (cmdInput host buf.toNat input)).2) := by
  rw [serverMain, List.length_cons, serverLoop, if_pos rfl,
    serverLoop_rounds host (length_cmdInput host _ _) (Nat.le_refl _), serverMain]

/-- Text without a break leaves the server as it was. -/
theorem serverMain_text {text : List UInt8} (h : 0x03 ∉ text) : serverMain host 0 text = ([], 0) := by
  induction text with
  | nil => rfl
  | cons buf text ih =>
    rw [List.mem_cons, not_or] at h
    rw [serverMain_other host (by decide) (Ne.symm h.1), ih h.2]

/-- A command goes through after two breaks. -/
theorem serverMain_request (buf : UInt8) (input : List UInt8) :
    serverMain host 0 (0x03 :: 0x03 :: buf :: input) =
      ((doCmd host buf.toNat input).sent ++ (serverMain host 0 (cmdInput host buf.toNat input)).1,
        (serverMain host 0 (cmdInput host buf.toNat input)).2) := by
  rw [serverMain_break host (by decide), serverMain_break host (by decide), serverMain_cmd]

end Server

/-! ## Answers -/

section Answers

variable {caps recvBufLen : ℕ} {mem : Mem}

/-- A success response with any length field. -/
theorem readResponse_len {len : ℕ} (hlen : len < 2 ^ 32) (rest : List UInt8) :
    readResponse caps recvBufLen (toBytes 4 magic ++ (toBytes 4 len ++ (toBytes 4 0 ++ rest))) mem =
      readData (sub32 len 8 + 8) (sub32 len 8) caps recvBufLen rest mem := by
  have hbytes : toBytes 4 len = toBytes 4 (sub32 len 8 + 8) := by
    rw [toBytes_inj]
    unfold sub32 u32
    omega
  have hdata : ∀ n, toBytes 4 len = toBytes 4 n → readData len (sub32 len 8) caps recvBufLen rest mem =
      readData n (sub32 len 8) caps recvBufLen rest mem := by
    intro n h
    rw [readData, h, readData]
  rw [← hdata _ hbytes, readResponse, readLsb32_toBytes (by decide)]
  simp only [ne_eq, not_true_eq_false, if_false]
  rw [readLsb32_toBytes hlen]
  simp only
  rw [readLsb32_toBytes (by decide)]
  simp only [not_true_eq_false, if_false]

/-- An answer with another magic is refused. -/
theorem readResponse_magic {m rest : List UInt8} (hm : m.length = 4) (hne : m ≠ toBytes 4 magic) :
    (readResponse caps recvBufLen (m ++ rest) mem).1 = invalidMagic := by
  have h : ofBytes m ≠ magic := by
    rintro h
    rw [← h, ← hm, toBytes_ofBytes] at hne
    exact hne rfl
  rw [readResponse, readLsb32_append hm]
  simp only [ne_eq, h, not_false_eq_true, if_true]

/-- An error code is handed on, and memory left alone. -/
theorem readResponse_error {len e rest : List UInt8} (hlen : len.length = 4) (he : e.length = 4)
    (hne : ofBytes e ≠ 0) :
    readResponse caps recvBufLen (toBytes 4 magic ++ (len ++ (e ++ rest))) mem = (i32 (ofBytes e), mem) := by
  rw [readResponse, readLsb32_toBytes (by decide)]
  simp only [ne_eq, not_true_eq_false, if_false]
  rw [readLsb32_append hlen]
  simp only
  rw [readLsb32_append he]
  simp only [hne, not_false_eq_true, if_true]

/-- The answer comes in whole. -/
theorem readResponse_capsFrame : readResponse caps 4 capsFrame mem =
    (4, patch mem caps (toBytes 4 serverCaps)) := by
  have hlen : (toBytes 4 serverCaps).length = 4 := length_toBytes ..
  rw [capsFrame, readResponse_successFrame (by rw [hlen]; decide), if_pos (tailAfter_of_le (Nat.le_of_eq hlen)),
    hlen, List.take_of_length_le (Nat.le_of_eq hlen), Nat.min_self, Nat.sub_self, List.replicate_zero,
    List.append_nil]
  rfl

/-- An answer that is cut short is waited for. -/
theorem readResponse_cut {n : ℕ} (hn : n < capsFrame.length) :
    (readResponse caps 4 (capsFrame.take n) mem).1 = timeoutError := by
  have hlen : capsFrame.length = 20 := by decide +kernel
  rw [hlen] at hn
  interval_cases n <;> rfl

/-- What is in the frame of the capabilities behind the error code. -/
theorem readData_capsFrame {n : ℕ} (hn : n < 4) :
    (readData (n + 8) n caps 4 (capsFrame.drop 12) mem).1 = crcError := by
  interval_cases n <;> rfl

/-- The fields of an answer of the length of the frame. -/
theorem capsFrame_fields {line : List UInt8} (hlen : line.length = 20)
    (hmagic : line.take 4 = toBytes 4 magic) (herror : (line.drop 8).take 4 = toBytes 4 0) :
    ∃ len data word, line = toBytes 4 magic ++ (len ++ (toBytes 4 0 ++ (data ++ word))) ∧
      len.length = 4 ∧ data.length = 4 ∧ word.length = 4 := by
  refine ⟨(line.drop 4).take 4, (line.drop 12).take 4, line.drop 16, ?_, by simp [hlen], by simp [hlen],
    by simp [hlen]⟩
  rw [← hmagic, ← herror, show line.drop 16 = (line.drop 12).drop 4 by rw [List.drop_drop],
    List.take_append_drop, show line.drop 12 = (line.drop 8).drop 4 by rw [List.drop_drop],
    List.take_append_drop, show line.drop 8 = (line.drop 4).drop 4 by rw [List.drop_drop],
    List.take_append_drop, List.take_append_drop]

/-- A length whose first byte is that of the frame is not too small for the capabilities. -/
theorem four_le_sub32 {t : List UInt8} (h : ofBytes (12 :: t) < 2 ^ 32) : 4 ≤ sub32 (ofBytes (12 :: t)) 8 := by
  change 12 + 256 * ofBytes t < 2 ^ 32 at h
  change 4 ≤ (12 + 256 * ofBytes t + 2 ^ 32 - 8 % 2 ^ 32) % 2 ^ 32
  omega

/-- **A burst in the answer** that leaves its magic and its error code alone is noticed. -/
theorem readResponse_burst {line : List UInt8} (h : Burst 32 (bufBits capsFrame) (bufBits line))
    (hmagic : line.take 4 = toBytes 4 magic) (herror : (line.drop 8).take 4 = toBytes 4 0) :
    (readResponse caps 4 line mem).1 = crcError := by
  have hframe : capsFrame.length = 20 := by decide +kernel
  have hlen : line.length = 20 := (length_of_burst h).trans hframe
  obtain ⟨len, data, word, rfl, hlen4, hdata, hword⟩ := capsFrame_fields hlen hmagic herror
  have hnum : ofBytes len < 2 ^ 32 := by
    have h := ofBytes_lt len
    rwa [hlen4] at h
  have hbytes : len = toBytes 4 (ofBytes len) := by rw [← hlen4, toBytes_ofBytes]
  generalize hn : sub32 (ofBytes len) 8 = n
  have hread : readResponse caps 4 (toBytes 4 magic ++ (len ++ (toBytes 4 0 ++ (data ++ word)))) mem =
      readData (n + 8) n caps 4 (data ++ word) mem := by
    rw [hbytes, readResponse_len hnum, hn]
  rw [hread]
  by_cases hfour : 4 ≤ n
  · -- all of the payload is read, and the checksum is that of the response
    have hfield : toBytes 4 (n + 8) = len := by
      rw [hbytes, toBytes_inj, ← hn]
      unfold sub32 u32
      omega
    have hne : ofBytes word ≠ crc32 (successHeader n ++ data) := by
      have hline : toBytes 4 magic ++ (len ++ (toBytes 4 0 ++ (data ++ word))) =
          (successHeader n ++ data) ++ word := by
        rw [successHeader, hfield]
        simp only [List.append_assoc]
      rw [hline] at h
      exact crc32_ne_of_burst h hword
    rw [← List.append_nil word, readData_append (by rw [← hn]; exact u32_lt _) (by omega) hword, if_pos hne]
  · -- the burst has reached the length, and ends before the payload
    rcases h.take_or_drop 40 with hsame | hsame
    · rw [← bufBits_take (n := 5) (by omega), ← bufBits_take (n := 5) (by omega)] at hsame
      have hsame := bufBits_inj hsame
      obtain ⟨b, t, rfl⟩ := List.exists_cons_of_length_eq_add_one hlen4
      have hb : 12 = b := by
        have hb := congrArg (fun l => l[4]?) hsame
        have hframe4 : capsFrame[4]? = some 12 := by decide +kernel
        simpa [toBytes, hframe4] using hb
      rw [← hb] at hn hnum
      exact absurd (hn ▸ four_le_sub32 hnum) hfour
    · rw [← bufBits_drop (n := 9) (by omega), ← bufBits_drop (n := 9) (by omega)] at hsame
      have hsame := congrArg (List.drop 3) (bufBits_inj hsame)
      rw [List.drop_drop, List.drop_drop] at hsame
      have hrest : capsFrame.drop 12 = data ++ word := by
        rw [hsame, ← List.append_assoc, ← List.append_assoc]
        exact List.drop_left' (by simp [hlen4])
      rw [← hrest]
      exact readData_capsFrame (by omega)

end Answers

/-! ## One exchange -/

section Requests

variable (host : Host)

theorem query_eq : query = [0x03, 0x03, 0x00] ++ [0, 0, 0, 0] := by decide +kernel

/-- Command 0 is answered, or its checksum refused. -/
theorem serverMain_identify {t : List UInt8} (ht : t.length = 4) : serverMain host 0 ([0x03, 0x03, 0x00] ++ t) =
    (if t = [0, 0, 0, 0] then capsFrame else sendErrorMsg crcError, 0) := by
  have hread : serialRead (toBytes 4 host.ccrcInit) (t ++ []) = (t, []) :=
    serialRead_append (by rw [ht, length_toBytes]) []
  rw [List.append_nil] at hread
  have hcrc : ofBytes t = crc32 [] ↔ t = [0, 0, 0, 0] := by
    have hzero : crc32 [] = ofBytes [0, 0, 0, 0] := by decide
    constructor
    · intro h
      rw [← toBytes_ofBytes t, h, hzero, ht]
      rfl
    · rintro rfl
      exact hzero.symm
  have hframe : crcSuffix (toBytes 4 magic ++ toBytes 4 12 ++ toBytes 4 0 ++ toBytes 4 serverCaps) =
      capsFrame := by decide +kernel
  have hzero : (0x00 : UInt8).toNat = 0 := rfl
  rw [List.cons_append, List.cons_append, List.cons_append, List.nil_append, serverMain_request, hzero, doCmd,
    cmdInput, if_pos rfl, if_pos rfl, hread]
  simp only [ne_eq, hcrc, ite_not, hframe]
  split_ifs <;> simp [serverMain, serverLoop]

/-- A request for a directory without a name is refused. -/
theorem serverMain_command : serverMain host 0 [0x03, 0x03, 0x01, 0, 0, 0, 0] =
    (sendErrorMsg crcError, 0) := by
  have hreq : readDirRequest host [0, 0, 0, 0] = none := by
    have hline : request 1 [] = [3, 3, 1, 0, 0, 0, 0] := by decide +kernel
    have hdecode : decodeRequest host ([3, 3, 1, 0, 0, 0, 0] ++ []) =
        (readDirRequest host [0, 0, 0, 0]).map (·.2) := rfl
    have h := decodeRequest_empty host []
    rw [hline, hdecode] at h
    exact Option.map_eq_none_iff.mp h
  have hlen : serialRead (toBytes 2 host.lenInit) [0, 0, 0, 0] = ([0, 0], [0, 0]) := by
    simp [serialRead, toBytes]
  have hname : serialRead (List.replicate (ofBytes [0, 0]) 0) [0, 0] = ([], [0, 0]) := rfl
  have hcrc : (serialRead (toBytes 4 host.ccrcInit) [0, 0]).2 = [] := by simp [serialRead]
  have hone : (0x01 : UInt8).toNat = 1 := rfl
  rw [serverMain_request, hone, doCmd, cmdInput, if_neg (by decide), if_pos rfl, if_neg (by decide), if_pos rfl,
    hreq, hlen]
  simp only [hname, hcrc]
  simp [serverMain, serverLoop]

/-- A command that the server does not know is passed over. -/
theorem serverMain_unknown {c : UInt8} {t : List UInt8} (h0 : c ≠ 0) (h1 : c ≠ 1) (ht : 0x03 ∉ t) :
    serverMain host 0 ([0x03, 0x03, c] ++ t) = ([], 0) := by
  have h0 : c.toNat ≠ 0 := fun h => h0 (UInt8.toNat_inj.mp h)
  have h1 : c.toNat ≠ 1 := fun h => h1 (UInt8.toNat_inj.mp h)
  rw [List.cons_append, List.cons_append, List.cons_append, List.nil_append, serverMain_request, doCmd,
    cmdInput, if_neg h0, if_neg h1, if_neg h0, if_neg h1, serverMain_text host ht]
  rfl

end Requests

variable {host : Host} {caps : ℕ}

/-- What the client gets back. -/
def Line.answer (host : Host) (l : Line) : List UInt8 := l.toClient (serverMain host 0 (l.toServer query)).1

/-- One request, from the client to the server and back. -/
theorem exchange_sendMessageInt (mem : Mem) (rx : List UInt8) (sent : List (List UInt8)) (l : Line)
    (lines : List Line) : sendMessageInt (link host) 9 0 [] caps 4 mem ⟨rx, sent, ⟨0, l :: lines⟩⟩ =
      ((readResponse caps 4 (l.answer host) mem).1, (readResponse caps 4 (l.answer host) mem).2,
        ⟨[], sent ++ [query], ⟨(serverMain host 0 (l.toServer query)).2, lines⟩⟩) := rfl

/-- Behind the last damaged exchange, the line is clean. -/
theorem exchange_nil (mem : Mem) (rx : List UInt8) (sent : List (List UInt8)) :
    sendMessageInt (link host) 9 0 [] caps 4 mem ⟨rx, sent, ⟨0, []⟩⟩ =
      sendMessageInt (link host) 9 0 [] caps 4 mem ⟨rx, sent, ⟨0, [⟨id, id⟩]⟩⟩ := rfl

/-- An error code is one that ends the series, if it is none of three. -/
theorem readResponse_givenUp {len e rest : List UInt8} (hlen : len.length = 4) (he : e.length = 4)
    (hne : ∀ n ∈ [0, 4, toU32 crcError], e ≠ toBytes 4 n) (mem : Mem) :
    (readResponse caps 4 (toBytes 4 magic ++ (len ++ (e ++ rest))) mem).1 ≠ crcError ∧
      (readResponse caps 4 (toBytes 4 magic ++ (len ++ (e ++ rest))) mem).1 ≠ 4 := by
  have hnum : ofBytes e < 2 ^ 32 := by
    have h := ofBytes_lt e
    rwa [he] at h
  have hcode : ∀ n ∈ [0, 4, toU32 crcError], ofBytes e ≠ n := by
    rintro n hn rfl
    exact hne _ hn (by rw [← he, toBytes_ofBytes])
  have hcrc : toU32 crcError = 2 ^ 32 - 3 := by decide
  have h0 := hcode 0 (by simp)
  have h4 := hcode 4 (by simp)
  have h3 := hcode _ (List.mem_cons_of_mem _ (List.mem_cons_of_mem _ (List.mem_singleton.mpr hcrc.symm)))
  rw [readResponse_error hlen he h0]
  unfold i32 crcError
  rw [u32_of_lt hnum]
  constructor <;> split_ifs <;> omega

/-- What comes of an exchange: the server is ready for the next one, and the client has the capabilities,
tries again or gives up. -/
theorem Line.Does.outcome (host : Host) (caps : ℕ) {l : Line} {e : Exchange} (h : l.Does e) :
    (serverMain host 0 (l.toServer query)).2 = 0 ∧ ∀ mem,
      match e with
      | .clean => readResponse caps 4 (l.answer host) mem = (4, patch mem caps (toBytes 4 serverCaps))
      | .retried => (readResponse caps 4 (l.answer host) mem).1 = crcError
      | .givenUp => (readResponse caps 4 (l.answer host) mem).1 ≠ crcError ∧
          (readResponse caps 4 (l.answer host) mem).1 ≠ 4
      | .taken => readResponse caps 4 (l.answer host) mem = (4, mem) := by
  have hquery : serverMain host 0 query = (capsFrame, 0) := by
    rw [query_eq, serverMain_identify host rfl, if_pos rfl]
  have hcrc : ∀ mem, (readResponse caps 4 (sendErrorMsg crcError) mem).1 = crcError := fun _ => rfl
  have htimeout : ∀ mem, (readResponse caps 4 [] mem).1 = timeoutError := fun _ => rfl
  unfold Line.answer
  cases h with
  | clean hs hc =>
    rw [hs, hquery, hc]
    exact ⟨rfl, fun _ => readResponse_capsFrame⟩
  | burst hs hc hmagic herror =>
    rw [hs, hquery]
    exact ⟨rfl, fun _ => readResponse_burst hc hmagic herror⟩
  | checksum hs ht hne hc =>
    rw [hs, serverMain_identify host ht, if_neg hne, hc]
    exact ⟨rfl, hcrc⟩
  | command hs hc =>
    rw [hs, serverMain_command, hc]
    exact ⟨rfl, hcrc⟩
  | unknown hs h0 h1 ht hc =>
    rw [hs, serverMain_unknown host h0 h1 ht, hc]
    refine ⟨rfl, fun mem => ?_⟩
    rw [htimeout]
    exact ⟨by decide, by decide⟩
  | lost hs hc =>
    rw [serverMain_text host hs, hc]
    refine ⟨rfl, fun mem => ?_⟩
    rw [htimeout]
    exact ⟨by decide, by decide⟩
  | cut hs hn hc =>
    rw [hs, hquery, hc]
    refine ⟨rfl, fun mem => ?_⟩
    rw [readResponse_cut hn]
    exact ⟨by decide, by decide⟩
  | magic hs hc hm hne =>
    rw [hs, hquery, hc]
    refine ⟨rfl, fun mem => ?_⟩
    rw [readResponse_magic hm hne]
    exact ⟨by decide, by decide⟩
  | error hs hc hlen he hne =>
    rw [hs, hquery, hc]
    exact ⟨rfl, readResponse_givenUp hlen he hne⟩
  | errorCrc hs hc hlen =>
    rw [hs, hquery, hc]
    refine ⟨rfl, fun mem => ?_⟩
    exact congrArg Prod.fst (readResponse_error hlen (length_toBytes ..) (by decide))
  | errorSize hs hc hlen =>
    rw [hs, hquery, hc]
    refine ⟨rfl, fun mem => ?_⟩
    exact readResponse_error hlen (length_toBytes ..) (by decide)

/-- **A burst in the answer**, wherever it is, is noticed, or it makes an error code of the size of the
capabilities. -/
theorem exists_does_of_burst {l : Line} (hs : l.toServer query = query)
    (h : Burst 32 (bufBits capsFrame) (bufBits (l.toClient capsFrame))) : ∃ e, l.Does e := by
  generalize hline : l.toClient capsFrame = line at h
  have hlen : line.length = 20 := (length_of_burst h).trans (by decide +kernel)
  have hsplit : line = line.take 4 ++ ((line.drop 4).take 4 ++ ((line.drop 8).take 4 ++ line.drop 12)) := by
    rw [show line.drop 12 = (line.drop 8).drop 4 by rw [List.drop_drop], List.take_append_drop,
      show line.drop 8 = (line.drop 4).drop 4 by rw [List.drop_drop], List.take_append_drop,
      List.take_append_drop]
  have hfield : ((line.drop 4).take 4).length = 4 := by simp [hlen]
  have hcode : ((line.drop 8).take 4).length = 4 := by simp [hlen]
  by_cases hmagic : line.take 4 = toBytes 4 magic
  swap
  · exact ⟨_, .magic hs (hline.trans hsplit) (by simp [hlen]) hmagic⟩
  rw [hmagic] at hsplit
  by_cases h0 : (line.drop 8).take 4 = toBytes 4 0
  · subst hline
    exact ⟨_, .burst hs h hmagic h0⟩
  by_cases h4 : (line.drop 8).take 4 = toBytes 4 4
  · rw [h4] at hsplit
    exact ⟨_, .errorSize hs (hline.trans hsplit) hfield⟩
  by_cases h3 : (line.drop 8).take 4 = toBytes 4 (toU32 crcError)
  · rw [h3] at hsplit
    exact ⟨_, .errorCrc hs (hline.trans hsplit) hfield⟩
  refine ⟨_, .error hs (hline.trans hsplit) hfield hcode fun n hn => ?_⟩
  simp only [List.mem_cons, List.not_mem_nil, or_false] at hn
  rcases hn with rfl | rfl | rfl
  · exact h0
  · exact h4
  · exact h3

/-- The capabilities that `raspbootin_init` takes from the outcome of its message. -/
def capsOf (caps : ℕ) (r : ℤ × Mem × Uart σ) : ℕ :=
  if r.1 = 4 then ofBytes (slice r.2.1 caps 4) else 1 <<< 3

/-- What a series of tries leaves: the capabilities that were agreed on, the requests, and both ends ready
for the next message. -/
structure Agreed (caps : ℕ) (sent : List (List UInt8)) (a : Option ℕ × ℕ) (r : ℤ × Mem × Uart Link) : Prop where
  caps_eq : ∀ c, a.1 = some c → capsOf caps r = c
  caps_none : a.1 = none → capsOf caps r = ofBytes (slice r.2.1 caps 4)
  sent_eq : r.2.2.sent = sent ++ List.replicate a.2 query
  server : r.2.2.host.breaksRead = 0
  client : r.2.2.rx = []

/-- Only a wrong checksum leads to another try. -/
theorem sendMessageLoop_succ {peer : Peer σ} {serverCapabilities : ℕ} {cmdId : ℤ} {sendBuf : List UInt8}
    {recvBuf recvBufLen k : ℕ} {mem : Mem} {u : Uart σ} {r : ℤ × Mem × Uart σ}
    (h : sendMessageInt peer serverCapabilities cmdId sendBuf recvBuf recvBufLen mem u = r) :
    sendMessageLoop peer serverCapabilities cmdId sendBuf recvBuf recvBufLen (k + 1) mem u =
      if r.1 = crcError then
        sendMessageLoop peer serverCapabilities cmdId sendBuf recvBuf recvBufLen k r.2.1 r.2.2
      else r := by
  rw [sendMessageLoop]
  simp only [h]
  by_cases hcrc : r.1 = crcError
  · rw [if_neg (by rw [hcrc]; decide), if_neg (not_not.mpr hcrc), if_pos hcrc]
  · rw [if_pos hcrc, if_neg hcrc, ite_self]

/-- An exchange that is answered ends the series. -/
theorem agreed_clean {l : Line} (h : l.Does .clean) (lines : List Line) (k : ℕ) (mem : Mem) (rx : List UInt8)
    (sent : List (List UInt8)) : Agreed caps sent (some serverCaps, 1)
      (sendMessageLoop (link host) 9 0 [] caps 4 (k + 1) mem ⟨rx, sent, ⟨0, l :: lines⟩⟩) := by
  obtain ⟨hbreaks, hanswer⟩ := h.outcome host caps
  have hanswer : readResponse caps 4 (l.answer host) mem = (4, patch mem caps (toBytes 4 serverCaps)) :=
    hanswer mem
  have hslice : slice (patch mem caps (toBytes 4 serverCaps)) caps 4 = toBytes 4 serverCaps :=
    slice_patch mem caps (toBytes 4 serverCaps)
  rw [sendMessageLoop_succ (exchange_sendMessageInt mem rx sent l lines), hanswer, hbreaks,
    if_neg (by decide : ¬ (4 : ℤ) = crcError)]
  refine ⟨fun c hc => ?_, nofun, rfl, rfl, rfl⟩
  rw [capsOf, if_pos rfl, hslice]
  exact Option.some.inj hc

/-- So does one whose answer is taken for the capabilities. -/
theorem sendMessageLoop_taken {l : Line} (h : l.Does .taken) (lines : List Line) (k : ℕ) (mem : Mem)
    (rx : List UInt8) (sent : List (List UInt8)) :
    sendMessageLoop (link host) 9 0 [] caps 4 (k + 1) mem ⟨rx, sent, ⟨0, l :: lines⟩⟩ =
      (4, mem, ⟨[], sent ++ [query], ⟨0, lines⟩⟩) := by
  obtain ⟨hbreaks, hanswer⟩ := h.outcome host caps
  have hanswer : readResponse caps 4 (l.answer host) mem = (4, mem) := hanswer mem
  rw [sendMessageLoop_succ (exchange_sendMessageInt mem rx sent l lines), hanswer, hbreaks,
    if_neg (by decide : ¬ (4 : ℤ) = crcError)]

/-- The first exchange that does not end in another try decides. -/
theorem sendMessageLoop_link (host : Host) (caps : ℕ) {lines : List Line} {es : List Exchange}
    (h : List.Forall₂ Line.Does lines es) (k : ℕ) (mem : Mem) (rx : List UInt8) (sent : List (List UInt8))
    (hrx : k = 0 → rx = []) :
    Agreed caps sent (agreed k es)
      (sendMessageLoop (link host) 9 0 [] caps 4 k mem ⟨rx, sent, ⟨0, lines⟩⟩) := by
  induction k generalizing lines es mem rx sent with
  | zero =>
    exact ⟨fun c hc => (if_neg (by decide : ¬ crcError = 4)).trans (Option.some.inj hc), nofun,
      (List.append_nil sent).symm, rfl, hrx rfl⟩
  | succ k ih =>
    cases h with
    | nil =>
      have hlast : sendMessageLoop (link host) 9 0 [] caps 4 (k + 1) mem ⟨rx, sent, ⟨0, []⟩⟩ =
          sendMessageLoop (link host) 9 0 [] caps 4 (k + 1) mem ⟨rx, sent, ⟨0, [⟨id, id⟩]⟩⟩ := by
        rw [sendMessageLoop_succ (exchange_nil mem rx sent), sendMessageLoop_succ rfl]
      rw [hlast]
      exact agreed_clean (.clean rfl rfl) [] k mem rx sent
    | @cons l e lines es hl hls =>
      obtain ⟨hbreaks, hanswer⟩ := hl.outcome host caps
      have hanswer := hanswer mem
      cases e with
      | clean => exact agreed_clean hl lines k mem rx sent
      | retried =>
        have hanswer : (readResponse caps 4 (l.answer host) mem).1 = crcError := hanswer
        rw [sendMessageLoop_succ (exchange_sendMessageInt mem rx sent l lines), if_pos hanswer, hbreaks]
        obtain ⟨hcaps, hnone, hsent, hserver, hclient⟩ := ih hls (readResponse caps 4 (l.answer host) mem).2 []
          (sent ++ [query]) fun _ => rfl
        refine ⟨hcaps, hnone, ?_, hserver, hclient⟩
        rw [hsent, List.append_assoc, List.singleton_append, ← List.replicate_succ]
        rfl
      | givenUp =>
        obtain ⟨hcrc, hfour⟩ : (readResponse caps 4 (l.answer host) mem).1 ≠ crcError ∧
          (readResponse caps 4 (l.answer host) mem).1 ≠ 4 := hanswer
        rw [sendMessageLoop_succ (exchange_sendMessageInt mem rx sent l lines), if_neg hcrc, hbreaks]
        exact ⟨fun c hc => (if_neg hfour).trans (Option.some.inj hc), nofun, rfl, rfl, rfl⟩
      | taken =>
        rw [sendMessageLoop_taken hl lines k mem rx sent]
        exact ⟨nofun, fun _ => if_pos rfl, rfl, rfl, rfl⟩

/-- **The handshake.** Whatever the server has read before, if that left no break, and whatever the line does
to the exchanges, the client ends with what the server can do or with the old protocol, as the exchanges
say; and both ends are ready for the next message. Where the code of an error is the size of the
capabilities, the client takes for them what its variable holds, which the first answer leaves as it was. -/
theorem handshake (host : Host) (caps : ℕ) {noise : List UInt8} (hnoise : (serverMain host 0 noise).2 = 0)
    {lines : List Line} {es : List Exchange} (h : List.Forall₂ Line.Does lines es) (mem : Mem)
    (rx : List UInt8) (sent : List (List UInt8)) :
    let r := raspbootinInit (link host) caps mem ⟨rx, sent, ⟨(serverMain host 0 noise).2, lines⟩⟩
    (∀ c, (agreed 3 es).1 = some c → r.1 = c) ∧ r.2.2.sent = sent ++ List.replicate (agreed 3 es).2 query ∧
      r.2.2.rx = [] ∧ r.2.2.host.breaksRead = 0 ∧
      ((agreed 3 es).1 = none → r.1 = ofBytes (slice r.2.1 caps 4)) ∧
      (∀ later, es = .taken :: later → r.2.1 = mem) := by
  rw [hnoise]
  obtain ⟨hcaps, hnone, hsent, hserver, hclient⟩ :=
    sendMessageLoop_link host caps h 3 mem rx sent (fun h => nomatch h)
  refine ⟨hcaps, hsent, hclient, hserver, hnone, ?_⟩
  rintro later rfl
  cases h with
  | @cons l e lines later hl hls =>
    have htaken : sendMessageLoop (link host) 9 0 [] caps 4 3 mem ⟨rx, sent, ⟨0, l :: lines⟩⟩ =
        (4, mem, ⟨[], sent ++ [query], ⟨0, lines⟩⟩) := sendMessageLoop_taken hl lines 2 mem rx sent
    exact congrArg (fun r => r.2.1) htaken

/-- A line that changes a bit of the capabilities, and one that changes the checksum of the request. -/
def burstLine : Line := ⟨id, fun answer => answer.set 12 0x1e⟩
def checksumLine : Line := ⟨fun msg => msg.set 3 0x01, id⟩

/-- After some text, and with both of them in the way, the third request is answered. -/
theorem handshake_twice :
    let r := raspbootinInit (link dotHost) 0x8000 (fun _ => 0)
      ⟨[], [], ⟨(serverMain dotHost 0 [0x68, 0x69]).2, [burstLine, checksumLine]⟩⟩
    r.1 = 0x1f ∧ r.2.2.sent = List.replicate 3 query := by
  have hburst : burstLine.Does .retried := by
    refine .burst rfl ⟨(bufBits capsFrame).take 96, [true], [false], (bufBits capsFrame).drop 97, ?_, ?_, rfl,
      by decide, by decide⟩ ?_ ?_ <;> decide +kernel
  have hchecksum : checksumLine.Does .retried :=
    .checksum (t := [0x01, 0, 0, 0]) (by decide +kernel) rfl (by decide) rfl
  have hnoise : (serverMain dotHost 0 [0x68, 0x69]).2 = 0 := by rw [serverMain_text dotHost (by decide)]
  obtain ⟨hcaps, hsent, -, -, -⟩ := handshake dotHost 0x8000 hnoise (.cons hburst (.cons hchecksum .nil))
    (fun _ => 0) [] []
  exact ⟨hcaps _ rfl, hsent⟩

end RpiBoot
