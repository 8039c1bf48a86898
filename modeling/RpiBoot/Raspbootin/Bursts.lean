import RpiBoot.Checksum
import RpiBoot.Raspbootin.Request

/-!
# Bursts on the line

Both ends compare the checksum that they have received with that of the bytes before it. A burst of at most
32 bits is noticed where it leaves alone what says which bytes these are, and that they are compared at all:
the length in a request, and magic, length and error code in an answer.

* `serialRead_append`: what the server reads from the line.
* `doCmd_identify_burst`, `doCmd_directory_burst`: the server refuses a request.
* `readResponse_payload_burst`: the client refuses an answer.
* **`burst_noticed`**: both ends.
-/

namespace RpiBoot

open Store Bytes Lfsr

/-- The server reads as many bytes as it asks for. -/
theorem serialRead_append {old got : List UInt8} (h : got.length = old.length) (rest : List UInt8) :
    serialRead old (got ++ rest) = (got, rest) := by
  have hold : old.drop got.length = [] := List.drop_eq_nil_of_le (Nat.le_of_eq h.symm)
  simp only [serialRead, ← h, List.take_left, List.drop_left, hold, List.append_nil]

/-- Four bytes behind others, when the length is known. -/
theorem exists_word {line : List UInt8} {n : ℕ} (h : line.length = n + 4) :
    ∃ data word, line = data ++ word ∧ data.length = n ∧ word.length = 4 :=
  ⟨line.take n, line.drop n, (List.take_append_drop n line).symm, by rw [List.length_take]; omega,
    by rw [List.length_drop]; omega⟩

/-- The line is as long as what was sent. -/
theorem length_of_burst {n : ℕ} {a b : List UInt8} (h : Burst n (bufBits a) (bufBits b)) :
    b.length = a.length := by
  have hlen := h.length_eq
  rw [length_bufBits, length_bufBits] at hlen
  omega

variable (host : Host) {line : List UInt8}

/-- **Command 0**, whose checksum is that of no bytes. -/
theorem doCmd_identify_burst (h : Burst 32 (bufBits (crcSuffix [])) (bufBits line)) (rest : List UInt8) :
    (doCmd host 0 (line ++ rest)).sent = sendErrorMsg crcError := by
  have hlen : line.length = 4 := length_of_burst h
  rw [← List.nil_append line] at h
  have hne : ofBytes line ≠ crc32 [] := crc32_ne_of_burst h hlen
  rw [doCmd, if_pos rfl, serialRead_append (by rw [hlen, length_toBytes])]
  dsimp only
  rw [if_pos hne]

/-- **Command 1**, with the length of the name as it was sent. -/
theorem doCmd_directory_burst {name : List UInt8}
    (h : Burst 32 (bufBits (crcSuffix (toBytes 2 name.length ++ name))) (bufBits line))
    (hlength : line.take 2 = toBytes 2 name.length) (hname : name.length < 2 ^ 16) (rest : List UInt8) :
    (doCmd host 1 (line ++ rest)).sent = sendErrorMsg crcError := by
  have hlen : (line.drop 2).length = name.length + 4 := by
    have hline := length_of_burst h
    rw [length_crcSuffix, List.length_append, length_toBytes] at hline
    rw [List.length_drop]
    omega
  obtain ⟨dirName, word, hrest, hdir, hword⟩ := exists_word hlen
  have hsplit : line = (toBytes 2 name.length ++ dirName) ++ word := by
    rw [← List.take_append_drop 2 line, hlength, hrest, List.append_assoc]
  rw [hsplit] at h
  have hcount : ofBytes (toBytes 2 name.length) = name.length := by
    rw [ofBytes_toBytes, Nat.mod_eq_of_lt (by omega)]
  have hcrc : crc32Finish (crc32Append (crc32Append crc32Start (toBytes 2 name.length)) dirName) =
      crc32 (toBytes 2 name.length ++ dirName) := by rw [← crc32_eq, crc32Append_append]
  have hrefused : readDirRequest host (line ++ rest) = none := by
    rw [hsplit, List.append_assoc, List.append_assoc, readDirRequest,
      serialRead_append (by rw [length_toBytes, length_toBytes])]
    dsimp only
    rw [hcount, serialRead_append (by rw [hdir, List.length_replicate])]
    dsimp only
    rw [serialRead_append (by rw [hword, length_toBytes]), hcrc]
    exact if_pos (crc32_ne_of_burst h hword)
  rw [doCmd, if_neg (by decide), if_pos rfl, hrefused]

/-- **An answer** for which there is room, with magic, length and error code as they were sent. -/
theorem readResponse_payload_burst {payload : List UInt8} {recvBuf recvBufLen : ℕ}
    (h : Burst 32 (bufBits (successFrame payload)) (bufBits line))
    (hheader : line.take 12 = successHeader payload.length) (hfits : payload.length ≤ recvBufLen)
    (hlength : payload.length + 8 < 2 ^ 32) (rest : List UInt8) (mem : Mem) :
    (readResponse recvBuf recvBufLen (line ++ rest) mem).1 = crcError := by
  rw [successFrame_eq] at h
  have hlen : (line.drop 12).length = payload.length + 4 := by
    have hline := length_of_burst h
    rw [length_crcSuffix, List.length_append, successHeader, List.length_append, List.length_append,
      length_toBytes, length_toBytes, length_toBytes] at hline
    rw [List.length_drop]
    omega
  obtain ⟨data, word, hrest, hdata, hword⟩ := exists_word hlen
  have hsplit : line = (successHeader payload.length ++ data) ++ word := by
    rw [← List.take_append_drop 12 line, hheader, hrest, List.append_assoc]
  rw [hsplit] at h
  rw [hsplit, List.append_assoc, List.append_assoc, readResponse_success hlength,
    readData_append (by omega) (by omega) hword, if_pos (crc32_ne_of_burst h hword)]

/-- **A burst is noticed.** Where it leaves the length in a request alone, the server answers with the error of
the checksum; where it leaves magic, length and error code of an answer alone, the client returns it. -/
theorem burst_noticed (rest : List UInt8) :
    (∀ line, Burst 32 (bufBits (crcSuffix [])) (bufBits line) →
      (doCmd host 0 (line ++ rest)).sent = sendErrorMsg crcError) ∧
    (∀ name line, name.length < 2 ^ 16 →
      Burst 32 (bufBits (crcSuffix (toBytes 2 name.length ++ name))) (bufBits line) →
      line.take 2 = toBytes 2 name.length → (doCmd host 1 (line ++ rest)).sent = sendErrorMsg crcError) ∧
    (∀ payload line recvBuf recvBufLen mem, payload.length ≤ recvBufLen → payload.length + 8 < 2 ^ 32 →
      Burst 32 (bufBits (successFrame payload)) (bufBits line) →
      line.take 12 = successHeader payload.length →
      (readResponse recvBuf recvBufLen (line ++ rest) mem).1 = crcError) :=
  ⟨fun _ h => doCmd_identify_burst host h rest,
    fun _ _ hname h hlength => doCmd_directory_burst host h hlength hname rest,
    fun _ _ _ _ mem hfits hlength h hheader => readResponse_payload_burst h hheader hfits hlength rest mem⟩

/-- A request for the directory `a` that asks for `b`, and an answer `b` for `a`. -/
theorem burst_noticed_letter :
    (doCmd dotHost 1 ((crcSuffix [1, 0, 0x61]).set 2 0x62)).sent = sendErrorMsg crcError ∧
      (readResponse 0x8000 4 ((successFrame [0x61]).set 12 0x62) (fun _ => 0)).1 = crcError := by
  obtain ⟨-, hserver, hclient⟩ := burst_noticed dotHost []
  have hrequest := hserver [0x61] ((crcSuffix [1, 0, 0x61]).set 2 0x62) (by decide)
    ⟨(bufBits (crcSuffix [1, 0, 0x61])).take 16, [true, false], [false, true],
      (bufBits (crcSuffix [1, 0, 0x61])).drop 18, by decide +kernel, by decide +kernel, rfl, by decide, by decide⟩
    (by decide +kernel)
  have hanswer := hclient [0x61] ((successFrame [0x61]).set 12 0x62) 0x8000 4 (fun _ => 0) (by decide) (by decide)
    ⟨(bufBits (successFrame [0x61])).take 96, [true, false], [false, true],
      (bufBits (successFrame [0x61])).drop 98, by decide +kernel, by decide +kernel, rfl, by decide, by decide⟩
    (by decide +kernel)
  rw [List.append_nil] at hrequest hanswer
  exact ⟨hrequest, hanswer⟩

end RpiBoot
