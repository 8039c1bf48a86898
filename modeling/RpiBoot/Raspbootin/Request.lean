import RpiBoot.Raspbootin.Client
import RpiBoot.Raspbootin.Server

/-!
# A request for a directory, from the client to the server

The client joins the components of the name, compares the result with the root the wrong way round, and
sends no length; the server reads a length first. Both ends are given, and anything may follow on the line.

* `decodeRequest`: what the server makes of the bytes on the line.
* `intercalate_concat`: the client's name is the joined name and a slash.
* `mem_sent_readDirectory`: the messages that go out.
* `decodeRequest_empty`, `decodeRequest_root`: the two requests there are, as the server reads them.
* **`request_agreement_iff`**: the server reads the name that was asked for just when nothing is asked.
-/

namespace RpiBoot

open Store Bytes

variable {σ : Type}

/-- The name that the server decodes from the line and finds to have the right checksum. -/
def decodeRequest (host : Host) (line : List UInt8) : Option (List UInt8) :=
  match awaitCmd 0 line with
  | some (1, input) => (readDirRequest host input).map (·.2)
  | _ => none

/-! ## The messages that go out -/

section Sent

variable (peer : Peer σ) {serverCapabilities : ℕ} {cmdId : ℤ} (sendBuf : List UInt8)
  {recvBuf recvBufLen : ℕ}

theorem sent_sendMessageInt (hcmd : checkCmd serverCapabilities cmdId = none) (mem : Mem) (u : Uart σ) :
    (sendMessageInt peer serverCapabilities cmdId sendBuf recvBuf recvBufLen mem u).2.2.sent =
      u.sent ++ [request cmdId.toNat sendBuf] := by
  rw [sendMessageInt, hcmd]
  rfl

/-- A message is sent again, and nothing else. -/
theorem sent_sendMessageLoop (hcmd : checkCmd serverCapabilities cmdId = none) (k : ℕ) (mem : Mem)
    (u : Uart σ) : ∃ n, (sendMessageLoop peer serverCapabilities cmdId sendBuf recvBuf recvBufLen
      (k + 1) mem u).2.2.sent = u.sent ++ List.replicate (n + 1) (request cmdId.toNat sendBuf) := by
  induction k generalizing mem u with
  | zero =>
    refine ⟨0, ?_⟩
    simp only [sendMessageLoop]
    split_ifs <;> exact sent_sendMessageInt peer sendBuf hcmd mem u
  | succ k ih =>
    rw [sendMessageLoop]
    split_ifs
    · exact ⟨0, sent_sendMessageInt peer sendBuf hcmd mem u⟩
    · exact ⟨0, sent_sendMessageInt peer sendBuf hcmd mem u⟩
    · obtain ⟨n, hn⟩ := ih
        (sendMessageInt peer serverCapabilities cmdId sendBuf recvBuf recvBufLen mem u).2.1
        (sendMessageInt peer serverCapabilities cmdId sendBuf recvBuf recvBufLen mem u).2.2
      refine ⟨n + 1, ?_⟩
      rw [hn, sent_sendMessageInt peer sendBuf hcmd, List.append_assoc, List.singleton_append,
        ← List.replicate_succ]

/-- The messages of `raspbootin_read_directory`: requests for one name, if the server takes them. -/
theorem mem_sent_readDirectory (serverCapabilities : ℕ) (name : List (List UInt8)) (buf : ℕ) (mem : Mem)
    (rx : List UInt8) (s : σ) :
    (serverCapabilities &&& 2 = 0 →
      (raspbootinReadDirectory peer serverCapabilities name buf mem ⟨rx, [], s⟩).2.sent = []) ∧
    (serverCapabilities &&& 2 ≠ 0 →
      request 1 (dirName name) ∈
        (raspbootinReadDirectory peer serverCapabilities name buf mem ⟨rx, [], s⟩).2.sent) := by
  have hbit : 1 <<< 1 = 2 := rfl
  constructor
  · intro h
    rw [raspbootinReadDirectory, hbit, if_neg (not_not.mpr h)]
  · intro h
    have hcmd : checkCmd serverCapabilities 1 = none := by
      unfold checkCmd
      rw [if_neg (by decide), if_neg (by decide), if_neg (by decide), Int.toNat_one, hbit, if_neg h]
    obtain ⟨n, hn⟩ := sent_sendMessageLoop peer (dirName name) hcmd 2 mem ⟨rx, [], s⟩
    rw [raspbootinReadDirectory, hbit, if_pos h, sendMessage, hn]
    simp

end Sent

/-! ## The two requests -/

/-- The client's name is the joined name and a slash. -/
theorem intercalate_concat {α : Type} {sep : List α} {l : List (List α)} (h : l ≠ []) :
    sep.intercalate l ++ sep = l.flatMap (· ++ sep) := by
  induction l with
  | nil => exact absurd rfl h
  | cons x l ih =>
    by_cases hl : l = []
    · subst hl
      simp
    · rw [List.intercalate_cons_of_ne_nil hl, List.append_assoc, ih hl, List.flatMap_cons]

theorem dirName_cases (name : List (List UInt8)) :
    dirName name = [] ∨ dirName name = [0x2f] ∧ joinedName name = [0x2f] := by
  have hzero : 0 ∉ joinedName name := fun h => by
    have := List.mem_takeWhile_imp h
    simp at this
  rw [dirName]
  split_ifs with h
  · exact Or.inl rfl
  · have := (strcmp_eq_zero hzero (by decide)).mp (not_not.mp h)
    exact Or.inr ⟨this, this⟩

variable (host : Host) (rest : List UInt8)

/-- An empty name goes out without its length: half of the checksum is read as the length, and the
other half is not the checksum of that. -/
theorem decodeRequest_empty : decodeRequest host (request 1 [] ++ rest) = none := by
  have hline : request 1 [] = [3, 3, 1, 0, 0, 0, 0] := by decide +kernel
  have hcrc : crc32Finish (crc32Append (crc32Append crc32Start [0, 0]) []) = 0x41d912ff := by
    decide +kernel
  have hccrc : ofBytes (serialRead (toBytes 4 host.ccrcInit) (0 :: 0 :: rest)).1 ≠ 0x41d912ff := by
    have hread : (serialRead (toBytes 4 host.ccrcInit) (0 :: 0 :: rest)).1 =
        0 :: 0 :: (serialRead (toBytes 2 (host.ccrcInit / 256 / 256)) rest).1 := by
      simp [serialRead, toBytes]
    have hzero : UInt8.toNat 0 = 0 := rfl
    rw [hread, ofBytes, ofBytes, hzero]
    omega
  have hreq : readDirRequest host ([0, 0, 0, 0] ++ rest) = none := by
    have hlen : serialRead (toBytes 2 host.lenInit) (0 :: 0 :: 0 :: 0 :: rest) =
        ([0, 0], 0 :: 0 :: rest) := by
      simp [serialRead, toBytes]
    have hname : serialRead (List.replicate (ofBytes [0, 0]) 0) (0 :: 0 :: rest) =
        ([], 0 :: 0 :: rest) := rfl
    simp only [readDirRequest, List.cons_append, List.nil_append, hlen, hname, hcrc]
    rw [if_pos hccrc]
  have hdecode : decodeRequest host ([3, 3, 1, 0, 0, 0, 0] ++ rest) =
      (readDirRequest host ([0, 0, 0, 0] ++ rest)).map (·.2) := rfl
  rw [hline, hdecode, hreq]
  rfl

/-- The root goes out without its length too: what is decoded, if anything, starts with a byte of the
checksum. -/
theorem decodeRequest_root {name : List UInt8} (h : decodeRequest host (request 1 [0x2f] ++ rest) = some name) :
    ∃ tail, name = 0xd2 :: tail := by
  have hline : request 1 [0x2f] = [3, 3, 1, 0x2f, 0xd4, 0xd2, 0xd3, 0x79] := by decide +kernel
  have hlen : serialRead (toBytes 2 host.lenInit) (0x2f :: 0xd4 :: 0xd2 :: 0xd3 :: 0x79 :: rest) =
      ([0x2f, 0xd4], 0xd2 :: 0xd3 :: 0x79 :: rest) := by
    simp [serialRead, toBytes]
  have hname : ∀ n, (serialRead (List.replicate (n + 1) 0) (0xd2 :: 0xd3 :: 0x79 :: rest)).1 =
      0xd2 :: (serialRead (List.replicate n 0) (0xd3 :: 0x79 :: rest)).1 := by
    intro n
    simp [serialRead, List.replicate_succ]
  rw [hline] at h
  have h : (readDirRequest host (0x2f :: 0xd4 :: 0xd2 :: 0xd3 :: 0x79 :: rest)).map (·.2) = some name := h
  obtain ⟨r, hr, rfl⟩ := Option.map_eq_some_iff.mp h
  unfold readDirRequest at hr
  simp only [hlen, Option.ite_none_left_eq_some, Option.some.injEq] at hr
  obtain ⟨-, rfl⟩ := hr
  have hn : ofBytes [0x2f, 0xd4] = 54318 + 1 := by decide
  rw [hn, hname, List.takeWhile_cons_of_pos (by decide)]
  exact ⟨_, rfl⟩

/-- The request for `boot` goes out as one for nothing, and its checksum is refused. -/
theorem request_agreement_broken :
    ¬ ∀ m ∈ (raspbootinReadDirectory (fun _ s => ([], s)) 0x1f [[0x62, 0x6f, 0x6f, 0x74]] 0x8000
      (fun _ => 0) ⟨[], [], ()⟩).2.sent, decodeRequest dotHost m = some [0x62, 0x6f, 0x6f, 0x74] := by
  intro h
  have hdir : dirName [[0x62, 0x6f, 0x6f, 0x74]] = [] :=
    (dirName_cases _).resolve_right fun h => absurd h.2 (by decide)
  have hsent := (mem_sent_readDirectory (fun _ s => ([], s)) 0x1f [[0x62, 0x6f, 0x6f, 0x74]] 0x8000
    (fun _ => 0) [] ()).2 (by decide)
  rw [hdir] at hsent
  have hdecode := h _ hsent
  rw [← List.append_nil (request 1 []), decodeRequest_empty] at hdecode
  cases hdecode

/-- **Agreement on a directory.** For every name, either end and whatever else is on the line, the server
decodes the requested name from every request just when the client sends no request. -/
theorem request_agreement_iff (peer : Peer σ) (serverCapabilities : ℕ) (name : List (List UInt8))
    (buf : ℕ) (mem : Mem) (rx : List UInt8) (s : σ) :
    (∀ m ∈ (raspbootinReadDirectory peer serverCapabilities name buf mem ⟨rx, [], s⟩).2.sent,
      decodeRequest host (m ++ rest) = some ([0x2f].intercalate name)) ↔ serverCapabilities &&& 2 = 0 := by
  obtain ⟨hnone, hsome⟩ := mem_sent_readDirectory peer serverCapabilities name buf mem rx s
  constructor
  · intro h
    by_contra hcaps
    have hdecode := h _ (hsome hcaps)
    rcases dirName_cases name with hdir | ⟨hdir, hjoin⟩
    · rw [hdir, decodeRequest_empty] at hdecode
      cases hdecode
    · rw [hdir] at hdecode
      obtain ⟨tail, htail⟩ := decodeRequest_root host rest hdecode
      have hne : name ≠ [] := by
        rintro rfl
        cases hjoin
      rw [joinedName, ← intercalate_concat hne, htail, List.cons_append,
        List.takeWhile_cons_of_pos (by decide)] at hjoin
      exact absurd (List.head_eq_of_cons_eq hjoin) (by decide)
  · intro h
    rw [hnone h]
    exact fun m hm => absurd hm List.not_mem_nil

end RpiBoot
