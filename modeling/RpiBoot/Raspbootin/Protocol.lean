import RpiBoot.Crc32
import RpiBoot.Lib.Bytes

/-!
# The frames of the serial protocol (`raspbootin.h`)

A response is `<magic><length><body><crc>`. The body starts with an error code; the length counts
itself and the body; the checksum is of all that is before it, in the byte order of both ends.

* `frame`: the response with a given body; `crcSuffix`: what the checksum is of, and the checksum.
* `frame_inj`: a frame has one body. `length_frame`: its length.
* **`frame_append_inj`**: no frame is the beginning of another, so the line can be cut into frames.
-/

namespace RpiBoot

open Bytes

def magic : ℕ := 0x27594131

def pathNotFound : ℤ := -1
def crcError : ℤ := -3
def invalidCmd : ℤ := -4
def unsupportedCmd : ℤ := -5
def timeoutError : ℤ := -6
def invalidMagic : ℤ := -7
def unknownError : ℤ := -8

/-- Some bytes and their checksum. -/
def crcSuffix (msg : List UInt8) : List UInt8 := msg ++ toBytes 4 (crc32 msg)

/-- The response with the given body. -/
def frame (body : List UInt8) : List UInt8 :=
  crcSuffix (toBytes 4 magic ++ toBytes 4 (4 + body.length) ++ body)

variable {a b : List UInt8}

theorem length_crcSuffix : (crcSuffix a).length = a.length + 4 := by
  rw [crcSuffix, List.length_append, length_toBytes]

theorem crcSuffix_inj (h : crcSuffix a = crcSuffix b) : a = b :=
  List.append_inj_left' h (by rw [length_toBytes, length_toBytes])

theorem length_frame : (frame a).length = 12 + a.length := by
  rw [frame, length_crcSuffix]
  simp only [List.length_append, length_toBytes]
  omega

/-- A frame has one body. -/
theorem frame_inj (h : frame a = frame b) : a = b :=
  List.append_inj_right (crcSuffix_inj h)
    (by rw [List.length_append, List.length_append, length_toBytes, length_toBytes, length_toBytes])

/-- What is framed with a length field that counts it is that body. -/
theorem crcSuffix_eq_frame_iff {len x : List UInt8} (hlen : len.length = 4) :
    crcSuffix (toBytes 4 magic ++ len ++ x) = frame a ↔ len = toBytes 4 (4 + a.length) ∧ x = a := by
  constructor
  · intro h
    have h := crcSuffix_inj h
    rw [List.append_assoc, List.append_assoc] at h
    have h := List.append_cancel_left h
    exact List.append_inj h (by rw [hlen, length_toBytes])
  · rintro ⟨rfl, rfl⟩
    rfl

/-- **No frame is the beginning of another.** -/
theorem frame_append_inj {x : List UInt8} (ha : 4 + a.length < 2 ^ 32) (hb : 4 + b.length < 2 ^ 32)
    (h : frame a ++ x = frame b) : a = b ∧ x = [] := by
  have hlen : toBytes 4 (4 + a.length) = toBytes 4 (4 + b.length) := by
    have htail := h
    simp only [frame, crcSuffix, List.append_assoc] at htail
    exact (List.append_inj (List.append_cancel_left htail) (by simp only [length_toBytes])).1
  have hlen : 4 + a.length = 4 + b.length := (toBytes_inj_of_lt ha hb).mp hlen
  have hx : x = [] := by
    have hcount := congrArg List.length h
    rw [List.length_append, length_frame, length_frame] at hcount
    exact List.eq_nil_of_length_eq_zero (by omega)
  subst hx
  rw [List.append_nil] at h
  exact ⟨frame_inj h, rfl⟩

end RpiBoot
