import RpiBoot.Cstring
import RpiBoot.Fat.Directory

/-!
# Short names

A directory entry has a name of eleven characters: eight and an extension of three, both padded with blanks.

* `fatNameChars`: what the loop of `fat_read_dir` writes to the buffer of a name.
* `fatNameChars_eq`: the two parts without their blanks, a dot between them, and no capitals.
* `ShortName`: a name and its extension; `ShortName.field` pads them.
* **`fat_short_names`**: the names of entries, and how far they tell entries apart.
-/

namespace RpiBoot

open Store

/-- The characters that the loop of `fat_read_dir` writes for the name at `ptr`, and `has_ext`. -/
def fatNameChars (buf : Mem) (ptr : ℕ) : List UInt8 × Bool :=
  (List.range 11).foldl (fatNameStep buf ptr) ([], false)

/-- A part of a name as it is written. -/
def fatPart (l : List UInt8) : List UInt8 := strlwr (l.filter (· != 0x20))

/-! ## The loop -/

section Loop

variable {buf : Mem} {ptr : ℕ}

theorem fatNameStep_eq (st : List UInt8 × Bool) (i : ℕ) : fatNameStep buf ptr st i =
    ((if i = 8 then st.1 ++ [0x2e] else st.1) ++ fatPart [buf (ptr + i)],
      st.2 || (decide (8 ≤ i) && buf (ptr + i) != 0x20)) := by
  rw [fatNameStep]
  by_cases hc : buf (ptr + i) = 0x20
  · rw [if_pos hc, hc]
    simp [fatPart, strlwr]
  · have hlow : (if buf (ptr + i) ≥ 0x41 ∧ buf (ptr + i) ≤ 0x5a then 0x61 + buf (ptr + i) - 0x41
        else buf (ptr + i)) = tolower (buf (ptr + i)) := by
      rw [tolower, UInt8.sub_eq_add_neg, UInt8.sub_eq_add_neg, UInt8.add_assoc]
    rw [if_neg hc, hlow]
    by_cases h8 : 8 ≤ i
    · simp [fatPart, strlwr, hc, h8]
    · simp [fatPart, strlwr, hc, h8]

theorem fatPart_cons (c : UInt8) (l : List UInt8) : fatPart (c :: l) = fatPart [c] ++ fatPart l := by
  rw [fatPart, fatPart, fatPart, strlwr, strlwr, strlwr, ← List.map_append, ← List.filter_append]
  rfl

/-- Characters on one side of the dot. -/
theorem fatNameStep_foldl : ∀ (n a : ℕ) (st : List UInt8 × Bool), a + n ≤ 8 ∨ 8 < a →
    (List.range' a n).foldl (fatNameStep buf ptr) st =
      (st.1 ++ fatPart (slice buf (ptr + a) n),
        st.2 || (decide (8 < a) && (slice buf (ptr + a) n).any (· != 0x20)))
  | 0, a, st, _ => by simp [fatPart, strlwr]
  | n + 1, a, st, h => by
    have hside : decide (8 < a + 1) = decide (8 < a) := by
      rw [decide_eq_decide]
      omega
    have hside' : decide (8 ≤ a) = decide (8 < a) := by
      rw [decide_eq_decide]
      omega
    rw [List.range'_succ, List.foldl_cons, fatNameStep_eq, if_neg (by omega), hside',
      fatNameStep_foldl n (a + 1) _ (by omega), slice_succ, fatPart_cons (buf (ptr + a)) (slice _ _ _),
      List.any_cons, hside,
      ← Nat.add_assoc, List.append_assoc, Bool.or_assoc, Bool.and_or_distrib_left]

/-- **What the loop writes.** -/
theorem fatNameChars_eq (buf : Mem) (ptr : ℕ) : fatNameChars buf ptr =
    (fatPart (slice buf ptr 8) ++ 0x2e :: fatPart (slice buf (ptr + 8) 3),
      (slice buf (ptr + 8) 3).any (· != 0x20)) := by
  have hrange : List.range 11 = List.range' 0 8 ++ 8 :: List.range' 9 2 := rfl
  have hext : slice buf (ptr + 8) 3 = buf (ptr + 8) :: slice buf (ptr + 9) 2 := slice_succ ..
  rw [fatNameChars, hrange, List.foldl_append, List.foldl_cons, fatNameStep_foldl 8 0 _ (by omega),
    fatNameStep_eq, if_pos rfl, fatNameStep_foldl 2 9 _ (by omega), hext, fatPart_cons _ (slice _ _ _)]
  simp

end Loop

/-! ## Names and extensions -/

/-- A name and an extension for the field of a directory entry. -/
structure ShortName where
  base : List UInt8
  ext : List UInt8
  base_ne : base ≠ []
  base_le : base.length ≤ 8
  ext_le : ext.length ≤ 3
  blank_notMem : 0x20 ∉ base ++ ext
  zero_notMem : 0 ∉ base ++ ext

namespace ShortName

/-- `l` with blanks up to `n` characters. -/
def pad (n : ℕ) (l : List UInt8) : List UInt8 := l ++ List.replicate (n - l.length) 0x20

/-- The field. -/
def field (f : ShortName) : List UInt8 := pad 8 f.base ++ pad 3 f.ext

/-- The name of the file. -/
def name (f : ShortName) : List UInt8 :=
  strlwr f.base ++ if f.ext = [] then [] else 0x2e :: strlwr f.ext

/-- The entry at `ptr` has the field. -/
def At (f : ShortName) (buf : Mem) (ptr : ℕ) : Prop := slice buf ptr 11 = f.field

theorem length_pad {n : ℕ} {l : List UInt8} (h : l.length ≤ n) : (pad n l).length = n := by
  rw [pad, List.length_append, List.length_replicate]
  omega

theorem fatPart_pad {n : ℕ} {l : List UInt8} (h : 0x20 ∉ l) : fatPart (pad n l) = strlwr l := by
  have hl : l.filter (· != 0x20) = l := by
    refine List.filter_eq_self.mpr fun c hc => ?_
    rw [bne_iff_ne]
    rintro rfl
    exact h hc
  have hblank : (List.replicate (n - l.length) (0x20 : UInt8)).filter (· != 0x20) = [] := by
    rw [List.filter_replicate]
    exact if_neg Bool.false_ne_true
  rw [fatPart, pad, List.filter_append, hl, hblank, List.append_nil]

theorem any_pad {n : ℕ} {l : List UInt8} (h : 0x20 ∉ l) :
    (pad n l).any (· != 0x20) = decide (l ≠ []) := by
  cases l with
  | nil => simp [pad]
  | cons c l =>
    have hc : c ≠ 0x20 := fun he => h (he ▸ List.mem_cons_self)
    simp [pad, hc]

/-- Blanks are not changed by taking small letters. -/
theorem strlwr_pad (n : ℕ) (l : List UInt8) : strlwr (pad n l) = pad n (strlwr l) := by
  rw [pad, pad, strlwr, strlwr, List.map_append, List.map_replicate, List.length_map]
  rfl

end ShortName

theorem tolower_eq_iff {c d : UInt8} (h : d < 0x41) : tolower c = d ↔ c = d := by
  have hd := UInt8.lt_iff_toNat_lt.mp h
  unfold tolower
  split_ifs with hc
  · have h₁ := UInt8.le_iff_toNat_le.mp hc.1
    have h₂ := UInt8.le_iff_toNat_le.mp hc.2
    have hnat : (0x61 + (c - 0x41)).toNat = (97 + (c.toNat - 65)) % 256 := by
      rw [UInt8.toNat_add, UInt8.toNat_sub_of_le _ _ hc.1]
      rfl
    change d.toNat < 65 at hd
    change 65 ≤ c.toNat at h₁
    change c.toNat ≤ 90 at h₂
    refine iff_of_false (fun he => ?_) fun he => ?_
    · rw [he] at hnat
      omega
    · rw [he] at h₁
      omega
  · rfl

theorem notMem_strlwr_iff {c : UInt8} (h : c < 0x41) {l : List UInt8} : c ∉ strlwr l ↔ c ∉ l := by
  refine not_congr ?_
  rw [strlwr, List.mem_map]
  constructor
  · rintro ⟨d, hd, he⟩
    rwa [← (tolower_eq_iff h).mp he]
  · exact fun hc => ⟨c, hc, (tolower_eq_iff h).mpr rfl⟩

variable {f g : ShortName} {buf buf' : Mem} {ptr ptr' : ℕ}

namespace ShortName

theorem zero_notMem_name (f : ShortName) : 0 ∉ f.name := by
  have hzero := f.zero_notMem
  rw [List.mem_append, not_or] at hzero
  have hbase : 0 ∉ strlwr f.base := (notMem_strlwr_iff (by decide)).mpr hzero.1
  have hext : 0 ∉ strlwr f.ext := (notMem_strlwr_iff (by decide)).mpr hzero.2
  rw [name, List.mem_append, not_or]
  refine ⟨hbase, ?_⟩
  split_ifs
  · exact List.not_mem_nil
  · rw [List.mem_cons, not_or]
    exact ⟨by decide, hext⟩

theorem At.parts (h : f.At buf ptr) :
    slice buf ptr 8 = pad 8 f.base ∧ slice buf (ptr + 8) 3 = pad 3 f.ext := by
  rw [At, field, show 11 = 8 + 3 from rfl, slice_add] at h
  exact List.append_inj h (by rw [length_slice, length_pad f.base_le])

/-- What is written for a name: without an extension, the dot stands at the end. -/
theorem At.chars (h : f.At buf ptr) : fatNameChars buf ptr =
    (strlwr f.base ++ 0x2e :: strlwr f.ext, decide (f.ext ≠ [])) := by
  have hblank := f.blank_notMem
  rw [List.mem_append, not_or] at hblank
  rw [fatNameChars_eq, h.parts.1, h.parts.2, fatPart_pad hblank.1, fatPart_pad hblank.2, any_pad hblank.2]

theorem At.fatName_eq (h : f.At buf ptr) : fatName buf ptr = f.name := by
  have hname : (if !(fatNameChars buf ptr).2 then (fatNameChars buf ptr).1.dropLast
      else (fatNameChars buf ptr).1) = f.name := by
    rw [h.chars, name]
    by_cases hext : f.ext = []
    · rw [hext]
      simp [strlwr]
    · simp [hext]
  have hzero : f.name.takeWhile (· != 0) = f.name := by
    refine List.takeWhile_eq_self_iff.mpr fun c hc => ?_
    rw [bne_iff_ne]
    rintro rfl
    exact f.zero_notMem_name hc
  calc fatName buf ptr
      = (if !(fatNameChars buf ptr).2 then (fatNameChars buf ptr).1.dropLast
          else (fatNameChars buf ptr).1).takeWhile (· != 0) := rfl
    _ = f.name := by rw [hname, hzero]

/-- The last character that is written is the end of the string. -/
theorem At.length_chars (h : f.At buf ptr) : (fatNameChars buf ptr).1.length + 1 ≤ 13 := by
  have hbase := f.base_le
  have hext := f.ext_le
  rw [h.chars, List.length_append, List.length_cons, strlwr, strlwr, List.length_map, List.length_map]
  omega

/-- The base is what comes before the dot. -/
theorem takeWhile_name (hdot : 0x2e ∉ f.base) : f.name.takeWhile (· != 0x2e) = strlwr f.base := by
  have hbase : ∀ c ∈ strlwr f.base, (c != 0x2e) = true := by
    intro c hc
    rw [bne_iff_ne]
    rintro rfl
    exact (notMem_strlwr_iff (by decide)).mpr hdot hc
  rw [name, List.takeWhile_append_of_pos hbase]
  split_ifs
  · exact List.append_nil _
  · rw [List.takeWhile_cons_of_neg (by decide), List.append_nil]

/-- **Names without further dots** tell base and extension. -/
theorem name_inj (hf : 0x2e ∉ f.base) (hg : 0x2e ∉ g.base) (h : f.name = g.name) :
    strlwr f.base = strlwr g.base ∧ strlwr f.ext = strlwr g.ext := by
  have hbase : strlwr f.base = strlwr g.base := by
    rw [← takeWhile_name hf, ← takeWhile_name hg, h]
  rw [name, name, hbase, List.append_cancel_left_eq] at h
  refine ⟨hbase, ?_⟩
  split_ifs at h with hfe hge hge
  · rw [hfe, hge]
  · exact List.cons.inj h |>.2

end ShortName

/-- **Short names.** An entry with a name and an extension, of which the latter may be empty, gets the name
in small letters, with a dot in front of the extension if there is one. It fits the buffer of 13 characters.
Where the fields have no dots, entries with equal names have equal fields, up to the case of letters. -/
theorem fat_short_names (h : f.At buf ptr) :
    fatName buf ptr = f.name ∧ (fatNameChars buf ptr).1.length + 1 ≤ 13 ∧ f.name.length + 1 ≤ 13 ∧
      ∀ (g : ShortName) (buf' : Mem) (ptr' : ℕ), g.At buf' ptr' → 0x2e ∉ f.field → 0x2e ∉ g.field →
        fatName buf ptr = fatName buf' ptr' → strlwr f.field = strlwr g.field := by
  have hlen : f.name.length ≤ (fatNameChars buf ptr).1.length := by
    rw [h.chars, ShortName.name]
    split_ifs
    · rw [List.append_nil, List.length_append]
      exact Nat.le_add_right ..
    · exact le_rfl
  refine ⟨h.fatName_eq, h.length_chars, (Nat.succ_le_succ hlen).trans h.length_chars, ?_⟩
  intro g buf' ptr' hg hfdot hgdot heq
  have hbase : ∀ f : ShortName, 0x2e ∉ f.field → 0x2e ∉ f.base := by
    intro f hdot hmem
    exact hdot (List.mem_append_left _ (List.mem_append_left _ hmem))
  rw [h.fatName_eq, hg.fatName_eq] at heq
  obtain ⟨hb, he⟩ := ShortName.name_inj (hbase f hfdot) (hbase g hgdot) heq
  calc strlwr f.field
      = strlwr (ShortName.pad 8 f.base) ++ strlwr (ShortName.pad 3 f.ext) := List.map_append ..
    _ = strlwr (ShortName.pad 8 g.base) ++ strlwr (ShortName.pad 3 g.ext) := by
        rw [ShortName.strlwr_pad, ShortName.strlwr_pad, hb, he, ← ShortName.strlwr_pad,
          ← ShortName.strlwr_pad]
    _ = strlwr g.field := (List.map_append ..).symm

/-- `KERNEL.IM`. -/
def kernelName : ShortName where
  base := [0x4b, 0x45, 0x52, 0x4e, 0x45, 0x4c]
  ext := [0x49, 0x4d]
  base_ne := List.cons_ne_nil _ _
  base_le := Nat.le_of_ble_eq_true rfl
  ext_le := Nat.le_of_ble_eq_true rfl
  blank_notMem := of_decide_eq_true rfl
  zero_notMem := of_decide_eq_true rfl

theorem fat_short_names_kernel : kernelName.At (patch (fun _ => 0) 0 kernelName.field) 0 ∧
    fatName (patch (fun _ => 0) 0 kernelName.field) 0 =
      [0x6b, 0x65, 0x72, 0x6e, 0x65, 0x6c, 0x2e, 0x69, 0x6d] := by
  have h : kernelName.At (patch (fun _ => 0) 0 kernelName.field) 0 := slice_patch ..
  exact ⟨h, (fat_short_names h).1⟩

end RpiBoot
