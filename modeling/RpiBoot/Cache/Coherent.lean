import RpiBoot.Block.Healthy
import RpiBoot.Cache.Model
import RpiBoot.Lib.Run

/-!
# Coherence of the block cache

The parent is a device that never fails (`Serves`). The invariant `Coherent` ties every valid line
to a block of the parent.

* `cacheRead_serves`, `cacheWrite_serves`: the two driver functions keep the invariant, and answer
  as the parent would.
* **`cache_coherent`**: a run on the cached device has the replies and the final contents of the
  same run on the parent.
-/

namespace RpiBoot

open Store Runs

variable {σ : Type}

/-- The slot of block `t` is valid: it holds the tag `t`, which is not the empty marker. -/
def ValidTag (cd : CacheDev σ) (tags : ℕ → ℕ) (t : ℕ) : Prop :=
  t < emptySlot ∧ tags (cacheIdx cd t) = t

/-- The bytes of the slot of block `t`. -/
def line (cd : CacheDev σ) (lines : Mem) (t : ℕ) : List UInt8 :=
  slice lines (cd.parent.blockSize * cacheIdx cd t) cd.parent.blockSize

/-- The bytes of block `t` of a device. -/
def blockOf (bs : ℕ) (content : Mem) (t : ℕ) : List UInt8 := slice content (t * bs) bs

/-- Every valid line equals the parent's block. -/
def Agrees (cd : CacheDev σ) (content : σ → Mem) (st : CacheState σ) : Prop :=
  ∀ t, ValidTag cd st.cachedBlocks t →
    line cd st.lines t = blockOf cd.parent.blockSize (content st.parent) t

/-- The cache agrees with the parent, and its valid lines are whole blocks. -/
structure Coherent (cd : CacheDev σ) (inv : σ → Prop) (content : σ → Mem) (cap : ℕ)
    (st : CacheState σ) : Prop where
  parent_inv : inv st.parent
  whole : ∀ t, ValidTag cd st.cachedBlocks t →
    t * cd.parent.blockSize + cd.parent.blockSize ≤ cap
  line_eq : Agrees cd content st

variable {cd : CacheDev σ} {inv : σ → Prop} {content : σ → Mem} {cap : ℕ} {st : CacheState σ}

/-- A new cache holds no valid line. -/
theorem coherent_init {parent : BlockDevice σ} {s : σ} {mem : Mem} {start length : ℕ}
    (content : σ → Mem) (cap : ℕ) (hs : inv s)
    (h : cacheInit parent s mem start length = some (cd, st)) :
    cd.parent = parent ∧ st.parent = s ∧ Coherent cd inv content cap st := by
  simp only [cacheInit] at h
  split_ifs at h
  obtain ⟨rfl, rfl⟩ := Prod.ext_iff.mp (Option.some.inj h)
  have hno : ∀ (cd : CacheDev σ) t, ¬ ValidTag cd (fun _ => emptySlot) t := fun _ t ht =>
    absurd ht.2 (Nat.ne_of_gt ht.1)
  exact ⟨rfl, rfl, hs, fun t ht => absurd ht (hno _ t), fun t ht => absurd ht (hno _ t)⟩

/-! ## `cache_read` -/

/-- A valid tag after the slot of block `b` has been retagged for `b` or emptied. -/
theorem validTag_retag {tags : ℕ → ℕ} {b t : ℕ} {p : Prop} [Decidable p]
    (h : ValidTag cd (Function.update tags (cacheIdx cd b) (if p then b else emptySlot)) t) :
    (t = b ∧ p) ∨ (cacheIdx cd t ≠ cacheIdx cd b ∧ ValidTag cd tags t) := by
  obtain ⟨hlt, ht⟩ := h
  by_cases hi : cacheIdx cd t = cacheIdx cd b
  · rw [hi, Function.update_self] at ht
    split_ifs at ht with hp
    · exact Or.inl ⟨ht.symm, hp⟩
    · exact absurd ht.symm (Nat.ne_of_lt hlt)
  · rw [Function.update_of_ne hi] at ht
    exact Or.inr ⟨hi, hlt, ht⟩

/-- Storing at most a block in slot `cacheIdx cd b` leaves the lines of the other slots. -/
theorem line_patch_of_ne {lines : Mem} {b t : ℕ} {data : List UInt8}
    (hi : cacheIdx cd t ≠ cacheIdx cd b) (hd : data.length ≤ cd.parent.blockSize) :
    line cd (patch lines (cd.parent.blockSize * cacheIdx cd b) data) t = line cd lines t := by
  have := line_disjoint cd hi
  exact slice_patch_of_disjoint (by omega)

/-- **`cache_read` answers as the parent would.** -/
theorem cacheRead_serves {rd : ReadFn σ}
    (hrd : ∀ s buf n b, inv s → served cd.parent.blockSize cap n b < 2 ^ 31 →
      ∃ data s', rd s buf n b = (⟨served cd.parent.blockSize cap n b, data⟩, s') ∧
        data.length ≤ n ∧ data.take (served cd.parent.blockSize cap n b) =
          slice (content s) (b * cd.parent.blockSize) (served cd.parent.blockSize cap n b) ∧
        inv s' ∧ content s' = content s)
    (hst : Coherent cd inv content cap st) (buf : ℕ) {n b : ℕ} (hb : b < emptySlot)
    (hn : served cd.parent.blockSize cap n b < 2 ^ 31) :
    ∃ data st', cacheRead cd rd st buf n b = (⟨served cd.parent.blockSize cap n b, data⟩, st') ∧
      data.take (served cd.parent.blockSize cap n b) = slice (content st.parent)
        (b * cd.parent.blockSize) (served cd.parent.blockSize cap n b) ∧
      Coherent cd inv content cap st' ∧ content st'.parent = content st.parent := by
  have hbs := cd.parent.blockSize_lt
  rcases Nat.lt_or_ge cd.parent.blockSize n with hlen | hlen
  · -- a multi-block request passes through
    obtain ⟨data, s', hr, -, htake, hi, hc⟩ := hrd st.parent buf n b hst.parent_inv hn
    rw [cacheRead_of_gt hlen, hr]
    exact ⟨data, { st with parent := s' }, rfl, htake,
      ⟨hi, hst.whole, fun t ht => by rw [hst.line_eq t ht, hc]⟩, hc⟩
  by_cases hmiss : st.cachedBlocks (cacheIdx cd b) = b
  · have hw := hst.whole b ⟨hb, hmiss⟩
    have hsv : served cd.parent.blockSize cap n b = n := by unfold served; omega
    rw [cacheRead_hit hlen hmiss, hsv, i32_of_lt (by omega)]
    refine ⟨_, st, rfl, ?_, hst, rfl⟩
    have hline := congrArg (List.take n) (hst.line_eq b ⟨hb, hmiss⟩)
    rw [line, blockOf, take_slice, take_slice, min_eq_left (by omega)] at hline
    rw [take_slice, min_eq_left (le_copyCount _ _ _), hline]
  · obtain ⟨data, s', hr, hdl, htake, hi, hc⟩ := hrd st.parent
      (cd.cacheStart + cd.parent.blockSize * cacheIdx cd b) n b hst.parent_inv hn
    have hlen' : served cd.parent.blockSize cap n b ≤ data.length := by
      have := congrArg List.length htake
      rw [List.length_take, length_slice] at this
      omega
    rw [cacheRead_miss hlen hmiss hr, toU32_natCast (by omega), i32_of_lt hn, i32_of_lt hbs]
    refine ⟨_, _, rfl, ?_, ⟨hi, fun t ht => ?_, fun t ht => ?_⟩, hc⟩
    · rw [take_slice, min_eq_left (le_copyCount _ _ _),
        slice_patch_of_subset le_rfl (by omega), Nat.sub_self, List.drop_zero, htake]
    · rcases validTag_retag ht with ⟨rfl, hw⟩ | ⟨-, ht⟩
      · have hbs₀ := cd.parent.blockSize_pos
        unfold served at hw
        omega
      · exact hst.whole t ht
    · rcases validTag_retag ht with ⟨rfl, hw⟩ | ⟨hne, ht⟩
      · rw [Nat.cast_inj] at hw
        rw [hw] at htake hlen'
        rw [line, slice_patch_of_subset le_rfl (by omega), Nat.sub_self, List.drop_zero, htake, hc,
          blockOf]
      · rw [line_patch_of_ne hne (by omega), hst.line_eq t ht, hc]

/-! ## `cache_write` -/

/-- Blocks that a write of `n` bytes at block `b` covers, and blocks it does not touch. -/
theorem blockOf_patch {bs b t n : ℕ} {c mem : Mem} {buf : ℕ} (hbs : 0 < bs) (htb : b ≤ t)
    (h : (t - b) * bs + bs ≤ n) :
    blockOf bs (patch c (b * bs) (slice mem buf n)) t = slice mem (buf + (t - b) * bs) bs := by
  obtain ⟨i, rfl⟩ : ∃ i, t = b + i := ⟨t - b, by omega⟩
  rw [Nat.add_sub_cancel_left] at h ⊢
  rw [blockOf, slice_patch_of_subset (Nat.mul_le_mul_right _ htb)
    (by rw [length_slice, Nat.add_mul]; omega), Nat.add_mul, Nat.add_sub_cancel_left, drop_slice,
    take_slice, min_eq_left (by omega)]

theorem blockOf_patch_of_disjoint {bs b t n : ℕ} {c : Mem} {l : List UInt8} (hl : l.length = n)
    (h : t * bs + bs ≤ b * bs ∨ b * bs + n ≤ t * bs) :
    blockOf bs (patch c (b * bs) l) t = blockOf bs c t :=
  slice_patch_of_disjoint (by omega)

/-- **`cache_write` answers as the parent would.** -/
theorem cacheWrite_serves {wr : WriteFn σ} (hcap : cap ≤ 2 ^ 32 * cd.parent.blockSize)
    (hwr : ∀ s mem buf n b, inv s → served cd.parent.blockSize cap n b < 2 ^ 31 →
      ∃ r s', wr s mem buf n b = (⟨served cd.parent.blockSize cap n b, r⟩, s') ∧ inv s' ∧
        content s' = patch (content s) (b * cd.parent.blockSize)
          (slice mem buf (served cd.parent.blockSize cap n b)))
    (hst : Coherent cd inv content cap st) (mem : Mem) (buf : ℕ) {n b : ℕ}
    (hn : served cd.parent.blockSize cap n b < 2 ^ 31) (hwhole : n % cd.parent.blockSize = 0) :
    ∃ r st', cacheWrite cd wr st mem buf n b = (⟨served cd.parent.blockSize cap n b, r⟩, st') ∧
      Coherent cd inv content cap st' ∧ content st'.parent = patch (content st.parent)
        (b * cd.parent.blockSize) (slice mem buf (served cd.parent.blockSize cap n b)) := by
  have hbs := cd.parent.blockSize_pos
  obtain ⟨r, s', hr, hi, hc⟩ := hwr st.parent mem buf n b hst.parent_inv hn
  set sv := served cd.parent.blockSize cap n b with hsv
  have hcount : (i32 (sv / cd.parent.blockSize)).toNat = sv / cd.parent.blockSize := by
    rw [i32_of_lt ((Nat.div_le_self _ _).trans_lt hn), Int.toNat_natCast]
  unfold cacheWrite
  simp only [hwhole, ne_eq, not_true, if_false, hr, toU32_natCast (show sv < 2 ^ 32 by omega),
    i32_of_lt hn, hcount]
  refine ⟨_, _, rfl, ⟨hi, hst.whole, fun t (ht : ValidTag cd st.cachedBlocks t) => ?_⟩, hc⟩
  -- the blocks that are written carry numbers below `2 ^ 32`
  have hnowrap : ∀ i < sv / cd.parent.blockSize, u32 (b + i) = b + i := by
    intro i hi
    have h₁ : (i + 1) * cd.parent.blockSize ≤ sv := (Nat.le_div_iff_mul_le hbs).mp hi
    have h₂ : (b + i) * cd.parent.blockSize < 2 ^ 32 * cd.parent.blockSize := by
      have : sv ≤ cap - b * cd.parent.blockSize := min_le_right _ _
      rw [Nat.add_mul] at *
      omega
    exact u32_of_lt (Nat.lt_of_mul_lt_mul_right h₂)
  by_cases hin : b ≤ t ∧ t - b < sv / cd.parent.blockSize
  · have hidx : cacheIdx cd (u32 (b + (t - b))) = cacheIdx cd t := by
      rw [hnowrap _ hin.2, Nat.add_sub_cancel' hin.1]
    have hle : (t - b + 1) * cd.parent.blockSize ≤ sv := (Nat.le_div_iff_mul_le hbs).mp hin.2
    have hcnt : sv / cd.parent.blockSize ≤ 2 ^ 32 := (Nat.div_le_self _ _).trans (by omega)
    rw [line, cacheUpdate_line_of_hit hidx (by rw [ht.2, hnowrap _ hin.2, Nat.add_sub_cancel' hin.1])
      _ hcnt hin.2, hc, blockOf_patch hbs hin.1 (by rw [Nat.add_mul] at hle; omega)]
  · have hmiss : ∀ i < sv / cd.parent.blockSize, st.cachedBlocks (cacheIdx cd t) = u32 (b + i) →
        cacheIdx cd (u32 (b + i)) ≠ cacheIdx cd t := by
      intro i hi he
      rw [ht.2, hnowrap i hi] at he
      omega
    rw [line, cacheUpdate_line_of_miss _ hmiss, ← line, hst.line_eq t ht, hc,
      blockOf_patch_of_disjoint (length_slice _ _ _)]
    rcases Nat.lt_or_ge t b with htb | htb
    · left
      rw [← Nat.succ_mul]
      exact Nat.mul_le_mul_right _ htb
    · -- a block past the last whole one is not a whole block of the device
      right
      obtain ⟨i, rfl⟩ : ∃ i, t = b + i := ⟨t - b, by omega⟩
      have hge : sv < (i + 1) * cd.parent.blockSize := by
        by_contra hle
        exact hin ⟨htb, by
          rw [Nat.add_sub_cancel_left]; exact (Nat.le_div_iff_mul_le hbs).mpr (not_lt.mp hle)⟩
      have hw := hst.whole (b + i) ht
      obtain ⟨m, rfl⟩ : ∃ m, n = cd.parent.blockSize * m :=
        ⟨n / cd.parent.blockSize, (Nat.mul_div_cancel' (Nat.dvd_of_mod_eq_zero hwhole)).symm⟩
      have hsn : sv = cd.parent.blockSize * m := by
        rw [hsv, served, min_eq_left_iff]
        by_contra hlt
        rw [hsv, served, min_eq_right (by omega)] at hge
        rw [Nat.add_mul] at hw hge
        omega
      rw [hsn, Nat.mul_comm] at hge
      have hmi : m ≤ i := Nat.lt_succ_iff.mp (Nat.lt_of_mul_lt_mul_right hge)
      rw [hsn, Nat.add_mul, Nat.mul_comm _ m]
      exact Nat.add_le_add_left (Nat.mul_le_mul_right _ hmi) _

/-! ## Runs -/

/-- A call of a driver function. -/
inductive DevCall where
  | read (buf bufSize blockNum : ℕ)
  | write (mem : Mem) (buf bufSize blockNum : ℕ)

/-- What the caller sees of a call: the result, and the bytes counted by it. -/
inductive DevReply where
  | read (ret : ℤ) (bytes : List UInt8)
  | write (ret : ℤ)
deriving DecidableEq

/-- One call, with the replies so far. -/
def devStep (dev : BlockDevice σ) (st : σ × List DevReply) : DevCall → Option (σ × List DevReply)
  | .read buf n b => dev.read.map fun rd =>
    let r := rd st.1 buf n b
    (r.2, st.2 ++ [.read r.1.ret (r.1.data.take r.1.ret.toNat)])
  | .write mem buf n b => dev.write.map fun wr =>
    let r := wr st.1 mem buf n b
    (r.2, st.2 ++ [.write r.1.ret])

/-- A call for a block other than the empty marker whose count fits an `int`; writes are of whole
blocks. -/
def DevCall.Legal (bs cap : ℕ) : DevCall → Prop
  | .read _ n b => b < emptySlot ∧ 0 < n ∧ served bs cap n b < 2 ^ 31
  | .write _ _ n b => b < emptySlot ∧ 0 < n ∧ served bs cap n b < 2 ^ 31 ∧ n % bs = 0

/-- The cached device and its parent are in step. -/
def InStep (cd : CacheDev σ) (inv : σ → Prop) (content : σ → Mem) (cap : ℕ)
    (st : CacheState σ × List DevReply) (s : σ × List DevReply) : Prop :=
  Coherent cd inv content cap st.1 ∧ inv s.1 ∧ content st.1.parent = content s.1 ∧ st.2 = s.2

theorem inStep_step (h : Serves cd.parent inv content cap) (st : CacheState σ × List DevReply)
    (s : σ × List DevReply) (o : DevCall) (hi : InStep cd inv content cap st s)
    (ho : o.Legal cd.parent.blockSize cap) :
    ∃ st' s', devStep (cacheDevice cd) st o = some st' ∧ devStep cd.parent s o = some s' ∧
      InStep cd inv content cap st' s' := by
  obtain ⟨hst, hs, hc, hrep⟩ := hi
  cases o with
  | read buf n b =>
    obtain ⟨hb, -, hn⟩ := ho
    obtain ⟨rd, hrd, hlaw⟩ := h.exists_read
    obtain ⟨data, st', hr, htake, hst', hc'⟩ := cacheRead_serves hlaw hst buf hb hn
    obtain ⟨data', s', hr', -, htake', hs', hcs'⟩ := hlaw s.1 buf n b hs hn
    simp only [devStep, cacheDevice, hrd, Option.map_some, hr, hr', Int.toNat_natCast]
    refine ⟨_, _, rfl, rfl, hst', hs', by rw [hc', hc, hcs'], ?_⟩
    rw [hrep, htake, htake', hc]
  | write mem buf n b =>
    obtain ⟨-, -, hn, hwhole⟩ := ho
    obtain ⟨wr, hwr, hlaw⟩ := h.exists_write
    obtain ⟨r, st', hr, hst', hc'⟩ := cacheWrite_serves h.cap_le hlaw hst mem buf hn hwhole
    obtain ⟨r', s', hr', hs', hcs'⟩ := hlaw s.1 mem buf n b hs hn
    simp only [devStep, cacheDevice, hwr, Option.map_some, hr, hr']
    exact ⟨_, _, rfl, rfl, hst', hs', by rw [hc', hc, hcs'], by rw [hrep]⟩

/-- **The cache is coherent.** Any run of calls on a device made by `cache_init` has the replies of
the same run on the parent, and leaves the parent with the same contents. -/
theorem cache_coherent {parent : BlockDevice σ} {s : σ} {mem : Mem} {start length : ℕ}
    (h : Serves parent inv content cap) (hs : inv s)
    (hinit : cacheInit parent s mem start length = some (cd, st)) (calls : List DevCall)
    (hlegal : ∀ o ∈ calls, o.Legal parent.blockSize cap) :
    ∃ st' s' replies, run (devStep (cacheDevice cd)) (st, []) calls = some (st', replies) ∧
      run (devStep parent) (s, []) calls = some (s', replies) ∧
      content st'.parent = content s' := by
  obtain ⟨rfl, rfl, hst⟩ := coherent_init content cap hs hinit
  have hR : InStep cd inv content cap (st, []) (st.parent, []) := ⟨hst, hs, rfl, rfl⟩
  obtain ⟨st', s', hrun, hrun', -, -, hc, hrep⟩ := run_rel (inStep_step h) hR
    (along_of_forall hlegal _)
  exact ⟨st'.1, s'.1, s'.2, by rw [hrun, ← hrep], hrun', hc⟩

/-- A read, a write of two blocks and a partial read, through a cache of two lines. -/
theorem cache_coherent_storeDevice : ∃ cd st,
    cacheInit (storeDevice 8) (fun _ => 0) (fun _ => 0) 0x2000000 1024 = some (cd, st) ∧
    ∃ st' s' replies, run (devStep (cacheDevice cd)) (st, [])
        [.read 0 512 3, .write (fun _ => 7) 0 1024 2, .read 0 100 3] = some (st', replies) ∧
      run (devStep (storeDevice 8)) (fun _ => 0, [])
        [.read 0 512 3, .write (fun _ => 7) 0 1024 2, .read 0 100 3] = some (s', replies) ∧
      st'.parent = s' := by
  obtain ⟨cd, st, h⟩ : ∃ cd st, cacheInit (storeDevice 8) (fun _ => 0) (fun _ => 0) 0x2000000 1024 =
    some (cd, st) := ⟨_, _, rfl⟩
  exact ⟨cd, st, h, cache_coherent (storeDevice_serves (by decide)) trivial h _
    (by simp [DevCall.Legal, storeDevice, served, emptySlot])⟩

end RpiBoot
