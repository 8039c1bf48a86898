import RpiBoot.Multiboot.Contents

/-!
# The search for the Multiboot header

The search goes over every word that has been read. The two words behind the magic, and the structure
that is copied, may lie behind the bytes that have been read, and behind the buffer.

* `HeaderAt`: a header that lies in the first bytes of a file. `FirstHeader`: the first of them.
* `searchRanges`: what the search looks at and copies, with `findHeader_congr`: it depends on nothing
  else.
* `findHeader_eq_some_iff`, `mem_searchRanges_iff`: what it finds, and what it comes to.
* **`header_search_iff`**: it finds the first header, and stays in the bytes that have been read, just
  when there is a header or no magic word towards the end looks like the start of one.
-/

namespace RpiBoot

open Store Bytes

variable {σ : Type}

/-- The magic and the checksum of a header are right. -/
def Accepts (mem : Mem) (a : ℕ) : Prop :=
  le32 mem a = multibootHeaderMagic ∧ u32 (le32 mem a + le32 mem (a + 4) + le32 mem (a + 8)) = 0

instance (mem : Mem) (a : ℕ) : Decidable (Accepts mem a) := by
  unfold Accepts; infer_instance

def sizeofMultibootHeader : ℕ := 32

/-- The bytes of a file, as a store. -/
def fileMem (data : List UInt8) : Mem := fun i => data.getD i 0

/-- A header of a file at `o`, within the first `n` bytes. -/
structure HeaderAt (data : List UInt8) (n o : ℕ) : Prop where
  aligned : 4 ∣ o
  within : o + sizeofMultibootHeader ≤ n
  accepts : Accepts (fileMem data) o

/-- The first header within the first `n` bytes. -/
def FirstHeader (data : List UInt8) (n o : ℕ) : Prop :=
  HeaderAt data n o ∧ ∀ o' < o, ¬ HeaderAt data n o'

/-- The ranges that the search looks at or copies, by address and length. -/
def searchRanges (first8k : Mem) : ℕ → ℕ → List (ℕ × ℕ)
  | 0, _ => []
  | k + 1, i =>
    let a := 4 * i
    (a, 4) :: if le32 first8k a = multibootHeaderMagic then
        (a + 4, 4) :: (a + 8, 4) :: if Accepts first8k a then [(a, sizeofMultibootHeader)]
          else searchRanges first8k k (i + 1)
      else searchRanges first8k k (i + 1)

/-! ## The search -/

theorem findHeader_succ (mem : Mem) (k i : ℕ) :
    findHeader mem (k + 1) i = if Accepts mem (4 * i) then some (4 * i) else findHeader mem k (i + 1) := rfl

/-- The search comes to word `j`: none of the words before it is accepted. -/
def Reached (mem : Mem) (i j : ℕ) : Prop := i ≤ j ∧ ∀ m, i ≤ m → m < j → ¬ Accepts mem (4 * m)

theorem reached_succ_iff {mem : Mem} {i j : ℕ} (hnot : ¬ Accepts mem (4 * i)) :
    Reached mem i j ↔ j = i ∨ Reached mem (i + 1) j := by
  constructor
  · rintro ⟨hle, hall⟩
    rcases Nat.eq_or_lt_of_le hle with rfl | hlt
    · exact Or.inl rfl
    · exact Or.inr ⟨hlt, fun m hm => hall m (by omega)⟩
  · rintro (rfl | ⟨hle, hall⟩)
    · exact ⟨le_refl _, fun m hm hm' => absurd hm' (by omega)⟩
    · refine ⟨by omega, fun m hm hm' => ?_⟩
      rcases Nat.eq_or_lt_of_le hm with rfl | hlt
      · exact hnot
      · exact hall m hlt hm'

theorem reached_of_accepts {mem : Mem} {i j : ℕ} (h : Accepts mem (4 * i)) (hj : Reached mem i j) :
    j = i := by
  by_contra hne
  exact hj.2 i (le_refl _) (by have := hj.1; omega) h

/-- **What the search finds**: the first word that is accepted. -/
theorem findHeader_eq_some_iff {mem : Mem} {k i o : ℕ} :
    findHeader mem k i = some o ↔
      ∃ j, Reached mem i j ∧ j < i + k ∧ Accepts mem (4 * j) ∧ o = 4 * j := by
  induction k generalizing i with
  | zero => exact iff_of_false nofun fun ⟨j, hj, hlt, _⟩ => absurd hj.1 (by omega)
  | succ k ih =>
    rw [findHeader_succ]
    split_ifs with hacc
    · constructor
      · intro h
        exact ⟨i, ⟨le_refl _, fun m hm hm' => absurd hm' (by omega)⟩, by omega, hacc, by cases h; rfl⟩
      · rintro ⟨j, hj, -, -, rfl⟩
        rw [reached_of_accepts hacc hj]
    · rw [ih]
      constructor
      · rintro ⟨j, hj, hlt, h⟩
        exact ⟨j, (reached_succ_iff hacc).mpr (Or.inr hj), by omega, h⟩
      · rintro ⟨j, hj, hlt, hj', rfl⟩
        rcases (reached_succ_iff hacc).mp hj with rfl | hj
        · exact absurd hj' hacc
        · exact ⟨j, hj, by omega, hj', rfl⟩

/-- The ranges that belong to one word. -/
def WordRange (mem : Mem) (a : ℕ) (r : ℕ × ℕ) : Prop :=
  r = (a, 4) ∨ le32 mem a = multibootHeaderMagic ∧
    (r = (a + 4, 4) ∨ r = (a + 8, 4) ∨ Accepts mem a ∧ r = (a, sizeofMultibootHeader))

/-- **What the search looks at**: the ranges of the words that it comes to. -/
theorem mem_searchRanges_iff {mem : Mem} {k i : ℕ} {r : ℕ × ℕ} :
    r ∈ searchRanges mem k i ↔ ∃ j, Reached mem i j ∧ j < i + k ∧ WordRange mem (4 * j) r := by
  induction k generalizing i with
  | zero => exact iff_of_false (by simp [searchRanges]) fun ⟨j, hj, hlt, _⟩ => absurd hj.1 (by omega)
  | succ k ih =>
    have hfirst : Reached mem i i := ⟨le_refl _, fun m hm hm' => absurd hm' (by omega)⟩
    have hrest (hacc : ¬ Accepts mem (4 * i)) :
        (∃ j, Reached mem i j ∧ j < i + (k + 1) ∧ WordRange mem (4 * j) r) ↔
          WordRange mem (4 * i) r ∨ r ∈ searchRanges mem k (i + 1) := by
      rw [ih]
      constructor
      · rintro ⟨j, hj, hlt, h⟩
        rcases (reached_succ_iff hacc).mp hj with rfl | hj
        · exact Or.inl h
        · exact Or.inr ⟨j, hj, by omega, h⟩
      · rintro (h | ⟨j, hj, hlt, h⟩)
        · exact ⟨i, hfirst, by omega, h⟩
        · exact ⟨j, (reached_succ_iff hacc).mpr (Or.inr hj), by omega, h⟩
    rw [searchRanges]
    by_cases hmagic : le32 mem (4 * i) = multibootHeaderMagic
    · by_cases hacc : Accepts mem (4 * i)
      · simp only [if_pos hmagic, if_pos hacc, List.mem_cons, List.not_mem_nil, or_false]
        constructor
        · rintro (h | h | h | h)
          · exact ⟨i, hfirst, by omega, Or.inl h⟩
          · exact ⟨i, hfirst, by omega, Or.inr ⟨hmagic, Or.inl h⟩⟩
          · exact ⟨i, hfirst, by omega, Or.inr ⟨hmagic, Or.inr (Or.inl h)⟩⟩
          · exact ⟨i, hfirst, by omega, Or.inr ⟨hmagic, Or.inr (Or.inr ⟨hacc, h⟩)⟩⟩
        · rintro ⟨j, hj, -, h⟩
          obtain rfl := reached_of_accepts hacc hj
          rcases h with h | ⟨-, h | h | ⟨-, h⟩⟩ <;> simp [h]
      · rw [hrest hacc]
        simp only [hmagic, hacc, if_true, if_false, List.mem_cons, WordRange, true_and, false_and,
          or_false, or_assoc]
    · have hacc : ¬ Accepts mem (4 * i) := fun h => hmagic h.1
      rw [hrest hacc]
      simp only [hmagic, if_false, List.mem_cons, WordRange, false_and, or_false]

/-- **The search looks at nothing else**, and the header that is copied is what it has looked at. -/
theorem findHeader_congr {f g : Mem} {k i : ℕ}
    (h : ∀ r ∈ searchRanges f k i, slice f r.1 r.2 = slice g r.1 r.2) :
    findHeader f k i = findHeader g k i ∧ searchRanges f k i = searchRanges g k i ∧
      ∀ o, findHeader f k i = some o → mbHeaderAt f o = mbHeaderAt g o := by
  induction k generalizing i with
  | zero => exact ⟨rfl, rfl, nofun⟩
  | succ k ih =>
    have hword : le32 f (4 * i) = le32 g (4 * i) :=
      le32_congr (h (4 * i, 4) List.mem_cons_self) (i := 0) (by omega)
    by_cases hmagic : le32 f (4 * i) = multibootHeaderMagic
    · simp only [searchRanges, hmagic, if_true, List.forall_mem_cons] at h
      obtain ⟨-, hflags, hchecksum, hrest⟩ := h
      have hacc : Accepts f (4 * i) ↔ Accepts g (4 * i) := by
        unfold Accepts
        rw [hword, le32_congr hflags (i := 0) (by omega), le32_congr hchecksum (i := 0) (by omega)]
      by_cases hf : Accepts f (4 * i)
      · rw [if_pos hf] at hrest
        have hcopy := hrest _ List.mem_cons_self
        simp only [findHeader_succ, searchRanges, ← hword, hmagic, hf, hacc.mp hf, if_true, true_and]
        rintro o ⟨⟩
        have hfield : ∀ d, d + 4 ≤ 32 → le32 f (4 * i + d) = le32 g (4 * i + d) :=
          fun d hd => le32_congr hcopy hd
        simp only [mbHeaderAt, hfield 4 (by decide), hfield 12 (by decide), hfield 16 (by decide),
          hfield 20 (by decide), hfield 24 (by decide), hfield 28 (by decide)]
      · rw [if_neg hf] at hrest
        obtain ⟨hfind, hranges, hheader⟩ := ih hrest
        have hg : ¬ Accepts g (4 * i) := fun h => hf (hacc.mpr h)
        simp only [findHeader_succ, searchRanges, ← hword, hmagic, hf, hg, if_true, if_false]
        exact ⟨hfind, by rw [hranges], hheader⟩
    · have hf : ¬ Accepts f (4 * i) := fun h => hmagic h.1
      have hg : ¬ Accepts g (4 * i) := fun h => hmagic (hword.trans h.1)
      simp only [searchRanges, hmagic, if_false, List.forall_mem_cons] at h
      obtain ⟨hfind, hranges, hheader⟩ := ih h.2
      simp only [findHeader_succ, searchRanges, ← hword, hmagic, hf, hg, if_false]
      exact ⟨hfind, by rw [hranges], hheader⟩

/-! ## The search in a file -/

theorem slice_fileMem {data : List UInt8} {n : ℕ} (hn : n ≤ data.length) :
    slice (fileMem data) 0 n = data.take n := by
  refine List.ext_getElem? fun i => ?_
  rw [getElem?_slice, List.getElem?_take, Nat.zero_add, fileMem]
  split_ifs with hi
  · rw [List.getD_eq_getElem?_getD, List.getElem?_eq_getElem (by omega), Option.getD_some]
  · rfl

theorem accepts_congr {f g : Mem} {n o : ℕ} (h : slice f 0 n = slice g 0 n) (ho : o + 12 ≤ n) :
    Accepts f o ↔ Accepts g o := by
  have hword : ∀ i, i + 4 ≤ n → le32 f i = le32 g i := fun i hi => by
    have := le32_congr h hi
    rwa [Nat.zero_add] at this
  unfold Accepts
  rw [hword o (by omega), hword (o + 4) (by omega), hword (o + 8) (by omega)]

/-- The files of which `n` bytes are searched right: there is a header among them, or every magic word
too close to their end for one has the next two words behind it, and these make the checksum wrong. -/
def TailFits (data : List UInt8) (n : ℕ) : Prop :=
  (∃ o, HeaderAt data n o) ∨ ∀ o, 4 ∣ o → n < o + sizeofMultibootHeader → o + 4 ≤ n →
    le32 (fileMem data) o = multibootHeaderMagic → o + 12 ≤ n ∧ ¬ Accepts (fileMem data) o

/-- The search in a buffer finds the first header, and stays in the first `n` bytes. -/
structure SearchesRight (data : List UInt8) (n : ℕ) (found : ℕ → Prop) (ranges : List (ℕ × ℕ)) : Prop where
  found : ∀ o, found o ↔ FirstHeader data n o
  within : ∀ r ∈ ranges, r.1 + r.2 ≤ n

variable {data : List UInt8} {buf : Mem} {n : ℕ}

/-- Where a header would lie in the bytes that have been read, the search sees it. -/
theorem accepts_iff_headerAt (hbuf : slice buf 0 n = slice (fileMem data) 0 n) {j : ℕ}
    (hj : 4 * j + sizeofMultibootHeader ≤ n) : Accepts buf (4 * j) ↔ HeaderAt data n (4 * j) := by
  have hsize : sizeofMultibootHeader = 32 := rfl
  rw [accepts_congr hbuf (by omega)]
  exact ⟨fun h => ⟨Nat.dvd_mul_right 4 j, hj, h⟩, fun h => h.accepts⟩

theorem WordRange.within {a : ℕ} {r : ℕ × ℕ} (h : WordRange buf a r) :
    r.1 + r.2 ≤ a + 4 ∨ le32 buf a = multibootHeaderMagic ∧
      (r.1 + r.2 ≤ a + 12 ∨ Accepts buf a ∧ r.1 + r.2 ≤ a + sizeofMultibootHeader) := by
  rcases h with rfl | ⟨hmagic, rfl | rfl | ⟨hacc, rfl⟩⟩
  · exact Or.inl (le_refl _)
  · exact Or.inr ⟨hmagic, Or.inl (by simp)⟩
  · exact Or.inr ⟨hmagic, Or.inl (by simp)⟩
  · exact Or.inr ⟨hmagic, Or.inr ⟨hacc, le_refl _⟩⟩

/-- **The search of a file with a header** stops there. -/
theorem searchesRight_of_headerAt (hbuf : slice buf 0 n = slice (fileMem data) 0 n)
    (h : ∃ o, HeaderAt data n o) :
    SearchesRight data n (findHeader buf (n / 4) 0 = some ·) (searchRanges buf (n / 4) 0) := by
  obtain ⟨o, hfirst⟩ : ∃ o, FirstHeader data n o := by
    classical
    exact ⟨Nat.find h, Nat.find_spec h, fun o ho => Nat.find_min h ho⟩
  have hsize : sizeofMultibootHeader = 32 := rfl
  obtain ⟨j, rfl⟩ := hfirst.1.aligned
  have hwithin := hfirst.1.within
  have hacc : Accepts buf (4 * j) := (accepts_iff_headerAt hbuf hwithin).mpr hfirst.1
  have hreached : Reached buf 0 j := ⟨Nat.zero_le _, fun m _ hm hacc' =>
    hfirst.2 (4 * m) (by omega) ((accepts_iff_headerAt hbuf (by omega)).mp hacc')⟩
  have hstop : ∀ m, Reached buf 0 m → m ≤ j := fun m hm => by
    by_contra hlt
    exact hm.2 j (Nat.zero_le _) (by omega) hacc
  constructor
  · intro o
    rw [findHeader_eq_some_iff]
    constructor
    · rintro ⟨m, hm, -, hm', rfl⟩
      have hle : j ≤ m := by
        by_contra hlt
        exact hreached.2 m (Nat.zero_le _) (by omega) hm'
      rwa [Nat.le_antisymm (hstop m hm) hle]
    · intro ho
      refine ⟨j, hreached, by omega, hacc, ?_⟩
      by_contra hne
      rcases Nat.lt_or_gt_of_ne hne with hlt | hgt
      · exact hfirst.2 o hlt ho.1
      · exact ho.2 (4 * j) hgt hfirst.1
  · intro r hr
    obtain ⟨m, hm, -, hrange⟩ := mem_searchRanges_iff.mp hr
    have hle := hstop m hm
    rcases hrange.within with h | ⟨-, h | ⟨-, h⟩⟩ <;> omega

/-- **The search of a file without a header.** -/
theorem searchesRight_iff_of_not (hbuf : slice buf 0 n = slice (fileMem data) 0 n)
    (hnone : ¬ ∃ o, HeaderAt data n o) :
    SearchesRight data n (findHeader buf (n / 4) 0 = some ·) (searchRanges buf (n / 4) 0) ↔
      ∀ o, 4 ∣ o → n < o + sizeofMultibootHeader → o + 4 ≤ n →
        le32 (fileMem data) o = multibootHeaderMagic → o + 12 ≤ n ∧ ¬ Accepts (fileMem data) o := by
  have hword : ∀ o, o + 4 ≤ n → le32 buf o = le32 (fileMem data) o := fun o ho => by
    have := le32_congr hbuf ho
    rwa [Nat.zero_add] at this
  constructor
  · rintro ⟨hfound, hwithin⟩ o ⟨j, rfl⟩ htail hle hmagic
    -- no word is accepted, so that the search comes to this one
    have hnot : ∀ m, 4 * m + 4 ≤ n → ¬ Accepts buf (4 * m) := by
      intro m hm hacc
      have hsome : ∃ o, findHeader buf (n / 4) 0 = some o := by
        classical
        have hex : ∃ m, 4 * m + 4 ≤ n ∧ Accepts buf (4 * m) := ⟨m, hm, hacc⟩
        obtain ⟨hspec, hacc'⟩ := Nat.find_spec hex
        refine ⟨_, findHeader_eq_some_iff.mpr ⟨Nat.find hex, ⟨Nat.zero_le _, fun l _ hl hl' => ?_⟩,
          by omega, hacc', rfl⟩⟩
        exact Nat.find_min hex hl ⟨by omega, hl'⟩
      obtain ⟨o, ho⟩ := hsome
      exact hnone ⟨o, ((hfound o).mp ho).1⟩
    have hreached : Reached buf 0 j := ⟨Nat.zero_le _, fun m _ hm => hnot m (by omega)⟩
    have hin := hwithin (4 * j + 8, 4) (mem_searchRanges_iff.mpr ⟨j, hreached, by omega,
      Or.inr ⟨(hword _ hle).trans hmagic, Or.inr (Or.inl rfl)⟩⟩)
    simp only at hin
    refine ⟨by omega, ?_⟩
    rw [← accepts_congr hbuf (by omega)]
    exact hnot j hle
  · intro htail
    have hnot : ∀ m, 4 * m + 4 ≤ n → ¬ Accepts buf (4 * m) := by
      intro m hm hacc
      by_cases hin : 4 * m + sizeofMultibootHeader ≤ n
      · exact hnone ⟨_, (accepts_iff_headerAt hbuf hin).mp hacc⟩
      · obtain ⟨hle, hbad⟩ := htail (4 * m) (Nat.dvd_mul_right 4 m) (by omega) hm
          ((hword _ hm).symm.trans hacc.1)
        exact hbad ((accepts_congr hbuf hle).mp hacc)
    constructor
    · intro o
      refine iff_of_false (fun h => ?_) fun h => hnone ⟨o, h.1⟩
      obtain ⟨m, -, hm, hacc, -⟩ := findHeader_eq_some_iff.mp h
      exact hnot m (by omega) hacc
    · intro r hr
      obtain ⟨m, -, hm, hrange⟩ := mem_searchRanges_iff.mp hr
      have hm4 : 4 * m + 4 ≤ n := by omega
      rcases hrange.within with h | ⟨hmagic, h | ⟨hacc, -⟩⟩
      · omega
      · by_cases hin : 4 * m + sizeofMultibootHeader ≤ n
        · have hsize : sizeofMultibootHeader = 32 := rfl
          omega
        · have hle := (htail (4 * m) (Nat.dvd_mul_right 4 m) (by omega) hm4
            ((hword _ hm4).symm.trans hmagic)).1
          omega
      · exact absurd hacc (hnot m hm4)

/-- **The search in a buffer** with the first bytes of a file. -/
theorem searchesRight_iff (hbuf : slice buf 0 n = slice (fileMem data) 0 n) :
    SearchesRight data n (findHeader buf (n / 4) 0 = some ·) (searchRanges buf (n / 4) 0) ↔
      TailFits data n := by
  unfold TailFits
  by_cases h : ∃ o, HeaderAt data n o
  · exact iff_of_true (searchesRight_of_headerAt hbuf h) (Or.inl h)
  · rw [searchesRight_iff_of_not hbuf h, or_iff_right h]

/-! ## The command -/

section Command

variable (env : BootEnv σ) (args : List UInt8) (b : Boot σ)

/-- `multiboot` accepts the header at `o` of its file. -/
def AcceptsHeader (o : ℕ) : Prop := ∃ k, openMultiboot env args b = .ok k ∧ k.headerOffset = o

/-- What `multiboot` looks at, or copies, of the buffer with the first bytes of its file. -/
def headerRanges : List (ℕ × ℕ) :=
  match env.fopen (methodName 0x20 args) b.dev with
  | (none, _) => []
  | (some f, dev) =>
    let r := freadNew f.fsRead (env.fresh dev) 8192 ⟨b.ram, dev, f.file⟩
    searchRanges r.2.1 (u32 r.1 / 4) 0

variable {env args b} {f : OpenFile σ} {dev : σ}

theorem acceptsHeader_iff (hf : env.fopen (methodName 0x20 args) b.dev = (some f, dev)) {o : ℕ} :
    AcceptsHeader env args b o ↔
      let r := freadNew f.fsRead (env.fresh dev) 8192 ⟨b.ram, dev, f.file⟩
      findHeader r.2.1 (u32 r.1 / 4) 0 = some o := by
  unfold AcceptsHeader openMultiboot
  simp only [hf]
  cases hfind : findHeader (freadNew f.fsRead (env.fresh dev) 8192 ⟨b.ram, dev, f.file⟩).2.1
      (u32 (freadNew f.fsRead (env.fresh dev) 8192 ⟨b.ram, dev, f.file⟩).1 / 4) 0 with
  | none => exact iff_of_false (fun ⟨k, hk, _⟩ => nomatch hk) nofun
  | some headerOffset =>
    constructor
    · rintro ⟨k, hk, rfl⟩
      obtain rfl := Except.ok.inj hk
      rfl
    · rintro ⟨⟩
      exact ⟨_, rfl, rfl⟩

/-- A file of 12 bytes, the first three words of a header. -/
def cutImage : List UInt8 :=
  [multibootHeaderMagic, 0, 2 ^ 32 - multibootHeaderMagic].flatMap (toBytes 4)

/-- A header is accepted of which the file has 12 bytes. -/
theorem header_search_broken :
    ¬ SearchesRight cutImage (min 8192 cutImage.length)
      (AcceptsHeader (filesEnv fun _ => some cutImage) [] (Boot.init (fun _ => 0) () Chunks.init))
      (headerRanges (filesEnv fun _ => some cutImage) [] (Boot.init (fun _ => 0) () Chunks.init)) := by
  intro h
  have hcopied : (0, sizeofMultibootHeader) ∈ headerRanges (filesEnv fun _ => some cutImage) []
      (Boot.init (fun _ => 0) () Chunks.init) := by decide +kernel
  exact absurd (h.within _ hcopied) (by decide)

/-- **The search for the header**, of every file that is read without errors: the command accepts the
first header within the bytes that it reads, and looks at these only, just when the tail fits. -/
theorem header_search_iff {contents : List UInt8 → List UInt8} {ok : σ → Prop}
    (hfiles : OpensFiles env contents ok DeliversFile) (hok : ok b.dev)
    (hf : env.fopen (methodName 0x20 args) b.dev = (some f, dev)) :
    SearchesRight (contents (methodName 0x20 args)) (min 8192 (contents (methodName 0x20 args)).length)
        (AcceptsHeader env args b) (headerRanges env args b) ↔
      TailFits (contents (methodName 0x20 args))
        (min 8192 (contents (methodName 0x20 args)).length) := by
  have hdev := hfiles.dev (methodName 0x20 args) b.dev hok
  obtain ⟨hreads, hlen, hpos⟩ := hfiles.file (methodName 0x20 args) b.dev hok f (by rw [hf]; rfl)
  rw [hf] at hdev
  obtain ⟨hcount, hbuf⟩ := hreads.fread_at ⟨env.fresh dev, dev, f.file⟩ hdev hlen hpos (Nat.zero_le _) 0
    (n := 8192) (by decide)
  rw [Nat.sub_zero] at hcount hbuf
  rw [List.drop_zero, ← slice_fileMem (Nat.min_le_right _ _)] at hbuf
  have hnum : u32 (freadNew f.fsRead (env.fresh dev) 8192 ⟨b.ram, dev, f.file⟩).1 =
      min 8192 (contents (methodName 0x20 args)).length := by
    rw [show (freadNew f.fsRead (env.fresh dev) 8192 ⟨b.ram, dev, f.file⟩).1 = _ from hcount,
      u32_of_lt (by omega)]
  rw [← searchesRight_iff hbuf]
  have hranges : headerRanges env args b =
      searchRanges (freadNew f.fsRead (env.fresh dev) 8192 ⟨b.ram, dev, f.file⟩).2.1
        (min 8192 (contents (methodName 0x20 args)).length / 4) 0 := by
    unfold headerRanges
    simp only [hf, hnum]
  rw [hranges, funext fun o => propext (acceptsHeader_iff (o := o) hf)]
  simp only [hnum]
  exact Iff.rfl

/-- The search in a kernel of 32 bytes, its header. -/
theorem header_search_iff_aoutImage :
    SearchesRight aoutImage (min 8192 aoutImage.length)
        (AcceptsHeader (filesEnv fun _ => some aoutImage) [] (Boot.init (fun _ => 0) () Chunks.init))
        (headerRanges (filesEnv fun _ => some aoutImage) [] (Boot.init (fun _ => 0) () Chunks.init)) ↔
      TailFits aoutImage (min 8192 aoutImage.length) := by
  have hfiles := filesEnv_opensFiles (fun _ => some aoutImage) fun path image h => by
    obtain rfl := Option.some.inj h
    decide
  exact header_search_iff (hfiles.mono fun _ _ hf => hf.deliversFile) trivial rfl

end Command

end RpiBoot
