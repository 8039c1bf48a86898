import Mathlib.Data.List.Find
import RpiBoot.Lib.Bytes
import RpiBoot.Rpifdt.Model

/-!
# Addresses on buses

`load_ranges` takes the parent address in an entry of `ranges` for one of as many cells as the bus's own.

* `cellsValue`: a number of several cells. `rangesOf`, `busAddress`: the ranges of a bus and the address
  on the bus above, by the numbers of cells of both.
* `PathUp`: the buses from a node up to the root.
* `StepPlain`: the bus above has addresses of the same number of cells, and the range of the address ends
  below `2 ^ 32`.
* `adjustAt_eq`: on such a bus the table is right. `getAdjustedAddressInt_eq`: along a path of them.
* **`dt_translation_iff`**: the addresses that `parse_reg` passes on are right where all buses are plain;
  with different numbers of cells there are ranges with which they are wrong.
-/

namespace RpiBoot

open Store Bytes

/-! ## Numbers of several cells -/

/-- The number in `n` cells. -/
def cellsValue (mem : Mem) (a n : ℕ) : ℕ :=
  (List.range n).foldl (fun v i => v * 2 ^ 32 + readWordbe mem (a + 4 * i)) 0

theorem readWordbe_lt (mem : Mem) (a : ℕ) : readWordbe mem a < 2 ^ 32 := by
  unfold readWordbe
  have hbyte (i k : ℕ) (hk : k ≤ 24) : (mem i).toNat <<< k < 2 ^ 32 := by
    rw [Nat.shiftLeft_eq]
    calc (mem i).toNat * 2 ^ k < 2 ^ 8 * 2 ^ k :=
          Nat.mul_lt_mul_of_pos_right (mem i).toNat_lt (Nat.two_pow_pos k)
      _ ≤ 2 ^ 8 * 2 ^ 24 := Nat.mul_le_mul_left _ (Nat.pow_le_pow_right (by decide) hk)
      _ = 2 ^ 32 := by decide
  exact Nat.or_lt_two_pow (Nat.or_lt_two_pow (Nat.or_lt_two_pow (hbyte _ 0 (by decide))
    (hbyte _ 8 (by decide))) (hbyte _ 16 (by decide))) (hbyte _ 24 (by decide))

/-- The last cell of a number is the number modulo `2 ^ 32`. -/
theorem readCells_eq (mem : Mem) (a n : ℕ) : readCells mem a n = u32 (cellsValue mem a n) := by
  unfold readCells cellsValue
  cases n with
  | zero => rfl
  | succ n =>
    rw [List.range_succ, List.foldl_append, List.foldl_append]
    simp only [List.foldl_cons, List.foldl_nil, u32]
    rw [Nat.mul_add_mod_self_right, Nat.mod_eq_of_lt (readWordbe_lt _ _)]

/-! ## Ranges -/

/-- An entry of `ranges`. -/
structure BusRange where
  child : ℕ
  parent : ℕ
  length : ℕ
deriving DecidableEq

/-- The address is in the range. -/
def BusRange.Holds (r : BusRange) (a : ℕ) : Prop := r.child ≤ a ∧ a < r.child + r.length

instance (r : BusRange) (a : ℕ) : Decidable (r.Holds a) := inferInstanceAs (Decidable (_ ∧ _))

/-- What the range stands for has 32 bits on both buses. -/
structure BusRange.Fits (r : BusRange) : Prop where
  child_lt : r.child < 2 ^ 32
  parent_lt : r.parent < 2 ^ 32
  child_end : r.child + r.length ≤ 2 ^ 32
  parent_end : r.parent + r.length ≤ 2 ^ 32

section Spec

variable (t : Fdt)

/-- The number of bytes of an entry: the child address has the cells of the bus, and the parent address
those of the bus above. -/
def entrySize (bus parent : ℕ) : ℕ := (t.addressCells bus + t.addressCells parent + t.sizeCells bus) * 4

/-- The entry at an address of the blob. -/
def readRange (bus parent a : ℕ) : BusRange :=
  let ac := t.addressCells bus
  let pac := t.addressCells parent
  ⟨cellsValue t.blob a ac, cellsValue t.blob (a + 4 * ac) pac,
    cellsValue t.blob (a + 4 * ac + 4 * pac) (t.sizeCells bus)⟩

/-- The ranges of a bus. -/
def rangesOf (bus : ℕ) : List BusRange :=
  match t.getprop bus "ranges", t.parentOffset bus with
  | some ranges, some parent => (List.range (ranges.plen / entrySize t bus parent)).map fun i =>
      readRange t bus parent (ranges.addr + i * entrySize t bus parent)
  | _, _ => []

/-- The address on the bus above a node: a simple bus translates it by its ranges. -/
def busAddress (node a : ℕ) : ℕ :=
  if node ∈ t.byCompatible "simple-bus" then
    match (rangesOf t node).find? fun r => r.Holds a with
    | some r => a - r.child + r.parent
    | none => a
  else a

/-- The nodes from `node` up to the root, without the root. -/
def PathUp : ℕ → List ℕ → Prop
  | node, [] => node = t.root
  | node, n :: ns => node = n ∧ node ≠ t.root ∧ ∃ parent, t.parentOffset node = some parent ∧
      PathUp parent ns

/-- The CPU address of an address on the first bus of a path. -/
def cpuAddress (path : List ℕ) (a : ℕ) : ℕ := path.foldl (fun a node => busAddress t node a) a

/-- What `libfdt` reports: parents are above their nodes, and the numbers of cells are those of the
properties. -/
structure Fdt.Reports : Prop where
  parent_lt : ∀ node parent, t.parentOffset node = some parent → parent < node
  addressCells : ∀ node prop, t.getprop node "#address-cells" = some prop →
    (i32 (readWordbe t.blob prop.addr)).toNat = t.addressCells node
  sizeCells : ∀ node prop, t.getprop node "#size-cells" = some prop →
    (i32 (readWordbe t.blob prop.addr)).toNat = t.sizeCells node

/-- The bus and the one above have addresses of the same number of cells, if the bus has ranges at all,
and the range of the address ends below `2 ^ 32`. -/
def StepPlain (node a : ℕ) : Prop :=
  node ∈ t.byCompatible "simple-bus" → ∀ ranges ∈ t.getprop node "ranges", ∀ parent ∈ t.parentOffset node,
    (ranges.plen = 0 ∨ t.sizeCells node = 0 ∨ t.addressCells node = t.addressCells parent) ∧
    ∀ r ∈ (rangesOf t node).find? fun r => r.Holds a, r.child + r.length < 2 ^ 32

/-- Every bus of the path is plain for the address that gets there. -/
def Plain : List ℕ → ℕ → Prop
  | [], _ => True
  | node :: path, a => StepPlain t node a ∧ Plain path (busAddress t node a)

end Spec

/-! ## The table -/

variable {t : Fdt}

theorem length_fillRanges (soc k a : ℕ) : (fillRanges t soc k a).length = k := by
  induction k generalizing a with
  | zero => rfl
  | succ k ih => rw [fillRanges, List.length_cons, ih]

/-- The two passes find the same number of items. -/
theorem loadRanges_take : (loadRanges t).2.take (loadRanges t).1 = (loadRanges t).2 := by
  have hcount (socs : List ℕ) : countRanges t socs = (socs.flatMap (busRanges t)).length := by
    induction socs with
    | nil => rfl
    | cons soc socs ih =>
      rw [countRanges, ih, List.flatMap_cons, List.length_append, busRanges]
      cases t.getprop soc "ranges" with
      | none => rfl
      | some ranges => rw [length_fillRanges]
  exact List.take_of_length_le (hcount _).ge

theorem socNode_fillRanges {soc k a : ℕ} : ∀ r ∈ fillRanges t soc k a, r.socNode = soc := by
  induction k generalizing a with
  | zero => exact fun r hr => absurd hr List.not_mem_nil
  | succ k ih =>
    rw [fillRanges]
    exact List.forall_mem_cons.mpr ⟨rfl, ih⟩

theorem socNode_busRanges {soc : ℕ} : ∀ r ∈ busRanges t soc, r.socNode = soc := by
  unfold busRanges
  cases t.getprop soc "ranges" with
  | none => exact fun r hr => absurd hr List.not_mem_nil
  | some ranges => exact socNode_fillRanges

/-- In the table, the ranges of a bus are found among those of the others. -/
theorem find?_flatMap_busRanges (socs : List ℕ) (node : ℕ) (q : SocRange → Bool) :
    ((socs.flatMap (busRanges t)).find? fun r => r.socNode = node ∧ q r) =
      if node ∈ socs then (busRanges t node).find? q else none := by
  induction socs with
  | nil => rfl
  | cons soc socs ih =>
    rw [List.flatMap_cons, List.find?_append, ih]
    by_cases h : soc = node
    · subst h
      have hsame : ((busRanges t soc).find? fun r => r.socNode = soc ∧ q r) = (busRanges t soc).find? q :=
        List.find?_congr fun r hr => by simp [socNode_busRanges r hr]
      rw [hsame, if_pos List.mem_cons_self]
      split_ifs
      · exact Option.or_self
      · exact Option.or_none
    · have hnone : ((busRanges t soc).find? fun r => r.socNode = node ∧ q r) = none :=
        List.find?_eq_none.mpr fun r hr => by simp [socNode_busRanges r hr, h]
      rw [hnone, Option.none_or]
      simp [Ne.symm h]

/-- The entry of the table for a range. -/
def BusRange.toSoc (node : ℕ) (r : BusRange) : SocRange := ⟨node, u32 r.child, u32 r.parent, u32 r.length⟩

/-- Where the numbers of cells agree, the table has the ranges of the bus. -/
theorem busRanges_eq {node parent : ℕ} (hp : t.parentOffset node = some parent)
    (hcells : t.addressCells node = t.addressCells parent) :
    busRanges t node = (rangesOf t node).map (BusRange.toSoc node) := by
  have hfill (k a : ℕ) : fillRanges t node k a = ((List.range k).map fun i =>
      readRange t node parent (a + i * entrySize t node parent)).map (BusRange.toSoc node) := by
    induction k generalizing a with
    | zero => rfl
    | succ k ih =>
      rw [fillRanges, ih, List.range_succ_eq_map, List.map_cons, List.map_cons, List.map_map, List.map_map,
        List.map_map]
      congr 1
      · simp only [BusRange.toSoc, readRange, readCells_eq, hcells, Nat.zero_mul, Nat.add_zero]
      · refine List.map_congr_left fun i _ => ?_
        simp only [Function.comp_apply]
        congr 2
        simp only [entrySize, ← hcells, Nat.succ_eq_add_one]
        ring
  unfold busRanges rangesOf
  rw [hp]
  cases t.getprop node "ranges" with
  | none => rfl
  | some ranges =>
    simp only
    rw [hfill, numRanges, entrySize, ← hcells, Nat.two_mul]

/-- A test that fails more often, but not on what the other finds, finds the same. -/
theorem find?_eq_of_imp {α : Type} {p q : α → Bool} {l : List α} (h : ∀ x ∈ l, q x = true → p x = true)
    (hp : ∀ x ∈ l.find? p, q x = true) : l.find? q = l.find? p := by
  induction l with
  | nil => rfl
  | cons x l ih =>
    by_cases hx : p x = true
    · rw [List.find?_cons_of_pos hx] at hp ⊢
      exact List.find?_cons_of_pos (hp x rfl)
    · have hq : ¬ q x = true := fun hq => hx (h x List.mem_cons_self hq)
      rw [List.find?_cons_of_neg hx] at hp ⊢
      rw [List.find?_cons_of_neg hq]
      exact ih (fun y hy => h y (List.mem_cons_of_mem x hy)) hp

/-- The test of the loop over the table. -/
def SocRange.test (a : ℕ) (r : SocRange) : Bool := a ≥ r.childAddr ∧ a < u32 (r.childAddr + r.length)

theorem find?_loadRanges (node a : ℕ) :
    ((loadRanges t).2.take (loadRanges t).1).find? (fun r =>
      r.socNode = node ∧ a ≥ r.childAddr ∧ a < u32 (r.childAddr + r.length)) =
      if node ∈ t.byCompatible "simple-bus" then (busRanges t node).find? (SocRange.test a) else none := by
  rw [loadRanges_take, ← find?_flatMap_busRanges]
  refine List.find?_congr fun r _ => ?_
  simp [SocRange.test]

/-- The test on the entry of a range that fits: it misses the ranges that end at `2 ^ 32`. -/
theorem test_toSoc {r : BusRange} (hr : r.Fits) (node a : ℕ) :
    (r.toSoc node).test a = true ↔ r.Holds a ∧ r.child + r.length < 2 ^ 32 := by
  obtain ⟨hc, -, hend, -⟩ := hr
  simp only [SocRange.test, BusRange.toSoc, BusRange.Holds, ge_iff_le, decide_eq_true_eq, u32]
  omega

/-- Without cells for the length, no range holds an address, in the table or out of it. -/
theorem find?_of_sizeCells {node : ℕ} (h : t.sizeCells node = 0) (a : ℕ) :
    (busRanges t node).find? (SocRange.test a) = none ∧
      ((rangesOf t node).find? fun r => r.Holds a) = none := by
  have hfill (k b : ℕ) : ∀ r ∈ fillRanges t node k b, r.length = 0 := by
    induction k generalizing b with
    | zero => exact fun r hr => absurd hr List.not_mem_nil
    | succ k ih =>
      rw [fillRanges]
      exact List.forall_mem_cons.mpr ⟨by rw [h]; rfl, ih _⟩
  have hcode : ∀ r ∈ busRanges t node, r.length = 0 := by
    unfold busRanges
    cases t.getprop node "ranges" with
    | none => exact fun r hr => absurd hr List.not_mem_nil
    | some ranges => exact hfill _ _
  have hspec : ∀ r ∈ rangesOf t node, r.length = 0 := by
    unfold rangesOf
    rcases t.getprop node "ranges", t.parentOffset node with ⟨_ | ranges, _ | parent⟩
    · exact fun r hr => absurd hr List.not_mem_nil
    · exact fun r hr => absurd hr List.not_mem_nil
    · exact fun r hr => absurd hr List.not_mem_nil
    · intro r hr
      obtain ⟨i, -, rfl⟩ := List.mem_map.mp hr
      simp only [readRange, h]
      rfl
  constructor
  · refine List.find?_eq_none.mpr fun r hr => ?_
    have hle := Nat.mod_le r.childAddr (2 ^ 32)
    simp only [SocRange.test, hcode r hr, decide_eq_true_eq, Nat.add_zero, u32]
    omega
  · refine List.find?_eq_none.mpr fun r hr => ?_
    simp only [BusRange.Holds, hspec r hr, decide_eq_true_eq]
    omega

/-- **On a plain bus the table is right.** -/
theorem adjustAt_eq {node parent a : ℕ} (hp : t.parentOffset node = some parent)
    (hfit : ∀ r ∈ rangesOf t node, r.Fits) (hplain : StepPlain t node a) :
    adjustAt (loadRanges t) node a = busAddress t node a := by
  unfold adjustAt busAddress
  rw [find?_loadRanges]
  split_ifs with hbus
  · cases hranges : t.getprop node "ranges" with
    | none =>
      have hcode : busRanges t node = [] := by rw [busRanges, hranges]
      have hspec : rangesOf t node = [] := by rw [rangesOf, hranges]
      rw [hcode, hspec]
      rfl
    | some ranges =>
      obtain ⟨hcells, hend⟩ := hplain hbus ranges hranges parent hp
      rcases hcells with h0 | h0 | hcells
      · have hcode : busRanges t node = [] := by simp [busRanges, hranges, numRanges, h0, fillRanges]
        have hspec : rangesOf t node = [] := by simp [rangesOf, hranges, hp, h0]
        rw [hcode, hspec]
        rfl
      · obtain ⟨hcode, hspec⟩ := find?_of_sizeCells h0 a
        rw [hcode, hspec]
      · have hfind : (rangesOf t node).find? (SocRange.test a ∘ BusRange.toSoc node) =
            (rangesOf t node).find? fun r => r.Holds a := by
          refine find?_eq_of_imp (fun r hr h => ?_) fun r hr => ?_
          · exact decide_eq_true ((test_toSoc (hfit r hr) node a).mp h).1
          · have hmem := List.mem_of_find?_eq_some hr
            have hholds : r.Holds a := by simpa using List.find?_some hr
            exact (test_toSoc (hfit r hmem) node a).mpr ⟨hholds, hend r hr⟩
        rw [busRanges_eq hp hcells, List.find?_map, hfind]
        cases hr : (rangesOf t node).find? fun r => r.Holds a with
        | none => rfl
        | some r =>
          have hmem := List.mem_of_find?_eq_some hr
          obtain ⟨hc, hpar, hcend, hpend⟩ := hfit r hmem
          have hholds : r.Holds a := by simpa using List.find?_some hr
          obtain ⟨h₁, h₂⟩ := hholds
          simp only [Option.map_some, BusRange.toSoc]
          rw [u32_of_lt hc, u32_of_lt hpar, sub32_of_le h₁ (by omega), u32_of_lt (by omega)]
  · rfl

/-! ## Paths -/

theorem length_pathUp (h : t.Reports) {path : List ℕ} {node : ℕ} (hpath : PathUp t node path) :
    path.length ≤ node := by
  induction path generalizing node with
  | nil => exact Nat.zero_le _
  | cons n ns ih =>
    obtain ⟨-, -, parent, hp, hns⟩ := hpath
    have hlt := h.parent_lt node parent hp
    have hle := ih hns
    rw [List.length_cons]
    omega

/-- **Along a path of plain buses** the address is the CPU address. -/
theorem getAdjustedAddressInt_eq {path : List ℕ} {fuel node a : ℕ} (hpath : PathUp t node path)
    (hfuel : path.length < fuel) (hfit : ∀ n ∈ path, ∀ r ∈ rangesOf t n, r.Fits) (hplain : Plain t path a) :
    getAdjustedAddressInt t (loadRanges t) fuel node a = cpuAddress t path a := by
  induction path generalizing fuel node a with
  | nil =>
    obtain ⟨fuel, rfl⟩ := Nat.exists_eq_succ_of_ne_zero (by omega : fuel ≠ 0)
    rw [getAdjustedAddressInt, if_pos (show node = t.root from hpath)]
    rfl
  | cons n ns ih =>
    obtain ⟨fuel, rfl⟩ := Nat.exists_eq_succ_of_ne_zero (by omega : fuel ≠ 0)
    obtain ⟨rfl, hroot, parent, hp, hns⟩ := hpath
    obtain ⟨hstep, hrest⟩ := hplain
    rw [getAdjustedAddressInt, if_neg hroot, hp]
    simp only
    rw [adjustAt_eq hp (hfit node List.mem_cons_self) hstep, ih hns (by simpa using hfuel)
      (fun m hm => hfit m (List.mem_cons_of_mem _ hm)) hrest]
    rfl

/-! ## `reg` -/

/-- The `i`-th address of the `reg` property of a node. -/
def regAddress (t : Fdt) (reg : FdtProp) (parent i : ℕ) : ℕ :=
  cellsValue t.blob (reg.addr + i * ((t.addressCells parent + t.sizeCells parent) * 4)) (t.addressCells parent)

theorem parseRegLoop_getElem? {sr : ℕ × List SocRange} {node acs scs : ℕ} {reg : FdtProp} :
    ∀ {fuel idx : ℕ} {calls : List (ℕ × ℕ)}, parseRegLoop t sr node acs scs reg fuel idx = some calls →
      ∀ i call, calls[i]? = some call →
        call.1 = getAdjustedAddress t sr node (readCells t.blob (reg.addr + (idx + i * ((acs + scs) * 4))) acs)
  | 0, idx, calls, h, i, call, hi => by
    rw [parseRegLoop] at h
    split_ifs at h
    obtain rfl := Option.some.inj h
    exact nomatch hi
  | fuel + 1, idx, calls, h, i, call, hi => by
    rw [parseRegLoop] at h
    split_ifs at h
    · obtain ⟨rest, hrest, rfl⟩ := Option.map_eq_some_iff.mp h
      cases i with
      | zero =>
        obtain rfl := Option.some.inj hi
        simp
      | succ i =>
        rw [parseRegLoop_getElem? hrest i call hi]
        congr 3
        ring
    · obtain rfl := Option.some.inj h
      exact nomatch hi

/-- **The addresses that `parse_reg` passes on**, where the buses above the node are plain. -/
theorem parseReg_address (h : t.Reports) {node parent : ℕ} {reg : FdtProp}
    (hp : t.parentOffset node = some parent) (hreg : t.getprop node "reg" = some reg)
    {calls : List (ℕ × ℕ)} (hcalls : parseReg t (loadRanges t) node parent = some calls)
    {path : List ℕ} (hpath : PathUp t parent path)
    (hfit : ∀ n ∈ path, ∀ r ∈ rangesOf t n, r.Fits) {i : ℕ} {call : ℕ × ℕ} (hi : calls[i]? = some call)
    (ha : regAddress t reg parent i < 2 ^ 32) (hplain : Plain t path (regAddress t reg parent i)) :
    call.1 = cpuAddress t path (regAddress t reg parent i) := by
  unfold parseReg at hcalls
  rw [hreg] at hcalls
  rcases hac : t.getprop parent "#address-cells" with _ | ac
  · rw [hac] at hcalls
    obtain rfl := Option.some.inj hcalls
    exact nomatch hi
  rcases hsc : t.getprop parent "#size-cells" with _ | sc
  · rw [hac, hsc] at hcalls
    obtain rfl := Option.some.inj hcalls
    exact nomatch hi
  rw [hac, hsc] at hcalls
  simp only [h.addressCells parent ac hac, h.sizeCells parent sc hsc] at hcalls
  rw [parseRegLoop_getElem? hcalls i call hi, readCells_eq, Nat.zero_add]
  change getAdjustedAddress t (loadRanges t) node (u32 (regAddress t reg parent i)) = _
  rw [u32_of_lt ha, getAdjustedAddress, hp]
  exact getAdjustedAddressInt_eq hpath (Nat.lt_succ_of_le (length_pathUp h hpath)) hfit hplain

/-! ## Buses with other addresses -/

/-- The words of a blob: `2`, `1` and `1` in the last cells of an entry, and else `0`. -/
def entryBlob (ac pac sc : ℕ) : Mem := fun a =>
  if a = 4 * ac - 1 then 2 else if a = 4 * (ac + pac) - 1 then 1
  else if a = 4 * (ac + pac + sc) - 1 then 1 else 0

/-- The tree with one entry of `ranges`, on the given bus: address `2` stands for `1` on the bus above. -/
def Fdt.withEntry (t : Fdt) (bus parent : ℕ) : Fdt :=
  { t with
    blob := entryBlob (t.addressCells bus) (t.addressCells parent) (t.sizeCells bus)
    getprop := fun node name => if node = bus ∧ name = "ranges" then some ⟨0, entrySize t bus parent⟩
      else none }

theorem readWordbe_entryBlob {ac pac sc : ℕ} (hac : 0 < ac) (hpac : 0 < pac) (hsc : 0 < sc) (i : ℕ) :
    readWordbe (entryBlob ac pac sc) (4 * i) = if i = ac - 1 then 2 else if i = ac + pac - 1 then 1
      else if i = ac + pac + sc - 1 then 1 else 0 := by
  have h0 : entryBlob ac pac sc (4 * i) = 0 := by
    unfold entryBlob
    split_ifs <;> first | omega | rfl
  have h1 : entryBlob ac pac sc (4 * i + 1) = 0 := by
    unfold entryBlob
    split_ifs <;> first | omega | rfl
  have h2 : entryBlob ac pac sc (4 * i + 2) = 0 := by
    unfold entryBlob
    split_ifs <;> first | omega | rfl
  have h3 : entryBlob ac pac sc (4 * i + 3) = if i = ac - 1 then 2 else if i = ac + pac - 1 then 1
      else if i = ac + pac + sc - 1 then 1 else 0 := by
    unfold entryBlob
    split_ifs <;> first | omega | rfl
  rw [readWordbe, h0, h1, h2, h3]
  split_ifs <;> rfl

theorem readCells_last (mem : Mem) (a : ℕ) {n : ℕ} (hn : 0 < n) :
    readCells mem a n = readWordbe mem (a + 4 * (n - 1)) := by
  obtain ⟨n, rfl⟩ := Nat.exists_eq_succ_of_ne_zero hn.ne'
  unfold readCells
  rw [List.range_succ, List.foldl_append]
  rfl

/-- A number of which all cells but the last are `0`. -/
theorem cellsValue_last {mem : Mem} {a n : ℕ} (hn : 0 < n)
    (h : ∀ i < n - 1, readWordbe mem (a + 4 * i) = 0) :
    cellsValue mem a n = readWordbe mem (a + 4 * (n - 1)) := by
  have hzero (k : ℕ) (hk : k ≤ n - 1) : cellsValue mem a k = 0 := by
    induction k with
    | zero => rfl
    | succ k ih =>
      have hprev := ih (by omega)
      unfold cellsValue at hprev ⊢
      rw [List.range_succ, List.foldl_append, hprev]
      simpa using h k (by omega)
  obtain ⟨n, rfl⟩ := Nat.exists_eq_succ_of_ne_zero hn.ne'
  have hprev := hzero n le_rfl
  unfold cellsValue at hprev ⊢
  rw [List.range_succ, List.foldl_append, hprev]
  simp

/-- The word of `entryBlob` with the given index. -/
def entryWord (ac pac sc i : ℕ) : ℕ :=
  if i = ac - 1 then 2 else if i = ac + pac - 1 then 1 else if i = ac + pac + sc - 1 then 1 else 0

section Entry

variable {ac pac sc : ℕ}

theorem readCells_entryBlob (hac : 0 < ac) (hpac : 0 < pac) (hsc : 0 < sc) (b : ℕ) {n : ℕ} (hn : 0 < n) :
    readCells (entryBlob ac pac sc) (4 * b) n = entryWord ac pac sc (b + (n - 1)) := by
  rw [readCells_last _ _ hn, ← Nat.mul_add, readWordbe_entryBlob hac hpac hsc]
  rfl

theorem cellsValue_entryBlob (hac : 0 < ac) (hpac : 0 < pac) (hsc : 0 < sc) (b : ℕ) {n : ℕ} (hn : 0 < n)
    (h : ∀ i < n - 1, entryWord ac pac sc (b + i) = 0) :
    cellsValue (entryBlob ac pac sc) (4 * b) n = entryWord ac pac sc (b + (n - 1)) := by
  rw [cellsValue_last hn fun i hi => ?_, ← Nat.mul_add, readWordbe_entryBlob hac hpac hsc]
  · rfl
  · rw [← Nat.mul_add, readWordbe_entryBlob hac hpac hsc]
    exact h i hi

/-- The entry, read with the cells of both buses. -/
theorem cellsValue_entry (hac : 0 < ac) (hpac : 0 < pac) (hsc : 0 < sc) :
    cellsValue (entryBlob ac pac sc) 0 ac = 2 ∧ cellsValue (entryBlob ac pac sc) (4 * ac) pac = 1 ∧
      cellsValue (entryBlob ac pac sc) (4 * ac + 4 * pac) sc = 1 := by
  refine ⟨?_, ?_, ?_⟩
  · rw [← Nat.mul_zero 4, cellsValue_entryBlob hac hpac hsc 0 hac fun i hi => ?_]
    · simp [entryWord]
    · unfold entryWord
      split_ifs <;> omega
  · rw [cellsValue_entryBlob hac hpac hsc ac hpac fun i hi => ?_]
    · unfold entryWord
      split_ifs <;> omega
    · unfold entryWord
      split_ifs <;> omega
  · rw [← Nat.mul_add, cellsValue_entryBlob hac hpac hsc (ac + pac) hsc fun i hi => ?_]
    · unfold entryWord
      split_ifs <;> omega
    · unfold entryWord
      split_ifs <;> omega

/-- What `load_ranges` reads from word `b` on: address `2` is not in it, or it gets to be `0`. -/
theorem entryWord_test {b : ℕ} (hac : 0 < ac) (hlt : ac < pac)
    (h : entryWord ac pac sc (b + (ac - 1)) ≤ 2 ∧ 2 < u32 (entryWord ac pac sc (b + (ac - 1)) +
      entryWord ac pac sc (b + ac + ac + (sc - 1)))) :
    entryWord ac pac sc (b + (ac - 1)) = 2 ∧ entryWord ac pac sc (b + ac + (ac - 1)) = 0 := by
  have hlen : entryWord ac pac sc (b + ac + ac + (sc - 1)) ≤ 1 := by
    unfold entryWord
    split_ifs <;> omega
  have hchild : entryWord ac pac sc (b + (ac - 1)) = 2 := by
    have hle := Nat.mod_le (entryWord ac pac sc (b + (ac - 1)) +
      entryWord ac pac sc (b + ac + ac + (sc - 1))) (2 ^ 32)
    have hlt := h.2
    unfold u32 at hlt
    omega
  have hb : b = 0 := by
    unfold entryWord at hchild
    split_ifs at hchild <;> omega
  refine ⟨hchild, ?_⟩
  unfold entryWord
  split_ifs <;> omega

end Entry

/-! ## A bus with other addresses -/

section WithEntry

variable {bus parent : ℕ}

theorem rangesOf_withEntry (hac : 0 < t.addressCells bus) (hpc : 0 < t.addressCells parent)
    (hsc : 0 < t.sizeCells bus) (hp : t.parentOffset bus = some parent) :
    rangesOf (t.withEntry bus parent) bus = [⟨2, 1, 1⟩] := by
  obtain ⟨h₁, h₂, h₃⟩ :=
    cellsValue_entry hac hpc hsc
  have hone : entrySize t bus parent / entrySize (t.withEntry bus parent) bus parent = 1 :=
    Nat.div_self (Nat.mul_pos (by omega) (by decide))
  have hprop : (t.withEntry bus parent).getprop bus "ranges" = some ⟨0, entrySize t bus parent⟩ :=
    if_pos ⟨rfl, rfl⟩
  have hparent : (t.withEntry bus parent).parentOffset bus = some parent := hp
  have hentry : readRange (t.withEntry bus parent) bus parent 0 = ⟨2, 1, 1⟩ := by
    simp only [readRange, Nat.zero_add, BusRange.mk.injEq]
    exact ⟨h₁, h₂, h₃⟩
  simp only [rangesOf, hprop, hparent, hone, List.range_one, List.map_singleton, Nat.zero_mul, Nat.zero_add,
    hentry]

theorem rangesOf_withEntry_ne {node : ℕ} (h : node ≠ bus) : rangesOf (t.withEntry bus parent) node = [] := by
  have hprop : (t.withEntry bus parent).getprop node "ranges" = none := if_neg fun hc => h hc.1
  rw [rangesOf, hprop]

theorem busRanges_withEntry_ne {node : ℕ} (h : node ≠ bus) :
    busRanges (t.withEntry bus parent) node = [] := by
  have hprop : (t.withEntry bus parent).getprop node "ranges" = none := if_neg fun hc => h hc.1
  rw [busRanges, hprop]

/-- One round of `load_ranges` on the bus. -/
theorem fillRanges_withEntry (hac : 0 < t.addressCells bus) (hpc : 0 < t.addressCells parent)
    (hsc : 0 < t.sizeCells bus) (k b : ℕ) :
    let w := entryWord (t.addressCells bus) (t.addressCells parent) (t.sizeCells bus)
    let ac := t.addressCells bus
    let sc := t.sizeCells bus
    fillRanges (t.withEntry bus parent) bus (k + 1) (4 * b) =
      ⟨bus, w (b + (ac - 1)), w (b + ac + (ac - 1)), w (b + ac + ac + (sc - 1))⟩ ::
        fillRanges (t.withEntry bus parent) bus k (4 * (b + ac + ac + sc)) := by
  have hcells (b n : ℕ) (hn : 0 < n) : readCells (t.withEntry bus parent).blob (4 * b) n =
      entryWord (t.addressCells bus) (t.addressCells parent) (t.sizeCells bus) (b + (n - 1)) :=
    readCells_entryBlob hac hpc hsc b hn
  have hac' : (t.withEntry bus parent).addressCells bus = t.addressCells bus := rfl
  have hsc' : (t.withEntry bus parent).sizeCells bus = t.sizeCells bus := rfl
  simp only [fillRanges, hac', hsc', ← Nat.mul_add]
  rw [hcells _ _ hac, hcells _ _ hac, hcells _ _ hsc]

/-- The entries that `load_ranges` finds on the bus. -/
theorem busRanges_withEntry (hac : 0 < t.addressCells bus) (hpc : 0 < t.addressCells parent)
    (hsc : 0 < t.sizeCells bus) (hne : t.addressCells bus ≠ t.addressCells parent) :
    ∀ r ∈ busRanges (t.withEntry bus parent) bus, r.test 2 = true → r.childAddr = 2 ∧ r.parentAddr = 0 := by
  have hprop : (t.withEntry bus parent).getprop bus "ranges" = some ⟨0, entrySize t bus parent⟩ :=
    if_pos ⟨rfl, rfl⟩
  have hbus : busRanges (t.withEntry bus parent) bus = fillRanges (t.withEntry bus parent) bus
      (numRanges t bus ⟨0, entrySize t bus parent⟩) (4 * 0) := by
    rw [busRanges, hprop]
    rfl
  rw [hbus]
  rcases Nat.lt_or_gt_of_ne hne with hlt | hgt
  · have hfill (k b : ℕ) : ∀ r ∈ fillRanges (t.withEntry bus parent) bus k (4 * b),
        r.test 2 = true → r.childAddr = 2 ∧ r.parentAddr = 0 := by
      induction k generalizing b with
      | zero => exact fun r hr => absurd hr List.not_mem_nil
      | succ k ih =>
        rw [fillRanges_withEntry hac hpc hsc]
        refine List.forall_mem_cons.mpr ⟨fun htest => ?_, ih _⟩
        exact entryWord_test hac hlt (of_decide_eq_true htest)
    exact hfill _ 0
  · -- no entry of the size that `load_ranges` expects is in the property
    have hnum : numRanges t bus ⟨0, entrySize t bus parent⟩ = 0 := by
      simp only [numRanges, entrySize]
      exact Nat.div_eq_of_lt (by omega)
    rw [hnum]
    exact fun r hr => absurd hr List.not_mem_nil

/-- The bus is not translated as its entry says. -/
theorem adjustAt_withEntry (hac : 0 < t.addressCells bus) (hpc : 0 < t.addressCells parent)
    (hsc : 0 < t.sizeCells bus) (hne : t.addressCells bus ≠ t.addressCells parent) :
    adjustAt (loadRanges (t.withEntry bus parent)) bus 2 ≠ 1 := by
  unfold adjustAt
  rw [find?_loadRanges]
  split_ifs
  · cases hr : (busRanges (t.withEntry bus parent) bus).find? (SocRange.test 2) with
    | none => exact (by decide : (2 : ℕ) ≠ 1)
    | some r =>
      obtain ⟨hchild, hpar⟩ := busRanges_withEntry hac hpc hsc hne r (List.mem_of_find?_eq_some hr)
        (List.find?_some hr)
      simp only [hchild, hpar]
      decide
  · exact (by decide : (2 : ℕ) ≠ 1)

/-- The other nodes leave an address as it is. -/
theorem adjustAt_withEntry_ne {node : ℕ} (hne : node ≠ bus) (a : ℕ) :
    adjustAt (loadRanges (t.withEntry bus parent)) node a = a ∧
      busAddress (t.withEntry bus parent) node a = a := by
  constructor
  · unfold adjustAt
    rw [find?_loadRanges, busRanges_withEntry_ne hne]
    split_ifs <;> rfl
  · unfold busAddress
    rw [rangesOf_withEntry_ne hne]
    split_ifs <;> rfl

theorem getAdjustedAddressInt_withEntry (h : t.Reports) {fuel node a : ℕ} (hlt : node < bus) :
    getAdjustedAddressInt (t.withEntry bus parent) (loadRanges (t.withEntry bus parent)) fuel node a = a := by
  induction fuel generalizing node with
  | zero => rfl
  | succ fuel ih =>
    rw [getAdjustedAddressInt, (adjustAt_withEntry_ne hlt.ne a).1]
    have hparent : (t.withEntry bus parent).parentOffset node = t.parentOffset node := rfl
    rw [hparent]
    split_ifs
    · rfl
    · cases hp : t.parentOffset node with
      | none => rfl
      | some above =>
        have habove := h.parent_lt node above hp
        exact ih (by omega)

theorem cpuAddress_withEntry {path : List ℕ} (hpath : ∀ n ∈ path, n ≠ bus) (a : ℕ) :
    cpuAddress (t.withEntry bus parent) path a = a := by
  induction path with
  | nil => rfl
  | cons n path ih =>
    rw [cpuAddress, List.foldl_cons, (adjustAt_withEntry_ne (hpath n List.mem_cons_self) a).2]
    exact ih fun m hm => hpath m (List.mem_cons_of_mem _ hm)

end WithEntry

theorem le_of_pathUp (h : t.Reports) {path : List ℕ} {node : ℕ} (hpath : PathUp t node path) :
    ∀ n ∈ path, n ≤ node := by
  induction path generalizing node with
  | nil => exact fun n hn => absurd hn List.not_mem_nil
  | cons m ms ih =>
    obtain ⟨rfl, -, parent, hp, hms⟩ := hpath
    have hlt := h.parent_lt node parent hp
    refine List.forall_mem_cons.mpr ⟨le_rfl, fun n hn => ?_⟩
    have hle := ih hms n hn
    omega

/-- **A bus with other addresses than the bus above**: with one entry, a node on it gets a wrong address. -/
theorem getAdjustedAddress_withEntry (h : t.Reports) {node bus parent : ℕ}
    (hbus : bus ∈ t.byCompatible "simple-bus") (hroot : bus ≠ t.root)
    (hnode : t.parentOffset node = some bus) (hp : t.parentOffset bus = some parent)
    (hac : 0 < t.addressCells bus) (hpc : 0 < t.addressCells parent) (hsc : 0 < t.sizeCells bus)
    (hne : t.addressCells bus ≠ t.addressCells parent) {path : List ℕ} (hpath : PathUp t parent path) :
    getAdjustedAddress (t.withEntry bus parent) (loadRanges (t.withEntry bus parent)) node 2 ≠
      cpuAddress (t.withEntry bus parent) (bus :: path) 2 := by
  have hlt := h.parent_lt bus parent hp
  have hspec : cpuAddress (t.withEntry bus parent) (bus :: path) 2 = 1 := by
    have hfirst : busAddress (t.withEntry bus parent) bus 2 = 1 := by
      unfold busAddress
      rw [if_pos (show bus ∈ (t.withEntry bus parent).byCompatible "simple-bus" from hbus),
        rangesOf_withEntry hac hpc hsc hp]
      rfl
    rw [cpuAddress, List.foldl_cons, hfirst]
    refine cpuAddress_withEntry (fun n hn => ?_) 1
    have hle := le_of_pathUp h hpath n hn
    omega
  have hcode : getAdjustedAddress (t.withEntry bus parent) (loadRanges (t.withEntry bus parent)) node 2 =
      adjustAt (loadRanges (t.withEntry bus parent)) bus 2 := by
    have hnode' : (t.withEntry bus parent).parentOffset node = some bus := hnode
    have hp' : (t.withEntry bus parent).parentOffset bus = some parent := hp
    rw [getAdjustedAddress, hnode']
    simp only
    rw [getAdjustedAddressInt, if_neg (show ¬ bus = (t.withEntry bus parent).root from hroot), hp']
    exact getAdjustedAddressInt_withEntry h hlt
  rw [hspec, hcode]
  exact adjustAt_withEntry hac hpc hsc hne

/-! ## Trees -/

/-- A root with addresses of `rootCells` cells, a simple bus with the given words in `ranges`, and a device
at `0x7e201000` of it. -/
def socTree (rootCells : ℕ) (words : List ℕ) : Fdt where
  blob a := (([1, 1, 0x7e201000, 0x200] ++ words).flatMap fun w => (toBytes 4 w).reverse).getD a 0
  root := 0
  getprop node name :=
    if node = 1 ∧ name = "#address-cells" then some ⟨0, 4⟩
    else if node = 1 ∧ name = "#size-cells" then some ⟨4, 4⟩
    else if node = 2 ∧ name = "reg" then some ⟨8, 8⟩
    else if node = 1 ∧ name = "ranges" then some ⟨16, 4 * words.length⟩
    else none
  parentOffset node := if node = 2 then some 1 else if node = 1 then some 0 else none
  addressCells node := if node = 0 then rootCells else 1
  sizeCells _ := 1
  byCompatible _ := [1]

/-- With two cells for the addresses on the root, the device is not found. -/
theorem dt_translation_broken :
    parseReg (socTree 2 [0x7e000000, 0, 0xfe000000, 0x1800000])
        (loadRanges (socTree 2 [0x7e000000, 0, 0xfe000000, 0x1800000])) 2 1 = some [(0x7e201000, 0x200)] ∧
      cpuAddress (socTree 2 [0x7e000000, 0, 0xfe000000, 0x1800000]) [1]
        (regAddress (socTree 2 [0x7e000000, 0, 0xfe000000, 0x1800000]) ⟨8, 8⟩ 1 0) = 0xfe201000 := by
  decide +kernel

/-- **Device-tree addresses.** The addresses that `parse_reg` passes on are the CPU addresses, where the
simple buses above the node have addresses of as many cells as the buses above them, and no range ends
at `2 ^ 32` with the address in it. Where a simple bus has addresses of another number of cells than the
bus above, there are ranges with which a node on it gets a wrong address. -/
theorem dt_translation_iff (t : Fdt) :
    (t.Reports → ∀ node parent reg, t.parentOffset node = some parent →
      t.getprop node "reg" = some reg → ∀ path, PathUp t parent path →
      (∀ n ∈ path, ∀ r ∈ rangesOf t n, r.Fits) → ∀ calls, parseReg t (loadRanges t) node parent = some calls →
      ∀ i call, calls[i]? = some call → regAddress t reg parent i < 2 ^ 32 →
      Plain t path (regAddress t reg parent i) → call.1 = cpuAddress t path (regAddress t reg parent i)) ∧
    (t.Reports → ∀ node bus parent path, bus ∈ t.byCompatible "simple-bus" → bus ≠ t.root →
      t.parentOffset node = some bus → t.parentOffset bus = some parent → PathUp t parent path →
      0 < t.addressCells bus → 0 < t.addressCells parent → 0 < t.sizeCells bus →
      t.addressCells bus ≠ t.addressCells parent →
      ∃ blob getprop, let t' := { t with blob, getprop }
        (∀ n, ∀ r ∈ rangesOf t' n, r.Fits ∧ r.child + r.length < 2 ^ 32) ∧
        getAdjustedAddress t' (loadRanges t') node 2 ≠ cpuAddress t' (bus :: path) 2) := by
  constructor
  · intro h node parent reg hp hreg path hpath hfit calls hcalls i call hi ha hplain
    exact parseReg_address h hp hreg hcalls hpath hfit hi ha hplain
  · intro h node bus parent path hbus hroot hnode hp hpath hac hpc hsc hne
    refine ⟨(t.withEntry bus parent).blob, (t.withEntry bus parent).getprop, fun n r hr => ?_,
      getAdjustedAddress_withEntry h hbus hroot hnode hp hac hpc hsc hne hpath⟩
    by_cases hn : n = bus
    · subst hn
      have hr' : r ∈ rangesOf (t.withEntry n parent) n := hr
      rw [rangesOf_withEntry hac hpc hsc hp] at hr'
      rw [List.mem_singleton.mp hr']
      exact ⟨⟨by decide, by decide, by decide, by decide⟩, by decide⟩
    · have hr' : r ∈ rangesOf (t.withEntry bus parent) n := hr
      rw [rangesOf_withEntry_ne hn] at hr'
      exact absurd hr' List.not_mem_nil

theorem socTree_reports : (socTree 1 [0x7e000000, 0x20000000, 0x1000000]).Reports where
  parent_lt node parent h := by
    simp only [socTree] at h
    split_ifs at h <;> cases h <;> omega
  addressCells node prop h := by
    simp only [socTree, String.reduceEq, and_true, and_false, if_false] at h
    split_ifs at h with hnode
    obtain rfl := Option.some.inj h
    subst hnode
    decide +kernel
  sizeCells node prop h := by
    simp only [socTree, String.reduceEq, and_true, and_false, if_false] at h
    split_ifs at h with hnode
    obtain rfl := Option.some.inj h
    subst hnode
    decide +kernel

/-- The device on a bus with one range, where all addresses have one cell. -/
theorem dt_translation_iff_oneCell :
    ∀ calls, parseReg (socTree 1 [0x7e000000, 0x20000000, 0x1000000])
        (loadRanges (socTree 1 [0x7e000000, 0x20000000, 0x1000000])) 2 1 = some calls →
      ∀ call, calls[0]? = some call → call.1 = 0x20201000 := by
  intro calls hcalls call hcall
  have hcpu : cpuAddress (socTree 1 [0x7e000000, 0x20000000, 0x1000000]) [1]
      (regAddress (socTree 1 [0x7e000000, 0x20000000, 0x1000000]) ⟨8, 8⟩ 1 0) = 0x20201000 := by
    decide +kernel
  have hranges : rangesOf (socTree 1 [0x7e000000, 0x20000000, 0x1000000]) 1 =
      [⟨0x7e000000, 0x20000000, 0x1000000⟩] := by decide +kernel
  rw [← hcpu]
  refine (dt_translation_iff _).1 socTree_reports 2 1 ⟨8, 8⟩ rfl (by decide) [1]
    ⟨rfl, by decide, 0, rfl, rfl⟩ (fun n hn r hr => ?_) calls hcalls 0 call hcall (by decide +kernel)
    ⟨fun _ ranges _ parent hp => ⟨Or.inr (Or.inr ?_), fun r hr => ?_⟩, trivial⟩
  · rw [List.mem_singleton.mp hn, hranges] at hr
    rw [List.mem_singleton.mp hr]
    exact ⟨by decide, by decide, by decide, by decide⟩
  · obtain rfl : 0 = parent := Option.some.inj hp
    rfl
  · have hmem := List.mem_of_find?_eq_some hr
    rw [hranges] at hmem
    rw [List.mem_singleton.mp hmem]
    decide

end RpiBoot
