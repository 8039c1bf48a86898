import RpiBoot.Rpifdt.Ranges

/-!
# The entries of a `reg` property

`parse_reg` tests once for an entry whether there is more of the property, and goes by the numbers of
cells, taken for `int`s.

* `parseRegChecked`: `parse_reg`, with no read but of the property.
* `regEntries`: the addresses and lengths that the property has room for.
* `RegParsed`: the call returns, reads the property only, and passes on the entries.
* **`parse_reg_iff`**: it does just when the length is a whole number of entries.
-/

namespace RpiBoot

open Store

section Reads

variable (t : Fdt) (reg : FdtProp)

/-- A cell of the property. -/
def regWord (idx : ℕ) : Option ℕ :=
  if idx + 4 ≤ reg.plen then some (readWordbe t.blob (reg.addr + idx)) else none

/-- The loop over the cells of a number, from index `idx` on: the last one is kept. -/
def regCells : (n idx val : ℕ) → Option ℕ
  | 0, _, val => some val
  | n + 1, idx, _ => (regWord t reg idx).bind fun val => regCells n (idx + 4) val

/-- The loop of `parse_reg`, with no read but of the property. -/
def parseRegLoopChecked (sr : ℕ × List SocRange) (node acs scs : ℕ) : ℕ → ℕ → Option (List (ℕ × ℕ))
  | 0, idx => if idx < reg.plen then none else some []
  | fuel + 1, idx =>
    if idx < reg.plen then
      (regCells t reg acs idx 0).bind fun addr =>
        (regCells t reg scs (idx + 4 * acs) 0).bind fun len =>
          (parseRegLoopChecked sr node acs scs fuel (idx + 4 * acs + 4 * scs)).map
            ((getAdjustedAddress t sr node addr, len) :: ·)
    else some []

end Reads

section Parse

variable (t : Fdt) (sr : ℕ × List SocRange) (node parent : ℕ)

/-- `parse_reg(dtb, node, parent, cb)`, with no read but of the property. -/
def parseRegChecked : Option (List (ℕ × ℕ)) :=
  match t.getprop node "reg", t.getprop parent "#address-cells", t.getprop parent "#size-cells" with
  | some reg, some ac, some sc =>
    let acs := (i32 (readWordbe t.blob ac.addr)).toNat
    let scs := (i32 (readWordbe t.blob sc.addr)).toNat
    parseRegLoopChecked t reg sr node acs scs reg.plen 0
  | _, _, _ => some []

/-- The entry at index `idx` of the property, with numbers of `acs` and `scs` cells: their least
significant 32 bits, the address translated as the bus of the node demands. -/
def regEntry (reg : FdtProp) (acs scs idx : ℕ) : ℕ × ℕ :=
  (getAdjustedAddress t sr node (u32 (cellsValue t.blob (reg.addr + idx) acs)),
    u32 (cellsValue t.blob (reg.addr + idx + 4 * acs) scs))

/-- All entries of the property. -/
def regEntries : List (ℕ × ℕ) :=
  match t.getprop node "reg", t.getprop parent "#address-cells", t.getprop parent "#size-cells" with
  | some reg, some ac, some sc =>
    let acs := readWordbe t.blob ac.addr
    let scs := readWordbe t.blob sc.addr
    (List.range (reg.plen / (4 * (acs + scs)))).map fun k =>
      regEntry t sr node reg acs scs (k * (4 * (acs + scs)))
  | _, _, _ => []

/-- The call returns, passes on the entries of the property, and reads nothing else. -/
structure RegParsed : Prop where
  calls_eq : parseReg t sr node parent = some (regEntries t sr node parent)
  reads : (parseRegChecked t sr node parent).isSome

/-- The length of the property is a whole number of entries. -/
def WholeEntries : Prop :=
  ∀ reg ac sc, t.getprop node "reg" = some reg → t.getprop parent "#address-cells" = some ac →
    t.getprop parent "#size-cells" = some sc →
    4 * (readWordbe t.blob ac.addr + readWordbe t.blob sc.addr) ∣ reg.plen

end Parse

variable {t : Fdt} {reg : FdtProp} {sr : ℕ × List SocRange} {node parent acs scs : ℕ}

/-! ## The loops -/

theorem readCells_succ (mem : Mem) (a n : ℕ) : readCells mem a (n + 1) = readWordbe mem (a + 4 * n) := by
  rw [readCells, List.range_succ, List.foldl_append]
  rfl

theorem regCells_succ (n idx v : ℕ) : regCells t reg (n + 1) idx v =
    if idx + 4 * (n + 1) ≤ reg.plen then some (readCells t.blob (reg.addr + idx) (n + 1)) else none := by
  induction n generalizing idx v with
  | zero =>
    rw [regCells, regWord, readCells_succ]
    split_ifs <;> rfl
  | succ n ih =>
    have hcell : reg.addr + (idx + 4) + 4 * n = reg.addr + idx + 4 * (n + 1) := by omega
    rw [regCells, regWord, readCells_succ]
    split_ifs with hword hall hall
    · rw [Option.bind_some, ih, if_pos (by omega), readCells_succ, hcell]
    · rw [Option.bind_some, ih, if_neg (by omega)]
    · omega
    · rfl

/-- A number is read when all of its cells are in the property. -/
theorem regCells_eq_some {n idx val : ℕ} : regCells t reg n idx 0 = some val ↔
    (n ≠ 0 → idx + 4 * n ≤ reg.plen) ∧ readCells t.blob (reg.addr + idx) n = val := by
  cases n with
  | zero => simp [regCells, readCells]
  | succ n =>
    rw [regCells_succ, Option.ite_none_right_eq_some, Option.some.injEq]
    simp

/-- The entry that a round of `parse_reg` passes on. -/
theorem regEntry_eq (idx : ℕ) : regEntry t sr node reg acs scs idx =
    (getAdjustedAddress t sr node (readCells t.blob (reg.addr + idx) acs),
      readCells t.blob (reg.addr + idx + 4 * acs) scs) := by
  rw [regEntry, readCells_eq, readCells_eq]

/-- **One round** that reads the property only: there is room for an entry, if it has cells. -/
theorem parseRegLoopChecked_succ {fuel idx : ℕ} {calls : List (ℕ × ℕ)} (hidx : idx < reg.plen) :
    parseRegLoopChecked t reg sr node acs scs (fuel + 1) idx = some calls ↔
      (acs + scs ≠ 0 → idx + 4 * (acs + scs) ≤ reg.plen) ∧
        ∃ rest, parseRegLoopChecked t reg sr node acs scs fuel (idx + 4 * (acs + scs)) = some rest ∧
          regEntry t sr node reg acs scs idx :: rest = calls := by
  have hnext : idx + 4 * acs + 4 * scs = idx + 4 * (acs + scs) := by omega
  have hlen : reg.addr + (idx + 4 * acs) = reg.addr + idx + 4 * acs := by omega
  rw [parseRegLoopChecked, if_pos hidx, regEntry_eq]
  simp only [Option.bind_eq_some_iff, Option.map_eq_some_iff, regCells_eq_some, hnext, hlen]
  constructor
  · rintro ⟨_, ⟨hacs, rfl⟩, _, ⟨hscs, rfl⟩, hrest⟩
    exact ⟨fun _ => by omega, hrest⟩
  · rintro ⟨hroom, hrest⟩
    exact ⟨_, ⟨fun _ => by omega, rfl⟩, _, ⟨fun _ => by omega, rfl⟩, hrest⟩

/-- What is passed on without a read of anything else is passed on by `parse_reg`. -/
theorem parseRegLoop_of_checked : ∀ {fuel idx : ℕ} {calls : List (ℕ × ℕ)},
    parseRegLoopChecked t reg sr node acs scs fuel idx = some calls →
      parseRegLoop t sr node acs scs reg fuel idx = some calls := by
  intro fuel
  induction fuel with
  | zero => exact fun h => h
  | succ fuel ih =>
    intro idx calls h
    by_cases hidx : idx < reg.plen
    · obtain ⟨-, rest, hrest, rfl⟩ := (parseRegLoopChecked_succ hidx).mp h
      have hlen : reg.addr + (idx + 4 * acs) = reg.addr + idx + 4 * acs := by omega
      have hnext : idx + 4 * acs + 4 * scs = idx + 4 * (acs + scs) := by omega
      rw [parseRegLoop, if_pos hidx, hnext, ih hrest, regEntry_eq]
      rfl
    · rw [parseRegLoopChecked, if_neg hidx] at h
      rw [parseRegLoop, if_neg hidx, h]

/-- A run that reads the property only ends at its end. -/
theorem dvd_of_checked : ∀ {fuel idx : ℕ} {calls : List (ℕ × ℕ)}, idx ≤ reg.plen →
    parseRegLoopChecked t reg sr node acs scs fuel idx = some calls →
      4 * (acs + scs) ∣ reg.plen - idx := by
  intro fuel
  induction fuel with
  | zero =>
    intro idx calls hidx h
    rw [parseRegLoopChecked] at h
    split_ifs at h with hlt
    rw [Nat.sub_eq_zero_of_le (not_lt.mp hlt)]
    exact dvd_zero _
  | succ fuel ih =>
    intro idx calls hidx h
    rcases Nat.eq_or_lt_of_le hidx with rfl | hlt
    · rw [Nat.sub_self]
      exact dvd_zero _
    · obtain ⟨hroom, rest, hrest, -⟩ := (parseRegLoopChecked_succ hlt).mp h
      have hle : idx + 4 * (acs + scs) ≤ reg.plen := by omega
      have hsplit : reg.plen - idx = reg.plen - (idx + 4 * (acs + scs)) + 4 * (acs + scs) := by omega
      rw [hsplit]
      exact (Nat.dvd_add_self_right).mpr (ih hle hrest)

/-- **The run over whole entries.** -/
theorem checked_of_entries (hcells : acs + scs ≠ 0) : ∀ {k fuel idx : ℕ},
    idx + k * (4 * (acs + scs)) = reg.plen → k ≤ fuel →
      parseRegLoopChecked t reg sr node acs scs fuel idx = some ((List.range k).map fun i =>
        regEntry t sr node reg acs scs (idx + i * (4 * (acs + scs)))) := by
  intro k
  induction k with
  | zero =>
    intro fuel idx hidx _
    have hstop : ¬ idx < reg.plen := by omega
    cases fuel with
    | zero => exact if_neg hstop
    | succ fuel => exact if_neg hstop
  | succ k ih =>
    intro fuel idx hidx hfuel
    cases fuel with
    | zero => exact absurd hfuel (Nat.not_succ_le_zero _)
    | succ fuel =>
      rw [Nat.succ_mul] at hidx
      have hlt : idx < reg.plen := by omega
      refine (parseRegLoopChecked_succ hlt).mpr ⟨fun _ => by omega, _,
        ih (by omega) (Nat.le_of_succ_le_succ hfuel), ?_⟩
      rw [List.range_succ_eq_map, List.map_cons, List.map_map, Nat.zero_mul, Nat.add_zero]
      refine congrArg _ (List.map_congr_left fun i _ => congrArg _ ?_)
      have hstep : i.succ * (4 * (acs + scs)) = i * (4 * (acs + scs)) + 4 * (acs + scs) := Nat.succ_mul i _
      omega

/-! ## `parse_reg` -/

theorem toNat_i32 {n : ℕ} (h : n < 2 ^ 31) : (i32 n).toNat = n := by
  rw [i32_of_lt h, Int.toNat_natCast]

/-- A property with something in it is an entry at least, or the loop does not end. -/
theorem parseRegLoop_ne_nil (h : 0 < reg.plen) (fuel : ℕ) :
    parseRegLoop t sr node acs scs reg fuel 0 ≠ some [] := by
  intro hnil
  cases fuel with
  | zero =>
    rw [parseRegLoop, if_pos h] at hnil
    cases hnil
  | succ fuel =>
    rw [parseRegLoop, if_pos h] at hnil
    obtain ⟨rest, -, hcons⟩ := Option.map_eq_some_iff.mp hnil
    cases hcons

/-- Whole entries are read, also if they have no cells. -/
theorem checked_of_dvd (h : 4 * (acs + scs) ∣ reg.plen) :
    parseRegLoopChecked t reg sr node acs scs reg.plen 0 =
      some ((List.range (reg.plen / (4 * (acs + scs)))).map fun k =>
        regEntry t sr node reg acs scs (k * (4 * (acs + scs)))) := by
  by_cases hcells : acs + scs = 0
  · rw [hcells, Nat.mul_zero, zero_dvd_iff] at h
    rw [h, Nat.zero_div]
    exact if_neg (by omega)
  · refine (checked_of_entries hcells ((Nat.zero_add _).trans (Nat.div_mul_cancel h))
      (Nat.div_le_self _ _)).trans ?_
    simp only [Nat.zero_add]

/-- The three properties are there. -/
theorem regParsed_iff {ac sc : FdtProp} (hreg : t.getprop node "reg" = some reg)
    (hac : t.getprop parent "#address-cells" = some ac) (hsc : t.getprop parent "#size-cells" = some sc)
    (hplen : reg.plen < 2 ^ 31) : RegParsed t sr node parent ↔
      4 * (readWordbe t.blob ac.addr + readWordbe t.blob sc.addr) ∣ reg.plen := by
  have hcall : parseReg t sr node parent = parseRegLoop t sr node (i32 (readWordbe t.blob ac.addr)).toNat
      (i32 (readWordbe t.blob sc.addr)).toNat reg reg.plen 0 := by
    rw [parseReg, hreg, hac, hsc]
  have hchecked : parseRegChecked t sr node parent = parseRegLoopChecked t reg sr node
      (i32 (readWordbe t.blob ac.addr)).toNat (i32 (readWordbe t.blob sc.addr)).toNat reg.plen 0 := by
    rw [parseRegChecked, hreg, hac, hsc]
  have hentries : regEntries t sr node parent =
      (List.range (reg.plen / (4 * (readWordbe t.blob ac.addr + readWordbe t.blob sc.addr)))).map fun k =>
        regEntry t sr node reg (readWordbe t.blob ac.addr) (readWordbe t.blob sc.addr)
          (k * (4 * (readWordbe t.blob ac.addr + readWordbe t.blob sc.addr))) := by
    rw [regEntries, hreg, hac, hsc]
  generalize readWordbe t.blob ac.addr = acs at *
  generalize readWordbe t.blob sc.addr = scs at *
  by_cases hsmall : acs < 2 ^ 31 ∧ scs < 2 ^ 31
  · rw [toNat_i32 hsmall.1, toNat_i32 hsmall.2] at hcall hchecked
    constructor
    · rintro ⟨-, hreads⟩
      obtain ⟨calls, hcalls⟩ := Option.isSome_iff_exists.mp hreads
      exact dvd_of_checked (Nat.zero_le _) (hchecked.symm.trans hcalls)
    · intro hdvd
      have hrun : parseRegLoopChecked t reg sr node acs scs reg.plen 0 = some (regEntries t sr node parent) := by
        rw [hentries]
        exact checked_of_dvd hdvd
      refine ⟨hcall.trans (parseRegLoop_of_checked hrun), ?_⟩
      rw [hchecked, hrun]
      rfl
  · -- a negative number of cells counts as none
    have hbig : 2 ^ 33 ≤ 4 * (acs + scs) := by omega
    rw [Nat.div_eq_of_lt (by omega), List.range_zero, List.map_nil] at hentries
    constructor
    · rintro ⟨hcalls, -⟩
      rw [hcall, hentries] at hcalls
      have hzero : reg.plen = 0 := by
        by_contra hne
        exact parseRegLoop_ne_nil (Nat.pos_of_ne_zero hne) _ hcalls
      rw [hzero]
      exact dvd_zero _
    · intro hdvd
      have hzero : reg.plen = 0 := by
        by_contra hne
        have := Nat.le_of_dvd (Nat.pos_of_ne_zero hne) hdvd
        omega
      rw [hzero] at hcall hchecked
      have hnone : ¬ 0 < reg.plen := by omega
      refine ⟨?_, ?_⟩
      · rw [hcall, hentries]
        exact if_neg hnone
      · rw [hchecked, parseRegLoopChecked, if_neg hnone]
        rfl

/-- A `reg` property of one cell where an entry has two: the next cell of the blob is read for its length,
and passed on. -/
theorem parse_reg_broken : ¬ RegParsed { socTree 1 [] with
    getprop := fun node name => if node = 2 ∧ name = "reg" then some ⟨8, 4⟩ else (socTree 1 []).getprop node name }
    (0, []) 2 1 := by
  rintro ⟨-, h⟩
  revert h
  decide +kernel

/-- **The entries of a property.** For every node, `parse_reg` returns, reads the `reg` property only and
passes on its entries if and only if its length is a whole number of them. -/
theorem parse_reg_iff (hplen : ∀ reg, t.getprop node "reg" = some reg → reg.plen < 2 ^ 31) :
    RegParsed t sr node parent ↔ WholeEntries t node parent := by
  rcases hreg : t.getprop node "reg" with _ | reg
  · refine iff_of_true ⟨?_, ?_⟩ fun reg ac sc h => nomatch hreg.symm.trans h
    · rw [parseReg, regEntries, hreg]
    · rw [parseRegChecked, hreg]
      rfl
  rcases hac : t.getprop parent "#address-cells" with _ | ac
  · refine iff_of_true ⟨?_, ?_⟩ fun reg ac sc _ h => nomatch hac.symm.trans h
    · rw [parseReg, regEntries, hreg, hac]
    · rw [parseRegChecked, hreg, hac]
      rfl
  rcases hsc : t.getprop parent "#size-cells" with _ | sc
  · refine iff_of_true ⟨?_, ?_⟩ fun reg ac sc _ _ h => nomatch hsc.symm.trans h
    · rw [parseReg, regEntries, hreg, hac, hsc]
    · rw [parseRegChecked, hreg, hac, hsc]
      rfl
  rw [regParsed_iff hreg hac hsc (hplen reg hreg)]
  constructor
  · intro hdvd reg' ac' sc' hreg' hac' hsc'
    cases hreg.symm.trans hreg'
    cases hac.symm.trans hac'
    cases hsc.symm.trans hsc'
    exact hdvd
  · exact fun h => h reg ac sc hreg hac hsc

/-- A device with three ranges of registers. -/
def threeRanges : Fdt := { socTree 1 [0x7e202000, 0x100, 0x7e203000, 0x80] with
  getprop := fun node name => if node = 2 ∧ name = "reg" then some ⟨8, 24⟩ else (socTree 1 []).getprop node name }

/-- All three are passed on. -/
theorem parse_reg_iff_three : RegParsed threeRanges (0, []) 2 1 ∧ parseReg threeRanges (0, []) 2 1 =
    some [(0x7e201000, 0x200), (0x7e202000, 0x100), (0x7e203000, 0x80)] := by
  refine ⟨(parse_reg_iff fun reg hreg => ?_).mpr fun reg ac sc hreg hac hsc => ?_, by decide +kernel⟩
  · obtain rfl : ⟨8, 24⟩ = reg := Option.some.inj hreg
    decide
  · obtain rfl : ⟨8, 24⟩ = reg := Option.some.inj hreg
    obtain rfl : ⟨0, 4⟩ = ac := Option.some.inj hac
    obtain rfl : ⟨4, 4⟩ = sc := Option.some.inj hsc
    decide +kernel

end RpiBoot
