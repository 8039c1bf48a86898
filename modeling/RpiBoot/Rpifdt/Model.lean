import RpiBoot.Copy

/-!
# Device trees (`rpifdt.c`)

The functions of `libfdt` are a parameter (`Fdt`). Values of properties lie in the blob, and numbers in
it are big-endian words, the cells.

* `readCells`: a number of several cells, of which the last one is kept.
* `loadRanges`: the ranges of all simple buses, in one table.
* `getAdjustedAddress`: an address, from the bus of a node up to the root.
* `parseReg`: the calls of the callback for the `reg` property of a node.
-/

namespace RpiBoot

open Store

/-- A property: where its value lies, and its length. -/
structure FdtProp where
  addr : ℕ
  plen : ℕ
deriving DecidableEq

/-- A device tree as `libfdt` reports it: a node is its offset, and `none` an error. -/
structure Fdt where
  blob : Mem
  /-- `fdt_path_offset(dtb, "/")`. -/
  root : ℕ
  getprop : ℕ → String → Option FdtProp
  parentOffset : ℕ → Option ℕ
  addressCells : ℕ → ℕ
  sizeCells : ℕ → ℕ
  /-- The nodes that `fdt_node_offset_by_compatible` finds, one after another. -/
  byCompatible : String → List ℕ

/-- `read_wordbe(buf, offset)`. -/
def readWordbe (mem : Mem) (a : ℕ) : ℕ :=
  (mem (a + 3)).toNat ||| (mem (a + 2)).toNat <<< 8 ||| (mem (a + 1)).toNat <<< 16 |||
    (mem a).toNat <<< 24

/-- The loop over the cells of a number: the last one is kept. -/
def readCells (mem : Mem) (a n : ℕ) : ℕ :=
  (List.range n).foldl (fun _ i => readWordbe mem (a + 4 * i)) 0

/-! ## Ranges -/

/-- `struct soc_range`. -/
structure SocRange where
  socNode : ℕ
  childAddr : ℕ
  parentAddr : ℕ
  length : ℕ
deriving DecidableEq

section Ranges

variable (t : Fdt)

/-- The number of ranges that `load_ranges` finds in a property of the bus: it takes the parent address
for one of the bus itself. -/
def numRanges (soc : ℕ) (ranges : FdtProp) : ℕ :=
  ranges.plen / ((2 * t.addressCells soc + t.sizeCells soc) * 4)

/-- The first pass of `load_ranges`: the number of items. -/
def countRanges : List ℕ → ℕ
  | [] => 0
  | soc :: socs =>
    (match t.getprop soc "ranges" with
      | some ranges => numRanges t soc ranges
      | none => 0) + countRanges socs

/-- The loop of the second pass over the ranges of a bus, from an address in the blob on. -/
def fillRanges (soc : ℕ) : ℕ → ℕ → List SocRange
  | 0, _ => []
  | k + 1, a =>
    let ac := t.addressCells soc
    let sc := t.sizeCells soc
    ⟨soc, readCells t.blob a ac, readCells t.blob (a + 4 * ac) ac,
      readCells t.blob (a + 4 * ac + 4 * ac) sc⟩ :: fillRanges soc k (a + 4 * ac + 4 * ac + 4 * sc)

/-- The ranges of one bus. -/
def busRanges (soc : ℕ) : List SocRange :=
  match t.getprop soc "ranges" with
  | some ranges => fillRanges t soc (numRanges t soc ranges) ranges.addr
  | none => []

/-- `load_ranges(dtb)`: `sr_items` and the table. -/
def loadRanges : ℕ × List SocRange :=
  (countRanges t (t.byCompatible "simple-bus"), (t.byCompatible "simple-bus").flatMap (busRanges t))

end Ranges

/-! ## Addresses -/

section Addresses

variable (t : Fdt) (sr : ℕ × List SocRange)

/-- The loop over the table: the address on the bus above, by the first range that holds it. -/
def adjustAt (node addr : ℕ) : ℕ :=
  match (sr.2.take sr.1).find? fun r =>
      r.socNode = node ∧ addr ≥ r.childAddr ∧ addr < u32 (r.childAddr + r.length) with
  | some r => u32 (sub32 addr r.childAddr + r.parentAddr)
  | none => addr

/-- `get_adjusted_address_int(dtb, node, addr)`; the fuel counts the nodes up to the root. -/
def getAdjustedAddressInt : ℕ → ℕ → ℕ → ℕ
  | 0, _, addr => addr
  | fuel + 1, node, addr =>
    if node = t.root then addr
    else
      let addr := adjustAt sr node addr
      match t.parentOffset node with
      | some parent => getAdjustedAddressInt fuel parent addr
      | none => addr

/-- `get_adjusted_address(dtb, node, addr)`; the offset of a parent is below that of its node. -/
def getAdjustedAddress (node addr : ℕ) : ℕ :=
  match t.parentOffset node with
  | some parent => getAdjustedAddressInt t sr (parent + 1) parent addr
  | none => addr

/-- The loop of `parse_reg`, from index `idx` of the property on: the arguments of the callback. Without
cells it does not end: `none`. -/
def parseRegLoop (node acs scs : ℕ) (reg : FdtProp) : ℕ → ℕ → Option (List (ℕ × ℕ))
  | 0, idx => if idx < reg.plen then none else some []
  | fuel + 1, idx =>
    if idx < reg.plen then
      let addr := readCells t.blob (reg.addr + idx) acs
      let len := readCells t.blob (reg.addr + idx + 4 * acs) scs
      (parseRegLoop node acs scs reg fuel (idx + 4 * acs + 4 * scs)).map
        ((getAdjustedAddress t sr node addr, len) :: ·)
    else some []

/-- `parse_reg(dtb, node, parent, cb)`: the arguments of the calls of `cb`. -/
def parseReg (node parent : ℕ) : Option (List (ℕ × ℕ)) :=
  match t.getprop node "reg", t.getprop parent "#address-cells", t.getprop parent "#size-cells" with
  | some reg, some ac, some sc =>
    -- the numbers of cells are of type `int`
    let acs := (i32 (readWordbe t.blob ac.addr)).toNat
    let scs := (i32 (readWordbe t.blob sc.addr)).toNat
    parseRegLoop t sr node acs scs reg reg.plen 0
  | _, _, _ => some []

end Addresses

end RpiBoot
