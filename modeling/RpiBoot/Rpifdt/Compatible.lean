import Mathlib.Data.List.TakeWhile
import RpiBoot.Atag
import RpiBoot.Lib.Search

/-!
# Finding devices (`parse_dtb_compatible` of `rpifdt.c`)

The nodes of a device tree are gone through, and a string is searched for in the `compatible` property of
each. `strstr` takes the property for one string, and a null pointer for one too.

* `parseDtbCompatible`: the walk, with the searches and the calls of the callback in order.
* `Subnodes`, `FdtNodes.Lists`: the tree that `libfdt` reports; `visits`: its nodes, depth first.
* `propStrings`: the strings of a property. `CompatFound`: the calls are for the nodes that have the
  string in one of them, and no property is searched that is not there.
* **`compat_search_iff`**: that holds just when every node has the property, and the string is in the
  first of its strings if in any.
-/

namespace RpiBoot

open Store

/-- `strstr(h, needle)`: whether there is something to find; `none` when neither the string nor its end is
found in `n` characters. What is found at address `0`, where only nodes without the property are searched,
is the null pointer to the code. -/
def strstr (n : ℕ) (mem : Mem) (h : ℕ) (needle : List UInt8) : Option Bool := search 0 mem needle n h

/-- A property is searched, or the callback is called for a node and its parent. -/
inductive CompatEvent where
  | search (node : ℕ)
  | call (node parent : ℕ)
deriving DecidableEq

section Walk

/- The memory at address `0`, and the string, which may be a null pointer. -/
variable (t : FdtNodes) (low : Mem) (compat : Option (List UInt8)) (n : ℕ)

/-- `strstr(haystack, compat)` of the `compatible` property of a node, which may be a null pointer. -/
def searchNode (compat : List UInt8) (node : ℕ) : Option Bool :=
  match t.getprop node "compatible" with
  | some haystack => strstr n t.blob haystack.addr compat
  | none => strstr n low 0 compat

/-- The lines of `parse_dtb_compatible_helper` for one node. -/
def compatNode (node parent : ℕ) : Option (List CompatEvent) :=
  match compat with
  | none => some []
  | some compat => (searchNode t low n compat node).map fun found =>
      .search node :: if found then [.call node parent] else []

/-- The loop of `parse_dtb_compatible_helper` over the subnodes of `parent`, from `node` on; `none` when it
or a search does not end. -/
def parseDtbCompatibleHelper : (fuel parent : ℕ) → (node : Option ℕ) → Option (List CompatEvent)
  | 0, _, _ => none
  | _ + 1, _, none => some []
  | fuel + 1, parent, some node =>
    (compatNode t low compat n node parent).bind fun here =>
      (parseDtbCompatibleHelper fuel node (t.firstSubnode node)).bind fun below =>
        (parseDtbCompatibleHelper fuel parent (t.nextSubnode node)).map fun rest => here ++ (below ++ rest)

/-- `parse_dtb_compatible(dtb, compat, cb)`. -/
def parseDtbCompatible (fuel : ℕ) : Option (List CompatEvent) :=
  parseDtbCompatibleHelper t low compat n fuel t.root (t.firstSubnode t.root)

end Walk

/-! ## Device trees -/

/-- The subnodes of a node: the first one, its subnodes, and those after it. -/
inductive Subnodes where
  | none
  | node (offset : ℕ) (subnodes next : Subnodes)

/-- `libfdt` finds these subnodes, from the given one on. -/
def FdtNodes.Lists (t : FdtNodes) : Subnodes → Option ℕ → Prop
  | .none, o => o = none
  | .node offset subnodes next, o => o = some offset ∧ t.Lists subnodes (t.firstSubnode offset) ∧
      t.Lists next (t.nextSubnode offset)

namespace Subnodes

/-- The nodes with their parents, depth first. -/
def visits (parent : ℕ) : Subnodes → List (ℕ × ℕ)
  | .none => []
  | .node offset subnodes next => (offset, parent) :: (subnodes.visits offset ++ next.visits parent)

def size : Subnodes → ℕ
  | .none => 0
  | .node _ subnodes next => subnodes.size + next.size + 1

end Subnodes

/-- The strings of a property, each of which ends in a `0`. -/
def propStrings (value : List UInt8) : List (List UInt8) :=
  if value = [] then []
  else if value.getLast? = some 0 then value.dropLast.splitOn 0
  else value.splitOn 0

/-- The value of a property. -/
def Fdt.value (t : Fdt) (p : FdtProp) : List UInt8 := slice t.blob p.addr p.plen

/-- Some string of the property contains `compat`. -/
def Fdt.propMatches (t : Fdt) (compat : List UInt8) (p : FdtProp) : Bool :=
  (propStrings (t.value p)).any fun s => compat <:+: s

/-- Some string of the `compatible` property of the node, if it has one, contains `compat`. -/
def Fdt.nodeMatches (t : Fdt) (compat : List UInt8) (node : ℕ) : Bool :=
  (t.getprop node "compatible").any (t.propMatches compat)

/-- The calls of the callback. -/
def callsOf (events : List CompatEvent) : List (ℕ × ℕ) :=
  events.filterMap fun
    | .search _ => none
    | .call node parent => some (node, parent)

/-- The nodes whose properties are searched. -/
def searchedNodes (events : List CompatEvent) : List ℕ :=
  events.filterMap fun
    | .search node => some node
    | .call _ _ => none

/-- The walk returns. The callback is called for the nodes that match, in order, with their parents, and no
property is searched that is not there. -/
def CompatFound (t : FdtNodes) (low : Mem) (compat : List UInt8) (tree : Subnodes) : Prop :=
  ∃ events N, (∀ n fuel, N ≤ n → N ≤ fuel → parseDtbCompatible t low (some compat) n fuel = some events) ∧
    callsOf events = (tree.visits t.root).filter (fun v => t.nodeMatches compat v.1) ∧
    ∀ node ∈ searchedNodes events, (t.getprop node "compatible").isSome

/-- The string is in the first string of the property if it is in any; else it is not found up to the next
`0` either, which may be behind a property that does not end in one. -/
structure Searchable (t : Fdt) (compat : List UInt8) (p : FdtProp) : Prop where
  first : t.propMatches compat p = true → compat <:+: (t.value p).takeWhile (· != 0)
  ends : t.propMatches compat p = false → ∃ s, Str 0 t.blob p.addr s ∧ ¬ compat <:+: s

/-! ## The walk -/

/-- What the nodes of a list give rise to. -/
def eventsOf (f : ℕ → ℕ → Option (List CompatEvent)) : List (ℕ × ℕ) → Option (List CompatEvent)
  | [] => some []
  | v :: l => (f v.1 v.2).bind fun here => (eventsOf f l).map (here ++ ·)

theorem eventsOf_append (f : ℕ → ℕ → Option (List CompatEvent)) (l₁ l₂ : List (ℕ × ℕ)) :
    eventsOf f (l₁ ++ l₂) = (eventsOf f l₁).bind fun a => (eventsOf f l₂).map (a ++ ·) := by
  induction l₁ with
  | nil => simp [eventsOf]
  | cons v l₁ ih =>
    rw [List.cons_append, eventsOf, eventsOf, ih]
    cases f v.1 v.2 with
    | none => rfl
    | some here =>
      cases eventsOf f l₁ with
      | none => rfl
      | some a => cases eventsOf f l₂ <;> simp

section Events

variable {t : FdtNodes} {low : Mem} {n : ℕ}

/-- **The walk goes through the nodes**, depth first. -/
theorem parseDtbCompatibleHelper_eq {compat : Option (List UInt8)} {tree : Subnodes} :
    ∀ {fuel parent : ℕ} {node : Option ℕ}, t.Lists tree node → tree.size < fuel →
      parseDtbCompatibleHelper t low compat n fuel parent node =
        eventsOf (compatNode t low compat n) (tree.visits parent) := by
  induction tree with
  | none =>
    intro fuel parent node h hfuel
    cases fuel with
    | zero => exact absurd hfuel (Nat.not_lt_zero _)
    | succ fuel =>
      obtain rfl : node = none := h
      rfl
  | node offset subnodes next ihsub ihnext =>
    intro fuel parent node h hfuel
    cases fuel with
    | zero => exact absurd hfuel (Nat.not_lt_zero _)
    | succ fuel =>
      obtain ⟨rfl, hsub, hnext⟩ := h
      rw [Subnodes.size] at hfuel
      rw [parseDtbCompatibleHelper, ihsub hsub (by omega), ihnext hnext (by omega), Subnodes.visits, eventsOf,
        eventsOf_append]
      cases compatNode t low compat n offset parent with
      | none => rfl
      | some here =>
        cases eventsOf (compatNode t low compat n) (subnodes.visits offset) with
        | none => rfl
        | some below => cases eventsOf (compatNode t low compat n) (next.visits parent) <;> rfl

/-- The events of a node, by the outcome of its search. -/
def nodeEvents (found : ℕ → Bool) (v : ℕ × ℕ) : List CompatEvent :=
  .search v.1 :: if found v.1 then [.call v.1 v.2] else []

variable {compat : List UInt8} {l : List (ℕ × ℕ)} {events : List CompatEvent} {found : ℕ → Bool}

theorem eventsOf_of_searches (h : ∀ v ∈ l, searchNode t low n compat v.1 = some (found v.1)) :
    eventsOf (compatNode t low (some compat) n) l = some (l.flatMap (nodeEvents found)) := by
  induction l with
  | nil => rfl
  | cons v l ih =>
    have hv : compatNode t low (some compat) n v.1 v.2 = some (nodeEvents found v) := by
      rw [compatNode, h v List.mem_cons_self]
      rfl
    rw [eventsOf, hv, ih fun w hw => h w (List.mem_cons_of_mem v hw), Option.bind_some, Option.map_some,
      List.flatMap_cons]

/-- A walk that returns has come to the end of every search. -/
theorem searches_of_eventsOf (h : eventsOf (compatNode t low (some compat) n) l = some events) :
    ∀ v ∈ l, (searchNode t low n compat v.1).isSome := by
  induction l generalizing events with
  | nil => exact fun v hv => absurd hv List.not_mem_nil
  | cons v l ih =>
    rw [eventsOf, Option.bind_eq_some_iff] at h
    obtain ⟨here, hhere, hrest⟩ := h
    obtain ⟨rest, hrest, -⟩ := Option.map_eq_some_iff.mp hrest
    intro w hw
    rcases List.mem_cons.mp hw with rfl | hw
    · obtain ⟨b, hb, -⟩ := Option.map_eq_some_iff.mp hhere
      rw [hb]
      rfl
    · exact ih hrest w hw

/-- The answers of the searches determine what a walk has done. -/
theorem exists_found (h : eventsOf (compatNode t low (some compat) n) l = some events) :
    ∃ found : ℕ → Bool, (∀ v ∈ l, searchNode t low n compat v.1 = some (found v.1)) ∧
      events = l.flatMap (nodeEvents found) := by
  let found (node : ℕ) : Bool := (searchNode t low n compat node).getD false
  have hfound : ∀ v ∈ l, searchNode t low n compat v.1 = some (found v.1) := by
    intro v hv
    obtain ⟨b, hb⟩ := Option.isSome_iff_exists.mp (searches_of_eventsOf h v hv)
    simp only [found, hb, Option.getD_some]
  exact ⟨found, hfound, Option.some.inj (h.symm.trans (eventsOf_of_searches hfound))⟩

theorem callsOf_flatMap (l : List (ℕ × ℕ)) :
    callsOf (l.flatMap (nodeEvents found)) = l.filter fun v => found v.1 := by
  induction l with
  | nil => rfl
  | cons v l ih =>
    have hv : callsOf (nodeEvents found v) = if found v.1 then [v] else [] := by
      unfold nodeEvents
      split_ifs <;> rfl
    have happ : callsOf (nodeEvents found v ++ l.flatMap (nodeEvents found)) =
        callsOf (nodeEvents found v) ++ callsOf (l.flatMap (nodeEvents found)) := List.filterMap_append
    rw [List.flatMap_cons, happ, hv, ih, List.filter_cons]
    split_ifs <;> rfl

theorem searchedNodes_flatMap (l : List (ℕ × ℕ)) :
    searchedNodes (l.flatMap (nodeEvents found)) = l.map Prod.fst := by
  induction l with
  | nil => rfl
  | cons v l ih =>
    have hv : searchedNodes (nodeEvents found v) = [v.1] := by
      unfold nodeEvents
      split_ifs <;> rfl
    have happ : searchedNodes (nodeEvents found v ++ l.flatMap (nodeEvents found)) =
        searchedNodes (nodeEvents found v) ++ searchedNodes (l.flatMap (nodeEvents found)) :=
      List.filterMap_append
    rw [List.flatMap_cons, happ, hv, ih, List.map_cons]
    rfl

end Events

/-! ## The searches -/

section Search

variable {t : Fdt} {compat : List UInt8} {p : FdtProp}

theorem propStrings_of_notMem {value : List UInt8} (h : 0 ∉ value) (hne : value ≠ []) :
    propStrings value = [value] := by
  have hlast : value.getLast? ≠ some 0 := fun hl => h (List.mem_of_getLast? hl)
  rw [propStrings, if_neg hne, if_neg hlast, List.splitOn_eq_singleton h]

/-- The first string of a property is its cells, as far as they go without a `0`. -/
theorem slice_value (t : Fdt) (p : FdtProp) :
    slice t.blob p.addr ((t.value p).takeWhile (· != 0)).length = (t.value p).takeWhile (· != 0) := by
  have hpre : (t.value p).takeWhile (· != 0) <+: t.value p := List.takeWhile_prefix _
  have hlen : ((t.value p).takeWhile (· != 0)).length ≤ p.plen := by
    have hle := hpre.length_le
    rwa [Fdt.value, length_slice] at hle
  rw [List.prefix_iff_eq_take.mp hpre, List.length_take, Fdt.value, length_slice, take_slice]

theorem notMem_takeWhile (value : List UInt8) : 0 ∉ value.takeWhile (· != 0) :=
  fun h => by simpa using List.mem_takeWhile_imp h

/-- It is a string of the blob when it ends in the property. -/
theorem str_value (h : 0 ∈ t.value p) : Str 0 t.blob p.addr ((t.value p).takeWhile (· != 0)) := by
  obtain ⟨l, rest, hvalue, hl⟩ := List.eq_append_cons_of_mem h
  have htake : (t.value p).takeWhile (· != 0) = l := by
    rw [hvalue, List.takeWhile_append_of_pos fun x hx => by simpa using ne_of_mem_of_not_mem hx hl]
    simp
  have hlen : l.length < p.plen := by
    have hlen := congrArg List.length hvalue
    rw [Fdt.value, length_slice, List.length_append, List.length_cons] at hlen
    omega
  have hend : (t.value p)[l.length]? = some 0 := by
    rw [hvalue, List.getElem?_append_right (Nat.le_refl _), Nat.sub_self]
    rfl
  rw [Fdt.value, getElem?_slice_of_lt t.blob p.addr p.plen hlen] at hend
  refine str_iff.mpr ⟨notMem_takeWhile _, slice_value t p, ?_⟩
  rw [htake]
  exact Option.some.inj hend

/-- **The search of one property** comes out as it should. -/
theorem strstr_eq_iff (hcompat : 0 ∉ compat) :
    (∃ N, ∀ n, N ≤ n → strstr n t.blob p.addr compat = some (t.propMatches compat p)) ↔
      Searchable t compat p := by
  constructor
  · rintro ⟨N, hN⟩
    refine ⟨fun hmatch => ?_, fun hmatch => ?_⟩
    · by_cases hzero : 0 ∈ t.value p
      · have hstr := str_value hzero
        have hfound := hN (N + ((t.value p).takeWhile (· != 0)).length + 1) (by omega)
        rw [strstr, search_str hstr hcompat (by omega), hmatch, Option.some_inj] at hfound
        exact of_decide_eq_true hfound
      · have hne : t.value p ≠ [] := by
          intro hno
          rw [Fdt.propMatches, hno] at hmatch
          cases hmatch
        rw [Fdt.propMatches, propStrings_of_notMem hzero hne, List.any_cons, List.any_nil, Bool.or_false] at hmatch
        have hall : (t.value p).takeWhile (· != 0) = t.value p :=
          List.takeWhile_eq_self_iff.mpr fun x hx => by
            simpa using fun hno : x = 0 => hzero (hno ▸ hx)
        rw [hall]
        exact of_decide_eq_true hmatch
    · have hfound := hN N (Nat.le_refl N)
      rw [hmatch] at hfound
      exact exists_str_of_search hcompat hfound
  · intro h
    cases hmatch : t.propMatches compat p with
    | true =>
      refine ⟨((t.value p).takeWhile (· != 0)).length + 1, fun n hn => ?_⟩
      exact search_of_infix (slice_value t p) (notMem_takeWhile _) (h.first hmatch) hn
    | false =>
      obtain ⟨s, hs, hno⟩ := h.ends hmatch
      refine ⟨s.length + 1, fun n hn => ?_⟩
      rw [strstr, search_str hs hcompat hn, decide_eq_false hno]

end Search

section Visits

variable {t : FdtNodes} {low : Mem} {compat : List UInt8}

theorem searchNode_some {node : ℕ} {p : FdtProp} (h : t.getprop node "compatible" = some p) (n : ℕ) :
    searchNode t low n compat node = strstr n t.blob p.addr compat := by
  rw [searchNode, h]

theorem nodeMatches_some {node : ℕ} {p : FdtProp} (h : t.getprop node "compatible" = some p) :
    t.nodeMatches compat node = t.propMatches compat p := by
  rw [Fdt.nodeMatches, h, Option.any_some]

/-- Searches that come to an end do so within one number of steps. -/
theorem exists_searches {l : List (ℕ × ℕ)} {b : ℕ → Bool}
    (h : ∀ v ∈ l, ∃ N, ∀ n, N ≤ n → searchNode t low n compat v.1 = some (b v.1)) :
    ∃ N, ∀ n, N ≤ n → ∀ v ∈ l, searchNode t low n compat v.1 = some (b v.1) := by
  induction l with
  | nil => exact ⟨0, fun n _ v hv => absurd hv List.not_mem_nil⟩
  | cons w l ih =>
    obtain ⟨N₁, h₁⟩ := h w List.mem_cons_self
    obtain ⟨N₂, h₂⟩ := ih fun v hv => h v (List.mem_cons_of_mem w hv)
    refine ⟨max N₁ N₂, fun n hn v hv => ?_⟩
    rcases List.mem_cons.mp hv with rfl | hv
    · exact h₁ n (le_of_max_le_left hn)
    · exact h₂ n (le_of_max_le_right hn) v hv

/-- A walk that finds the right nodes has searched properties that are there, with the right answers. -/
theorem searches_of_compatFound {tree : Subnodes} (hlists : t.Lists tree (t.firstSubnode t.root))
    (h : CompatFound t low compat tree) :
    (∀ v ∈ tree.visits t.root, (t.getprop v.1 "compatible").isSome) ∧
      ∃ N, ∀ n, N ≤ n → ∀ v ∈ tree.visits t.root,
        searchNode t low n compat v.1 = some (t.nodeMatches compat v.1) := by
  obtain ⟨events, N, hrun, hcalls, hprops⟩ := h
  have hwalk (n : ℕ) (hn : N ≤ n) :
      eventsOf (compatNode t low (some compat) n) (tree.visits t.root) = some events := by
    have hfuel : tree.size < max N (tree.size + 1) :=
      Nat.lt_of_lt_of_le (Nat.lt_succ_self _) (Nat.le_max_right ..)
    rw [← parseDtbCompatibleHelper_eq hlists hfuel]
    exact hrun n _ hn (Nat.le_max_left ..)
  constructor
  · intro v hv
    obtain ⟨found, -, rfl⟩ := exists_found (hwalk N (Nat.le_refl N))
    refine hprops v.1 ?_
    rw [searchedNodes_flatMap]
    exact List.mem_map_of_mem hv
  · refine ⟨N, fun n hn v hv => ?_⟩
    obtain ⟨found, hfound, hflat⟩ := exists_found (hwalk n hn)
    rw [hflat, callsOf_flatMap] at hcalls
    have hmem : found v.1 = true ↔ t.nodeMatches compat v.1 = true := by
      have hv' : v ∈ (tree.visits t.root).filter (fun v => found v.1) ↔
          v ∈ (tree.visits t.root).filter fun v => t.nodeMatches compat v.1 := by rw [hcalls]
      simpa [List.mem_filter, hv] using hv'
    rw [hfound v hv, Bool.eq_iff_iff.mpr hmem]

/-- The walk, when every search gets the right answer. -/
theorem compatFound_of_searches {tree : Subnodes} (hlists : t.Lists tree (t.firstSubnode t.root))
    (hprops : ∀ v ∈ tree.visits t.root, (t.getprop v.1 "compatible").isSome)
    (h : ∃ N, ∀ n, N ≤ n → ∀ v ∈ tree.visits t.root,
      searchNode t low n compat v.1 = some (t.nodeMatches compat v.1)) :
    CompatFound t low compat tree := by
  obtain ⟨N, hN⟩ := h
  refine ⟨(tree.visits t.root).flatMap (nodeEvents (t.nodeMatches compat)), max N (tree.size + 1),
    fun n fuel hn hfuel => ?_, callsOf_flatMap _, fun node hnode => ?_⟩
  · rw [parseDtbCompatible, parseDtbCompatibleHelper_eq hlists (Nat.lt_of_succ_le (le_of_max_le_right hfuel)),
      eventsOf_of_searches (hN n (le_of_max_le_left hn))]
  · rw [searchedNodes_flatMap] at hnode
    obtain ⟨v, hv, rfl⟩ := List.mem_map.mp hnode
    exact hprops v hv

end Visits

/-! ## The result -/

/-- A root and one node, whose `compatible` property is `value`, if it has one. -/
def uartTree (value : Option (List UInt8)) : FdtNodes where
  blob a := (value.getD []).getD a 0
  root := 0
  getprop node name := if node = 1 ∧ name = "compatible" then value.map fun v => ⟨0, v.length⟩ else none
  parentOffset node := if node = 1 then some 0 else none
  addressCells _ := 1
  sizeCells _ := 1
  byCompatible _ := []
  firstSubnode node := if node = 0 then some 1 else none
  nextSubnode _ := none

/-- `"pl011"`. -/
def pl011 : List UInt8 := [0x70, 0x6c, 0x30, 0x31, 0x31]

theorem uartTree_lists (value : Option (List UInt8)) :
    (uartTree value).Lists (.node 1 .none .none) ((uartTree value).firstSubnode (uartTree value).root) :=
  ⟨rfl, rfl, rfl⟩

/-- The node is not found by the second of its strings, and it is searched if it has none. -/
theorem compat_search_broken :
    ¬ CompatFound (uartTree (some ([0x61, 0] ++ pl011 ++ [0]))) (fun _ => 0) pl011 (.node 1 .none .none) ∧
      ¬ CompatFound (uartTree none) (fun _ => 0) pl011 (.node 1 .none .none) := by
  constructor
  · intro h
    obtain ⟨-, N, hN⟩ := searches_of_compatFound (uartTree_lists _) h
    have hfound := hN (max N 3) (Nat.le_max_left N 3) (1, 0) List.mem_cons_self
    have hmatch : (uartTree (some ([0x61, 0] ++ pl011 ++ [0]))).nodeMatches pl011 1 = true := by decide +kernel
    have hfirst : strstr 3 (uartTree (some ([0x61, 0] ++ pl011 ++ [0]))).blob 0 pl011 = some false := by
      decide +kernel
    have hmore : searchNode (uartTree (some ([0x61, 0] ++ pl011 ++ [0]))) (fun _ => 0) (max N 3) pl011 1 =
        some false := search_mono hfirst (Nat.le_max_right N 3)
    rw [hmatch, hmore] at hfound
    cases hfound
  · intro h
    obtain ⟨hprops, -⟩ := searches_of_compatFound (uartTree_lists _) h
    cases hprops (1, 0) List.mem_cons_self

/-- **The right nodes are found** just when every node has the property, and the string is in the first of
its strings if it is in any (and not found behind the property). -/
theorem compat_search_iff {t : FdtNodes} {tree : Subnodes} {compat : List UInt8} (low : Mem)
    (hlists : t.Lists tree (t.firstSubnode t.root)) (hcompat : 0 ∉ compat) :
    CompatFound t low compat tree ↔
      ∀ v ∈ tree.visits t.root, ∃ p, t.getprop v.1 "compatible" = some p ∧ Searchable t.toFdt compat p := by
  constructor
  · intro h v hv
    obtain ⟨hprops, N, hN⟩ := searches_of_compatFound hlists h
    obtain ⟨p, hp⟩ := Option.isSome_iff_exists.mp (hprops v hv)
    refine ⟨p, hp, (strstr_eq_iff hcompat).mp ⟨N, fun n hn => ?_⟩⟩
    rw [← searchNode_some hp, ← nodeMatches_some hp]
    exact hN n hn v hv
  · intro h
    refine compatFound_of_searches hlists (fun v hv => ?_) (exists_searches fun v hv => ?_)
    · obtain ⟨p, hp, -⟩ := h v hv
      exact Option.isSome_of_mem hp
    · obtain ⟨p, hp, hsearch⟩ := h v hv
      obtain ⟨N, hN⟩ := (strstr_eq_iff hcompat).mpr hsearch
      refine ⟨N, fun n hn => ?_⟩
      rw [searchNode_some hp, nodeMatches_some hp]
      exact hN n hn

/-- A node is found by its only string. -/
theorem compat_search_iff_uart :
    CompatFound (uartTree (some (pl011 ++ [0]))) (fun _ => 0) pl011 (.node 1 .none .none) := by
  refine (compat_search_iff (fun _ => 0) (uartTree_lists _) (by decide)).mpr fun v hv => ?_
  obtain rfl := List.mem_singleton.mp hv
  have hvalue : (uartTree (some (pl011 ++ [0]))).toFdt.value ⟨0, 6⟩ = pl011 ++ [0] := by decide +kernel
  refine ⟨⟨0, 6⟩, rfl, fun _ => ?_, fun hno => ?_⟩
  · rw [hvalue]
    decide +kernel
  · have hmatch : (propStrings (pl011 ++ [0])).any (fun s => decide (pl011 <:+: s)) = true := by decide +kernel
    rw [Fdt.propMatches, hvalue, hmatch] at hno
    cases hno

end RpiBoot
