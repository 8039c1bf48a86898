import RpiBoot.Memchunk.Model
import RpiBoot.Rpifdt.Ranges

/-!
# The memory regions (`atag.c`, `rpifdt.c`)

The loader is told of the memory by a list of tags or by a device tree. Either is walked over once for
every callback; `α` is the state of the callback.

* `parseAtags`: the walk over the tags. `parseNode`: the walk over the nodes of a device tree.
* `reported`: the regions that are passed to the callback, in order.
* **`parseAtagOrDtb_eq`**: every walk passes on the same regions.
* `reported_words`: they consist of 32-bit words.
-/

namespace RpiBoot

open Store

variable {α β : Type}

def atagNone : ℕ := 0
def atagMem : ℕ := 0x54410002

/-- The subnodes of a device tree, as `libfdt` finds them. -/
structure FdtNodes extends Fdt where
  firstSubnode : ℕ → Option ℕ
  nextSubnode : ℕ → Option ℕ

/-- What `conf_source` leads to; a walk over tags at address `0` reports nothing. -/
inductive RegionSource
  | atags (mem : Mem) (atags : ℕ)
  | dtb (t : FdtNodes)
  | none

section Walk

variable (memCb : α → Chunk → α)

/-- The loop of `parse_atags`; `none` when the tags do not end. -/
def parseAtagsLoop (mem : Mem) : (fuel cur : ℕ) → α → Option α
  | 0, _, _ => none
  | fuel + 1, cur, s =>
    let tag := le32 mem (cur + 4)
    let s := if tag = atagMem then memCb s ⟨le32 mem (cur + 12), le32 mem (cur + 8)⟩ else s
    if tag ≠ atagNone then parseAtagsLoop mem fuel (u32 (cur + 4 * le32 mem cur)) s else some s

/-- `parse_atags(atags, mem_cb)`. -/
def parseAtags (fuel : ℕ) (mem : Mem) (atags : ℕ) (s : α) : Option α :=
  if atags = 0 then some s else parseAtagsLoop memCb mem fuel atags s

/-- `"memory"`, with its end. -/
def memoryString : List UInt8 := [0x6d, 0x65, 0x6d, 0x6f, 0x72, 0x79, 0]

/-- The property `device_type` of the node is `memory`. -/
def isMemory (t : Fdt) (node : ℕ) : Bool :=
  (t.getprop node "device_type").any fun p => slice t.blob p.addr 7 = memoryString

/-- The loop of `parse_node` over the subnodes of `parent`, from `node` on; `none` when it does not
end. -/
def parseNode (t : FdtNodes) (sr : ℕ × List SocRange) : (fuel parent : ℕ) → (node : Option ℕ) → α → Option α
  | 0, _, _, _ => none
  | _ + 1, _, none, s => some s
  | fuel + 1, parent, some node, s =>
    let calls := if isMemory t.toFdt node then parseReg t.toFdt sr node parent else some []
    calls.bind fun calls =>
      let s := calls.foldl (fun s c => memCb s ⟨c.1, c.2⟩) s
      (parseNode t sr fuel node (t.firstSubnode node) s).bind fun s =>
        parseNode t sr fuel parent (t.nextSubnode node) s

/-- `parse_atag_or_dtb(mem_cb)`. -/
def parseAtagOrDtb (fuel : ℕ) : RegionSource → α → Option α
  | .atags mem atags, s => parseAtags memCb fuel mem atags s
  | .dtb t, s => parseNode memCb t (loadRanges t.toFdt) fuel t.root (t.firstSubnode t.root) s
  | .none, s => some s

end Walk

/-- The regions that are passed to the callback. -/
def reported (fuel : ℕ) (src : RegionSource) : Option (List Chunk) :=
  parseAtagOrDtb (fun l r => l ++ [r]) fuel src []

/-! ## One walk and another -/

section Map

variable {memCb : α → Chunk → α} {memCb' : β → Chunk → β} {φ : α → β}

theorem parseAtagsLoop_map (h : ∀ s r, φ (memCb s r) = memCb' (φ s) r) (mem : Mem) :
    ∀ (fuel cur : ℕ) (s : α),
      parseAtagsLoop memCb' mem fuel cur (φ s) = (parseAtagsLoop memCb mem fuel cur s).map φ
  | 0, _, _ => rfl
  | fuel + 1, cur, s => by
    simp only [parseAtagsLoop, ← h, ← apply_ite φ]
    split_ifs
    · exact parseAtagsLoop_map h mem fuel _ _
    · exact parseAtagsLoop_map h mem fuel _ _
    · rfl
    · rfl

theorem foldl_map_state (h : ∀ s r, φ (memCb s r) = memCb' (φ s) r) (calls : List (ℕ × ℕ)) (s : α) :
    calls.foldl (fun s c => memCb' s ⟨c.1, c.2⟩) (φ s) =
      φ (calls.foldl (fun s c => memCb s ⟨c.1, c.2⟩) s) := by
  induction calls generalizing s with
  | nil => rfl
  | cons c calls ih => rw [List.foldl_cons, List.foldl_cons, ← ih, h]

theorem parseNode_map (h : ∀ s r, φ (memCb s r) = memCb' (φ s) r) (t : FdtNodes)
    (sr : ℕ × List SocRange) : ∀ (fuel parent : ℕ) (node : Option ℕ) (s : α),
      parseNode memCb' t sr fuel parent node (φ s) = (parseNode memCb t sr fuel parent node s).map φ
  | 0, _, _, _ => rfl
  | _ + 1, _, none, _ => rfl
  | fuel + 1, parent, some node, s => by
    rw [parseNode, parseNode]
    cases if isMemory t.toFdt node then parseReg t.toFdt sr node parent else some [] with
    | none => rfl
    | some calls =>
      simp only [Option.bind_some]
      rw [foldl_map_state h, parseNode_map h t sr fuel node]
      cases parseNode memCb t sr fuel node (t.firstSubnode node)
          (calls.foldl (fun s c => memCb s ⟨c.1, c.2⟩) s) with
      | none => rfl
      | some s' => exact parseNode_map h t sr fuel parent _ s'

variable (φ) in
/-- A walk whose states are those of another walk. -/
theorem parseAtagOrDtb_map (h : ∀ s r, φ (memCb s r) = memCb' (φ s) r) (fuel : ℕ) (src : RegionSource)
    (s : α) : parseAtagOrDtb memCb' fuel src (φ s) = (parseAtagOrDtb memCb fuel src s).map φ := by
  cases src with
  | atags mem atags =>
    simp only [parseAtagOrDtb, parseAtags]
    split_ifs
    · rfl
    · exact parseAtagsLoop_map h mem fuel atags s
  | dtb t => exact parseNode_map h t _ fuel _ _ s
  | none => rfl

end Map

/-- **Every walk passes on the same regions.** -/
theorem parseAtagOrDtb_eq (memCb : α → Chunk → α) (fuel : ℕ) (src : RegionSource) (s : α) :
    parseAtagOrDtb memCb fuel src s = (reported fuel src).map fun l => l.foldl memCb s :=
  parseAtagOrDtb_map (fun l : List Chunk => l.foldl memCb s)
    (fun l r => by rw [List.foldl_append]; rfl) fuel src []

/-! ## The regions -/

/-- The words of the region are below `2 ^ 32`. -/
def Chunk.Words (c : Chunk) : Prop := c.start < 2 ^ 32 ∧ c.length < 2 ^ 32

section Addresses

variable {t : Fdt} {sr : ℕ × List SocRange}

theorem readCells_lt (mem : Mem) (a n : ℕ) : readCells mem a n < 2 ^ 32 := by
  rw [readCells_eq]
  exact u32_lt _

theorem adjustAt_lt {node a : ℕ} (ha : a < 2 ^ 32) : adjustAt sr node a < 2 ^ 32 := by
  unfold adjustAt
  split
  · exact u32_lt _
  · exact ha

theorem getAdjustedAddressInt_lt : ∀ (fuel node : ℕ) {a : ℕ}, a < 2 ^ 32 →
    getAdjustedAddressInt t sr fuel node a < 2 ^ 32
  | 0, _, _, ha => ha
  | fuel + 1, node, a, ha => by
    rw [getAdjustedAddressInt]
    split_ifs
    · exact ha
    · dsimp only
      cases t.parentOffset node with
      | none => exact adjustAt_lt ha
      | some parent => exact getAdjustedAddressInt_lt fuel parent (adjustAt_lt ha)

theorem getAdjustedAddress_lt {node a : ℕ} (ha : a < 2 ^ 32) : getAdjustedAddress t sr node a < 2 ^ 32 := by
  unfold getAdjustedAddress
  cases t.parentOffset node with
  | none => exact ha
  | some parent => exact getAdjustedAddressInt_lt _ _ ha

theorem parseRegLoop_lt {node acs scs : ℕ} {reg : FdtProp} : ∀ (fuel idx : ℕ) {calls : List (ℕ × ℕ)},
    parseRegLoop t sr node acs scs reg fuel idx = some calls → ∀ c ∈ calls, c.1 < 2 ^ 32 ∧ c.2 < 2 ^ 32
  | 0, idx, calls, h => by
    rw [parseRegLoop] at h
    split_ifs at h
    obtain rfl := Option.some.inj h
    simp
  | fuel + 1, idx, calls, h => by
    rw [parseRegLoop] at h
    split_ifs at h
    · obtain ⟨rest, hrest, rfl⟩ := Option.map_eq_some_iff.mp h
      intro c hc
      rcases List.mem_cons.mp hc with rfl | hc
      · exact ⟨getAdjustedAddress_lt (readCells_lt _ _ _), readCells_lt _ _ _⟩
      · exact parseRegLoop_lt fuel _ hrest c hc
    · obtain rfl := Option.some.inj h
      simp

theorem parseReg_lt {node parent : ℕ} {calls : List (ℕ × ℕ)} (h : parseReg t sr node parent = some calls) :
    ∀ c ∈ calls, c.1 < 2 ^ 32 ∧ c.2 < 2 ^ 32 := by
  unfold parseReg at h
  split at h
  · exact parseRegLoop_lt _ _ h
  · obtain rfl := Option.some.inj h
    simp

end Addresses

section Invariant

variable {memCb : α → Chunk → α} {P : α → Prop}

theorem parseAtagsLoop_invariant (h : ∀ s r, P s → r.Words → P (memCb s r)) (mem : Mem) :
    ∀ (fuel cur : ℕ) (s s' : α), P s → parseAtagsLoop memCb mem fuel cur s = some s' → P s'
  | 0, _, _, _, _, hr => by cases hr
  | fuel + 1, cur, s, s', hs, hr => by
    have hnext : P (if le32 mem (cur + 4) = atagMem then
        memCb s ⟨le32 mem (cur + 12), le32 mem (cur + 8)⟩ else s) := by
      split_ifs
      · exact h _ _ hs ⟨le32_lt _ _, le32_lt _ _⟩
      · exact hs
    rw [parseAtagsLoop] at hr
    by_cases htag : le32 mem (cur + 4) ≠ atagNone
    · rw [if_pos htag] at hr
      exact parseAtagsLoop_invariant h mem fuel _ _ s' hnext hr
    · rw [if_neg htag] at hr
      obtain rfl := Option.some.inj hr
      exact hnext

theorem parseNode_invariant (h : ∀ s r, P s → r.Words → P (memCb s r)) (t : FdtNodes)
    (sr : ℕ × List SocRange) : ∀ (fuel parent : ℕ) (node : Option ℕ) (s s' : α), P s →
      parseNode memCb t sr fuel parent node s = some s' → P s'
  | 0, _, _, _, _, _, hr => by cases hr
  | _ + 1, _, none, s, s', hs, hr => by
    obtain rfl := Option.some.inj hr
    exact hs
  | fuel + 1, parent, some node, s, s', hs, hr => by
    rw [parseNode] at hr
    obtain ⟨calls, hcalls, hr⟩ := Option.bind_eq_some_iff.mp hr
    obtain ⟨s₁, hsub, hr⟩ := Option.bind_eq_some_iff.mp hr
    have hlt : ∀ c ∈ calls, c.1 < 2 ^ 32 ∧ c.2 < 2 ^ 32 := by
      split_ifs at hcalls
      · exact parseReg_lt hcalls
      · obtain rfl := Option.some.inj hcalls
        simp
    have hfold : P (calls.foldl (fun s c => memCb s ⟨c.1, c.2⟩) s) :=
      List.foldlRecOn calls _ hs fun s hs c hc => h _ _ hs (hlt c hc)
    exact parseNode_invariant h t sr fuel _ _ _ s' (parseNode_invariant h t sr fuel _ _ _ s₁ hfold hsub) hr

/-- What every call of the callback keeps, the walk keeps. -/
theorem parseAtagOrDtb_invariant (h : ∀ s r, P s → r.Words → P (memCb s r)) {fuel : ℕ}
    {src : RegionSource} {s s' : α} (hs : P s) (hr : parseAtagOrDtb memCb fuel src s = some s') : P s' := by
  cases src with
  | atags mem atags =>
    simp only [parseAtagOrDtb, parseAtags] at hr
    split_ifs at hr
    · obtain rfl := Option.some.inj hr
      exact hs
    · exact parseAtagsLoop_invariant h mem fuel atags s s' hs hr
  | dtb t => exact parseNode_invariant h t _ fuel _ _ s s' hs hr
  | none =>
    obtain rfl := Option.some.inj hr
    exact hs

end Invariant

/-- The regions that are reported consist of words. -/
theorem reported_words {fuel : ℕ} {src : RegionSource} {regions : List Chunk}
    (h : reported fuel src = some regions) : ∀ r ∈ regions, r.Words := by
  refine parseAtagOrDtb_invariant (P := fun l : List Chunk => ∀ r ∈ l, r.Words) ?_ (by simp) h
  intro l r hl hr r' hr'
  rcases List.mem_append.mp hr' with hr' | hr'
  · exact hl r' hr'
  · rwa [List.mem_singleton.mp hr']

end RpiBoot
