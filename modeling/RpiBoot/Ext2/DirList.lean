import Mathlib.Data.List.Induction
import Mathlib.Data.List.Nodup
import RpiBoot.Ext2.Records

/-!
# The list that `ext2_read_dir` builds

A node is linked to the list before it is known whether it is kept. When it is freed again, the list ends
in a cell that is not allocated, and the link is written there. The list is put right when the next
node happens to be allocated in that cell.

* `keptNodes`: the nodes that are kept.
* `MallocFresh`: `malloc` returns no node that is kept.
* `DirList.Building`: the nodes are linked, and end in the null pointer or in a freed cell.
* `building_add`, `add_dangling`: one entry.
* **`foldl_add_spec`**, **`listAt_iff`**: all entries; when they are a list.
-/

namespace RpiBoot

open Store LinkedList

/-- The nodes of the entries that are not special, from number `k` on. -/
def keptNodes (addr : ℕ → ℕ) : ℕ → List Dirent → List (ℕ × Dirent)
  | _, [] => []
  | k, d :: ds =>
    if d.name ∈ specialNames then keptNodes addr (k + 1) ds
    else (addr k, d) :: keptNodes addr (k + 1) ds

/-- `malloc` returns addresses of cells that are not allocated, for entries with the given names. -/
structure MallocFresh (addr : ℕ → ℕ) (names : List (List UInt8)) : Prop where
  ne_null : ∀ k < names.length, addr k ≠ 0
  ne_kept : ∀ j k, j < k → k < names.length → ∀ name, names[j]? = some name → name ∉ specialNames →
    addr k ≠ addr j

/-- Behind every special entry but the last, a node is allocated where its own was. -/
def Reused (addr : ℕ → ℕ) (names : List (List UInt8)) : Prop :=
  ∀ k, k + 1 < names.length → ∀ name, names[k]? = some name → name ∈ specialNames →
    addr (k + 1) = addr k

/-- The address of the node of the last entry, if it has been freed, or `0`. -/
def openEnd (addr : ℕ → ℕ) (ds : List Dirent) : ℕ :=
  match ds.getLast? with
  | none => 0
  | some d => if d.name ∈ specialNames then addr (ds.length - 1) else 0

/-- The nodes `l` are linked, and end in the null pointer, or in the freed cell `e`. -/
structure DirList.Building (st : DirList) (l : List (ℕ × Dirent)) (e : ℕ) : Prop where
  intact : st.dangling = false
  ret_eq : st.ret = first l e
  linked : Linked st.heap l e
  ne_zero : ∀ n ∈ l, n.1 ≠ 0
  nodup : (l.map Prod.fst).Nodup
  closed : e = 0 → st.prev = (l.getLast?.map Prod.fst).getD 0
  freed : e ≠ 0 → st.prev = e ∧ st.heap e = none

variable {addr : ℕ → ℕ} {st : DirList} {l : List (ℕ × Dirent)} {e : ℕ} {ds : List Dirent}

/-! ## One entry -/

/-- What linking a new node to the list can do. -/
theorem append_cases (addr : ℕ → ℕ) (st : DirList) :
    (st.prev = 0 ∧ st.append addr = { st.alloc addr with prev := addr st.mallocs }) ∨
    (st.prev ≠ 0 ∧ (st.alloc addr).heap st.prev = none ∧
      st.append addr = { st.alloc addr with prev := addr st.mallocs, dangling := true }) ∨
    (st.prev ≠ 0 ∧ ∃ n, (st.alloc addr).heap st.prev = some n ∧
      st.append addr = { st.alloc addr with
        prev := addr st.mallocs
        heap := Function.update (st.alloc addr).heap st.prev (some (n.1, addr st.mallocs)) }) := by
  have hprev : (st.alloc addr).prev = st.prev := rfl
  by_cases h0 : st.prev = 0
  · exact Or.inl ⟨h0, by rw [DirList.append, hprev, if_neg (not_not.mpr h0)]⟩
  cases hn : (st.alloc addr).heap st.prev with
  | none => exact Or.inr (Or.inl ⟨h0, rfl, by rw [DirList.append, hprev, if_pos h0, DirList.setNext, hn]⟩)
  | some n =>
    exact Or.inr (Or.inr ⟨h0, n, rfl, by rw [DirList.append, hprev, if_pos h0, DirList.setNext, hn]⟩)

theorem append_ret (st : DirList) :
    (st.append addr).ret = if st.ret = 0 then addr st.mallocs else st.ret := by
  obtain ⟨-, h⟩ | ⟨-, -, h⟩ | ⟨-, n, -, h⟩ := append_cases addr st <;> rw [h] <;> rfl

theorem append_mallocs (st : DirList) : (st.append addr).mallocs = st.mallocs + 1 := by
  obtain ⟨-, h⟩ | ⟨-, -, h⟩ | ⟨-, n, -, h⟩ := append_cases addr st <;> rw [h] <;> rfl

theorem add_mallocs (st : DirList) (d : Dirent) : (st.add addr d).mallocs = st.mallocs + 1 := by
  unfold DirList.add
  split_ifs <;> exact append_mallocs st

theorem append_dangling (h : st.dangling = true) : (st.append addr).dangling = true := by
  obtain ⟨-, ha⟩ | ⟨-, -, ha⟩ | ⟨-, n, -, ha⟩ := append_cases addr st <;> rw [ha] <;> exact h

theorem add_dangling (h : (st.append addr).dangling = true) (d : Dirent) :
    (st.add addr d).dangling = true := by
  unfold DirList.add
  split_ifs <;> exact h

/-- The link is written to a freed cell. -/
theorem append_broken (hb : st.Building l e) (he : e ≠ 0) (hne : e ≠ addr st.mallocs) :
    (st.append addr).dangling = true := by
  obtain ⟨hprev, hfree⟩ := hb.freed he
  have hcell : (st.alloc addr).heap st.prev = none := by
    rw [hprev, DirList.alloc]
    exact (Function.update_of_ne hne _ _).trans hfree
  obtain ⟨h0, -⟩ | ⟨-, -, h⟩ | ⟨-, n, hn, -⟩ := append_cases addr st
  · exact absurd (hprev.symm.trans h0) he
  · rw [h]
  · rw [hcell] at hn
    cases hn

/-- Where the link to a new node is written. -/
theorem alloc_link (hb : st.Building l e) (he : e = 0 ∨ e = addr st.mallocs)
    (hnew : addr st.mallocs ∉ l.map Prod.fst) :
    (st.prev = 0 ∧ l = []) ∨ st.prev ≠ 0 ∧ ∃ n, (st.alloc addr).heap st.prev = some n ∧
      Linked (Function.update (st.alloc addr).heap st.prev (some (n.1, addr st.mallocs))) l
        (addr st.mallocs) := by
  have hnodes : Linked (st.alloc addr).heap l e := hb.linked.update hnew _
  by_cases h0 : e = 0
  · subst h0
    have hprev := hb.closed rfl
    rcases List.eq_nil_or_concat l with rfl | ⟨l, ⟨p, x⟩, rfl⟩
    · exact Or.inl ⟨hprev, rfl⟩
    · -- the last node gets the link
      rw [List.concat_eq_append] at *
      have hp : st.prev = p := by rw [hprev, List.getLast?_concat]; rfl
      have hne := hb.ne_zero (p, x) (List.mem_append_right _ List.mem_cons_self)
      have hnodup := hb.nodup
      rw [List.map_append, List.nodup_append] at hnodup
      have hnot : p ∉ l.map Prod.fst := fun h => hnodup.2.2 p h p List.mem_cons_self rfl
      rw [hp]
      exact Or.inr ⟨hne, (x, 0), (linked_concat.mp hnodes).2, hnodes.retarget hnot _⟩
  · -- the new node gets the link to itself, until it is filled in
    obtain rfl := he.resolve_left h0
    obtain ⟨hprev, -⟩ := hb.freed h0
    rw [hprev]
    exact Or.inr ⟨h0, _, Function.update_self .., hnodes.update hnew _⟩

/-- A node is linked to the list. -/
theorem append_linked (hb : st.Building l e) (he : e = 0 ∨ e = addr st.mallocs)
    (hnew : addr st.mallocs ∉ l.map Prod.fst) :
    (st.append addr).dangling = false ∧ (st.append addr).ret = first l (addr st.mallocs) ∧
      Linked (st.append addr).heap l (addr st.mallocs) := by
  have hret : (st.append addr).ret = first l (addr st.mallocs) := by
    rw [append_ret, hb.ret_eq]
    cases l with
    | nil =>
      rcases he with rfl | rfl
      · exact if_pos rfl
      · exact ite_self _
    | cons n l => exact if_neg (hb.ne_zero n List.mem_cons_self)
  obtain ⟨hprev, rfl⟩ | ⟨hprev, n, hn, hl⟩ := alloc_link hb he hnew
  · obtain ⟨-, h⟩ | ⟨h0, -⟩ | ⟨h0, -⟩ := append_cases addr st
    · refine ⟨?_, hret, trivial⟩
      rw [h]
      exact hb.intact
    · exact absurd hprev h0
    · exact absurd hprev h0
  · obtain ⟨h0, -⟩ | ⟨-, hnone, -⟩ | ⟨-, n', hn', h⟩ := append_cases addr st
    · exact absurd h0 hprev
    · rw [hn] at hnone
      cases hnone
    · obtain rfl : n = n' := Option.some.inj (hn.symm.trans hn')
      rw [h] at hret ⊢
      exact ⟨hb.intact, hret, hl⟩

/-- **One entry is added.** -/
theorem building_add (hb : st.Building l e) (he : e = 0 ∨ e = addr st.mallocs)
    (hpos : addr st.mallocs ≠ 0) (hnew : addr st.mallocs ∉ l.map Prod.fst) (d : Dirent) :
    if d.name ∈ specialNames then (st.add addr d).Building l (addr st.mallocs)
    else (st.add addr d).Building (l ++ [(addr st.mallocs, d)]) 0 := by
  obtain ⟨hintact, hret, hl⟩ := append_linked hb he hnew
  have hprev : (st.append addr).prev = addr st.mallocs := rfl
  split_ifs with hspecial
  · rw [DirList.add, if_pos hspecial]
    refine ⟨hintact, hret, hl.update hnew _, hb.ne_zero, hb.nodup, fun h => absurd h hpos, fun _ => ⟨rfl, ?_⟩⟩
    exact Function.update_self ..
  · rw [DirList.add, if_neg hspecial]
    refine ⟨hintact, ?_, linked_concat.mpr ⟨hl.update hnew _, Function.update_self ..⟩, ?_, ?_, ?_,
      fun h => absurd rfl h⟩
    · rw [first_append]
      exact hret
    · intro n hn
      rcases List.mem_append.mp hn with hn | hn
      · exact hb.ne_zero n hn
      · rw [List.mem_singleton.mp hn]
        exact hpos
    · rw [List.map_append, List.nodup_append]
      refine ⟨hb.nodup, List.nodup_singleton _, fun a ha b hmem => ?_⟩
      obtain rfl := List.mem_singleton.mp hmem
      exact fun heq : a = addr st.mallocs => hnew (heq ▸ ha)
    · intro _
      rw [List.getLast?_concat]
      rfl

/-! ## All entries -/

theorem keptNodes_concat (k : ℕ) (ds : List Dirent) (d : Dirent) : keptNodes addr k (ds ++ [d]) =
    keptNodes addr k ds ++ if d.name ∈ specialNames then [] else [(addr (k + ds.length), d)] := by
  induction ds generalizing k with
  | nil => simp [keptNodes]
  | cons d' ds ih =>
    rw [List.cons_append, keptNodes, keptNodes, ih, List.length_cons, Nat.add_right_comm k, Nat.add_assoc]
    split_ifs <;> rfl

theorem keptNodes_snd (k : ℕ) (ds : List Dirent) :
    (keptNodes addr k ds).map Prod.snd = ds.filter fun d => d.name ∉ specialNames := by
  induction ds generalizing k with
  | nil => rfl
  | cons d ds ih =>
    rw [keptNodes, List.filter_cons]
    split_ifs <;> simp_all

theorem mem_keptNodes {k : ℕ} {n : ℕ × Dirent} : n ∈ keptNodes addr k ds ↔
    ∃ j, ds[j]? = some n.2 ∧ n.2.name ∉ specialNames ∧ n.1 = addr (k + j) := by
  induction ds generalizing k with
  | nil => exact iff_of_false List.not_mem_nil fun ⟨_, hj, _⟩ => nomatch hj
  | cons d ds ih =>
    have hrest : n ∈ keptNodes addr (k + 1) ds ↔
        ∃ j, (d :: ds)[j + 1]? = some n.2 ∧ n.2.name ∉ specialNames ∧ n.1 = addr (k + (j + 1)) := by
      rw [ih]
      simp only [List.getElem?_cons_succ, Nat.add_assoc, Nat.add_comm 1]
    rw [keptNodes]
    split_ifs with hspecial
    · rw [hrest]
      constructor
      · rintro ⟨j, hj⟩
        exact ⟨j + 1, hj⟩
      · rintro ⟨_ | j, hj, hname, hn⟩
        · rw [← Option.some.inj hj] at hname
          exact absurd hspecial hname
        · exact ⟨j, hj, hname, hn⟩
    · rw [List.mem_cons, hrest]
      constructor
      · rintro (rfl | ⟨j, hj⟩)
        · exact ⟨0, rfl, hspecial, rfl⟩
        · exact ⟨j + 1, hj⟩
      · rintro ⟨_ | j, hj, hname, hn⟩
        · exact Or.inl (Prod.ext hn (Option.some.inj hj).symm)
        · exact Or.inr ⟨j, hj, hname, hn⟩

theorem openEnd_concat (ds : List Dirent) (d : Dirent) :
    openEnd addr (ds ++ [d]) = if d.name ∈ specialNames then addr ds.length else 0 := by
  rw [openEnd, List.getLast?_concat, List.length_append, List.length_singleton, Nat.add_sub_cancel]

theorem MallocFresh.init {names : List (List UInt8)} {name : List UInt8}
    (h : MallocFresh addr (names ++ [name])) : MallocFresh addr names := by
  have hlen : (names ++ [name]).length = names.length + 1 := List.length_append
  refine ⟨fun k hk => h.ne_null k (by omega), fun j k hjk hk name' hname => ?_⟩
  exact h.ne_kept j k hjk (by omega) name' (by rw [List.getElem?_append_left (by omega), hname])

/-- The next node is none that is kept. -/
theorem MallocFresh.notMem {d : Dirent} (h : MallocFresh addr ((ds ++ [d]).map (·.name))) :
    addr ds.length ∉ (keptNodes addr 0 ds).map Prod.fst := by
  intro hmem
  obtain ⟨n, hn, heq⟩ := List.mem_map.mp hmem
  obtain ⟨j, hj, hname, haddr⟩ := mem_keptNodes.mp hn
  rw [Nat.zero_add] at haddr
  have hlt := (List.getElem?_eq_some_iff.mp hj).1
  refine h.ne_kept j ds.length hlt (by simp) n.2.name ?_ hname (heq.symm.trans haddr)
  rw [List.getElem?_map, List.getElem?_append_left hlt, hj]
  rfl

/-- The next node may be where the list ends. -/
theorem reused_concat {d : Dirent} (h : MallocFresh addr ((ds ++ [d]).map (·.name))) :
    Reused addr ((ds ++ [d]).map (·.name)) ↔
      Reused addr (ds.map (·.name)) ∧ (openEnd addr ds = 0 ∨ openEnd addr ds = addr ds.length) := by
  rcases List.eq_nil_or_concat ds with rfl | ⟨ds, d', rfl⟩
  · refine iff_of_true (fun k hk => ?_) ⟨fun k hk => absurd hk (Nat.not_lt_zero _), Or.inl rfl⟩
    exact absurd (Nat.lt_of_succ_lt_succ hk) (Nat.not_lt_zero k)
  rw [List.concat_eq_append] at *
  have hat : ∀ k < ds.length + 1,
      ((ds ++ [d'] ++ [d]).map (·.name))[k]? = ((ds ++ [d']).map (·.name))[k]? := fun k hk => by
    rw [List.map_append, List.getElem?_append_left (by simpa using hk)]
  have hlen : ((ds ++ [d'] ++ [d]).map (·.name)).length = ds.length + 2 := by simp
  have hlen' : ((ds ++ [d']).map (·.name)).length = ds.length + 1 := by simp
  have hds : (ds ++ [d']).length = ds.length + 1 := List.length_append
  have hlast : ((ds ++ [d']).map (·.name))[ds.length]? = some d'.name := by simp
  rw [openEnd_concat, hds]
  constructor
  · intro hre
    refine ⟨fun k hk name hname => hre k (by omega) name ((hat k (by omega)).trans hname), ?_⟩
    split_ifs with hspecial
    · exact Or.inr (hre ds.length (by omega) d'.name ((hat _ (by omega)).trans hlast) hspecial).symm
    · exact Or.inl rfl
  · rintro ⟨hre, hopen⟩ k hk name hname hspecial
    rw [hat k (by omega)] at hname
    rcases Nat.lt_or_ge k ds.length with hlt | hge
    · exact hre k (by omega) name hname hspecial
    · obtain rfl : k = ds.length := by omega
      obtain rfl : d'.name = name := Option.some.inj (hlast.symm.trans hname)
      rw [if_pos hspecial] at hopen
      exact (hopen.resolve_left (h.ne_null _ (by omega))).symm

/-- **All entries are added.** -/
theorem foldl_add_spec (h : MallocFresh addr (ds.map (·.name))) :
    (ds.foldl (DirList.add addr) .empty).mallocs = ds.length ∧
      (Reused addr (ds.map (·.name)) →
        (ds.foldl (DirList.add addr) .empty).Building (keptNodes addr 0 ds) (openEnd addr ds)) ∧
      (¬ Reused addr (ds.map (·.name)) → (ds.foldl (DirList.add addr) .empty).dangling = true) := by
  induction ds using List.reverseRecOn with
  | nil =>
    refine ⟨rfl, fun _ => ?_, fun h => absurd (fun k hk => absurd hk (Nat.not_lt_zero _)) h⟩
    exact ⟨rfl, rfl, trivial, fun _ hn => absurd hn List.not_mem_nil, List.nodup_nil, fun _ => rfl,
      fun h => absurd rfl h⟩
  | append_singleton ds d ih =>
    have hpos : addr ds.length ≠ 0 := h.ne_null ds.length (by simp)
    have hnew := h.notMem
    obtain ⟨hmallocs, hbuild, hbroken⟩ := ih (by rw [List.map_append] at h; exact h.init)
    rw [List.foldl_append, List.foldl_cons, List.foldl_nil]
    generalize ds.foldl (DirList.add addr) .empty = st at *
    rw [← hmallocs] at hpos hnew
    refine ⟨by rw [add_mallocs, hmallocs, List.length_append, List.length_singleton], fun hre => ?_,
      fun hre => ?_⟩
    · obtain ⟨hre, hopen⟩ := (reused_concat h).mp hre
      rw [← hmallocs] at hopen
      have hadd := building_add (hbuild hre) hopen hpos hnew d
      rw [keptNodes_concat, openEnd_concat, Nat.zero_add, ← hmallocs]
      split_ifs at hadd ⊢
      · rwa [List.append_nil]
      · exact hadd
    · by_cases hre' : Reused addr (ds.map (·.name))
      · have hopen := mt (fun ho => (reused_concat h).mpr ⟨hre', ho⟩) hre
        rw [not_or, ← hmallocs] at hopen
        exact add_dangling (append_broken (hbuild hre') hopen.1 hopen.2) d
      · exact add_dangling (append_dangling (hbroken hre')) d

/-- Every special entry is followed by another, whose node is allocated where its own was. -/
theorem reused_openEnd_iff (h : MallocFresh addr (ds.map (·.name))) :
    Reused addr (ds.map (·.name)) ∧ openEnd addr ds = 0 ↔
      ∀ k name, (ds.map (·.name))[k]? = some name → name ∈ specialNames →
        k + 1 < ds.length ∧ addr (k + 1) = addr k := by
  rcases List.eq_nil_or_concat ds with rfl | ⟨ds, d', rfl⟩
  · exact iff_of_true ⟨fun k hk => absurd hk (Nat.not_lt_zero _), rfl⟩ fun k name hname => nomatch hname
  rw [List.concat_eq_append] at *
  have hlen : ((ds ++ [d']).map (·.name)).length = ds.length + 1 := by simp
  have hds : (ds ++ [d']).length = ds.length + 1 := List.length_append
  have hlast : ((ds ++ [d']).map (·.name))[ds.length]? = some d'.name := by simp
  rw [openEnd_concat, hds]
  constructor
  · rintro ⟨hre, hopen⟩ k name hname hspecial
    have hk := (List.getElem?_eq_some_iff.mp hname).1
    rcases Nat.lt_or_ge k ds.length with hlt | hge
    · exact ⟨by omega, hre k (by omega) name hname hspecial⟩
    · obtain rfl : k = ds.length := by omega
      obtain rfl : d'.name = name := Option.some.inj (hlast.symm.trans hname)
      rw [if_pos hspecial] at hopen
      exact absurd hopen (h.ne_null _ (by omega))
  · intro hnext
    refine ⟨fun k _ name hname hspecial => (hnext k name hname hspecial).2, if_neg fun hspecial => ?_⟩
    exact absurd (hnext ds.length d'.name hlast hspecial).1 (lt_irrefl _)

/-- **When the entries are a list.** -/
theorem listAt_iff (h : MallocFresh addr (ds.map (·.name))) (p : List Dirent → Prop)
    (hp : p (ds.filter fun d => d.name ∉ specialNames)) :
    ((ds.foldl (DirList.add addr) .empty).dangling = false ∧ ∃ xs,
      ListAt (ds.foldl (DirList.add addr) .empty).heap (ds.foldl (DirList.add addr) .empty).ret xs ∧ p xs) ↔
      Reused addr (ds.map (·.name)) ∧ openEnd addr ds = 0 := by
  obtain ⟨-, hbuild, hbroken⟩ := foldl_add_spec h
  generalize ds.foldl (DirList.add addr) .empty = st at *
  constructor
  · rintro ⟨hintact, xs, hxs, -⟩
    have hre : Reused addr (ds.map (·.name)) := by
      by_contra hno
      rw [hbroken hno] at hintact
      cases hintact
    refine ⟨hre, ?_⟩
    by_contra hopen
    have hb := hbuild hre
    rw [hb.ret_eq] at hxs
    exact hb.linked.not_listAt hb.ne_zero hopen (hb.freed hopen).2 xs hxs
  · rintro ⟨hre, hopen⟩
    have hb := hbuild hre
    rw [hopen] at hb
    have hlist := hb.linked.listAt hb.ne_zero
    rw [← hb.ret_eq, keptNodes_snd] at hlist
    exact ⟨hb.intact, _, hlist, hp⟩

/-! ## Directories -/

/-- The list has the given records, and no freed node has been written to. -/
structure DirList.Lists (st : DirList) (rs : List DirRecord) : Prop where
  intact : st.dangling = false
  listed : ∃ ds, ListAt st.heap st.ret ds ∧
    ds.map (fun d => (d.name, d.opq)) = rs.map fun r => (r.name, r.inode)

/-- A directory with `.` and `..` alone. -/
def bareDirVolume : Mem :=
  dirVolume (dirRecordBytes 2 12 [0x2e] 0 ++ dirRecordBytes 2 1012 [0x2e, 0x2e] 0)

def dotRecord : DirRecord := ⟨2, [0x2e], 0, Nat.succ_ne_zero 1, by decide⟩

def dotDotRecord : DirRecord := ⟨2, [0x2e, 0x2e], 0, Nat.succ_ne_zero 1, by decide⟩

theorem bareDirVolume_wellFormed :
    WellFormedDir (dirFs bareDirVolume) (readAt (storeDevice 64) bareDirVolume) false bareDirVolume none
      [dotRecord, dotDotRecord] := by
  refine dirVolume_wellFormed (by decide +kernel) (by decide +kernel) ?_
  have hdot : dotRecord.At false (dirVolumeBlock bareDirVolume) 0 :=
    ⟨by decide +kernel, by decide +kernel, nofun, by decide +kernel⟩
  have hdotDot : dotDotRecord.At false (dirVolumeBlock bareDirVolume) 12 :=
    ⟨by decide +kernel, by decide +kernel, nofun, by decide +kernel⟩
  exact dirRecords_used hdot (by decide +kernel) (by decide +kernel : _ = 12) (by decide)
    (dirRecords_used hdotDot (by decide +kernel) (by decide +kernel) le_rfl .done)

theorem mallocFresh_special {names : List (List UInt8)} (h : ∀ name ∈ names, name ∈ specialNames)
    (hne : ∀ k, addr k ≠ 0) : MallocFresh addr names :=
  ⟨fun k _ => hne k, fun _ _ _ _ name hname hno => absurd (h name (List.mem_of_getElem? hname)) hno⟩

/-- The list of a directory with `.` and `..` alone is a freed node. -/
theorem ext2_dir_list_freed :
    (∃ s', ext2Init (storeDevice 64) bareDirVolume = (.ok (dirFs bareDirVolume), s')) ∧
      typeFlagsUsed (window bareDirVolume 1024) = false ∧
      WellFormedDir (dirFs bareDirVolume) (readAt (storeDevice 64) bareDirVolume) false bareDirVolume none
        [dotRecord, dotDotRecord] ∧
      MallocFresh (fun k => 0x1000 * (k + 1)) ([dotRecord, dotDotRecord].map (·.name)) ∧
      ¬ ∃ st s', ext2ReadDir (dirFs bareDirVolume) false (fun k => 0x1000 * (k + 1)) none bareDirVolume =
        .ok (st, s') ∧ st.Lists ([dotRecord, dotDotRecord].filter fun r => ¬ r.Special) := by
  refine ⟨dirFs_init (by decide +kernel), by decide +kernel, bareDirVolume_wellFormed,
    mallocFresh_special (by decide) fun k => by omega, ?_⟩
  rintro ⟨st, s', hrun, -, ds, hlist, hds⟩
  have hret : (ext2ReadDir (dirFs bareDirVolume) false (fun k => 0x1000 * (k + 1)) none
      bareDirVolume).toOption.map (fun r => r.1.ret) = some 0x1000 := by decide +kernel
  rw [hrun] at hret
  obtain rfl : ds = [] := List.map_eq_nil_iff.mp hds
  have h0 : st.ret = 0 := hlist
  have h1 : st.ret = 0x1000 := Option.some.inj hret
  omega

/-- **The list of a directory.** `ext2_read_dir` returns the list of the entries that are not special if and
only if the inodes that it looks at can be read, and every special entry is followed by another entry,
whose node is allocated where its own was. -/
theorem ext2_dir_list_iff {σ : Type} {fs : Ext2Fs σ} {parent : BlockDevice σ} {inv : σ → Prop}
    {read : ℕ → ℕ → ℕ × Mem} {s₀ s₁ s : σ} (h : SteadyReads parent inv read)
    (hinit : ext2Init parent s₀ = (.ok fs, s₁)) (hne : fs.b.blockSize ≠ 0) (hs : inv s) {typed : Bool}
    {d : Option Dirent} {rs : List DirRecord} (hdir : WellFormedDir fs read typed s d rs)
    (haddr : MallocFresh addr (rs.map (·.name))) :
    (∃ st s', ext2ReadDir fs typed addr d s = .ok (st, s') ∧ st.Lists (rs.filter fun r => ¬ r.Special)) ↔
      (∀ r ∈ rs, r.ModeRead fs read typed) ∧
        ∀ k r, rs[k]? = some r → r.Special → k + 1 < rs.length ∧ addr (k + 1) = addr k := by
  have hbs := blockSize_le hinit
  obtain ⟨rfl, -, -⟩ := ext2Init_ok hinit
  rw [ext2ReadDir_records h (Nat.pos_of_ne_zero hne) hbs hs hdir]
  refine and_congr_right fun _ => ?_
  have hnames : (rs.map (·.dirent fs read typed)).map (·.name) = rs.map (·.name) := map_dirent_name
  rw [← hnames] at haddr
  have hlisted : ((rs.map (·.dirent fs read typed)).filter fun d => d.name ∉ specialNames).map
      (fun d => (d.name, d.opq)) = (rs.filter fun r => ¬ r.Special).map fun r => (r.name, r.inode) := by
    rw [List.filter_map, List.map_map]
    rfl
  have hiff := (listAt_iff haddr (fun ds => ds.map (fun d => (d.name, d.opq)) =
    (rs.filter fun r => ¬ r.Special).map fun r => (r.name, r.inode)) hlisted).trans
      (reused_openEnd_iff haddr)
  rw [hnames, List.length_map] at hiff
  refine Iff.trans ?_ (hiff.trans ?_)
  · exact ⟨fun hds => ⟨hds.intact, hds.listed⟩, fun hds => ⟨hds.1, hds.2⟩⟩
  · constructor
    · intro hnext k r hr
      exact hnext k r.name (by rw [List.getElem?_map, hr]; rfl)
    · intro hnext k name hname
      rw [List.getElem?_map] at hname
      obtain ⟨r, hr, rfl⟩ := Option.map_eq_some_iff.mp hname
      exact hnext k r hr

/-- A directory with `.`, `..` and the file `a`. -/
def smallDirVolume : Mem :=
  dirVolume (dirRecordBytes 2 12 [0x2e] 0 ++ dirRecordBytes 2 12 [0x2e, 0x2e] 0 ++
    dirRecordBytes 12 1000 [0x61] 0)

def fileRecord : DirRecord := ⟨12, [0x61], 0, Nat.succ_ne_zero 11, by decide⟩

theorem smallDirVolume_wellFormed :
    WellFormedDir (dirFs smallDirVolume) (readAt (storeDevice 64) smallDirVolume) false smallDirVolume none
      [dotRecord, dotDotRecord, fileRecord] := by
  refine dirVolume_wellFormed (by decide +kernel) (by decide +kernel) ?_
  have hdot : dotRecord.At false (dirVolumeBlock smallDirVolume) 0 :=
    ⟨by decide +kernel, by decide +kernel, nofun, by decide +kernel⟩
  have hdotDot : dotDotRecord.At false (dirVolumeBlock smallDirVolume) 12 :=
    ⟨by decide +kernel, by decide +kernel, nofun, by decide +kernel⟩
  have hfile : fileRecord.At false (dirVolumeBlock smallDirVolume) 24 :=
    ⟨by decide +kernel, by decide +kernel, nofun, by decide +kernel⟩
  exact dirRecords_used hdot (by decide +kernel) (by decide +kernel : _ = 12) (by decide)
    (dirRecords_used hdotDot (by decide +kernel) (by decide +kernel : _ = 24) (by decide)
      (dirRecords_used hfile (by decide +kernel) (by decide +kernel) le_rfl .done))

/-- Every node may be allocated at the same place. -/
theorem smallDirVolume_fresh :
    MallocFresh (fun _ => 0x1000) ([dotRecord, dotDotRecord, fileRecord].map (·.name)) := by
  refine ⟨fun k _ => by decide, fun j k hjk hk name hname hno => ?_⟩
  -- the nodes of `.` and `..` are not kept
  have hk : k < 3 := hk
  obtain rfl | rfl : j = 0 ∨ j = 1 := by omega
  all_goals
    obtain rfl := Option.some.inj hname
    exact absurd (by decide) hno

theorem ext2_dir_list_iff_small :
    ∃ st s', ext2ReadDir (dirFs smallDirVolume) false (fun _ => 0x1000) none smallDirVolume = .ok (st, s') ∧
      st.Lists ([dotRecord, dotDotRecord, fileRecord].filter fun r => ¬ r.Special) := by
  obtain ⟨s', hinit⟩ := dirFs_init
    (by decide +kernel : (ext2Init (storeDevice 64) smallDirVolume).1.toOption.isSome)
  refine (ext2_dir_list_iff (storeDevice_steady 64 smallDirVolume) hinit (by decide +kernel) rfl
    smallDirVolume_wellFormed smallDirVolume_fresh).mpr ⟨fun r hr => ?_, fun k r hr hspecial => ?_⟩
  · simp only [List.mem_cons, List.not_mem_nil, or_false] at hr
    obtain rfl | rfl | rfl := hr
    · exact fun _ hno => absurd (by decide) hno
    · exact fun _ hno => absurd (by decide) hno
    · exact fun _ _ => by decide +kernel
  · match k with
    | 0 => exact ⟨by decide, rfl⟩
    | 1 => exact ⟨by decide, rfl⟩
    | 2 =>
      obtain rfl := Option.some.inj hr
      exact absurd hspecial (by decide)
    | _ + 3 => exact nomatch hr

end RpiBoot
