import Mathlib.Data.Nat.Notation
import Mathlib.Data.List.Basic
import Mathlib.Tactic.Common
import Mathlib.Tactic.Ring

/-!
# Trees of nodes with numbered children

`child a j` is child number `j` of node `a`. Every node above the leaves has `p` children.

* `leaves`: the nodes a number of levels down, from left to right. `descend`: the node at the end of a
  way down, given by the numbers of the children; `visited`: the nodes before it.
* `way_congr`: trees with the same children on a way.
* `place`: where the way leads among the leaves.
* `place_two`, `place_three`: a number is the place of its digits.
* **`getElem?_leaves`**: the leaf at that place is the node at the end of the way.
-/

namespace PointerTree

variable {α : Type} (child : α → ℕ → α) (p : ℕ)

/-- The nodes `n` levels below a node, from left to right. -/
def leaves : ℕ → α → List α
  | 0, a => [a]
  | n + 1, a => (List.range p).flatMap fun j => leaves n (child a j)

/-- The node at the end of a way down. -/
def descend : List ℕ → α → α
  | [], a => a
  | j :: js, a => descend js (child a j)

/-- The nodes on a way down whose children are looked up. -/
def visited : List ℕ → α → List α
  | [], _ => []
  | j :: js, a => a :: visited js (child a j)

/-- The place of the end of a way among the leaves. -/
def place : List ℕ → ℕ
  | [] => 0
  | j :: js => j * p ^ js.length + place js

variable {child p} {child' : α → ℕ → α}

/-- Trees with the same children on a way have the same way. -/
theorem way_congr {js : List ℕ} {a : α}
    (h : ∀ b ∈ visited child js a, ∀ j ∈ js, child b j = child' b j) :
    visited child js a = visited child' js a ∧ descend child js a = descend child' js a := by
  induction js generalizing a with
  | nil => exact ⟨rfl, rfl⟩
  | cons j js ih =>
    obtain ⟨hvisited, hdescend⟩ := ih fun b hb j' hj' =>
      h b (List.mem_cons_of_mem _ hb) j' (List.mem_cons_of_mem _ hj')
    rw [visited, visited, descend, descend, hvisited, hdescend, h a List.mem_cons_self j List.mem_cons_self]
    exact ⟨rfl, rfl⟩

theorem length_flatMap_const {β γ : Type} {l : List β} {f : β → List γ} {k : ℕ}
    (hf : ∀ b ∈ l, (f b).length = k) : (l.flatMap f).length = l.length * k := by
  rw [List.length_flatMap, List.map_congr_left hf, List.map_const', List.sum_replicate_nat]

/-- Blocks of one length, put one after another. -/
theorem getElem?_flatMap_const {β γ : Type} {f : β → List γ} {k i r : ℕ} (hr : r < k) {l : List β}
    (hf : ∀ b ∈ l, (f b).length = k) : (l.flatMap f)[i * k + r]? = l[i]?.bind fun b => (f b)[r]? := by
  induction l generalizing i with
  | nil => rfl
  | cons b l ih =>
    have hb := hf b List.mem_cons_self
    rw [List.flatMap_cons]
    cases i with
    | zero =>
      rw [Nat.zero_mul, Nat.zero_add, List.getElem?_append_left (by omega)]
      rfl
    | succ i =>
      rw [List.getElem?_cons_succ, ← ih fun b' hb' => hf b' (List.mem_cons_of_mem _ hb'), Nat.succ_mul,
        List.getElem?_append_right (by omega)]
      congr 1
      omega

@[simp] theorem length_leaves (n : ℕ) (a : α) : (leaves child p n a).length = p ^ n := by
  induction n generalizing a with
  | zero => rfl
  | succ n ih =>
    rw [leaves, length_flatMap_const fun j _ => ih _, List.length_range, Nat.pow_succ, Nat.mul_comm]

theorem place_lt {js : List ℕ} (h : ∀ j ∈ js, j < p) : place p js < p ^ js.length := by
  induction js with
  | nil => exact Nat.one_pos
  | cons j js ih =>
    have hrest := ih fun j' hj' => h j' (List.mem_cons_of_mem _ hj')
    have hj := Nat.mul_le_mul_right (p ^ js.length) (Nat.succ_le_of_lt (h j List.mem_cons_self))
    rw [Nat.succ_mul] at hj
    rw [place, List.length_cons, Nat.pow_succ, Nat.mul_comm (p ^ js.length) p]
    omega

@[simp] theorem place_one (j : ℕ) : place p [j] = j := by
  rw [place, List.length_nil, Nat.pow_zero, Nat.mul_one, place, Nat.add_zero]

@[simp] theorem place_two (j : ℕ) : place p [j / p, j % p] = j := by
  rw [place, place_one, List.length_singleton, Nat.pow_one, Nat.div_add_mod']

@[simp] theorem place_three (j : ℕ) : place p [j / (p * p), j % (p * p) / p, j % (p * p) % p] = j := by
  rw [place, place_two, List.length_cons, List.length_singleton, Nat.pow_two, Nat.div_add_mod']

variable (child) in
/-- **The leaf at the end of a way.** -/
theorem getElem?_leaves {js : List ℕ} (h : ∀ j ∈ js, j < p) (a : α) :
    (leaves child p js.length a)[place p js]? = some (descend child js a) := by
  induction js generalizing a with
  | nil => rfl
  | cons j js ih =>
    have hrest : ∀ j' ∈ js, j' < p := fun j' hj' => h j' (List.mem_cons_of_mem _ hj')
    rw [List.length_cons, leaves, place, getElem?_flatMap_const (place_lt hrest) fun _ _ => length_leaves _ _,
      List.getElem?_range (h j List.mem_cons_self), Option.bind_some, descend, ih hrest]

end PointerTree
