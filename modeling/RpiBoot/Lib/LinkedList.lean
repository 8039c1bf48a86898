import Mathlib.Data.Nat.Notation
import Mathlib.Data.List.Basic
import Mathlib.Logic.Function.Basic
import Mathlib.Tactic.Common

/-!
# Linked lists in a heap

A node is a value and the address of the next node. `0` is the null pointer, and `none` a cell that is
not allocated.

* `Linked h l e`: the nodes `l` lie in the heap, each points to the next, and the last one to `e`.
* `ListAt h a xs`: from `a` on, the values `xs` and then the null pointer.
* **`Linked.listAt`**, **`Linked.not_listAt`**: nodes that end in the null pointer are a list, and nodes
  that end in a cell that is not allocated are none.
* `Linked.update`, `Linked.retarget`: writes beside the nodes, and to the link of the last one.
-/

namespace LinkedList

variable {α : Type}

/-- The allocated nodes. -/
abbrev Heap (α : Type) := ℕ → Option (α × ℕ)

/-- The address at which nodes begin that end in `e`. -/
def first : List (ℕ × α) → ℕ → ℕ
  | [], e => e
  | n :: _, _ => n.1

/-- The nodes lie in the heap, and each points to the next, the last one to `e`. -/
def Linked (h : Heap α) : List (ℕ × α) → ℕ → Prop
  | [], _ => True
  | n :: l, e => h n.1 = some (n.2, first l e) ∧ Linked h l e

/-- From `a` on, allocated nodes with the given values, and then the null pointer. -/
def ListAt (h : Heap α) : ℕ → List α → Prop
  | a, [] => a = 0
  | a, x :: xs => a ≠ 0 ∧ ∃ b, h a = some (x, b) ∧ ListAt h b xs

variable {h : Heap α} {l l' : List (ℕ × α)} {e p : ℕ} {x : α}

theorem first_append (l l' : List (ℕ × α)) (e : ℕ) : first (l ++ l') e = first l (first l' e) := by
  cases l <;> rfl

theorem linked_append : Linked h (l ++ l') e ↔ Linked h l (first l' e) ∧ Linked h l' e := by
  induction l with
  | nil => exact (and_iff_right trivial).symm
  | cons n l ih => rw [List.cons_append, Linked, Linked, ih, first_append, and_assoc]

theorem linked_concat : Linked h (l ++ [(p, x)]) e ↔ Linked h l p ∧ h p = some (x, e) := by
  rw [linked_append, Linked, Linked, and_true]
  rfl

/-- A write beside the nodes. -/
theorem Linked.update (hl : Linked h l e) (hp : p ∉ l.map Prod.fst) (c : Option (α × ℕ)) :
    Linked (Function.update h p c) l e := by
  induction l with
  | nil => trivial
  | cons n l ih =>
    rw [List.map_cons, List.mem_cons, not_or] at hp
    exact ⟨by rw [Function.update_of_ne (Ne.symm hp.1), hl.1], ih hl.2 hp.2⟩

/-- A write to the link of the last node. -/
theorem Linked.retarget (hl : Linked h (l ++ [(p, x)]) e) (hp : p ∉ l.map Prod.fst) (e' : ℕ) :
    Linked (Function.update h p (some (x, e'))) (l ++ [(p, x)]) e' :=
  linked_concat.mpr ⟨(linked_concat.mp hl).1.update hp _, Function.update_self ..⟩

/-- **Nodes that end in the null pointer.** -/
theorem Linked.listAt (hl : Linked h l 0) (hne : ∀ n ∈ l, n.1 ≠ 0) :
    ListAt h (first l 0) (l.map Prod.snd) := by
  induction l with
  | nil => rfl
  | cons n l ih =>
    exact ⟨hne n List.mem_cons_self, _, hl.1, ih hl.2 fun n' hn' => hne n' (List.mem_cons_of_mem _ hn')⟩

/-- **Nodes that end in a cell that is not allocated.** -/
theorem Linked.not_listAt (hl : Linked h l e) (hne : ∀ n ∈ l, n.1 ≠ 0) (he : e ≠ 0) (hfree : h e = none)
    (xs : List α) : ¬ ListAt h (first l e) xs := by
  induction l generalizing xs with
  | nil =>
    intro ha
    cases xs with
    | nil => exact he ha
    | cons x xs =>
      obtain ⟨-, b, hb, -⟩ := ha
      rw [first, hfree] at hb
      cases hb
  | cons n l ih =>
    intro ha
    cases xs with
    | nil => exact hne n List.mem_cons_self ha
    | cons x xs =>
      obtain ⟨-, b, hb, hxs⟩ := ha
      rw [first, hl.1] at hb
      cases hb
      exact ih hl.2 (fun n' hn' => hne n' (List.mem_cons_of_mem _ hn')) xs hxs

end LinkedList
