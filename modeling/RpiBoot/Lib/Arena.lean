import Mathlib

/-!
# Ownership

Memory of which some parts are owned. A part is taken from what is free, apart from those that are
owned, and while it is taken nothing is written but the part and a rim around it.

* `Arena.Holding`: a part with its rim. `Holding.Spares`: one that is taken spares one that is there.
* `Arena`, `Arena.Grows`: such a memory, and what the taking of parts may do to it.
* `Grows.refl`, **`Grows.trans`**, `grows_take`: no part, some parts and then others, one part.
* **`Grows.kept`**: what lies in a part that is owned stays.
* `Grows.pairwise`, `Grows.inside`: the parts stay apart, and in what is free.
-/

/-- A part of memory that is owned, and the rim that is written with it. -/
structure Arena.Holding (α : Type) where
  own : Set α
  rim : Set α

/-- What is written for `x` is not in `y`. -/
structure Arena.Holding.Spares {α : Type} (x y : Arena.Holding α) : Prop where
  own : Disjoint x.own y.own
  rim : Disjoint x.rim y.own

/-- Memory, and the parts of it that are owned. -/
structure Arena (α β : Type) where
  owned : List (Arena.Holding α)
  mem : α → β

namespace Arena

variable {α β : Type} {free : Set α} {s t u : Arena α β}

/-- Parts have been taken, and only they and their rims have been written. -/
def Grows (free : Set α) (s t : Arena α β) : Prop :=
  ∃ new, t.owned = new ++ s.owned ∧ (∀ x ∈ new, x.own ⊆ free) ∧ new.Pairwise Holding.Spares ∧
    (∀ x ∈ new, ∀ y ∈ s.owned, x.Spares y) ∧
    ∀ a, (∀ x ∈ new, a ∉ x.own ∧ a ∉ x.rim) → t.mem a = s.mem a

theorem Grows.refl (free : Set α) (s : Arena α β) : Grows free s s :=
  ⟨[], rfl, List.forall_mem_nil _, List.Pairwise.nil, List.forall_mem_nil _, fun _ _ => rfl⟩

theorem Grows.trans (hst : Grows free s t) (htu : Grows free t u) : Grows free s u := by
  obtain ⟨new, ht, hfree, hpair, hapart, hmem⟩ := hst
  obtain ⟨new', hu, hfree', hpair', hapart', hmem'⟩ := htu
  rw [ht] at hu hapart'
  refine ⟨new' ++ new, by rw [hu, List.append_assoc], List.forall_mem_append.mpr ⟨hfree', hfree⟩,
    List.pairwise_append.mpr ⟨hpair', hpair, fun x hx y hy => ?_⟩,
    List.forall_mem_append.mpr ⟨fun x hx y hy => ?_, hapart⟩, fun a ha => ?_⟩
  · exact hapart' x hx y (List.mem_append_left _ hy)
  · exact hapart' x hx y (List.mem_append_right _ hy)
  · obtain ⟨ha', ha⟩ := List.forall_mem_append.mp ha
    rw [hmem' a ha', hmem a ha]

/-- One part is taken and written. -/
theorem grows_take {x : Holding α} {mem : α → β} (hfree : x.own ⊆ free) (hapart : ∀ y ∈ s.owned, x.Spares y)
    (hmem : ∀ a, a ∉ x.own → a ∉ x.rim → mem a = s.mem a) : Grows free s ⟨x :: s.owned, mem⟩ :=
  ⟨[x], rfl, List.forall_mem_singleton.mpr hfree, List.pairwise_singleton _ x,
    List.forall_mem_singleton.mpr hapart, fun a ha =>
      hmem a (ha x List.mem_cons_self).1 (ha x List.mem_cons_self).2⟩

/-- **What is owned is kept.** -/
theorem Grows.kept (h : Grows free s t) {x : Holding α} (hx : x ∈ s.owned) :
    Set.EqOn t.mem s.mem x.own := by
  obtain ⟨new, -, -, -, hapart, hmem⟩ := h
  intro a ha
  refine hmem a fun y hy => ⟨fun hay => ?_, fun hay => ?_⟩
  · exact Set.disjoint_left.mp (hapart y hy x hx).own hay ha
  · exact Set.disjoint_left.mp (hapart y hy x hx).rim hay ha

theorem Grows.pairwise (h : Grows free s t) (hs : s.owned.Pairwise Holding.Spares) :
    t.owned.Pairwise Holding.Spares := by
  obtain ⟨new, ht, -, hpair, hapart, -⟩ := h
  rw [ht]
  exact List.pairwise_append.mpr ⟨hpair, hs, hapart⟩

theorem Grows.inside (h : Grows free s t) (hs : ∀ x ∈ s.owned, x.own ⊆ free) :
    ∀ x ∈ t.owned, x.own ⊆ free := by
  obtain ⟨new, ht, hfree, -, -, -⟩ := h
  rw [ht]
  exact List.forall_mem_append.mpr ⟨hfree, hs⟩

end Arena
