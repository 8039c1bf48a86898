import Mathlib.Data.Fintype.EquivFin
import Mathlib.Data.Fintype.Basic
import Mathlib.Data.List.Nodup

/-!
# Chains of a partial successor function

`next a` is the successor of `a`, if it has one.

* `Chain next a l`: the elements from `a` on, up to one that has no successor.
* `EndsWithin`: the walk from `a` on visits at most `n` elements.
* **`endsWithin_iff`**: it does when there is a chain of at most `n` elements.
* `Chain.nodup`: no element of a chain comes twice.
* **`exists_chain_iff`**: when the successors lie in a finite set, a walk that meets no element twice
  ends, and no other does.
-/

namespace Chains

variable {α : Type} {next : α → Option α}

/-- The elements from `a` on, up to one without a successor. -/
inductive Chain (next : α → Option α) : α → List α → Prop where
  | last {a} : next a = none → Chain next a [a]
  | link {a b l} : next a = some b → Chain next b l → Chain next a (a :: l)

/-- The walk from an element on visits at most that many elements. -/
def EndsWithin (next : α → Option α) : ℕ → α → Prop
  | 0, _ => False
  | n + 1, a => ∀ b, next a = some b → EndsWithin next n b

/-- The element after `n` steps. -/
def nth (next : α → Option α) (a : α) : ℕ → Option α
  | 0 => some a
  | n + 1 => (nth next a n).bind next

theorem nth_succ' (a : α) (n : ℕ) : nth next a (n + 1) = (next a).bind fun b => nth next b n := by
  induction n with
  | zero =>
    rw [nth, nth, Option.bind_some]
    cases next a <;> rfl
  | succ n ih =>
    rw [nth, ih, Option.bind_assoc]
    rfl

/-- **Walks that end.** -/
theorem endsWithin_iff {n : ℕ} {a : α} :
    EndsWithin next n a ↔ ∃ l, Chain next a l ∧ l.length ≤ n := by
  induction n generalizing a with
  | zero =>
    refine ⟨False.elim, ?_⟩
    rintro ⟨_, hc, hlen⟩
    cases hc <;> exact absurd hlen (Nat.not_succ_le_zero _)
  | succ n ih =>
    rw [EndsWithin]
    constructor
    · intro h
      cases ha : next a with
      | none => exact ⟨[a], .last ha, Nat.succ_le_succ (Nat.zero_le n)⟩
      | some b =>
        obtain ⟨l, hl, hlen⟩ := ih.mp (h b ha)
        exact ⟨a :: l, .link ha hl, Nat.succ_le_succ hlen⟩
    · rintro ⟨_, hc, hlen⟩ b hb
      cases hc with
      | last ha =>
        rw [ha] at hb
        cases hb
      | link ha hl =>
        obtain rfl := Option.some.inj (ha.symm.trans hb)
        exact ih.mpr ⟨_, hl, Nat.le_of_succ_le_succ hlen⟩

/-- A walk that comes to an element that is its own successor does not end. -/
theorem not_endsWithin_of_self {a : α} (h : next a = some a) (n : ℕ) : ¬ EndsWithin next n a := by
  induction n with
  | zero => exact id
  | succ n ih => exact fun he => ih (he a h)

/-- An element has one chain at most. -/
theorem Chain.unique {a : α} {l l' : List α} (h : Chain next a l) (h' : Chain next a l') : l = l' := by
  induction h generalizing l' with
  | last ha =>
    cases h' with
    | last _ => rfl
    | link hb _ => cases ha.symm.trans hb
  | link ha _ ih =>
    cases h' with
    | last hb => cases hb.symm.trans ha
    | link hb hl' =>
      obtain rfl := Option.some.inj (ha.symm.trans hb)
      rw [ih hl']

/-- A chain goes on from each of its elements. -/
theorem Chain.of_mem {a b : α} {l : List α} (h : Chain next a l) (hb : b ∈ l) :
    ∃ l', Chain next b l' ∧ l'.length ≤ l.length := by
  induction h with
  | last ha =>
    obtain rfl := List.mem_singleton.mp hb
    exact ⟨_, .last ha, le_rfl⟩
  | link ha hl ih =>
    rcases List.mem_cons.mp hb with rfl | hb
    · exact ⟨_, .link ha hl, le_rfl⟩
    · obtain ⟨l', hl', hlen⟩ := ih hb
      exact ⟨l', hl', Nat.le_succ_of_le hlen⟩

/-- **No element of a chain comes twice.** -/
theorem Chain.nodup {a : α} {l : List α} (h : Chain next a l) : l.Nodup := by
  induction h with
  | last _ => exact List.nodup_singleton _
  | link ha hl ih =>
    refine List.nodup_cons.mpr ⟨fun hmem => ?_, ih⟩
    -- the chain from `a` on would be shorter than itself
    obtain ⟨l', hl', hlen⟩ := hl.of_mem hmem
    rw [hl'.unique (.link ha hl)] at hlen
    exact absurd hlen (Nat.not_succ_le_self _)

/-- The elements of a chain are those that the steps lead to. -/
theorem Chain.nth_eq {a : α} {l : List α} (h : Chain next a l) (n : ℕ) : nth next a n = l[n]? := by
  induction h generalizing n with
  | last ha =>
    cases n with
    | zero => rfl
    | succ n =>
      rw [nth_succ', ha]
      rfl
  | link ha _ ih =>
    cases n with
    | zero => rfl
    | succ n => rw [nth_succ', ha, Option.bind_some, ih, List.getElem?_cons_succ]

/-- A walk that comes to an element without a successor is a chain. -/
theorem exists_chain_of_nth {a : α} {n : ℕ} (h : nth next a n = none) : ∃ l, Chain next a l := by
  induction n generalizing a with
  | zero => cases h
  | succ n ih =>
    rw [nth_succ'] at h
    cases ha : next a with
    | none => exact ⟨[a], .last ha⟩
    | some b =>
      rw [ha, Option.bind_some] at h
      obtain ⟨l, hl⟩ := ih h
      exact ⟨a :: l, .link ha hl⟩

/-- **A walk among finitely many elements** ends if and only if it meets none of them twice. -/
theorem exists_chain_iff {s : Finset α} (hs : ∀ a b, next a = some b → b ∈ s) {a : α} :
    (∃ l, Chain next a l) ↔
      ∀ i j x, nth next a i = some x → nth next a j = some x → i = j := by
  constructor
  · rintro ⟨l, hl⟩ i j x hi hj
    rw [hl.nth_eq] at hi hj
    obtain ⟨hilt, hi⟩ := List.getElem?_eq_some_iff.mp hi
    obtain ⟨hjlt, hj⟩ := List.getElem?_eq_some_iff.mp hj
    exact (hl.nodup.getElem_inj_iff).mp (hi.trans hj.symm)
  · intro hinj
    by_contra hno
    have hsome : ∀ n, ∃ x, nth next a (n + 1) = some x := fun n =>
      Option.ne_none_iff_exists'.mp fun hn => hno (exists_chain_of_nth hn)
    choose f hf using hsome
    have hmem : ∀ n, f n ∈ s := fun n => by
      obtain ⟨x, -, hx⟩ := Option.bind_eq_some_iff.mp (hf n)
      exact hs x _ hx
    -- the steps would number infinitely many elements of `s`
    refine not_injective_infinite_finite (fun n => (⟨f n, hmem n⟩ : s)) fun i j hij => ?_
    have hfij : f i = f j := congrArg Subtype.val hij
    have := hinj (i + 1) (j + 1) (f i) (hf i) (by rw [hf j, hfij])
    omega

end Chains
