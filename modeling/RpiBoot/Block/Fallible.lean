import RpiBoot.Block.Healthy

/-!
# Devices whose reads may fail

Any read may fail, in any state. A read of whole good blocks that does not fail is served in full; no
read changes the contents, and none writes beyond the buffer.

* `FallibleReads`: the laws of such a driver.
* **`blockRead_fallible`**: `block_read` of good blocks is served or returns a negative result.
* **`blockRead_frame`**: `block_read` of any blocks changes only the buffer.
-/

namespace RpiBoot

open Store

variable {σ : Type}

/-- Whole-block reads of good blocks deliver the contents or fail. -/
structure FallibleReads (dev : BlockDevice σ) (inv : σ → Prop) (content : σ → Mem)
    (good : ℕ → Prop) : Prop where
  good_lt : ∀ b, good b → b < 2 ^ 32
  exists_read : ∃ rd, dev.read = some rd ∧
    (∀ s buf n b, inv s → inv (rd s buf n b).2 ∧ content (rd s buf n b).2 = content s ∧
      (rd s buf n b).1.data.length ≤ n) ∧
    ∀ s buf k b, inv s → 0 < k → (∀ i < k, good (b + i)) → k * dev.blockSize < 2 ^ 31 →
      ServedOr True dev inv content s k b (rd s buf (k * dev.blockSize) b)

variable {dev : BlockDevice σ} {inv : σ → Prop} {content : σ → Mem} {good : ℕ → Prop}

/-- **`block_read` of good blocks.** -/
theorem blockRead_fallible (h : FallibleReads dev inv content good) {s : σ} (hs : inv s) (mem : Mem)
    (buf : ℕ) {k start : ℕ} (hk : 0 < k) (hg : ∀ i < k, good (start + i))
    (hn : k * dev.blockSize < 2 ^ 31) :
    ∃ count mem' s', blockRead dev s mem buf (k * dev.blockSize) start = (count, mem', s') ∧
      inv s' ∧ content s' = content s ∧ (i32 count < 0 ∨ count = k * dev.blockSize ∧
        mem' = patch mem buf (slice (content s) (start * dev.blockSize) (k * dev.blockSize))) := by
  obtain ⟨rd, hrd, -, hlaw⟩ := h.exists_read
  obtain ⟨count, mem', s', hr, hi, hc, hres⟩ := blockRead_blocks hrd h.good_lt hlaw hs mem buf hk hg hn
  exact ⟨count, mem', s', hr, hi, hc, hres.imp_left And.right⟩

theorem blockReadLoop_frame {rd : ReadFn σ} (start buf : ℕ)
    (hrd : ∀ s buf n b, inv s → inv (rd s buf n b).2 ∧ content (rd s buf n b).2 = content s ∧
      (rd s buf n b).1.data.length ≤ n) :
    ∀ (fuel : ℕ) (s : σ) (mem : Mem) (n off j : ℕ), inv s →
      ∃ count mem' s', blockReadLoop dev rd buf start fuel s mem n off j = (count, mem', s') ∧
        (∀ a, a < buf + off ∨ buf + off + n ≤ a → mem' a = mem a) ∧ inv s' ∧ content s' = content s := by
  intro fuel
  induction fuel with
  | zero => exact fun s mem n off j hs => ⟨off, mem, s, rfl, fun _ _ => rfl, hs, rfl⟩
  | succ fuel ih =>
    intro s mem n off j hs
    have ht : (if n > dev.blockSize then dev.blockSize else n) ≤ n := by split_ifs <;> omega
    obtain ⟨hi, hc, hlen⟩ := hrd s (buf + off) (if n > dev.blockSize then dev.blockSize else n)
      (u32 (start + j)) hs
    rw [blockReadLoop]
    dsimp only
    generalize rd s (buf + off) (if n > dev.blockSize then dev.blockSize else n) (u32 (start + j)) = r at *
    have hpatch : ∀ a, a < buf + off ∨ buf + off + n ≤ a →
        patch mem (buf + off) r.1.data a = mem a := fun a ha =>
      patch_apply_of_notMem _ _ _ (by omega)
    split_ifs with h₁ h₂ h₃ h₄ <;> try exact ⟨_, _, _, rfl, hpatch, hi, hc⟩
    all_goals
      obtain ⟨count, mem', s', hl, hframe, hi', hc'⟩ := ih r.2 (patch mem (buf + off) r.1.data) _ _ (j + 1) hi
      refine ⟨count, mem', s', hl, fun a ha => ?_, hi', hc'.trans hc⟩
      rw [hframe a (by omega), hpatch a ha]

/-- **`block_read` changes only the buffer.** -/
theorem blockRead_frame (h : FallibleReads dev inv content good) {s : σ} (hs : inv s) (mem : Mem)
    (buf n start : ℕ) :
    ∃ count mem' s', blockRead dev s mem buf n start = (count, mem', s') ∧
      (∀ a, a < buf ∨ buf + n ≤ a → mem' a = mem a) ∧ inv s' ∧ content s' = content s := by
  obtain ⟨rd, hrd, hlaw, -⟩ := h.exists_read
  unfold blockRead
  simp only [hrd]
  split_ifs
  · obtain ⟨hi, hc, hlen⟩ := hlaw s buf n start hs
    exact ⟨_, _, _, rfl, fun a ha => patch_apply_of_notMem _ _ _ (by omega), hi, hc⟩
  · exact blockReadLoop_frame start buf hlaw _ s mem n 0 0 hs

/-- The reads of a store of bytes. -/
theorem storeDevice_fallible {numBlocks : ℕ} (h : numBlocks ≤ 2 ^ 32) :
    FallibleReads (storeDevice numBlocks) (fun _ => True) (fun c => c)
      fun b => b * 512 + 512 ≤ numBlocks * 512 := by
  refine ⟨fun b hb => by omega, _, rfl, fun s buf n b _ => ⟨trivial, rfl, ?_⟩,
    fun s buf k b _ hk hg _ => ⟨trivial, rfl, Or.inr ?_⟩⟩
  · exact (length_slice _ _ _).trans_le (min_le_left _ _)
  · change ReadReply.mk (served 512 (numBlocks * 512) (k * 512) b)
      (slice s (b * 512) (served 512 (numBlocks * 512) (k * 512) b)) = _
    rw [served_blocks hk hg]
    rfl

end RpiBoot
