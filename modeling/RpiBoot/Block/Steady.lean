import RpiBoot.Block.Healthy
import RpiBoot.Libfs.Device

/-!
# Devices with steady contents

What a read of such a device delivers, and whether it fails, depends on the request alone: two reads
of the same blocks have the same outcome.

* `SteadyReads`: the outcome of every `block_read` to a new buffer.
* `steady_of_keeps`: a device whose reads do not change it.
-/

namespace RpiBoot

variable {σ : Type}

/-- `read n b` is the result and the buffer of a `block_read` of `n` bytes from block `b` on. -/
def SteadyReads (dev : BlockDevice σ) (inv : σ → Prop) (read : ℕ → ℕ → ℕ × Mem) : Prop :=
  ∀ s n b, inv s → ∃ s', readFresh dev s n b = ((read n b).1, (read n b).2, s') ∧ inv s'

/-- What reads of a device in state `c` deliver. -/
def readAt (dev : BlockDevice σ) (c : σ) (n b : ℕ) : ℕ × Mem :=
  ((readFresh dev c n b).1, (readFresh dev c n b).2.1)

theorem steady_of_keeps {dev : BlockDevice σ} {c : σ} (h : ReadsKeep dev (· = c)) :
    SteadyReads dev (· = c) (readAt dev c) := by
  rintro s n b rfl
  exact ⟨s, Prod.ext rfl (Prod.ext rfl (blockRead_keeps h rfl (fun _ => 0) 0 n b)), rfl⟩

/-- The reads of a store of bytes. -/
theorem storeDevice_steady (numBlocks : ℕ) (c : Mem) :
    SteadyReads (storeDevice numBlocks) (· = c) (readAt (storeDevice numBlocks) c) := by
  refine steady_of_keeps fun rd hrd s buf n b hs => ?_
  cases hrd
  exact hs

end RpiBoot
