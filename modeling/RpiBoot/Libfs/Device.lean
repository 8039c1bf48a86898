import RpiBoot.Libfs.Model

/-!
# What the transfer loops do to a device

A property `I` of the state of a device, with whatever else it carries, is kept by the loops when the
reads of the device keep it, and the writes to the blocks that the filesystem finds.

* `blockRead_keeps`, `blockWrite_keeps`: one request cut into blocks.
* **`fsFread_keeps`**, **`fsFwrite_keeps`**: the loops of `libfs.c`.
-/

namespace RpiBoot

variable {σ ο : Type} {dev : BlockDevice σ} {I : σ → Prop}

/-- The reads of a device keep `I`. -/
def ReadsKeep (dev : BlockDevice σ) (I : σ → Prop) : Prop :=
  ∀ rd, dev.read = some rd → ∀ s buf n b, I s → I (rd s buf n b).2

/-- The writes of whole blocks with the number `b` keep `I`. -/
def WritesKeep (dev : BlockDevice σ) (I : σ → Prop) (b : ℕ) : Prop :=
  ∀ wr, dev.write = some wr → ∀ s mem buf, I s → I (wr s mem buf dev.blockSize b).2

theorem blockReadLoop_keeps {rd : ReadFn σ} (h : ∀ s buf n b, I s → I (rd s buf n b).2)
    (buf start : ℕ) :
    ∀ (fuel : ℕ) (s : σ) (mem : Mem) (n off j : ℕ), I s →
      I (blockReadLoop dev rd buf start fuel s mem n off j).2.2
  | 0, _, _, _, _, _, hs => hs
  | fuel + 1, s, mem, n, off, j, hs => by
    rw [blockReadLoop]
    dsimp only
    split_ifs
    all_goals first
      | exact h _ _ _ _ hs
      | exact blockReadLoop_keeps h buf start fuel _ _ _ _ _ (h _ _ _ _ hs)

/-- `block_read` keeps what the reads of the device keep. -/
theorem blockRead_keeps (h : ReadsKeep dev I) {s : σ} (hs : I s) (mem : Mem) (buf n b : ℕ) :
    I (blockRead dev s mem buf n b).2.2 := by
  unfold blockRead
  cases hrd : dev.read with
  | none => exact hs
  | some rd =>
    dsimp only
    split_ifs
    · exact h rd hrd _ _ _ _ hs
    · exact blockReadLoop_keeps (h rd hrd) _ _ _ _ _ _ _ _ hs

/-- `block_write` of one block. -/
theorem blockWrite_keeps {b : ℕ} (hb : b < 2 ^ 32) (h : WritesKeep dev I b) {s : σ} (hs : I s)
    (mem : Mem) (buf : ℕ) : I (blockWrite dev s mem buf dev.blockSize b).2 := by
  unfold blockWrite
  cases hwr : dev.write with
  | none => exact hs
  | some wr =>
    simp only [blockWriteLoop, Nat.add_zero, u32_of_lt hb, gt_iff_lt, Nat.lt_irrefl, if_false, Nat.sub_self]
    split_ifs <;> exact h wr hwr _ _ _ hs

variable {getNext : GetNext σ ο} {fs : Fs σ} {temp : ℕ → ℕ} {r : Span}

/-- The lookups of a filesystem keep `I`; those that add blocks find a block that `ok` allows, or none. -/
structure LookupsKeep (getNext : GetNext σ ο) (I : σ → Prop) (ok : ℕ → Prop) : Prop where
  keeps : ∀ idx add opq io, I io.dev → I (getNext idx add opq io).2.2.dev
  found : ∀ idx opq io, I io.dev → (getNext idx true opq io).1 ≠ noBlock →
    ok (getNext idx true opq io).1

variable {ok : ℕ → Prop}

theorem fsFreadRound_keeps (temp : ℕ → ℕ) (r : Span) (hl : LookupsKeep getNext I ok)
    (hread : ReadsKeep fs.parent I) (st : FreadState σ ο) (hs : I st.io.dev) :
    match fsFreadRound getNext fs temp r st with
    | .ok st' => I st'.io.dev
    | .error ret => I ret.2.dev := by
  have hg := hl.keeps st.curBlock false st.opq st.io hs
  unfold fsFreadRound
  dsimp only
  generalize getNext st.curBlock false st.opq st.io = g at *
  split_ifs
  · exact hg
  all_goals exact blockRead_keeps hread hg _ _ _ _

theorem fsFreadLoop_keeps (hl : LookupsKeep getNext I ok) (hread : ReadsKeep fs.parent I) :
    ∀ (fuel : ℕ) (st : FreadState σ ο), I st.io.dev → I (fsFreadLoop getNext fs temp r fuel st).2.dev
  | 0, _, hs => hs
  | fuel + 1, st, hs => by
    have hround := fsFreadRound_keeps temp r hl hread st hs
    rw [fsFreadLoop]
    split_ifs
    · cases h : fsFreadRound getNext fs temp r st with
      | error ret => rwa [h] at hround
      | ok st' =>
        rw [h] at hround
        exact fsFreadLoop_keeps hl hread fuel st' hround
    · exact hs

/-- **`fs_fread` keeps `I`.** -/
theorem fsFread_keeps (hl : LookupsKeep getNext I ok) (hread : ReadsKeep fs.parent I) (opq : ο)
    (ptr n : ℕ) {io : FileIo σ} (hs : I io.dev) : I (fsFread getNext fs temp opq ptr n io).2.dev :=
  fsFreadLoop_keeps hl hread _ _ hs

theorem fsFwriteLoop_keeps (hl : LookupsKeep getNext I ok) (hread : ReadsKeep fs.parent I)
    (hsize : fs.blockSize = fs.parent.blockSize) (hok : ∀ b, ok b → b < 2 ^ 32 ∧ WritesKeep fs.parent I b) :
    ∀ (fuel cur save : ℕ) (total : ℤ) (opq : ο) (io : FileIo σ), I io.dev →
      I (fsFwriteLoop getNext fs temp r fuel cur save total opq io).2.dev
  | 0, _, _, _, _, _, hs => hs
  | fuel + 1, cur, save, total, opq, io, hs => by
    have hg := hl.keeps cur true opq io hs
    have hfound := hl.found cur opq io hs
    rw [fsFwriteLoop]
    dsimp only
    generalize getNext cur true opq io = g at *
    have hwrite : g.1 ≠ noBlock → ∀ s mem buf, I s →
        I (blockWrite fs.parent s mem buf fs.blockSize g.1).2 := fun hne s mem buf hs => by
      obtain ⟨hlt, hw⟩ := hok _ (hfound hne)
      rw [hsize]
      exact blockWrite_keeps hlt hw hs mem buf
    have hr : I (blockRead fs.parent g.2.2.dev g.2.2.mem (temp cur) fs.blockSize g.1).2.2 :=
      blockRead_keeps hread hg _ _ _ _
    by_cases hlast : cur ≤ r.lastFBlockIdx
    · rw [if_pos hlast]
      by_cases hno : g.1 = noBlock
      · rw [if_pos hno]
        exact hg
      · rw [if_neg hno]
        split_ifs
        · exact hwrite hno _ _ _ hg
        · exact fsFwriteLoop_keeps hl hread hsize hok fuel _ _ _ _ _ (hwrite hno _ _ _ hg)
        · exact hr
        · exact hwrite hno _ _ _ hr
        · exact fsFwriteLoop_keeps hl hread hsize hok fuel _ _ _ _ _ (hwrite hno _ _ _ hr)
    · rw [if_neg hlast]
      exact hs

/-- **`fs_fwrite` keeps `I`**, where the blocks of the filesystem are those of the device. -/
theorem fsFwrite_keeps (hl : LookupsKeep getNext I ok) (hread : ReadsKeep fs.parent I)
    (hsize : fs.blockSize = fs.parent.blockSize) (hok : ∀ b, ok b → b < 2 ^ 32 ∧ WritesKeep fs.parent I b)
    (opq : ο) (ptr n : ℕ) {io : FileIo σ} (hs : I io.dev) :
    I (fsFwrite getNext fs temp opq ptr n io).2.dev :=
  fsFwriteLoop_keeps hl hread hsize hok _ _ _ _ _ _ hs

end RpiBoot
