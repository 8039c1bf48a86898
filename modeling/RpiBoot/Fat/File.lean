import Mathlib.Data.List.Perm.Subperm
import RpiBoot.Fat.Volume
import RpiBoot.Libfs.SeqFile

/-!
# The contents of a FAT file

A file is the concatenation of the clusters of its chain, cut to its length. The cursor of
`fat_get_next_bdev_block_num` walks the chain as the table links it.

* `ClusterChain`: the chain of a file in the table.
* `fatWalk_spec`, **`fat_lookup`**: the cursor finds the `i`-th cluster of the chain.
* **`fat_flags`**: when a read raises the end-of-file flag.
* **`fat_file_contents`**: a run of `fseek` and `fread` calls on an opened file is a run on its
  contents.
-/

namespace RpiBoot

open Store Runs

/-- The clusters of a file that starts at cluster `first`, as the table links them. -/
structure ClusterChain (bs : FatBS) (ft : FatType) (vol : Mem) (first : ℕ) (chain : List ℕ) :
    Prop where
  head : chain[0]? = some first
  nodup : chain.Nodup
  isCluster : ∀ c ∈ chain, bs.IsCluster c
  link : ∀ i c c', chain[i]? = some c → chain[i + 1]? = some c' → bs.fatEntry ft vol c = c'
  last : ∀ i c, chain[i]? = some c → chain[i + 1]? = none → EndMark ft (bs.fatEntry ft vol c)

variable {bs : FatBS} {ft : FatType} {vol : Mem} {first : ℕ} {chain : List ℕ}

/-- A chain of one cluster. -/
theorem clusterChain_singleton {c : ℕ} (hc : bs.IsCluster c) (hend : EndMark ft (bs.fatEntry ft vol c)) :
    ClusterChain bs ft vol c [c] := by
  refine ⟨rfl, by simp, fun c' hc' => List.mem_singleton.mp hc' ▸ hc,
    fun i c₁ c₂ _ h₂ => ?_, fun i c' h₁ _ => ?_⟩
  · rw [List.getElem?_cons_succ] at h₂
    exact nomatch h₂
  · exact List.mem_singleton.mp (List.mem_of_getElem? h₁) ▸ hend

/-- A chain has no more clusters than the volume. -/
theorem ClusterChain.length_lt (h : ClusterChain bs ft vol first chain) (hv : bs.Volume ft) :
    chain.length < 2 ^ 28 := by
  have hsub : chain ⊆ List.range 0x0ffffff7 := fun c hc =>
    List.mem_range.mpr (hv.isCluster_lt (h.isCluster c hc))
  have hle := (h.nodup.subperm hsub).length_le
  rw [List.length_range] at hle
  omega

/-! ## The cursor -/

/-- The cursor stands on its cluster of the chain, or behind the last one. -/
def OnChain (chain : List ℕ) (opq : FatFileBlockOffset) : Prop :=
  chain[opq.fBlock]? = some opq.cluster ∨ opq.fBlock = chain.length ∧ endOfChain ≤ opq.cluster

variable {σ : Type} {inv : σ → Prop} {content : σ → Mem} {parent : BlockDevice σ}

/-- One step of the walk. -/
theorem fatWalk_step (h : HealthyReads parent inv content (· < bs.sectors))
    (hbs : parent.blockSize = 512) (hv : bs.Volume ft) {s : σ} (hs : inv s)
    (hc : ClusterChain bs ft (content s) first chain) {opq : FatFileBlockOffset}
    (hopq : chain[opq.fBlock]? = some opq.cluster) :
    ∃ v s', getNextFatEntry (bs.toFs parent) s opq.cluster = (v, s') ∧ inv s' ∧
      content s' = content s ∧ OnChain chain ⟨u32 (opq.fBlock + 1), v⟩ := by
  have hmem := List.mem_of_getElem? hopq
  have hlen := hc.length_lt hv
  have hlt : opq.fBlock < chain.length := (List.getElem?_eq_some_iff.mp hopq).1
  obtain ⟨v, s', hr, hi, hcs, hnext, hend⟩ :=
    getNextFatEntry_spec h hbs hv hs (hc.isCluster _ hmem)
  refine ⟨v, s', hr, hi, hcs, ?_⟩
  rw [OnChain, u32_of_lt (by omega)]
  cases hn : chain[opq.fBlock + 1]? with
  | some c' =>
    have hl := hc.link _ _ _ hopq hn
    left
    rw [hnext (by rw [hl]; exact hc.isCluster _ (List.mem_of_getElem? hn)), hl]
  | none =>
    have := List.getElem?_eq_none_iff.mp hn
    exact Or.inr ⟨by dsimp only; omega, hend (hc.last _ _ hopq hn)⟩

/-- **The walk stops at block `idx`**, or at the end of the chain. -/
theorem fatWalk_spec (h : HealthyReads parent inv content (· < bs.sectors))
    (hbs : parent.blockSize = 512) (hv : bs.Volume ft) {idx : ℕ} :
    ∀ (fuel : ℕ) (opq : FatFileBlockOffset) (s : σ), opq.fBlock + fuel = idx → inv s →
      ClusterChain bs ft (content s) first chain → OnChain chain opq →
      ∃ opq' s', fatWalk (bs.toFs parent) idx fuel opq s = (opq', s') ∧ inv s' ∧
        content s' = content s ∧ OnChain chain opq' ∧ opq'.fBlock ≤ idx ∧
        (opq'.cluster < endOfChain → opq'.fBlock = idx) := by
  intro fuel
  induction fuel with
  | zero =>
    intro opq s hf hs _ ho
    exact ⟨opq, s, rfl, hs, rfl, ho, by omega, fun _ => by omega⟩
  | succ fuel ih =>
    intro opq s hf hs hc ho
    rw [fatWalk]
    split_ifs with hgo
    · -- before the end of the chain the cursor stands on a cluster
      have hopq : chain[opq.fBlock]? = some opq.cluster :=
        ho.resolve_right fun hend => absurd hend.2 (not_le.mpr hgo.2)
      have hlt : opq.fBlock < chain.length := (List.getElem?_eq_some_iff.mp hopq).1
      have hlen := hc.length_lt hv
      obtain ⟨v, s', hr, hi, hcs, ho'⟩ := fatWalk_step h hbs hv hs hc hopq
      rw [hr]
      have hf' : u32 (opq.fBlock + 1) + fuel = idx := by rw [u32_of_lt (by omega)]; omega
      obtain ⟨opq', s'', hw, hi', hcs', ho'', hle, hat⟩ :=
        ih ⟨u32 (opq.fBlock + 1), v⟩ s' hf' hi (by rwa [hcs]) ho'
      exact ⟨opq', s'', hw, hi', hcs'.trans hcs, ho'', hle, hat⟩
    · exact ⟨opq, s, rfl, hs, rfl, ho, by omega, fun hlt => by
        by_contra hne
        exact hgo ⟨hne, hlt⟩⟩

/-- The block map of a file: the first sector of the `i`-th cluster. -/
def chainMap (bs : FatBS) (chain : List ℕ) (i : ℕ) : Option ℕ := chain[i]?.map bs.clusterSector

theorem getSector_spec (hv : bs.Volume ft) {c : ℕ} (hc : bs.IsCluster c) :
    getSector (bs.toFs parent) c = bs.clusterSector c := by
  obtain ⟨-, -, -, hspc, -, hfirst⟩ := toFs_spec hv parent
  have hfit := hv.cluster_fits hc
  have hlt := hv.sectors_lt
  have hcl := hv.isCluster_lt hc
  have := hc.1
  unfold FatBS.clusterSector at *
  rw [getSector, hspc, hfirst, sub32_of_le hc.1 (by omega),
    u32_of_lt (show (c - 2) * bs.sectorsPerCluster < 2 ^ 32 by omega), u32_of_lt (by omega)]

/-- **The filesystem looks up the clusters of the chain.** -/
theorem fat_lookup (h : HealthyReads parent inv content (· < bs.sectors))
    (hbs : parent.blockSize = 512) (hv : bs.Volume ft)
    (hc : ClusterChain bs ft vol first chain) (addBlocks : Bool) :
    Lookup (fatGetNextBdevBlockNum (bs.toFs parent)) inv content addBlocks
      (fun idx opq c => c = vol ∧ opq.fBlock ≤ idx ∧ OnChain chain opq) (chainMap bs chain) := by
  rintro idx opq io hi ⟨hvol, hle, ho⟩
  obtain ⟨opq', s', hw, hi', hcs, ho', hle', hat⟩ := fatWalk_spec h hbs hv (idx - opq.fBlock) opq io.dev
    (Nat.add_sub_cancel' hle) hi (by rwa [hvol]) ho
  simp only [fatGetNextBdevBlockNum, if_pos hle, hw]
  have hJ : content io.dev = vol ∧ opq'.fBlock ≤ idx + 1 ∧ OnChain chain opq' :=
    ⟨hvol, by omega, ho'⟩
  rcases ho' with hcl | ⟨hlen, hend⟩
  · have hmem := hc.isCluster _ (List.mem_of_getElem? hcl)
    have hlt : opq'.cluster < endOfChain := (hv.isCluster_lt hmem).trans (by decide)
    rw [if_pos hlt, getSector_spec hv hmem]
    rw [hat hlt] at hcl
    refine ⟨opq', { io with dev := s' }, ?_, hJ, rfl, hi', hcs, rfl, rfl⟩
    rw [chainMap, hcl, Option.map_some, Option.getD_some]
  · rw [if_neg (not_lt.mpr hend)]
    refine ⟨opq', ⟨io.mem, s', { io.file with flags := io.file.flags ||| vfsFlagsEof }⟩, ?_, hJ, rfl,
      hi', hcs, rfl, rfl⟩
    rw [chainMap, List.getElem?_eq_none (by omega), Option.map_none, Option.getD_none]

/-- Just the lookups behind the chain raise the end-of-file flag. -/
theorem fat_lookup_flags (h : HealthyReads parent inv content (· < bs.sectors))
    (hbs : parent.blockSize = 512) (hv : bs.Volume ft)
    (hc : ClusterChain bs ft vol first chain) (addBlocks : Bool) (idx : ℕ) (opq : FatFileBlockOffset)
    (io : FileIo σ) (hi : inv io.dev)
    (hopq : content io.dev = vol ∧ opq.fBlock ≤ idx ∧ OnChain chain opq) :
    (fatGetNextBdevBlockNum (bs.toFs parent) idx addBlocks opq io).2.2.file.flags =
      if chainMap bs chain idx = none then io.file.flags ||| vfsFlagsEof else io.file.flags := by
  obtain ⟨hvol, hle, ho⟩ := hopq
  obtain ⟨opq', s', hw, -, -, ho', hle', hat⟩ := fatWalk_spec h hbs hv (idx - opq.fBlock) opq io.dev
    (Nat.add_sub_cancel' hle) hi (by rwa [hvol]) ho
  simp only [fatGetNextBdevBlockNum, if_pos hle, hw]
  rcases ho' with hcl | ⟨hlen, hend⟩
  · have hlt : opq'.cluster < endOfChain :=
      (hv.isCluster_lt (hc.isCluster _ (List.mem_of_getElem? hcl))).trans (by decide)
    rw [hat hlt] at hcl
    have hsome : chainMap bs chain idx ≠ none := by
      rw [chainMap, hcl, Option.map_some]
      exact Option.some_ne_none _
    rw [if_pos hlt, if_neg hsome]
  · have hnone : chainMap bs chain idx = none := by
      rw [chainMap, List.getElem?_eq_none (by omega), Option.map_none]
    rw [if_neg (not_lt.mpr hend), if_pos hnone]

theorem fat_fileMap (hbs : parent.blockSize = 512) (hv : bs.Volume ft)
    (hc : ClusterChain bs ft vol first chain) :
    FileMap (bs.toFs parent).b (· < bs.sectors) bs.sectorsPerCluster (chainMap bs chain) := by
  obtain ⟨hb, -⟩ := toFs_spec hv parent
  have hspc := hv.cluster_lt
  refine ⟨hv.cluster_pos, by rw [hb, hbs], by rw [hb]; dsimp only; omega, fun i b hib => ?_⟩
  obtain ⟨c, hci, rfl⟩ := Option.map_eq_some_iff.mp hib
  have hfit := hv.cluster_fits (hc.isCluster c (List.mem_of_getElem? hci))
  have hlt := hv.sectors_lt
  have hpos := hv.cluster_pos
  exact ⟨by unfold noBlock; omega, fun j hj => by omega⟩

/-! ## Reading an opened file -/

/-- The contents of a file of `len` bytes. -/
def fatContents (bs : FatBS) (vol : Mem) (chain : List ℕ) (len : ℕ) : List UInt8 :=
  (chain.flatMap (bs.clusterBytes vol)).take len

/-- The clusters of the chain, one after another, are the bytes that the block map finds. -/
theorem flatMap_clusterBytes (hbs : parent.blockSize = 512) (hv : bs.Volume ft) :
    chain.flatMap (bs.clusterBytes vol) = slice (fileBytes (bs.toFs parent).b (chainMap bs chain) vol)
      0 (chain.length * (bs.sectorsPerCluster * 512)) := by
  obtain ⟨hb, -⟩ := toFs_spec hv parent
  refine flatMap_slice _ fun i c hc j hj => ?_
  have hmap : chainMap bs chain i = some (bs.clusterSector c) := by rw [chainMap, hc, Option.map_some]
  have hsize : (bs.toFs parent).b.blockSize = bs.sectorsPerCluster * 512 := by rw [hb]
  rw [fileBytes, fileByte_eq hmap (by rw [hsize]; omega) (by rw [hsize]; omega), hsize, hb,
    Nat.add_sub_cancel_left]
  dsimp only
  rw [hbs]

theorem chainMap_eq_none {i : ℕ} : chainMap bs chain i = none ↔ chain.length ≤ i := by
  rw [chainMap, Option.map_eq_none_iff, List.getElem?_eq_none_iff]

/-- The clusters of a chain cover the file. -/
theorem chainMap_ne_none {len p : ℕ} (hcover : len ≤ chain.length * (bs.sectorsPerCluster * 512))
    (hp : p < len) : chainMap bs chain (p / (bs.sectorsPerCluster * 512)) ≠ none := by
  rw [ne_eq, chainMap_eq_none, not_le]
  exact Nat.div_lt_of_lt_mul (by rw [Nat.mul_comm]; omega)

theorem length_fatContents (parent : BlockDevice σ) (hbs : parent.blockSize = 512) (hv : bs.Volume ft)
    {len : ℕ} (hcover : len ≤ chain.length * (bs.sectorsPerCluster * 512)) :
    (fatContents bs vol chain len).length = len := by
  rw [fatContents, flatMap_clusterBytes hbs hv, List.length_take, length_slice,
    min_eq_left hcover]

/-- **`fat_fread` delivers the contents of the file.** -/
theorem fat_delivers (h : HealthyReads parent inv content (· < bs.sectors))
    (hbs : parent.blockSize = 512) (hv : bs.Volume ft) (hc : ClusterChain bs ft vol first chain)
    {len : ℕ} (hlen : len < 2 ^ 31)
    (hcover : len ≤ chain.length * (bs.sectorsPerCluster * 512)) :
    Delivers (fun temp => fatFread (bs.toFs parent) temp first) (bs.sectorsPerCluster * 512)
      (fatContents bs vol chain len) fun io => inv io.dev ∧ content io.dev = vol := by
  rintro temp ptr n io pos ⟨hi, hvol⟩ hp hn htemp
  obtain ⟨hb, -⟩ := toFs_spec hv parent
  have hfm := fat_fileMap hbs hv hc
  have hsize : (bs.toFs parent).b.blockSize = bs.sectorsPerCluster * 512 := by rw [hb]
  have hfirst : first ≠ 0 := by
    have := (hc.isCluster first (List.mem_of_getElem? hc.head)).1
    omega
  have hdata : fatContents bs vol chain len =
      slice (fileBytes (bs.toFs parent).b (chainMap bs chain) vol) 0 len := by
    rw [fatContents, flatMap_clusterBytes hbs hv, take_slice, min_eq_left hcover]
  rw [hdata, length_slice] at hn
  have hstart : OnChain chain ⟨0, first⟩ := Or.inl hc.head
  have hmap : ∀ p, pos ≤ p → p < pos + n →
      chainMap bs chain (p / (bs.toFs parent).b.blockSize) ≠ none := by
    intro p _ hp'
    rw [hsize]
    exact chainMap_ne_none hcover (by omega)
  obtain ⟨io', hf, hi', hcs, hpos, hl, hs⟩ := fsFread_spec hfm (by rw [hb]; exact h)
    (fat_lookup h hbs hv hc false) (by rwa [hsize]) (by omega) hmap hi ⟨hvol, Nat.zero_le _, hstart⟩ hp
  refine ⟨io', (if_neg hfirst).trans hf, ?_, hpos, hl, hi', hcs.trans hvol⟩
  rw [hs, hdata, drop_slice, take_slice, Nat.zero_add, min_eq_left (by omega), hvol]

/-- **The flags that `fat_fread` leaves**: the end-of-file flag is raised just when the read ends at the end
of the last cluster. -/
theorem fat_flags (h : HealthyReads parent inv content (· < bs.sectors))
    (hbs : parent.blockSize = 512) (hv : bs.Volume ft) (hc : ClusterChain bs ft vol first chain)
    {len : ℕ} (hlen : len < 2 ^ 31) (hcover : len ≤ chain.length * (bs.sectorsPerCluster * 512))
    {temp : ℕ → ℕ} {ptr n pos : ℕ} {io : FileIo σ} (hi : inv io.dev) (hvol : content io.dev = vol)
    (hpos : io.file.pos = pos) (hn : pos + n ≤ len)
    (htemp : TempApart temp (bs.sectorsPerCluster * 512) ptr n) :
    (fatFread (bs.toFs parent) temp first ptr n io).2.file.flags =
      if chain.length * (bs.sectorsPerCluster * 512) ≤ pos + n then io.file.flags ||| vfsFlagsEof
      else io.file.flags := by
  obtain ⟨hb, -⟩ := toFs_spec hv parent
  have hsize : (bs.toFs parent).b.blockSize = bs.sectorsPerCluster * 512 := by rw [hb]
  have hfirst : first ≠ 0 := by
    have := (hc.isCluster first (List.mem_of_getElem? hc.head)).1
    omega
  have hstart : OnChain chain ⟨0, first⟩ := Or.inl hc.head
  have hpos' : 0 < bs.sectorsPerCluster * 512 := Nat.mul_pos hv.cluster_pos (by decide)
  rw [fatFread, if_neg hfirst, fsFread_flags (fat_fileMap hbs hv hc) (by rw [hb]; exact h)
    (fat_lookup h hbs hv hc false) (fat_lookup_flags h hbs hv hc false) (by rwa [hsize]) (by omega)
    (fun p _ hp => by rw [hsize]; exact chainMap_ne_none hcover (by omega)) hi
    ⟨hvol, Nat.zero_le _, hstart⟩ hpos]
  simp only [chainMap_eq_none, hsize, Nat.le_div_iff_mul_le hpos']

/-- **The contents of a FAT file.** On a FAT16 or FAT32 volume, opening a file and running any legal
calls of `fseek` and `fread` gives the replies, and the position, of the same calls on the
concatenation of the clusters of its chain. -/
theorem fat_file_contents (h : HealthyReads parent inv content (· < bs.sectors))
    (hbs : parent.blockSize = 512) {s : σ} (hs : inv s) (hboot : FatBS.ofBuf (content s) = bs)
    (hv : bs.Volume ft) {path : FatDirent}
    (hc : ClusterChain bs ft (content s) path.cluster chain) (hlen : path.byteSize < 2 ^ 31)
    (hcover : path.byteSize ≤ chain.length * (bs.sectorsPerCluster * 512)) (mem : Mem)
    (calls : List FileCall)
    (hcalls : Along (seqFileStep (fatContents bs (content s) chain path.byteSize))
      (LegalCall (bs.sectorsPerCluster * 512) path.byteSize) (0, []) calls) :
    (fatContents bs (content s) chain path.byteSize).length = path.byteSize ∧
    ∃ fs s₁ file cluster, fatInit parent s = (.ok fs, s₁) ∧
      fatFopen path "r" = some (file, cluster) ∧
      ∃ io pos replies,
        run (fileStep fun temp => fatFread fs temp cluster) (⟨mem, s₁, file⟩, []) calls =
          some (io, replies) ∧
        run (seqFileStep (fatContents bs (content s) chain path.byteSize)) (0, []) calls =
          some (pos, replies) ∧
        io.file.pos = pos := by
  have hdl : (fatContents bs (content s) chain path.byteSize).length = path.byteSize :=
    length_fatContents parent hbs hv hcover
  obtain ⟨s₁, hinit, hi, hcs⟩ := fatInit_spec h hbs hs hboot hv
  refine ⟨hdl, bs.toFs parent, s₁, _, _, hinit, rfl, ?_⟩
  have hdel := fat_delivers h hbs hv hc hlen hcover
  rw [← hdl] at hlen
  refine seqFile_run hdel (fun _ _ hio => hio) hlen ⟨hi, hcs⟩ rfl ?_ (by rwa [hdl])
  rw [hdl] at hlen ⊢
  exact i32_of_lt hlen

/-- A FAT16 volume of 4200 sectors with a file in clusters `2` and `3`. -/
def smallVolume : Mem :=
  patch (patch (fun _ => 0x55) 0 [0xeb, 0x3c, 0x90, 0, 0, 0, 0, 0, 0, 0, 0, 0x00, 0x02, 1, 1, 0, 1, 16,
    0, 0x68, 0x10, 0xf8, 17, 0]) 512 [0xf8, 0xff, 0xff, 0xff, 3, 0, 0xff, 0xff]

theorem smallVolume_volume : (FatBS.ofBuf smallVolume).Volume .fat16 := by
  refine ⟨by decide, by decide, by decide, by decide, by decide, by decide, by decide, ?_, by decide⟩
  exact ⟨by decide, by decide, by decide⟩

theorem smallVolume_chain :
    ClusterChain (FatBS.ofBuf smallVolume) .fat16 smallVolume 2 [2, 3] := by
  refine ⟨rfl, by decide, by unfold FatBS.IsCluster; decide, fun i c c' hc hc' => ?_,
    fun i c hc hn => ?_⟩
  · match i, hc, hc' with
    | 0, hc, hc' => cases hc; cases hc'; rfl
  · match i, hc, hn with
    | 1, hc, _ => cases hc; exact (by decide : 0xfff8 ≤ 0xffff)

theorem smallVolume_reads : HealthyReads (storeDevice 4200) (fun _ => True) (fun c => c)
    (· < (FatBS.ofBuf smallVolume).sectors) :=
  (storeDevice_serves (by decide)).healthyReads.mono fun b hb => by
    have : b < 4200 := hb
    change b * 512 + 512 ≤ 4200 * 512
    omega

/-- Two reads and a seek on the file of 600 bytes in `smallVolume`. -/
theorem fat_file_contents_smallVolume :
    (fatContents (FatBS.ofBuf smallVolume) smallVolume [2, 3] 600).length = 600 ∧
    ∃ fs s₁ file cluster, fatInit (storeDevice 4200) smallVolume = (.ok fs, s₁) ∧
      fatFopen ⟨2, 600⟩ "r" = some (file, cluster) ∧
      ∃ io pos replies,
        run (fileStep fun temp => fatFread fs temp cluster) (⟨fun _ => 0, s₁, file⟩, [])
            [.read (fun _ => 0x10000) 0x20000 100, .seek 500 .set, .read (fun _ => 0x10000) 0x20000 200] =
          some (io, replies) ∧
        run (seqFileStep (fatContents (FatBS.ofBuf smallVolume) smallVolume [2, 3] 600)) (0, [])
            [.read (fun _ => 0x10000) 0x20000 100, .seek 500 .set, .read (fun _ => 0x10000) 0x20000 200] =
          some (pos, replies) ∧
        io.file.pos = pos := by
  have htemp : ∀ n, TempApart (fun _ => 0x10000) 512 0x20000 n := fun _ _ =>
    Or.inl (show 0x10000 + 512 ≤ 0x20000 by decide)
  have hc : ClusterChain (FatBS.ofBuf smallVolume) .fat16 smallVolume (FatDirent.mk 2 600).cluster [2, 3] :=
    smallVolume_chain
  exact fat_file_contents smallVolume_reads rfl trivial rfl smallVolume_volume hc (by decide) (by decide) _ _
    ⟨⟨by decide, htemp _⟩, fun _ _ => ⟨trivial, fun _ _ => ⟨⟨by decide, htemp _⟩, fun _ _ => trivial⟩⟩⟩

end RpiBoot
