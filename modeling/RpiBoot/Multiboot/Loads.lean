import RpiBoot.Lib.Arena
import RpiBoot.Multiboot.Aout
import RpiBoot.Multiboot.LoadSegment
import RpiBoot.Multiboot.Modules

/-!
# What the loading of files writes

Every file goes to chunks that the allocator has granted, and a load writes to its own chunks and to their
rims alone, as long as no chunk wraps and the headers say no more about a file than there is room for.

* `Boot.arena`, `Boot.free`, `Boot.Fits`: memory with the chunks that are granted, as an `Arena`.
* `Grown`: chunks have been granted and filled. `Grown.take`: one chunk.
* `Loads`: the same for a command that leaves the modules and the handoff alone.
* `FileOpen`: a file is open, and what it holds is known. `FileOpen.loadSegments`, `FileOpen.loadSections`,
  `FileOpen.loadAout`: the parts of a load.
* `HeadersFit`: the headers under which nothing else is written.
* **`loads_methodMultiboot`**, **`loads_methodKernel`**, `loads_methodModule`: the commands that load.
-/

namespace RpiBoot

open Store

variable {σ : Type}

/-! ## Chunks that are granted -/

/-- The memory of the loader, with the chunks that have been granted. -/
def Boot.arena (b : Boot σ) : Arena ℕ UInt8 := ⟨b.chunks.used.map fun c => ⟨c.range, c.rim⟩, b.ram⟩

/-- The memory that has been registered. -/
def Boot.free (b : Boot σ) : Set ℕ := {a | ∃ r ∈ b.chunks.freeList, a ∈ r.range}

/-- Of the chunks `used`, the last one first, no chunk wraps, and none lies in the rim of a later one. -/
structure ChunksFit (used : List Chunk) : Prop where
  stop : ∀ c ∈ used, c.start + c.length < 2 ^ 32
  rims : used.Pairwise fun c c' => Disjoint c.rim c'.range

/-- The chunks that have been granted fit. -/
def Boot.Fits (b : Boot σ) : Prop := ChunksFit b.chunks.used

/-- Chunks have been granted and, where they fit, nothing but them and their rims has been written. -/
structure Grown (b b' : Boot σ) : Prop where
  free : b'.chunks.freeList = b.chunks.freeList
  used : b.chunks.used <:+ b'.chunks.used
  grows : b'.Fits → b.arena.Grows b.free b'.arena

theorem Grown.free_eq {b b' : Boot σ} (h : Grown b b') : b'.free = b.free := by
  rw [Boot.free, Boot.free, h.free]

theorem Grown.fits {b b' : Boot σ} (h : Grown b b') (hfits : b'.Fits) : b.Fits :=
  ⟨fun c hc => hfits.stop c (h.used.subset hc), hfits.rims.sublist h.used.sublist⟩

/-- Neither the allocator nor memory has changed. -/
theorem grown_of_same {b b' : Boot σ} (hchunks : b'.chunks = b.chunks) (hram : b'.ram = b.ram) :
    Grown b b' := by
  have harena : b'.arena = b.arena := by rw [Boot.arena, Boot.arena, hchunks, hram]
  exact ⟨congrArg Chunks.freeList hchunks, hchunks ▸ List.suffix_rfl, fun _ => harena ▸ Arena.Grows.refl _ _⟩

theorem Grown.trans {b b' b'' : Boot σ} (h : Grown b b') (h' : Grown b' b'') : Grown b b'' := by
  refine ⟨h'.free.trans h.free, h.used.trans h'.used, fun hfits => ?_⟩
  have hsecond := h'.grows hfits
  rw [h.free_eq] at hsecond
  exact (h.grows (h'.fits hfits)).trans hsecond

/-- **One chunk** is granted and filled. -/
theorem Grown.take {b b' : Boot σ} {start length : ℕ}
    (hcan : chunkCanAllocate b.chunks start length = true) (hchunks : b'.chunks = b.chunks.use start length)
    (hram : start + length < 2 ^ 32 → ∀ a, a < start ∨ start + length + 16 ≤ a → b'.ram a = b.ram a) :
    Grown b b' := by
  obtain ⟨hcontains, hover⟩ := chunkCanAllocate_iff.mp hcan
  refine ⟨by rw [hchunks]; rfl, by rw [hchunks]; exact List.suffix_cons _ _, fun hfits => ?_⟩
  unfold Boot.Fits at hfits
  rw [hchunks] at hfits
  obtain ⟨hstop, hrims⟩ := hfits
  obtain ⟨hlt, hfits⟩ := List.forall_mem_cons.mp hstop
  obtain ⟨hrim, -⟩ := List.pairwise_cons.mp hrims
  have harena : b'.arena =
      ⟨⟨(Chunk.mk start length).range, (Chunk.mk start length).rim⟩ :: b.arena.owned, b'.ram⟩ := by
    rw [Boot.arena, hchunks]
    rfl
  rw [harena]
  refine Arena.grows_take (fun a ha => ?_) (fun y hy => ?_) fun a hown hout => hram hlt a ?_
  · obtain ⟨r, hr, hsub⟩ := subset_of_contains hlt hcontains
    exact ⟨r, hr, hsub ha⟩
  · obtain ⟨c, hc, rfl⟩ := List.mem_map.mp hy
    exact ⟨disjoint_of_not_overlaps hlt hover c hc (hfits c hc), hrim c hc⟩
  · simp only [Chunk.range, Chunk.rim, Set.mem_Ico] at hown hout
    omega

/-- A chunk that is granted can be allocated. -/
theorem chunkGetChunk_cases (s : Chunks) (start length : ℕ) :
    (chunkCanAllocate s start length = true ∧ chunkGetChunk s start length = (start, s.use start length)) ∨
      chunkGetChunk s start length = (0, s) := by
  unfold chunkGetChunk
  split_ifs with h
  · exact Or.inl ⟨h, rfl⟩
  · exact Or.inr rfl

/-- A chunk is asked for, and not filled. -/
theorem grown_getChunk (b : Boot σ) (start length : ℕ) {b' : Boot σ}
    (hchunks : b'.chunks = (chunkGetChunk b.chunks start length).2) (hram : b'.ram = b.ram) :
    Grown b b' := by
  rcases chunkGetChunk_cases b.chunks start length with ⟨hcan, hg⟩ | hg
  · exact .take hcan (by rw [hchunks, hg]) fun _ a _ => by rw [hram]
  · exact grown_of_same (by rw [hchunks, hg]) hram

theorem grown_getAnyChunk (b : Boot σ) {length : ℕ} {g : ℕ × Chunks}
    (hg : chunkGetAnyChunk b.chunks length = some g) {b' : Boot σ} (hchunks : b'.chunks = g.2)
    (hram : b'.ram = b.ram) : Grown b b' := by
  rcases chunkGetAnyChunk_spec hg with ⟨hfirst, hs⟩ | ⟨-, hs⟩
  · exact .take hfirst.2.2.1 (by rw [hchunks, hs]) fun _ a _ => by rw [hram]
  · exact grown_of_same (by rw [hchunks, hs]) hram

/-- The modules and the handoff are left alone as well. -/
structure Loads (b b' : Boot σ) : Prop extends Grown b b' where
  modules : b'.modules = b.modules ∧ b'.modCount = b.modCount
  handoff : b'.handoff = b.handoff

theorem Loads.refl (b : Boot σ) : Loads b b := ⟨grown_of_same rfl rfl, ⟨rfl, rfl⟩, rfl⟩

theorem Loads.trans {b b' b'' : Boot σ} (h : Loads b b') (h' : Loads b' b'') : Loads b b'' :=
  ⟨h.toGrown.trans h'.toGrown, ⟨h'.modules.1.trans h.modules.1, h'.modules.2.trans h.modules.2⟩,
    h'.handoff.trans h.handoff⟩

/-! ## A file that is open -/

/-- A file with the given contents is open. -/
structure FileOpen (fsRead : FsTransfer σ) (data : List UInt8) (ok : σ → Prop) (l : Loading σ) : Prop where
  reads : ReadsFile fsRead data ok
  dev : ok l.boot.dev
  len : l.file.len = data.length

variable {fsRead : FsTransfer σ} {data : List UInt8} {ok : σ → Prop} {l : Loading σ}

/-- What has been done to the state while a file is open: it is open still. -/
structure Loaded (fsRead : FsTransfer σ) (data : List UInt8) (ok : σ → Prop) (l l' : Loading σ) : Prop where
  loads : Loads l.boot l'.boot
  fileOpen : FileOpen fsRead data ok l'

theorem FileOpen.refl (h : FileOpen fsRead data ok l) : Loaded fsRead data ok l l := ⟨.refl _, h⟩

theorem Loaded.trans {l' l'' : Loading σ} (h : Loaded fsRead data ok l l')
    (h' : Loaded fsRead data ok l' l'') : Loaded fsRead data ok l l'' := ⟨h.loads.trans h'.loads, h'.fileOpen⟩

theorem Loaded.withEntry {l' : Loading σ} (h : Loaded fsRead data ok l l') (entryAddr : ℕ) :
    Loaded fsRead data ok l (l'.withEntry entryAddr) :=
  ⟨h.loads.trans ⟨grown_of_same rfl rfl, ⟨rfl, rfl⟩, rfl⟩, h.fileOpen.reads, h.fileOpen.dev, h.fileOpen.len⟩

theorem FileOpen.toU32_len (h : FileOpen fsRead data ok l) : toU32 l.file.len = data.length := by
  have hlt := h.reads.length_lt
  rw [h.len, toU32_natCast (by omega)]

/-- A read into a buffer of its own. -/
theorem FileOpen.freadNew (h : FileOpen fsRead data ok l) (fresh : Mem) (offset : ℕ) {n : ℕ}
    (hn : n < 2 ^ 32) :
    Loaded fsRead data ok l (l.withIo (freadNew fsRead fresh n (l.io.seek offset)).2.2) := by
  have hback := h.reads.fread_seek { l.io with mem := fresh } h.dev h.len 0 hn offset
  exact ⟨⟨grown_of_same rfl rfl, ⟨rfl, rfl⟩, rfl⟩, h.reads, hback.dev, hback.len.trans h.len⟩

theorem FileOpen.readEhdr (h : FileOpen fsRead data ok l) (fresh : Mem) :
    Loaded fsRead data ok l (l.withIo (elf32ReadEhdr fsRead fresh l.io).2.2) :=
  h.freadNew fresh 0 (by decide)

theorem FileOpen.readTable (h : FileOpen fsRead data ok l) (fresh : Mem) (offset entsize num : ℕ) :
    Loaded fsRead data ok l (l.withIo (readTable fsRead fresh offset entsize num l.io).2.2) :=
  h.freadNew fresh offset (u32_lt _)

/-- A part of the file is read to a chunk that has been granted. -/
theorem FileOpen.fill (h : FileOpen fsRead data ok l) {start length : ℕ}
    (hcan : chunkCanAllocate l.boot.chunks start length = true) {io : FileIo σ} (hdev : ok io.dev)
    (hlen : io.file.len = data.length)
    (hmem : start + length < 2 ^ 32 → ∀ a, a < start ∨ start + length + 16 ≤ a → io.mem a = l.boot.ram a) :
    Loaded fsRead data ok l ((l.withChunks (l.boot.chunks.use start length)).withIo io) :=
  ⟨⟨.take hcan rfl hmem, ⟨rfl, rfl⟩, rfl⟩, h.reads, hdev, hlen⟩

/-! ## Segments -/

/-- The image of a segment. -/
theorem FileOpen.loadImage (h : FileOpen fsRead data ok l) {phdr : Phdr} (hphdr : phdr.Words) :
    ok (loadImage fsRead phdr l.io).2.dev ∧ (loadImage fsRead phdr l.io).2.file.len = data.length ∧
      ∀ a, a < phdr.pPaddr ∨ phdr.pPaddr + phdr.pFilesz + 16 ≤ a →
        (loadImage fsRead phdr l.io).2.mem a = l.boot.ram a := by
  unfold RpiBoot.loadImage
  split_ifs with h0
  · exact ⟨h.dev, h.len, fun _ _ => rfl⟩
  · have hback := h.reads.fread_seek l.io h.dev h.len phdr.pPaddr hphdr.filesz phdr.pOffset
    exact ⟨hback.dev, hback.len.trans h.len, fun a ha => hback.frame a (by omega)⟩

/-- **A segment** whose image is not larger than the segment is written to its chunk. -/
theorem FileOpen.segment (h : FileOpen fsRead data ok l) {phdr : Phdr} (hphdr : phdr.Words)
    (hsize : phdr.pFilesz ≤ phdr.pMemsz)
    (hcan : chunkCanAllocate l.boot.chunks phdr.pPaddr phdr.pMemsz = true) :
    Loaded fsRead data ok l ((l.withChunks (l.boot.chunks.use phdr.pPaddr phdr.pMemsz)).withIo
      (elf32LoadSegment fsRead phdr l.io).2) := by
  obtain ⟨hdev, hlen, hframe⟩ := h.loadImage hphdr
  have hmem := (elf32LoadSegment_mem fsRead phdr l.io).2
  have hrest : (elf32LoadSegment fsRead phdr l.io).2.dev = (RpiBoot.loadImage fsRead phdr l.io).2.dev ∧
      (elf32LoadSegment fsRead phdr l.io).2.file = (RpiBoot.loadImage fsRead phdr l.io).2.file := by
    unfold elf32LoadSegment
    simp only
    split_ifs <;> exact ⟨rfl, rfl⟩
  refine h.fill hcan (by rw [hrest.1]; exact hdev) (by rw [hrest.2]; exact hlen) fun hlt a ha => ?_
  rw [hmem]
  split_ifs
  · rw [clearMem, u32_of_lt (show phdr.pPaddr + phdr.pFilesz < 2 ^ 32 by omega),
      sub32_of_le hsize hphdr.memsz, patch_apply_of_notMem _ _ _ (by rw [List.length_replicate]; omega)]
    exact hframe a (by omega)
  · exact hframe a (by omega)

/-- **The loop over the segments.** -/
theorem FileOpen.loadSegments (onLoad : Phdr → ℕ → ℕ) {phdrs : List Phdr} (hphdrs : ∀ phdr ∈ phdrs, phdr.Words)
    (hsizes : ∀ phdr ∈ phdrs, phdr.pType = ptLoad → phdr.pFilesz ≤ phdr.pMemsz) (retno : ℤ)
    (h : FileOpen fsRead data ok l) :
    Loaded fsRead data ok l (loadSegments fsRead onLoad phdrs retno l).2 := by
  induction phdrs generalizing retno l with
  | nil => exact h.refl
  | cons phdr phdrs ih =>
    obtain ⟨hphdr, hphdrs⟩ := List.forall_mem_cons.mp hphdrs
    obtain ⟨hsize, hsizes⟩ := List.forall_mem_cons.mp hsizes
    rw [RpiBoot.loadSegments]
    split_ifs with htype
    · exact ih hphdrs hsizes retno h
    simp only
    rcases chunkGetChunk_cases l.boot.chunks phdr.pPaddr phdr.pMemsz with ⟨hcan, hg⟩ | hg
    · have hseg := h.segment hphdr (hsize (not_not.mp htype)) hcan
      rw [hg]
      simp only
      split_ifs
      · -- a chunk at address `0` is refused, but stays granted
        exact ⟨⟨.take hcan rfl fun _ _ _ => rfl, ⟨rfl, rfl⟩, rfl⟩, h.reads, h.dev, h.len⟩
      · exact hseg
      · exact (hseg.withEntry _).trans (ih hphdrs hsizes _ (hseg.withEntry _).fileOpen)
    · rw [hg, if_pos rfl]
      exact h.refl

theorem phdrsAt_words (phBuf : Mem) (ehdr : Ehdr) : ∀ phdr ∈ phdrsAt phBuf ehdr, phdr.Words := by
  intro phdr hphdr
  obtain ⟨i, -, rfl⟩ := List.mem_map.mp hphdr
  exact phdrAt_words phBuf _

/-! ## Sections -/

/-- A section is written to its chunk. -/
theorem FileOpen.section (h : FileOpen fsRead data ok l) (shdr : Shdr) (hsize : shdr.shSize < 2 ^ 32)
    (hcan : chunkCanAllocate l.boot.chunks shdr.shAddr shdr.shSize = true) :
    Loaded fsRead data ok l ((l.withChunks (l.boot.chunks.use shdr.shAddr shdr.shSize)).withIo
      (elf32LoadSection fsRead shdr l.io).2) := by
  unfold elf32LoadSection
  split_ifs
  · refine h.fill hcan h.dev h.len fun _ a ha => ?_
    exact patch_apply_of_notMem _ _ _ (by rw [List.length_replicate]; omega)
  · exact h.fill hcan h.dev h.len fun _ _ _ => rfl
  · have hback := h.reads.fread_seek l.io h.dev h.len shdr.shAddr hsize shdr.shOffset
    exact h.fill hcan hback.dev (hback.len.trans h.len) fun _ a ha => hback.frame a (by omega)

/-- **The loop over the sections.** -/
theorem FileOpen.loadSections {shentsize : ℕ} : ∀ (k i : ℕ) (shBuf : Mem) {l : Loading σ}
    {s : Option ℤ × Mem × Loading σ}, FileOpen fsRead data ok l →
      loadSections fsRead shentsize k i shBuf l = some s → Loaded fsRead data ok l s.2.2
  | 0, _, _, l, s, h, hs => by
    obtain rfl := Option.some.inj hs
    exact h.refl
  | k + 1, i, shBuf, l, s, h, hs => by
    rw [RpiBoot.loadSections] at hs
    split_ifs at hs
    · exact h.loadSections k (i + 1) shBuf hs
    · exact h.loadSections k (i + 1) shBuf hs
    obtain ⟨g, hg, hs⟩ := Option.bind_eq_some_iff.mp hs
    have hasked : Loaded fsRead data ok l (l.withChunks g.2) :=
      ⟨⟨grown_getAnyChunk l.boot hg rfl rfl, ⟨rfl, rfl⟩, rfl⟩, h.reads, h.dev, h.len⟩
    rcases chunkGetAnyChunk_spec hg with ⟨hfirst, hs'⟩ | ⟨h0, -⟩
    · have hsec := h.section { shdrAt shBuf (i * shentsize) with shAddr := g.1 } (le32_lt _ _)
        hfirst.2.2.1
      rw [hs'] at hs hasked
      simp only at hs
      split_ifs at hs
      · obtain rfl := Option.some.inj hs
        exact hasked
      · obtain rfl := Option.some.inj hs
        exact hsec
      · exact hsec.trans (hsec.fileOpen.loadSections k (i + 1) _ hs)
    · rw [if_pos h0] at hs
      obtain rfl := Option.some.inj hs
      exact hasked

/-! ## a.out files -/

/-- An a.out file is written to its chunk when its header fits. -/
theorem AoutOpened.loadAout {k : MbKernel σ} (h : AoutOpened data ok k) (hfits : AoutFits data.length k) :
    Loaded k.opened.fsRead data ok k.state (loadAout k).2 := by
  have hopen : FileOpen k.opened.fsRead data ok k.state := ⟨h.reads, h.dev, h.len⟩
  rw [loadAout_eq k h.toU32_len]
  obtain ⟨htotal, hclear⟩ := hfits.bss_eq h
  have hbound := h.words.2.2
  have hstop := hfits.stop
  by_cases hlow : k.header.loadAddr < 0x100000
  · rw [if_pos hlow]
    exact hopen.refl
  rw [if_neg hlow]
  simp only
  have hsum : u32 (k.loadLen data.length + k.bssLen) = k.loadLen data.length + k.bssLen := u32_of_lt (by omega)
  have hback := h.reads.fread_seek k.state.io h.dev h.len k.header.loadAddr (loadLen_lt data.length k)
    k.fileOffset
  rcases chunkGetChunk_cases k.state.boot.chunks k.header.loadAddr
    (u32 (k.loadLen data.length + k.bssLen)) with ⟨hcan, hg⟩ | hg
  · have hread : ∀ a, a < k.header.loadAddr ∨
        k.header.loadAddr + u32 (k.loadLen data.length + k.bssLen) + 16 ≤ a →
        (aoutRead k data.length).2.mem a = k.state.boot.ram a := fun a ha =>
      hback.frame a (by omega)
    rw [aoutChunk, hg]
    simp only
    split_ifs with h0
    · exact absurd h0 (by omega)
    · exact ⟨⟨.take hcan rfl fun _ => hread, ⟨rfl, rfl⟩, rfl⟩, h.reads, hback.dev, hback.len.trans h.len⟩
    · refine ⟨⟨.take hcan rfl fun _ a ha => ?_, ⟨rfl, rfl⟩, rfl⟩, h.reads, hback.dev, hback.len.trans h.len⟩
      refine Eq.trans (patch_apply_of_notMem _ _ _ ?_) (hread a ha)
      rw [List.length_replicate]
      omega
  · rw [aoutChunk, hg, if_pos rfl]
    exact hopen.refl.withEntry _

/-! ## The commands -/

/-- What the rest of the loader does to the devices keeps them in order. -/
structure KeepsDevices (env : BootEnv σ) (ok : σ → Prop) : Prop where
  fclose : ∀ dev, ok dev → ok (env.fclose dev)
  vfsSetDefault : ∀ name dev, ok dev → ok (env.vfsSetDefault name dev)
  consoleLog : ∀ args dev, ok dev → ok (env.methodConsoleLog args dev).2

/-- A segment holds its image, and an a.out file what its header says. -/
structure HeadersFit (env : BootEnv σ) (contents : List UInt8 → List UInt8) (b : Boot σ) (c : BootCommand) :
    Prop where
  segments : ∀ s ∈ segmentLoop env b c, ∀ phdr ∈ s.phdrs, phdr.pType = ptLoad → phdr.pFilesz ≤ phdr.pMemsz
  aout : ∀ args, c = .multiboot args → ∀ k, openMultiboot env args b = .ok k →
    k.header.flags &&& 1 <<< 16 ≠ 0 → AoutFits (contents (methodName 0x20 args)).length k

variable {env : BootEnv σ} {contents : List UInt8 → List UInt8} {args : List UInt8} {b : Boot σ}

/-- The command has loaded something, and left the devices in order. -/
def LoadsKeep (ok : σ → Prop) (b b' : Boot σ) : Prop := Loads b b' ∧ ok b'.dev

theorem Loaded.keep {l' : Loading σ} (h : Loaded fsRead data ok l l') : LoadsKeep ok l.boot l'.boot :=
  ⟨h.loads, h.fileOpen.dev⟩

theorem Loaded.close {l' : Loading σ} (h : Loaded fsRead data ok l l') (hkeeps : KeepsDevices env ok) :
    LoadsKeep ok l.boot (l'.close env) :=
  ⟨h.loads.trans ⟨grown_of_same rfl rfl, ⟨rfl, rfl⟩, rfl⟩, hkeeps.fclose _ h.fileOpen.dev⟩

theorem LoadsKeep.trans {b b' b'' : Boot σ} (h : Loads b b') (h' : LoadsKeep ok b' b'') : LoadsKeep ok b b'' :=
  ⟨h.trans h'.1, h'.2⟩

/-- A file has been opened, or the command has returned. -/
theorem openMultiboot_fileOpen (args : List UInt8) (hfiles : OpensFiles env contents ok ReadsFile)
    (hok : ok b.dev) :
    match openMultiboot env args b with
    | .error r => LoadsKeep ok b r.2
    | .ok k => Loads b k.state.boot ∧
        FileOpen k.opened.fsRead (contents (methodName 0x20 args)) ok k.state := by
  unfold openMultiboot
  have hdev := hfiles.dev (methodName 0x20 args) b.dev hok
  rcases hf : env.fopen (methodName 0x20 args) b.dev with ⟨_ | f, dev⟩
  · rw [hf] at hdev
    exact ⟨⟨grown_of_same rfl rfl, ⟨rfl, rfl⟩, rfl⟩, hdev⟩
  obtain ⟨hreads, hlen, hpos⟩ := hfiles.file _ _ hok f (by rw [hf]; rfl)
  rw [hf] at hdev
  have hback := hreads.fread_at ⟨env.fresh dev, dev, f.file⟩ hdev hlen hpos (Nat.zero_le _) 0
    (n := 8192) (by decide)
  simp only
  rcases findHeader (freadNew f.fsRead (env.fresh dev) 8192 ⟨b.ram, dev, f.file⟩).2.1
    (u32 (freadNew f.fsRead (env.fresh dev) 8192 ⟨b.ram, dev, f.file⟩).1 / 4) 0 with _ | offset
  · exact ⟨⟨grown_of_same rfl rfl, ⟨rfl, rfl⟩, rfl⟩, hback.dev⟩
  · exact ⟨⟨grown_of_same rfl rfl, ⟨rfl, rfl⟩, rfl⟩, hreads, hback.dev, hback.len.trans hlen⟩

theorem openKernel_fileOpen (args : List UInt8) (hfiles : OpensFiles env contents ok ReadsFile)
    (hok : ok b.dev) :
    match openKernel env args b with
    | .error r => LoadsKeep ok b r.2
    | .ok k => Loads b k.state.boot ∧
        FileOpen k.opened.fsRead (contents (methodName 0x20 args)) ok k.state := by
  unfold openKernel
  have hdev := hfiles.dev (methodName 0x20 args) b.dev hok
  rcases hf : env.fopen (methodName 0x20 args) b.dev with ⟨_ | f, dev⟩
  · rw [hf] at hdev
    exact ⟨⟨grown_of_same rfl rfl, ⟨rfl, rfl⟩, rfl⟩, hdev⟩
  obtain ⟨hreads, hlen, hpos⟩ := hfiles.file _ _ hok f (by rw [hf]; rfl)
  rw [hf] at hdev
  have hback := hreads.fread_at ⟨env.fresh dev, dev, f.file⟩ hdev hlen hpos (Nat.zero_le _) 0
    (n := 0x30) (by decide)
  simp only
  split_ifs
  · exact ⟨⟨grown_of_same rfl rfl, ⟨rfl, rfl⟩, rfl⟩, hback.dev⟩
  · exact ⟨⟨grown_of_same rfl rfl, ⟨rfl, rfl⟩, rfl⟩, hreads, hback.dev, hback.len.trans hlen⟩

/-- The headers of an ELF file are read to buffers of their own. -/
theorem elfHeaders_loaded (hkeeps : KeepsDevices env ok) {k : MbKernel σ}
    (h : FileOpen k.opened.fsRead data ok k.state) :
    match elfHeaders env k with
    | .error r => LoadsKeep ok k.state.boot r.2
    | .ok hd => (∀ phdr ∈ hd.phdrs, phdr.Words) ∧ Loaded k.opened.fsRead data ok k.state hd.state := by
  unfold elfHeaders
  simp only
  have hehdr := h.readEhdr (env.fresh k.state.boot.dev)
  split_ifs
  · exact hehdr.keep
  · exact hehdr.keep
  · exact (hehdr.trans (hehdr.fileOpen.readTable _ _ _ _)).close hkeeps
  · exact (hehdr.trans ((hehdr.fileOpen.readTable _ _ _ _).trans
      ((hehdr.fileOpen.readTable _ _ _ _).fileOpen.readTable _ _ _ _))).close hkeeps
  · exact ⟨phdrsAt_words _ _, (hehdr.trans ((hehdr.fileOpen.readTable _ _ _ _).trans
      ((hehdr.fileOpen.readTable _ _ _ _).fileOpen.readTable _ _ _ _))).withEntry _⟩

theorem kernelHeaders_loaded (hkeeps : KeepsDevices env ok) {k : KernelFile σ}
    (h : FileOpen k.opened.fsRead data ok k.state) :
    match kernelHeaders env k with
    | .error r => LoadsKeep ok k.state.boot r.2
    | .ok hd => (∀ phdr ∈ hd.2.1, phdr.Words) ∧ Loaded k.opened.fsRead data ok k.state hd.2.2 := by
  unfold kernelHeaders
  simp only
  have hehdr := h.readEhdr (env.fresh k.state.boot.dev)
  split_ifs
  · exact hehdr.close hkeeps
  · exact (hehdr.trans (hehdr.fileOpen.readTable _ _ _ _)).close hkeeps
  · exact ⟨phdrsAt_words _ _, hehdr.trans (hehdr.fileOpen.readTable _ _ _ _)⟩

/-- The boot information and the entry address are not part of what is kept. -/
theorem Loaded.finish {k : MbKernel σ} {l' : Loading σ} (h : Loaded fsRead data ok l l')
    (hkeeps : KeepsDevices env ok) : LoadsKeep ok l.boot (finishMultiboot env args k l').2 :=
  ⟨h.loads.trans ⟨grown_of_same rfl rfl, ⟨rfl, rfl⟩, rfl⟩,
    hkeeps.fclose _ (hkeeps.vfsSetDefault _ _ h.fileOpen.dev)⟩

theorem Loaded.mapInfo {l' : Loading σ} (h : Loaded fsRead data ok l l')
    (g : MultibootInfo → MultibootInfo) : Loaded fsRead data ok l { l' with boot := l'.boot.mapInfo g } :=
  ⟨h.loads.trans ⟨grown_of_same rfl rfl, ⟨rfl, rfl⟩, rfl⟩, h.fileOpen.reads, h.fileOpen.dev, h.fileOpen.len⟩

variable (hfiles : OpensFiles env contents ok ReadsFile) (hkeeps : KeepsDevices env ok)
  {r : ℤ × Boot σ}

include hfiles hkeeps

/-- **`method_multiboot`** writes to its chunks alone, also when it fails. -/
theorem loads_methodMultiboot (hok : ok b.dev) (hfit : HeadersFit env contents b (.multiboot args))
    (h : methodMultiboot env args b = some r) : LoadsKeep ok b r.2 := by
  unfold methodMultiboot at h
  have hopen := openMultiboot_fileOpen args hfiles hok
  cases hk : openMultiboot env args b with
  | error r' =>
    simp only [hk] at h hopen
    obtain rfl := Option.some.inj h
    exact hopen
  | ok k =>
    simp only [hk] at h hopen
    obtain ⟨hb, hfile⟩ := hopen
    by_cases hflag : k.header.flags &&& 1 <<< 16 ≠ 0
    · have haout := (openMultiboot_opened hfiles hok hk).1.loadAout (hfit.aout args rfl k hk hflag)
      rw [if_pos hflag] at h
      split_ifs at h
      · obtain rfl := Option.some.inj h
        exact .trans hb haout.keep
      · obtain rfl := Option.some.inj h
        exact .trans hb (haout.finish hkeeps)
    rw [if_neg hflag] at h
    obtain ⟨r', hr', rfl⟩ := Option.map_eq_some_iff.mp h
    unfold loadElf at hr'
    have hheaders := elfHeaders_loaded hkeeps hfile
    cases hhd : elfHeaders env k with
    | error r'' =>
      simp only [hhd] at hr' hheaders
      obtain rfl := Option.some.inj hr'
      exact .trans hb hheaders
    | ok hd =>
      simp only [hhd] at hr' hheaders
      obtain ⟨hwords, hloaded⟩ := hheaders
      have hloop : segmentLoop env b (.multiboot args) =
          some ⟨k.opened.fsRead, translateEntry, hd.phdrs, hd.state⟩ := by
        simp only [segmentLoop, hk, hhd, if_neg hflag]
      have hsegs := hloaded.trans
        (hloaded.fileOpen.loadSegments translateEntry hwords (hfit.segments _ hloop) elfOk)
      rcases hl : loadSegments k.opened.fsRead translateEntry hd.phdrs elfOk hd.state with ⟨_ | retno, l'⟩
      · rw [hl] at hsegs
        simp only [hl] at hr'
        obtain ⟨s, hs, rfl⟩ := Option.map_eq_some_iff.mp hr'
        have hsecs := hsegs.trans (hsegs.fileOpen.loadSections _ _ _ hs)
        rcases s with ⟨_ | retno, shBuf, l''⟩
        · exact .trans hb ((hsecs.mapInfo _).finish hkeeps)
        · exact .trans hb hsecs.keep
      · rw [hl] at hsegs
        simp only [hl] at hr'
        obtain rfl := Option.some.inj hr'
        exact .trans hb (hsegs.close hkeeps)

omit hfiles in
/-- A flat binary is read to its chunk. -/
theorem loads_loadFlat {k : KernelFile σ} (h : FileOpen k.opened.fsRead data ok k.state)
    (hr : loadFlat env k = some r) : LoadsKeep ok k.state.boot r.2 := by
  obtain ⟨g, hg, rfl⟩ := Option.map_eq_some_iff.mp hr
  have hlt := h.reads.length_lt
  simp only [h.toU32_len] at hg ⊢
  -- the chunk starts at `binary_load_addr`
  obtain ⟨hasked, hdev, hgranted⟩ : Loads k.state.boot g.2 ∧ g.2.dev = k.state.boot.dev ∧ (g.1 ≠ 0 →
      chunkCanAllocate k.state.boot.chunks g.2.binaryLoadAddr data.length = true ∧
        g.2.chunks = k.state.boot.chunks.use g.2.binaryLoadAddr data.length ∧
        g.2.ram = k.state.boot.ram) := by
    unfold flatChunk at hg
    split_ifs at hg
    · obtain rfl := Option.some.inj hg
      refine ⟨⟨grown_getChunk _ _ _ rfl rfl, ⟨rfl, rfl⟩, rfl⟩, rfl, fun h0 => ?_⟩
      rcases chunkGetChunk_cases k.state.boot.chunks k.state.boot.binaryLoadAddr data.length with
        ⟨hcan, hg⟩ | hg
      · exact ⟨hcan, congrArg Prod.snd hg, rfl⟩
      · exact absurd (congrArg Prod.fst hg) h0
    · obtain ⟨g', hg', rfl⟩ := Option.map_eq_some_iff.mp hg
      refine ⟨⟨grown_getAnyChunk _ hg' rfl rfl, ⟨rfl, rfl⟩, rfl⟩, rfl, fun h0 => ?_⟩
      obtain ⟨hfirst, hs⟩ := (chunkGetAnyChunk_spec hg').resolve_right fun h => h0 h.1
      exact ⟨hfirst.2.2.1, hs, rfl⟩
  by_cases h0 : g.1 = 0
  · rw [if_pos h0]
    exact ⟨hasked, by rw [hdev]; exact h.dev⟩
  rw [if_neg h0]
  obtain ⟨hcan, hchunks, hram⟩ := hgranted h0
  have hback := h.reads.fread_seek ⟨g.2.ram, g.2.dev, k.state.file⟩ (by rw [hdev]; exact h.dev) h.len
    g.2.binaryLoadAddr (n := data.length) (by omega) 0
  have hloads : ∀ b' : Boot σ, b'.chunks = g.2.chunks →
      b'.ram = (fread k.opened.fsRead g.2.binaryLoadAddr 1 data.length
        ((⟨g.2.ram, g.2.dev, k.state.file⟩ : FileIo σ).seek 0)).2.mem →
      (b'.modules = g.2.modules ∧ b'.modCount = g.2.modCount) ∧ b'.handoff = g.2.handoff →
      Loads k.state.boot b' := fun b' hc hm ht => by
    refine ⟨.take hcan (hc.trans hchunks) fun _ a ha => ?_, ?_, ?_⟩
    · rw [hm, hback.frame a (by omega)]
      exact congrFun hram a
    · exact ⟨ht.1.1.trans hasked.modules.1, ht.1.2.trans hasked.modules.2⟩
    · exact ht.2.trans hasked.handoff
  split_ifs
  · exact ⟨hloads _ rfl rfl ⟨⟨rfl, rfl⟩, rfl⟩, hback.dev⟩
  · exact ⟨hloads _ rfl rfl ⟨⟨rfl, rfl⟩, rfl⟩, hkeeps.fclose _ hback.dev⟩
  · exact ⟨hloads _ rfl rfl ⟨⟨rfl, rfl⟩, rfl⟩, hkeeps.fclose _ hback.dev⟩

/-- **`method_kernel`** writes to its chunks alone, also when it fails. -/
theorem loads_methodKernel (hok : ok b.dev) (hfit : HeadersFit env contents b (.kernel args))
    (h : methodKernel env args b = some r) : LoadsKeep ok b r.2 := by
  unfold methodKernel at h
  have hopen := openKernel_fileOpen args hfiles hok
  cases hk : openKernel env args b with
  | error r' =>
    simp only [hk] at h hopen
    obtain rfl := Option.some.inj h
    exact hopen
  | ok k =>
    simp only [hk] at h hopen
    obtain ⟨hb, hfile⟩ := hopen
    cases htype : k.type with
    | flat =>
      rw [htype] at h
      exact .trans hb (loads_loadFlat hkeeps hfile h)
    | linux =>
      rw [htype] at h
      obtain rfl := Option.some.inj h
      exact .trans hb hfile.refl.keep
    | elf =>
      rw [htype] at h
      obtain rfl := Option.some.inj h
      unfold loadElfKernel
      have hheaders := kernelHeaders_loaded hkeeps hfile
      cases hhd : kernelHeaders env k with
      | error r'' =>
        simp only [hhd] at hheaders ⊢
        exact .trans hb hheaders
      | ok hd =>
        obtain ⟨ehdr, phdrs, l'⟩ := hd
        simp only [hhd] at hheaders ⊢
        obtain ⟨hwords, hloaded⟩ := hheaders
        have hloop : segmentLoop env b (.kernel args) =
            some ⟨k.opened.fsRead, fun _ entryAddr => entryAddr, phdrs, l'⟩ := by
          simp only [segmentLoop, hk, hhd, if_pos htype]
        have hsegs := hloaded.trans
          (hloaded.fileOpen.loadSegments (fun _ entryAddr => entryAddr) hwords (hfit.segments _ hloop) elfOk)
        rcases hl : loadSegments k.opened.fsRead (fun _ entryAddr => entryAddr) phdrs elfOk l' with
          ⟨_ | retno, l''⟩
        · rw [hl] at hsegs
          exact .trans hb (hsegs.withEntry ehdr.eEntry).keep
        · rw [hl] at hsegs
          exact .trans hb (hsegs.close hkeeps)

/-- The contents of a module lie in memory, in a chunk of its own. -/
structure HoldsModule (contents : List UInt8 → List UInt8) (ram : Mem) (m : Module) (args : List UInt8) :
    Prop where
  name : m.name = moduleName args
  stop : m.stop = m.start + (moduleBytes contents args).length
  bytes : slice ram m.start (moduleBytes contents args).length = moduleBytes contents args

/-- **`method_module`** writes to its chunk alone, also when it fails; when it does not fail there is a
module more. -/
theorem loads_methodModule (hok : ok b.dev) (h : methodModule env args b = some r) :
    ok r.2.dev ∧ Grown b r.2 ∧ r.2.handoff = b.handoff ∧
      if r.1 = 0 then ∃ m, r.2.modules = m :: b.modules ∧ r.2.modCount = b.modCount + 1 ∧
        ∃ start, r.2.chunks.used = ⟨start, (moduleBytes contents args).length⟩ :: b.chunks.used ∧
          m.start = start ∧ (r.2.Fits → HoldsModule contents r.2.ram m args)
      else r.2.modules = b.modules ∧ r.2.modCount = b.modCount := by
  unfold methodModule at h
  have hdev := hfiles.dev (methodName 0x20 args) b.dev hok
  rcases hf : env.fopen (methodName 0x20 args) b.dev with ⟨_ | f, dev⟩
  · rw [hf] at h hdev
    obtain rfl := Option.some.inj h
    exact ⟨hdev, grown_of_same rfl rfl, rfl, rfl, rfl⟩
  obtain ⟨hreads, hlen, hpos⟩ := hfiles.file _ _ hok f (by rw [hf]; rfl)
  have hlt := hreads.length_lt
  have hu : toU32 f.file.len = (moduleBytes contents args).length := by
    rw [hlen, moduleBytes, toU32_natCast (by omega)]
  rw [hf] at h hdev
  simp only [hu] at h
  obtain ⟨g, hg, hr⟩ := Option.map_eq_some_iff.mp h
  have hasked : Grown b { b with dev := dev, chunks := g.2 } := grown_getAnyChunk b hg rfl rfl
  split_ifs at hr with h0 hshort
  · obtain rfl := hr
    exact ⟨hdev, hasked, rfl, rfl, rfl⟩
  · obtain rfl := hr
    obtain ⟨hfirst, hs⟩ := (chunkGetAnyChunk_spec hg).resolve_right fun h => h0 h.1
    have hback := hreads.fread_at ⟨b.ram, dev, f.file⟩ hdev hlen hpos (Nat.zero_le _) g.1
      (n := (moduleBytes contents args).length) (by unfold moduleBytes; omega)
    refine ⟨hkeeps.fclose _ hback.dev, .take hfirst.2.2.1 hs fun _ a ha => hback.frame a ?_, rfl, rfl, rfl⟩
    unfold moduleBytes at ha ⊢
    omega
  · obtain rfl := hr
    obtain ⟨hfirst, hs⟩ := (chunkGetAnyChunk_spec hg).resolve_right fun h => h0 h.1
    have hback := hreads.fread_at ⟨b.ram, dev, f.file⟩ hdev hlen hpos (Nat.zero_le _) g.1
      (n := (moduleBytes contents args).length) (by unfold moduleBytes; omega)
    have hall : min (moduleBytes contents args).length ((contents (methodName 0x20 args)).length - 0) =
        (moduleBytes contents args).length := min_self _
    rw [hall] at hback
    refine ⟨hkeeps.fclose _ hback.dev, .take hfirst.2.2.1 hs fun _ => hback.frame, rfl, ?_⟩
    rw [if_pos rfl]
    have hused : g.2.used = ⟨g.1, (moduleBytes contents args).length⟩ :: b.chunks.used := by rw [hs]; rfl
    refine ⟨_, rfl, rfl, g.1, hused, rfl, fun hfits => ⟨rfl, ?_, ?_⟩⟩
    · have hfit : g.1 + (moduleBytes contents args).length < 2 ^ 32 :=
        hfits.stop ⟨g.1, (moduleBytes contents args).length⟩ (hused ▸ List.mem_cons_self)
      show u32 (g.1 + _) = _
      rw [← not_not.mp hshort, u32_of_lt hfit]
    · exact (hback.bytes (not_not.mp hshort).symm).trans (List.take_length (l := moduleBytes contents args))

end RpiBoot
