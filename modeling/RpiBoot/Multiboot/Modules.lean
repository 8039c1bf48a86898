import Mathlib.Data.List.Forall2
import RpiBoot.Memchunk.Grants
import RpiBoot.Memchunk.Register
import RpiBoot.Multiboot.Contents
import RpiBoot.Multiboot.Info

/-!
# The module table

`module_add` links a new module before the others, and `add_multiboot_modules` walks the list from its
head, so that the table stands in the reverse order of the commands.

* `Placement`: a module in memory. `placed_module`: what one `module` command does;
  `placed_run`: what the commands of a configuration do.
* `ModuleSpares`: the read of a module spoils no module that lies behind it.
* `ModuleTable`: the table describes the commands, one after another.
* **`module_table_iff`**: where no module is spoilt, it does just when the commands read the same backwards
  and no chunk wraps.
-/

namespace RpiBoot

open Store Runs

variable {σ : Type}

/-- A module: where it has been placed, and the argument of its command. -/
structure Placement where
  start : ℕ
  args : List UInt8

variable (contents : List UInt8 → List UInt8)

/-- The contents of the file that a command names. -/
def moduleBytes (args : List UInt8) : List UInt8 := contents (methodName 0x20 args)

/-- The chunk of a module. -/
def Placement.chunk (p : Placement) : Chunk := ⟨p.start, (moduleBytes contents p.args).length⟩

/-- The module as `module_add` records it. -/
def Placement.module (p : Placement) : Module :=
  ⟨p.start, u32 (p.start + (moduleBytes contents p.args).length), moduleName p.args⟩

/-- The chunk ends below `2 ^ 32`. -/
def Placement.Fits (p : Placement) : Prop := p.start + (moduleBytes contents p.args).length < 2 ^ 32

/-- The chunk of a module. -/
def Module.chunk (m : Module) : Chunk := ⟨m.start, m.stop - m.start⟩

/-- The chunk that is granted to a `module` command ends below `2 ^ 32`. -/
def ModuleFits (b : Boot σ) : BootCommand → Prop
  | .module args => ∀ g s, chunkGetAnyChunk b.chunks (moduleBytes contents args).length = some (g, s) →
      g + (moduleBytes contents args).length < 2 ^ 32
  | _ => True

/-- The read of a `module` command leaves alone what lies of the modules before it in the 16 bytes behind
its chunk. -/
def ModuleSpares (env : BootEnv σ) (b : Boot σ) : BootCommand → Prop
  | .module args => ∀ f dev, env.fopen (methodName 0x20 args) b.dev = (some f, dev) →
      ∀ g s, chunkGetAnyChunk b.chunks (moduleBytes contents args).length = some (g, s) → ∀ m ∈ b.modules,
        Keeps f.fsRead g (moduleBytes contents args).length ⟨b.ram, dev, f.file⟩
          (m.chunk.range ∩ (Chunk.mk g (moduleBytes contents args).length).rim)
  | _ => True

variable {env : BootEnv σ} {contents} {ok : σ → Prop}

/-- What one `module` command does. -/
structure Placed (env : BootEnv σ) (contents : List UInt8 → List UInt8) (ok : σ → Prop) (p : Placement)
    (b b' : Boot σ) : Prop where
  granted : chunkGetAnyChunk b.chunks (moduleBytes contents p.args).length = some (p.start, b'.chunks)
  chunks : b'.chunks = b.chunks.use p.start (moduleBytes contents p.args).length
  contained : chunkCanAllocate b.chunks p.start (moduleBytes contents p.args).length = true
  start_lt : p.start < b.chunks.maxFree
  length_lt : (moduleBytes contents p.args).length < 2 ^ 31
  dev : ok b'.dev
  bytes : slice b'.ram p.start (moduleBytes contents p.args).length = moduleBytes contents p.args
  frame : ∀ a, a ∉ (p.chunk contents).range → a ∉ (p.chunk contents).rim → b'.ram a = b.ram a
  spared : ModuleSpares contents env b (.module p.args) →
    ∀ m ∈ b.modules, ∀ a ∈ m.chunk.range, a ∈ (p.chunk contents).rim → b'.ram a = b.ram a
  tables : b'.modules = p.module contents :: b.modules ∧ b'.modCount = b.modCount + 1 ∧
    b'.mbinfo = b.mbinfo ∧ b'.entryAddr = b.entryAddr ∧ b'.handoff = b.handoff

/-- **A `module` command that goes on** has placed its module. -/
theorem placed_module (hfiles : OpensFiles env contents ok ReadsFile)
    (hclose : ∀ dev, ok dev → ok (env.fclose dev)) {b b' : Boot σ} (hok : ok b.dev) {args : List UInt8}
    (h : bootStep env b (.module args) = some b') : ∃ start, Placed env contents ok ⟨start, args⟩ b b' := by
  unfold bootStep at h
  split_ifs at h
  obtain ⟨⟨ret, b''⟩, hr, hr'⟩ := Option.bind_eq_some_iff.mp h
  split_ifs at hr' with h0
  obtain rfl : ret = 0 := h0
  obtain rfl : b'' = b' := Option.some.inj hr'
  simp only [bootMethod, methodModule] at hr
  have hdev := hfiles.dev (methodName 0x20 args) b.dev hok
  rcases hf : env.fopen (methodName 0x20 args) b.dev with ⟨_ | f, dev⟩
  · rw [hf] at hr
    exact absurd (Prod.mk.inj (Option.some.inj hr)).1 (by decide)
  obtain ⟨hreads, hlen, hpos⟩ := hfiles.file _ _ hok f (by rw [hf]; rfl)
  have hlt : (moduleBytes contents args).length < 2 ^ 31 := hreads.length_lt
  have hu : toU32 f.file.len = (moduleBytes contents args).length := by
    rw [hlen, moduleBytes, toU32_natCast (by unfold moduleBytes at hlt; omega)]
  rw [hf] at hr hdev
  simp only [hu] at hr
  obtain ⟨g, hg, hr⟩ := Option.map_eq_some_iff.mp hr
  split_ifs at hr with hz hshort
  · exact absurd (Prod.mk.inj hr).1 (by decide)
  · exact absurd (Prod.mk.inj hr).1 (by decide)
  · obtain rfl := (Prod.mk.inj hr).2
    obtain ⟨hfirst, hs⟩ := (chunkGetAnyChunk_spec hg).resolve_right fun h => hz h.1
    have hback := hreads.fread_at ⟨b.ram, dev, f.file⟩ hdev hlen hpos (Nat.zero_le _) g.1
      (n := (moduleBytes contents args).length) (by omega)
    have hall : min (moduleBytes contents args).length ((contents (methodName 0x20 args)).length - 0) =
        (moduleBytes contents args).length := min_self _
    rw [hall] at hback
    refine ⟨g.1, hg, hs, hfirst.2.2.1, hfirst.2.1, hlt, hclose _ hback.dev,
      (hback.bytes (not_not.mp hshort).symm).trans (List.take_length (l := moduleBytes contents args)),
      fun a hout hrim => ?_, fun hspares m hm a ha hrim => hspares f dev hf g.1 g.2 hg m hm b.ram a ⟨ha, hrim⟩,
      ?_, rfl, rfl, rfl, rfl⟩
    · simp only [Chunk.range, Chunk.rim, Placement.chunk, Set.mem_Ico] at hout hrim
      exact hback.frame a (by omega)
    · simp only [Placement.module, ← not_not.mp hshort]
      rfl

/-- Where it spares the modules that are there, and no chunk wraps, they stay as they are. -/
theorem Placed.kept {p : Placement} {b b' : Boot σ} (hp : Placed env contents ok p b b')
    (hfits : p.Fits contents) (hspares : ModuleSpares contents env b (.module p.args)) {m : Module}
    (hm : m ∈ b.modules) (hused : m.chunk ∈ b.chunks.used) (hstop : m.chunk.start + m.chunk.length < 2 ^ 32)
    {a : ℕ} (ha : a ∈ m.chunk.range) : b'.ram a = b.ram a := by
  obtain ⟨-, hover⟩ := chunkCanAllocate_iff.mp hp.contained
  by_cases hrim : a ∈ (p.chunk contents).rim
  · exact hp.spared hspares m hm a ha hrim
  · refine hp.frame a (fun hin => ?_) hrim
    exact Set.disjoint_left.mp (disjoint_of_not_overlaps hfits hover _ hused hstop) hin ha

/-! ## A sequence of modules -/

/-- What a sequence of `module` commands does, by the placements of its modules. -/
structure PlacedAll (env : BootEnv σ) (contents : List UInt8 → List UInt8) (ok : σ → Prop)
    (ps : List Placement) (b u : Boot σ) : Prop where
  dev : ok u.dev
  tables : u.modules = (ps.map (·.module contents)).reverse ++ b.modules ∧
    u.modCount = b.modCount + ps.length ∧ u.mbinfo = b.mbinfo ∧ u.entryAddr = b.entryAddr
  bounds : ∀ p ∈ ps, 0x100000 ≤ p.start ∧ p.start < 2 ^ 32 ∧ (moduleBytes contents p.args).length < 2 ^ 31
  apart_used : (∀ p ∈ ps, p.Fits contents) → ∀ p ∈ ps, ∀ c ∈ b.chunks.used, c.start + c.length < 2 ^ 32 →
    Disjoint (p.chunk contents).range c.range
  apart : (∀ p ∈ ps, p.Fits contents) →
    ps.Pairwise fun p q => Disjoint (p.chunk contents).range (q.chunk contents).range
  kept : (∀ p ∈ ps, p.Fits contents) →
    Along (bootStep env) (ModuleSpares contents env) b (ps.map fun p => .module p.args) →
    ∀ m ∈ b.modules, m.chunk ∈ b.chunks.used → m.chunk.start + m.chunk.length < 2 ^ 32 →
      ∀ a ∈ m.chunk.range, u.ram a = b.ram a
  bytes : (∀ p ∈ ps, p.Fits contents) →
    Along (bootStep env) (ModuleSpares contents env) b (ps.map fun p => .module p.args) →
    ∀ p ∈ ps, slice u.ram p.start (moduleBytes contents p.args).length = moduleBytes contents p.args

/-- Memory from 1 MiB on is what the allocator has. -/
def FromMiB (s : Chunks) : Prop := (∀ r ∈ s.freeList, 0x100000 ≤ r.start) ∧ s.maxFree < 2 ^ 32

/-- What `mem_cb` registers is from 1 MiB on. -/
theorem fromMiB_registerMemory (regions : List Chunk) : FromMiB (registerMemory regions) := by
  have hstep (s : Chunks) (hs : FromMiB s) (r : Chunk) : FromMiB (memCb s r.start r.length) := by
    unfold memCb
    split_ifs with h
    · exact ⟨List.forall_mem_cons.mpr ⟨le_refl _, hs.1⟩, maxFree_register hs.2 _ _⟩
    · exact ⟨List.forall_mem_cons.mpr ⟨not_lt.mp h, hs.1⟩, maxFree_register hs.2 _ _⟩
  have hfold (l : List Chunk) : ∀ s, FromMiB s → FromMiB (l.foldl (fun s r => memCb s r.start r.length) s) := by
    induction l with
    | nil => exact fun s hs => hs
    | cons r l ih => exact fun s hs => ih _ (hstep s hs r)
  exact hfold regions Chunks.init ⟨by simp [Chunks.init], by decide⟩

theorem PlacedAll.nil {b : Boot σ} (hok : ok b.dev) : PlacedAll env contents ok [] b b :=
  ⟨hok, ⟨rfl, rfl, rfl, rfl⟩, by simp, by simp, fun _ => List.Pairwise.nil, fun _ _ _ _ _ _ _ _ => rfl,
    by simp⟩

theorem PlacedAll.cons {p : Placement} {ps : List Placement} {b b' u : Boot σ} (hb : FromMiB b.chunks)
    (hstep : bootStep env b (.module p.args) = some b') (hp : Placed env contents ok p b b')
    (hps : PlacedAll env contents ok ps b' u) : PlacedAll env contents ok (p :: ps) b u := by
  obtain ⟨hcontained, hover⟩ := chunkCanAllocate_iff.mp hp.contained
  have hstart : 0x100000 ≤ p.start := by
    obtain ⟨r, hr, hle, -⟩ := chunkContains_iff.mp hcontained
    exact (hb.1 r hr).trans hle
  have hused : p.chunk contents ∈ b'.chunks.used := by
    rw [hp.chunks]
    exact List.mem_cons_self
  have hapart : (∀ q ∈ p :: ps, q.Fits contents) → ∀ q ∈ ps,
      Disjoint (q.chunk contents).range (p.chunk contents).range := fun hfits q hq =>
    hps.apart_used (fun q hq => hfits q (List.mem_cons_of_mem _ hq)) q hq _ hused
      (hfits p List.mem_cons_self)
  obtain ⟨hm, hk, hi, he, -⟩ := hp.tables
  obtain ⟨hm', hk', hi', he'⟩ := hps.tables
  refine ⟨hps.dev, ⟨?_, ?_, hi'.trans hi, he'.trans he⟩, ?_, fun hfits => ?_, fun hfits => ?_,
    fun hfits hspares m hmem hin hstop a ha => ?_, fun hfits hspares => ?_⟩
  · rw [hm', hm, List.map_cons, List.reverse_cons, List.append_assoc, List.singleton_append]
  · rw [hk', hk, List.length_cons]
    omega
  · rintro q (_ | ⟨_, hq⟩)
    · exact ⟨hstart, hp.start_lt.trans hb.2, hp.length_lt⟩
    · exact hps.bounds q hq
  · rintro q (_ | ⟨_, hq⟩) c hc hfit
    · exact disjoint_of_not_overlaps (hfits p List.mem_cons_self) hover c hc hfit
    · refine hps.apart_used (fun q hq => hfits q (List.mem_cons_of_mem _ hq)) q hq c ?_ hfit
      rw [hp.chunks]
      exact List.mem_cons_of_mem _ hc
  · exact List.Pairwise.cons (fun q hq => (hapart hfits q hq).symm)
      (hps.apart fun q hq => hfits q (List.mem_cons_of_mem _ hq))
  · obtain ⟨hfirst, hrest⟩ := hspares
    refine (hps.kept (fun q hq => hfits q (List.mem_cons_of_mem _ hq)) (hrest b' hstep) m ?_ ?_ hstop a ha).trans
      (hp.kept (hfits p List.mem_cons_self) hfirst hmem hin hstop ha)
    · rw [hm]
      exact List.mem_cons_of_mem _ hmem
    · rw [hp.chunks]
      exact List.mem_cons_of_mem _ hin
  · obtain ⟨-, hrest⟩ := hspares
    have hfit : p.start + (moduleBytes contents p.args).length < 2 ^ 32 := hfits p List.mem_cons_self
    have hchunk : (p.module contents).chunk = p.chunk contents := by
      simp only [Module.chunk, Placement.module, Placement.chunk, u32_of_lt hfit, Nat.add_sub_cancel_left]
    rintro q (_ | ⟨_, hq⟩)
    · -- the modules behind it leave it alone
      refine Eq.trans (slice_congr fun i hi => ?_) hp.bytes
      refine hps.kept (fun q hq => hfits q (List.mem_cons_of_mem _ hq)) (hrest b' hstep) (p.module contents)
        (by rw [hm]; exact List.mem_cons_self) (by rw [hchunk]; exact hused) (by rw [hchunk]; exact hfit) _ ?_
      rw [hchunk]
      exact Set.mem_Ico.mpr ⟨Nat.le_add_right _ _, Nat.add_lt_add_left hi _⟩
    · exact hps.bytes (fun q hq => hfits q (List.mem_cons_of_mem _ hq)) (hrest b' hstep) q hq

theorem moduleFits_iff {p : Placement} {b b' : Boot σ} (hp : Placed env contents ok p b b') :
    ModuleFits contents b (.module p.args) ↔ p.Fits contents := by
  constructor
  · exact fun h => h _ _ hp.granted
  · intro h g s hg
    obtain ⟨rfl, rfl⟩ := Prod.mk.inj (Option.some.inj (hp.granted.symm.trans hg))
    exact h

/-- **The `module` commands of a configuration** place their modules. -/
theorem placed_run (hfiles : OpensFiles env contents ok ReadsFile)
    (hclose : ∀ dev, ok dev → ok (env.fclose dev)) {argss : List (List UInt8)} {b u : Boot σ}
    (hok : ok b.dev) (hb : FromMiB b.chunks)
    (hrun : run (bootStep env) b (argss.map BootCommand.module) = some u) :
    ∃ ps : List Placement, ps.map Placement.args = argss ∧ PlacedAll env contents ok ps b u ∧
      (Along (bootStep env) (ModuleFits contents) b (argss.map BootCommand.module) ↔
        ∀ p ∈ ps, p.Fits contents) := by
  induction argss generalizing b with
  | nil =>
    obtain rfl : b = u := Option.some.inj hrun
    exact ⟨[], rfl, .nil hok, by simp⟩
  | cons args argss ih =>
    rw [List.map_cons] at hrun ⊢
    obtain ⟨b', hb', hrun'⟩ := (run_cons_eq_some _).mp hrun
    obtain ⟨start, hp⟩ := placed_module hfiles hclose hok hb'
    have hfree : FromMiB b'.chunks := by
      rw [hp.chunks]
      exact hb
    obtain ⟨ps, hargs, hps, hfits⟩ := ih hp.dev hfree hrun'
    refine ⟨⟨start, args⟩ :: ps, by rw [List.map_cons, hargs], hps.cons hb hb' hp, ?_⟩
    have hone := moduleFits_iff hp
    simp only [Along, hb', Option.some.injEq, forall_eq', hfits, List.forall_mem_cons]
    exact and_congr_left' hone

/-! ## The table -/

/-- The entry describes the command: where its file lies, and its name. -/
structure Describes (contents : List UInt8 → List UInt8) (ram : Mem) (e : ModuleEntry)
    (args : List UInt8) : Prop where
  bounds : e.modStart ≤ e.modEnd
  bytes : slice ram e.modStart (e.modEnd - e.modStart) = moduleBytes contents args
  string : e.string = moduleName args

/-- The kernel gets a table that describes the commands, one after another, in ranges of their own. -/
def ModuleTable (contents : List UInt8 → List UInt8) (argss : List (List UInt8)) (t : Boot σ) : Prop :=
  ∃ info, t.handoff.bind (·.info) = some info ∧ info.modsCount = argss.length ∧
    List.Forall₂ (Describes contents t.ram) info.mods argss ∧
    info.mods.Pairwise fun e e' => Disjoint (Set.Ico e.modStart e.modEnd) (Set.Ico e'.modStart e'.modEnd)

/-- What the table says of a command: the contents and the name. -/
def moduleKey (contents : List UInt8 → List UInt8) (args : List UInt8) : List UInt8 × List UInt8 :=
  (moduleBytes contents args, moduleName args)

def Module.entry (m : Module) : ModuleEntry := ⟨m.start, m.stop, m.name, 0⟩

/-- The table of modules that have been placed, against the commands in any order. -/
theorem describes_iff {ps : List Placement} {b u : Boot σ} (hps : PlacedAll env contents ok ps b u)
    (hspares : Along (bootStep env) (ModuleSpares contents env) b (ps.map fun p => .module p.args))
    {p : Placement} (hp : p ∈ ps) (args : List UInt8) :
    (∀ q ∈ ps, q.Fits contents) → (Describes contents u.ram (p.module contents).entry args ↔
      moduleKey contents p.args = moduleKey contents args) := by
  intro hfits
  have hend : u32 (p.start + (moduleBytes contents p.args).length) =
      p.start + (moduleBytes contents p.args).length := u32_of_lt (hfits p hp)
  have hbytes := hps.bytes hfits hspares p hp
  unfold moduleKey
  constructor
  · rintro ⟨-, h, hname⟩
    simp only [Module.entry, Placement.module, hend, Nat.add_sub_cancel_left, hbytes] at h hname
    rw [h, hname]
  · intro h
    obtain ⟨h, hname⟩ := Prod.mk.inj h
    refine ⟨?_, ?_, hname⟩
    · simp only [Module.entry, Placement.module, hend]
      omega
    · rw [← h]
      simp only [Module.entry, Placement.module, hend, Nat.add_sub_cancel_left, hbytes]

/-- An entry with its bounds in order is that of a chunk that fits. -/
theorem fits_of_bounds {p : Placement} (hstart : 0x100000 ≤ p.start ∧ p.start < 2 ^ 32 ∧
    (moduleBytes contents p.args).length < 2 ^ 31)
    (h : (p.module contents).entry.modStart ≤ (p.module contents).entry.modEnd) : p.Fits contents := by
  simp only [Module.entry, Placement.module, u32] at h
  unfold Placement.Fits
  omega

/-- `boot` fills the table and transfers control. -/
theorem bootStep_boot {b t : Boot σ} {args : List UInt8} {info : MultibootInfo}
    (hinfo : b.mbinfo = some info) (hcount : b.modules.length = b.modCount)
    (h : bootStep env b (.boot args) = some t) :
    t.ram = b.ram ∧ ∃ info', t.handoff.bind (·.info) = some info' ∧ info'.modsCount = b.modCount ∧
      info'.mods = b.modules.map Module.entry := by
  unfold bootStep at h
  split_ifs at h
  obtain ⟨r, hr, hr'⟩ := Option.bind_eq_some_iff.mp h
  split_ifs at hr' with h0
  obtain rfl := Option.some.inj hr'
  obtain rfl := Option.some.inj hr
  have hentry : b.entryAddr ≠ 0 := fun h => by simp [methodBoot, h] at h0
  simp only [methodBoot, if_neg hentry, Boot.mapInfo, hinfo, Option.map_some, Option.bind_some]
  refine ⟨trivial, _, rfl, ?_, ?_⟩
  · rw [addMultibootModules, fillMods_eq hcount]
  · rw [addMultibootModules, fillMods_eq hcount]
    rfl

theorem moduleTable_iff {ps : List Placement} {b u t : Boot σ} (hps : PlacedAll env contents ok ps b u)
    (hspares : Along (bootStep env) (ModuleSpares contents env) b (ps.map fun p => .module p.args))
    (hram : t.ram = u.ram) {info : MultibootInfo} (hinfo : t.handoff.bind (·.info) = some info)
    (hcount : info.modsCount = ps.length)
    (hmods : info.mods = (ps.map fun p => (p.module contents).entry).reverse) :
    ModuleTable contents (ps.map Placement.args) t ↔ (∀ p ∈ ps, p.Fits contents) ∧
      (ps.map fun p => moduleKey contents p.args).reverse = ps.map fun p => moduleKey contents p.args := by
  have hkeys : (∀ p ∈ ps, p.Fits contents) → (List.Forall₂ (Describes contents u.ram)
      (ps.map fun p => (p.module contents).entry).reverse (ps.map Placement.args) ↔
      (ps.map fun p => moduleKey contents p.args).reverse =
        ps.map fun p => moduleKey contents p.args) := by
    intro hfits
    have hsame : (fun p q : Placement => p ∈ ps ∧
        Describes contents u.ram (p.module contents).entry q.args) =
        fun p q => p ∈ ps ∧ moduleKey contents p.args = moduleKey contents q.args := by
      funext p q
      exact propext (and_congr_right fun hp => describes_iff hps hspares hp q.args hfits)
    have hmem : ∀ p ∈ ps.reverse, p ∈ ps := fun p hp => List.mem_reverse.mp hp
    rw [← List.map_reverse, ← List.map_reverse, List.forall₂_map_left_iff, List.forall₂_map_right_iff,
      ← and_iff_right hmem (b := List.Forall₂ _ ps.reverse ps), ← List.forall₂_and_left, hsame,
      List.forall₂_and_left, and_iff_right hmem, ← List.forall₂_eq_eq_eq, List.forall₂_map_left_iff,
      List.forall₂_map_right_iff]
  have hapart : (∀ p ∈ ps, p.Fits contents) → (ps.map fun p => (p.module contents).entry).reverse.Pairwise
      fun e e' => Disjoint (Set.Ico e.modStart e.modEnd) (Set.Ico e'.modStart e'.modEnd) := by
    intro hfits
    rw [List.pairwise_reverse, List.pairwise_map]
    refine (hps.apart hfits).imp_of_mem fun {p q} hp hq hdisj => ?_
    simp only [Module.entry, Placement.module, u32_of_lt (hfits p hp), u32_of_lt (hfits q hq)]
    exact hdisj.symm
  unfold ModuleTable
  rw [hram]
  constructor
  · rintro ⟨info', hinfo', -, hdescr, -⟩
    obtain rfl := Option.some.inj (hinfo.symm.trans hinfo')
    rw [hmods] at hdescr
    have hfits : ∀ p ∈ ps, p.Fits contents := by
      intro p hp
      have hbounds := ((List.forall₂_and_left _ _).mp (hdescr.imp fun e args hd =>
        (⟨hd.bounds, hd⟩ : e.modStart ≤ e.modEnd ∧ _))).1
      exact fits_of_bounds (hps.bounds p hp) (hbounds _ (by simpa using ⟨p, hp, rfl⟩))
    exact ⟨hfits, (hkeys hfits).mp hdescr⟩
  · rintro ⟨hfits, hkey⟩
    refine ⟨info, hinfo, by rw [hcount, List.length_map], ?_, ?_⟩
    · rw [hmods]
      exact (hkeys hfits).mpr hkey
    · rw [hmods]
      exact hapart hfits

/-! ## Configurations -/

/-- Two files of one byte. -/
def twoFiles (path : List UInt8) : Option (List UInt8) :=
  if path = [0x61] then some [1] else if path = [0x62] then some [2] else none

/-- A state with boot information and an entry address, and with memory from 1 MiB on. -/
def readyBoot : Boot Unit :=
  { Boot.init (fun _ => 0) () ⟨[⟨0x100000, 0x100000⟩], [], 0x200000⟩ with
    entryAddr := 0x8000
    mbinfo := some MultibootInfo.clear }

/-- Of two modules, the second stands first. -/
theorem module_table_broken :
    ∃ t, run (bootStep (filesEnv twoFiles)) readyBoot [.module [0x61], .module [0x62], .boot []] = some t ∧
      ¬ ModuleTable (fun path => (twoFiles path).getD []) [[0x61], [0x62]] t := by
  have hrun : ((run (bootStep (filesEnv twoFiles)) readyBoot
      [.module [0x61], .module [0x62], .boot []]).bind fun t => t.handoff.bind (·.info)).map
      (fun info => info.mods.map (·.string)) = some [[0x62], [0x61]] := by decide +kernel
  obtain ⟨info, hinfo, hmods⟩ := Option.map_eq_some_iff.mp hrun
  obtain ⟨t, ht, hinfo⟩ := Option.bind_eq_some_iff.mp hinfo
  refine ⟨t, ht, fun ⟨info', hinfo', _, hdescr, _⟩ => ?_⟩
  obtain rfl := Option.some.inj (hinfo.symm.trans hinfo')
  have hnames : info.mods.map (·.string) = [[0x61], [0x62]].map moduleName := by
    rw [← List.forall₂_eq_eq_eq, List.forall₂_map_left_iff, List.forall₂_map_right_iff]
    exact hdescr.imp fun e args hd => hd.string
  rw [hmods] at hnames
  exact absurd hnames (by decide)

/-- **The module table.** Of every sequence of `module` commands followed by `boot` in which no read spoils a
module that has been loaded: the table describes the commands just when the contents and the names read the
same backwards and no chunk that is granted wraps. -/
theorem module_table_iff (hfiles : OpensFiles env contents ok ReadsFile)
    (hclose : ∀ dev, ok dev → ok (env.fclose dev)) {b t : Boot σ} (hok : ok b.dev) (hb : FromMiB b.chunks)
    (hmods : b.modules = []) (hcount : b.modCount = 0) (hinfo : b.mbinfo.isSome) {argss : List (List UInt8)}
    {args : List UInt8} (hrun : run (bootStep env) b (argss.map BootCommand.module ++ [.boot args]) = some t)
    (hspares : Along (bootStep env) (ModuleSpares contents env) b (argss.map BootCommand.module)) :
    ModuleTable contents argss t ↔
      Along (bootStep env) (ModuleFits contents) b (argss.map BootCommand.module) ∧
        (argss.map (moduleKey contents)).reverse = argss.map (moduleKey contents) := by
  obtain ⟨u, hu, hlast⟩ := (run_append_eq_some _).mp hrun
  obtain ⟨t', hboot, ht'⟩ := (run_cons_eq_some _).mp hlast
  obtain rfl : t' = t := Option.some.inj ht'
  obtain ⟨ps, rfl, hps, hfits⟩ := placed_run hfiles hclose hok hb hu
  obtain ⟨info, hinfo⟩ := Option.isSome_iff_exists.mp hinfo
  obtain ⟨hm, hk, hi, -⟩ := hps.tables
  rw [hmods, List.append_nil] at hm
  rw [hcount, Nat.zero_add] at hk
  obtain ⟨hram, info', hinfo', hcount', hmods'⟩ := bootStep_boot (hi.trans hinfo) (by simp [hm, hk]) hboot
  rw [List.map_map] at hspares
  rw [hfits, List.map_map]
  apply moduleTable_iff hps hspares hram hinfo' (hcount'.trans hk)
  rw [hmods', hm, List.map_reverse, List.map_map]
  rfl

/-- A read of a file that is held in a list spoils nothing. -/
theorem keeps_imageRead (image : List UInt8) (hlt : image.length < 2 ^ 31) (ptr : ℕ) (mem : Mem) :
    Keeps (imageRead image) ptr image.length ⟨mem, (), ⟨0, vfsModeR, image.length, 0⟩⟩
      (Set.Ici (ptr + image.length)) := by
  intro mem' a ha
  rw [fread_one (by omega) rfl rfl (Nat.zero_le _) hlt]
  exact patch_apply_of_notMem _ _ _ (Or.inr (by
    simp only [Nat.sub_zero, min_self, Int.toNat_zero, List.drop_zero, List.take_length]
    exact ha))

/-- Files that are held in lists spare the modules. -/
theorem filesEnv_moduleSpares (files : List UInt8 → Option (List UInt8))
    (hlt : ∀ path image, files path = some image → image.length < 2 ^ 31) (b : Boot Unit) (c : BootCommand) :
    ModuleSpares (fun path => (files path).getD []) (filesEnv files) b c := by
  cases c with
  | module args =>
    intro f dev hf g s _ m _ mem a ha
    obtain ⟨image, himage, hfile⟩ := Option.map_eq_some_iff.mp (Prod.mk.inj hf).1
    subst hfile
    have hbytes : moduleBytes (fun path => (files path).getD []) args = image := by
      rw [moduleBytes, himage, Option.getD_some]
    rw [hbytes] at ha ⊢
    exact keeps_imageRead image (hlt _ _ himage) g b.ram mem a (Set.mem_Ico.mp ha.2).1
  | _ => trivial

/-- Three modules that read the same backwards. -/
theorem module_table_iff_three :
    ∃ t, run (bootStep (filesEnv twoFiles)) readyBoot
        [.module [0x61], .module [0x62], .module [0x61], .boot []] = some t ∧
      (ModuleTable (fun path => (twoFiles path).getD []) [[0x61], [0x62], [0x61]] t ↔
        Along (bootStep (filesEnv twoFiles)) (ModuleFits fun path => (twoFiles path).getD []) readyBoot
            [.module [0x61], .module [0x62], .module [0x61]] ∧
          [[0x61], [0x62], [0x61]].reverse.map (moduleKey fun path => (twoFiles path).getD []) =
            [[0x61], [0x62], [0x61]].map (moduleKey fun path => (twoFiles path).getD [])) := by
  have hrun : (run (bootStep (filesEnv twoFiles)) readyBoot
      [.module [0x61], .module [0x62], .module [0x61], .boot []]).isSome = true := by decide +kernel
  obtain ⟨t, ht⟩ := Option.isSome_iff_exists.mp hrun
  have hlt : ∀ path image, twoFiles path = some image → image.length < 2 ^ 31 := fun path image h => by
    unfold twoFiles at h
    split_ifs at h <;> obtain rfl := Option.some.inj h <;> decide
  have hspares := filesEnv_moduleSpares twoFiles hlt
  exact ⟨t, ht, module_table_iff (filesEnv_opensFiles twoFiles hlt).readsFile (fun _ _ => trivial) trivial
    ⟨by simp [readyBoot, Boot.init], by decide⟩ rfl rfl rfl ht
    ⟨hspares _ _, fun _ _ => ⟨hspares _ _, fun _ _ => ⟨hspares _ _, fun _ _ => trivial⟩⟩⟩⟩

end RpiBoot
