import RpiBoot.Multiboot.Loads
import RpiBoot.Multiboot.Script

/-!
# What a boot script leaves in memory

Whatever a configuration says, and wherever it ends, the files that have been loaded stay as they are.

* `Outcome`, `command_outcome`: what one command does to the modules and the handoff, and to memory.
* `Behind`: what holds behind the commands that have been done.
* `behind_step`: a command carries it on, also when it fails.
* **`boot_script_intact`**: so it holds wherever the script of a text ends.
-/

namespace RpiBoot

open Store Runs Script

variable {σ : Type} {env : BootEnv σ} {contents : List UInt8 → List UInt8} {ok : σ → Prop} {b s t : Boot σ}
  {c : BootCommand} {r : ℤ × Boot σ}

/-- The argument of a `module` command. -/
def moduleArg : BootCommand → Option (List UInt8)
  | .module args => some args
  | _ => none

/-! ## One command -/

/-- What a command does to the modules and the handoff. -/
inductive Outcome (contents : List UInt8 → List UInt8) (s : Boot σ) (c : BootCommand) (r : ℤ × Boot σ) : Prop
  | same : r.2.modules = s.modules ∧ r.2.modCount = s.modCount → r.2.handoff = s.handoff →
      (r.1 = 0 → moduleArg c = none) → Outcome contents s c r
  | module (args : List UInt8) (m : Module) : r.1 = 0 → moduleArg c = some args →
      r.2.modules = m :: s.modules ∧ r.2.modCount = s.modCount + 1 → r.2.handoff = none →
      (r.2.Fits → HoldsModule contents r.2.ram m args ∧
        r.2.chunks.used = m.chunk :: s.chunks.used) → Outcome contents s c r
  | boot (info : Option MultibootInfo) (entry : ℕ) : moduleArg c = none →
      r.2.modules = s.modules ∧ r.2.modCount = s.modCount → r.2.handoff = some ⟨entry, info⟩ →
      (∀ i ∈ info, i.mods = s.modules.map Module.entry) → Outcome contents s c r

theorem Loads.outcome (h : Loads s r.2) (hc : moduleArg c = none) : Outcome contents s c r :=
  .same h.modules h.handoff fun _ => hc

/-- **One command**: memory grows, whatever the command returns. -/
theorem command_outcome (hfiles : OpensFiles env contents ok ReadsFile) (hkeeps : KeepsDevices env ok)
    (hok : ok s.dev) (hcount : s.modCount = s.modules.length) (hfit : HeadersFit env contents s c)
    (h : command env s c = some r) : ok r.2.dev ∧ Grown s r.2 ∧ Outcome contents s c r := by
  unfold command at h
  split_ifs at h with hcontrol
  · -- the kernel has control
    obtain rfl := Option.some.inj h
    exact ⟨hok, grown_of_same rfl rfl, .same ⟨rfl, rfl⟩ rfl fun h0 => absurd h0 (by simp)⟩
  cases c with
  | multiboot args =>
    obtain ⟨hloads, hdev⟩ := loads_methodMultiboot hfiles hkeeps hok hfit h
    exact ⟨hdev, hloads.toGrown, hloads.outcome rfl⟩
  | kernel args =>
    obtain ⟨hloads, hdev⟩ := loads_methodKernel hfiles hkeeps hok hfit h
    exact ⟨hdev, hloads.toGrown, hloads.outcome rfl⟩
  | module args =>
    obtain ⟨hdev, hgrown, hhandoff, hmodule⟩ := loads_methodModule hfiles hkeeps hok h
    refine ⟨hdev, hgrown, ?_⟩
    split_ifs at hmodule with h0
    · obtain ⟨m, hm, hk, start, hused, hstart, hholds⟩ := hmodule
      have hnone : r.2.handoff = none := hhandoff.trans (Option.not_isSome_iff_eq_none.mp hcontrol)
      refine .module args m h0 rfl ⟨hm, hk⟩ hnone fun hfits => ⟨hholds hfits, ?_⟩
      rw [hused, Module.chunk, (hholds hfits).stop, Nat.add_sub_cancel_left, hstart]
    · exact .same hmodule hhandoff fun h => absurd h h0
  | boot args =>
    obtain rfl := Option.some.inj h
    unfold methodBoot
    split_ifs with hentry
    · exact ⟨hok, grown_of_same rfl rfl, .same ⟨rfl, rfl⟩ rfl fun _ => rfl⟩
    · refine ⟨hok, grown_of_same rfl rfl, .boot _ _ rfl ⟨rfl, rfl⟩ rfl fun i hi => ?_⟩
      obtain ⟨info, -, rfl⟩ := Option.map_eq_some_iff.mp hi
      rw [addMultibootModules, fillMods_eq hcount.symm]
      rfl
  | entryAddr args =>
    obtain rfl := Option.some.inj h
    unfold methodEntryAddr
    cases env.parseAddr args with
    | none => exact ⟨hok, grown_of_same rfl rfl, .same ⟨rfl, rfl⟩ rfl fun _ => rfl⟩
    | some val => exact ⟨hok, grown_of_same rfl rfl, .same ⟨rfl, rfl⟩ rfl fun _ => rfl⟩
  | binaryLoadAddr args =>
    obtain rfl := Option.some.inj h
    unfold methodBinaryLoadAddr
    cases env.parseAddr args with
    | none => exact ⟨hok, grown_of_same rfl rfl, .same ⟨rfl, rfl⟩ rfl fun _ => rfl⟩
    | some val => exact ⟨hok, grown_of_same rfl rfl, .same ⟨rfl, rfl⟩ rfl fun _ => rfl⟩
  | consoleLog args =>
    obtain rfl := Option.some.inj h
    exact ⟨hkeeps.consoleLog _ _ hok, grown_of_same rfl rfl, .same ⟨rfl, rfl⟩ rfl fun _ => rfl⟩

/-! ## A script -/

/-- What has been granted is kept. -/
theorem Grown.eqOn (h : Grown s t) (hfits : t.Fits) {k : Chunk} (hk : k ∈ s.chunks.used) :
    Set.EqOn t.ram s.ram k.range :=
  (h.grows hfits).kept (List.mem_map_of_mem hk)

theorem HoldsModule.grown {m : Module} {args : List UInt8} (h : HoldsModule contents s.ram m args)
    (hgrown : Grown s t) (hfits : t.Fits) (hm : m.chunk ∈ s.chunks.used) :
    HoldsModule contents t.ram m args := by
  refine ⟨h.name, h.stop, Eq.trans (slice_congr fun i hi => ?_) h.bytes⟩
  refine hgrown.eqOn hfits hm (Set.mem_Ico.mpr ⟨Nat.le_add_right _ _, ?_⟩)
  have hstop := h.stop
  simp only [Module.chunk]
  omega

/-- Behind the commands `past` from `b` on: what an earlier state had loaded is there, the modules are those
of the `module` commands and lie in chunks of their own, and the kernel has been told of them. -/
structure Behind (env : BootEnv σ) (contents : List UInt8 → List UInt8) (ok : σ → Prop) (b : Boot σ)
    (past : List BootCommand) (u : Boot σ) : Prop where
  dev : ok u.dev
  kept : ∀ pre, pre <+: past → ∀ v, run (bootStep env) b pre = some v → Grown v u
  count : u.modCount = u.modules.length
  modules : u.Fits →
    List.Forall₂ (HoldsModule contents u.ram) u.modules (past.filterMap moduleArg).reverse
  chunks : u.Fits → (u.modules.map Module.chunk).Sublist u.chunks.used
  handed : ∀ info ∈ u.handoff.bind (·.info), info.mods = u.modules.map Module.entry

/-- Loading something else. -/
theorem Behind.grown {past : List BootCommand} (hb : Behind env contents ok b past s) (h : Grown s t)
    (hdev : ok t.dev) (hmodules : t.modules = s.modules ∧ t.modCount = s.modCount)
    (hhanded : ∀ info ∈ t.handoff.bind (·.info), info.mods = s.modules.map Module.entry) :
    Behind env contents ok b past t := by
  obtain ⟨hm, hk⟩ := hmodules
  refine ⟨hdev, fun pre hpre v hv => (hb.kept pre hpre v hv).trans h, by rw [hm, hk]; exact hb.count,
    fun hfits => ?_, fun hfits => ?_, by rw [hm]; exact hhanded⟩
  · have hchunks := hb.chunks (h.fits hfits)
    rw [hm]
    refine (List.forall₂_and_left (p := fun m => m ∈ s.modules) _ _).mpr
      ⟨fun m hm => hm, hb.modules (h.fits hfits)⟩ |>.imp fun m args hma => ?_
    exact hma.2.grown h hfits (hchunks.subset (List.mem_map_of_mem hma.1))
  · rw [hm]
    exact (hb.chunks (h.fits hfits)).trans h.used.sublist

/-- **A command** carries it on; one that fails leaves it as it is. -/
theorem behind_step (hfiles : OpensFiles env contents ok ReadsFile) (hkeeps : KeepsDevices env ok)
    {past : List BootCommand} (hb : Behind env contents ok b past s ∧ run (bootStep env) b past = some s)
    (hfit : HeadersFit env contents s c) (h : command env s c = some r) :
    if r.1 = 0 then Behind env contents ok b (past ++ [c]) r.2 ∧
        run (bootStep env) b (past ++ [c]) = some r.2
      else Behind env contents ok b past r.2 := by
  obtain ⟨hb, hrun⟩ := hb
  obtain ⟨hdev, hgrown, hdoes⟩ := command_outcome hfiles hkeeps hb.dev hb.count hfit h
  -- the run, where the next command follows
  have hnext : r.1 = 0 → run (bootStep env) b (past ++ [c]) = some r.2 := fun h0 => by
    refine (run_append_eq_some _).mpr ⟨s, hrun, (run_cons_eq_some _).mpr ⟨r.2, ?_, rfl⟩⟩
    rw [← goesOn_command]
    exact goesOn_eq_some.mpr (by rw [h, ← h0])
  have hkept : r.1 = 0 → ∀ pre, pre <+: past ++ [c] → ∀ v, run (bootStep env) b pre = some v → Grown v r.2 := by
    intro h0 pre hpre v hv
    rcases List.prefix_concat_iff.mp hpre with rfl | hpre
    · obtain rfl := Option.some.inj ((hnext h0).symm.trans hv)
      exact grown_of_same rfl rfl
    · exact (hb.kept pre hpre v hv).trans hgrown
  have hlast : moduleArg c = none → (past ++ [c]).filterMap moduleArg = past.filterMap moduleArg := fun hc => by
    rw [List.filterMap_append, List.filterMap_cons, hc, List.filterMap_nil, List.append_nil]
  cases hdoes with
  | same hmodules hhandoff hc =>
    have hb' := hb.grown hgrown hdev hmodules (by rw [hhandoff]; exact hmodules.1 ▸ hb.handed)
    split_ifs with h0
    · exact ⟨⟨hb'.dev, hkept h0, hb'.count, by rw [hlast (hc h0)]; exact hb'.modules, hb'.chunks, hb'.handed⟩,
        hnext h0⟩
    · exact hb'
  | boot info entry hc hmodules hhandoff hinfo =>
    have hb' := hb.grown hgrown hdev hmodules (by rw [hhandoff]; exact hinfo)
    split_ifs with h0
    · exact ⟨⟨hb'.dev, hkept h0, hb'.count, by rw [hlast hc]; exact hb'.modules, hb'.chunks, hb'.handed⟩,
        hnext h0⟩
    · exact hb'
  | module args m h0 hc hmodules hhandoff hholds =>
    obtain ⟨hm, hk⟩ := hmodules
    rw [if_pos h0]
    -- the modules loaded before it
    have hbefore : Behind env contents ok b past { r.2 with modules := s.modules, modCount := s.modCount } :=
      hb.grown ⟨hgrown.free, hgrown.used, hgrown.grows⟩ hdev ⟨rfl, rfl⟩ (by rw [hhandoff]; exact nofun)
    refine ⟨⟨hdev, hkept h0, by rw [hm, hk, List.length_cons, hb.count], fun hfits => ?_, fun hfits => ?_, ?_⟩,
      hnext h0⟩
    · have hold := hbefore.modules hfits
      rw [hm, List.filterMap_append, List.filterMap_cons, hc, List.filterMap_nil, List.reverse_append]
      exact .cons (hholds hfits).1 hold
    · rw [hm, List.map_cons, (hholds hfits).2]
      exact (hb.chunks (hgrown.fits hfits)).cons_cons _
    · rw [hhandoff]
      exact nofun

/-! ## From the text on -/

/-- What the commands `done` have left of the state `b`, in which no chunk was granted. Behind a chunk a read
may have spoilt its rim. -/
structure Intact (env : BootEnv σ) (contents : List UInt8 → List UInt8) (b : Boot σ)
    (done : List BootCommand) (u : Boot σ) : Prop where
  inside : ∀ c ∈ u.chunks.used, c.range ⊆ b.free
  apart : u.chunks.used.Pairwise fun c c' => Disjoint c.range c'.range
  frame : ∀ a, (∀ c ∈ u.chunks.used, a ∉ c.range ∧ a ∉ c.rim) → u.ram a = b.ram a
  kept : ∀ pre, pre <+: done → ∀ v, run (bootStep env) b pre = some v →
    ∀ c ∈ v.chunks.used, Set.EqOn u.ram v.ram c.range
  modules : List.Forall₂ (HoldsModule contents u.ram) u.modules (done.filterMap moduleArg).reverse
  modulesApart : u.modules.Pairwise fun m m' => Disjoint m.chunk.range m'.chunk.range
  handed : ∀ info ∈ u.handoff.bind (·.info), info.mods = u.modules.map Module.entry

theorem Behind.intact {past : List BootCommand} (h : Behind env contents ok b past s) (hfits : s.Fits)
    (hused : b.chunks.used = []) : Intact env contents b past s := by
  have hgrows := (h.kept [] List.nil_prefix b rfl).grows hfits
  have howned : b.arena.owned = [] := by rw [Boot.arena, hused, List.map_nil]
  have hapart : s.chunks.used.Pairwise fun c c' => Disjoint c.range c'.range :=
    (List.pairwise_map.mp (hgrows.pairwise (by rw [howned]; exact List.Pairwise.nil))).imp fun h => h.own
  refine ⟨fun c hc => ?_, hapart, fun a ha => ?_, fun pre hpre v hv c hc => ?_, h.modules hfits, ?_, h.handed⟩
  · exact hgrows.inside (by rw [howned]; exact List.forall_mem_nil _) _ (List.mem_map_of_mem hc)
  · obtain ⟨new, hnew, -, -, -, hmem⟩ := hgrows
    rw [howned, List.append_nil] at hnew
    refine hmem a fun x hx => ?_
    rw [← hnew] at hx
    obtain ⟨c, hc, rfl⟩ := List.mem_map.mp hx
    exact ha c hc
  · exact (h.kept pre hpre v hv).eqOn hfits hc
  · exact (List.pairwise_map (R := fun c c' : Chunk => Disjoint c.range c'.range)).mp
      (hapart.sublist (h.chunks hfits))

/-- **What a boot script has loaded stays.** From memory of which nothing has been granted, and where the
headers of the files fit: wherever the script of a text ends, if it does, no chunk wraps and none lies in the
16 bytes behind a later one, the chunks lie apart in registered memory, nothing but them and these bytes has
changed, what any of its commands had loaded is as it was behind that command, and the modules of the commands
are in memory and in the table that the kernel gets. -/
theorem boot_script_intact (hfiles : OpensFiles env contents ok ReadsFile) (hkeeps : KeepsDevices env ok)
    {ram : Mem} {dev : σ} {chunks : Chunks} (hb : b = Boot.init ram dev chunks) (hok : ok dev)
    (hused : chunks.used = []) {n buf : ℕ} {mem : Mem} {content : List UInt8} (h : Str 0 mem buf content)
    (hn : content.length < n)
    (hfit : Along (bootStep env) (HeadersFit env contents) b (bootScript content)) :
    ∃ mem' final, multibootCfgParse env n buf (mem, some b) = some (outcome mem' final) ∧
      ∀ ret u, final = some (ret, u) → u.Fits → ∃ done, done <+: bootScript content ∧
        (ret = 0 → done = bootScript content) ∧ Intact env contents b done u := by
  obtain ⟨mem', hparse⟩ := multibootCfgParse_exec env h hn b
  refine ⟨mem', _, hparse, fun ret u hu hfits => ?_⟩
  have hstart : Behind env contents ok b [] b ∧ run (bootStep env) b [] = some b := by
    subst hb
    refine ⟨⟨hok, fun pre hpre v hv => ?_, rfl, fun _ => .nil, fun _ => List.nil_sublist _, nofun⟩, rfl⟩
    obtain rfl := List.prefix_nil.mp hpre
    obtain rfl := Option.some.inj hv
    exact grown_of_same rfl rfl
  have hend := triple_history (I := fun past s => Behind env contents ok b past s ∧
      run (bootStep env) b past = some s) (F := Behind env contents ok b)
    (fun past s c r hI hc hr => behind_step hfiles hkeeps hI hc hr) [] (bootScript content) b
    ⟨hstart, by rw [goesOn_command]; exact hfit⟩ (ret, u) hu
  split_ifs at hend with h0
  · exact ⟨bootScript content, List.prefix_rfl, fun _ => rfl, hend.1.intact hfits (hb ▸ hused)⟩
  · obtain ⟨l, hl, hF⟩ := hend
    exact ⟨l, hl, fun h => absurd h h0, hF.intact hfits (hb ▸ hused)⟩

/-- `kernel k`, `module a` and `boot`. -/
def kernelScript : List UInt8 :=
  kernelCommandName ++ [0x20, 0x6b, 0x0a] ++ moduleCommandName ++ [0x20, 0x61, 0x0a] ++ bootCommandName

/-- A flat kernel and a module. -/
def kernelFiles (path : List UInt8) : Option (List UInt8) :=
  if path = [0x6b] then some [0xfe, 0xff, 0xff, 0xea] else if path = [0x61] then some [1, 2, 3] else none

/-- Two pages are free. -/
def kernelBoot : Boot Unit := Boot.init (fun _ => 0) () ⟨[⟨0x8000, 0x2000⟩], [], 0xa000⟩

/-- A command that loads no ELF and no a.out file. -/
theorem headersFit_of_none (hloop : segmentLoop env s c = none) (hc : ∀ args, c ≠ .multiboot args) :
    HeadersFit env contents s c :=
  ⟨fun l hl => by rw [hloop] at hl; exact (nomatch hl), fun args h => absurd h (hc args)⟩

theorem bootScript_kernelScript : bootScript kernelScript = [.kernel [0x6b], .module [0x61], .boot []] := rfl

/-- The kernel does not lie in the 16 bytes behind the module. -/
theorem kernelChunks_apart :
    [Chunk.mk 0x9000 3, Chunk.mk 0x8000 4].Pairwise fun c c' => Disjoint c.rim c'.range :=
  List.pairwise_pair.mpr <| Set.disjoint_left.mpr fun a ha hb => by
    simp only [Chunk.rim, Chunk.range, Set.mem_Ico] at ha hb
    omega

/-- The script runs to the transfer of control, and the module lies behind the kernel. -/
theorem boot_script_intact_kernel : ∃ mem' u,
    multibootCfgParse (filesEnv kernelFiles) 64 0 (patch (fun _ => 0) 0 kernelScript, some kernelBoot) =
      some (0, mem', some u) ∧ u.handoff.isSome = true ∧
    Intact (filesEnv kernelFiles) (fun path => (kernelFiles path).getD []) kernelBoot
      [.kernel [0x6b], .module [0x61], .boot []] u := by
  have hfiles := filesEnv_opensFiles kernelFiles fun path image h => by
    unfold kernelFiles at h
    split_ifs at h <;> obtain rfl := Option.some.inj h <;> decide
  have hkeeps : KeepsDevices (filesEnv kernelFiles) fun _ => True :=
    ⟨fun _ _ => trivial, fun _ _ _ => trivial, fun _ _ _ => trivial⟩
  have hstr : Str 0 (patch (fun _ => 0) 0 kernelScript) 0 kernelScript :=
    str_iff.mpr ⟨by decide, slice_patch _ _ _, patch_apply_of_notMem _ _ _ (Or.inr (Nat.le_refl _))⟩
  have hloop : segmentLoop (filesEnv kernelFiles) kernelBoot (.kernel [0x6b]) = none := by
    rw [← Option.isNone_iff_eq_none]
    decide +kernel
  have hfit : Along (bootStep (filesEnv kernelFiles)) (HeadersFit (filesEnv kernelFiles)
      fun path => (kernelFiles path).getD []) kernelBoot (bootScript kernelScript) := by
    rw [bootScript_kernelScript]
    exact ⟨headersFit_of_none hloop nofun, fun _ _ => ⟨headersFit_of_none rfl nofun, fun _ _ =>
      ⟨headersFit_of_none rfl nofun, fun _ _ => trivial⟩⟩⟩
  have hrun : (exec (command (filesEnv kernelFiles)) kernelBoot (bootScript kernelScript)).map
      (fun r => (r.1, r.2.handoff.isSome, r.2.chunks.used)) = some (0, true, [⟨0x9000, 3⟩, ⟨0x8000, 4⟩]) := by
    decide +kernel
  obtain ⟨⟨ret, u⟩, hexec, hu⟩ := Option.map_eq_some_iff.mp hrun
  obtain ⟨rfl, hhandoff, hused⟩ : ret = 0 ∧ u.handoff.isSome = true ∧
      u.chunks.used = [⟨0x9000, 3⟩, ⟨0x8000, 4⟩] := by simpa using hu
  obtain ⟨mem', hparse⟩ := multibootCfgParse_exec (filesEnv kernelFiles) hstr
    (show kernelScript.length < 64 by decide) kernelBoot
  obtain ⟨mem'', final, hparse', hintact⟩ := boot_script_intact (b := kernelBoot) hfiles.readsFile hkeeps rfl
    trivial rfl hstr (show kernelScript.length < 64 by decide) hfit
  rw [hexec] at hparse
  obtain rfl : final = some (0, u) := outcome_inj (Option.some.inj (hparse'.symm.trans hparse))
  have hfits : u.Fits := by
    unfold Boot.Fits
    rw [hused]
    exact ⟨by decide, kernelChunks_apart⟩
  obtain ⟨done, -, hdone, hleft⟩ := hintact 0 u rfl hfits
  obtain rfl := hdone rfl
  exact ⟨mem', u, hparse, hhandoff, hleft⟩

end RpiBoot
