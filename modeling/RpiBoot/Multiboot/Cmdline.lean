import RpiBoot.Config.Parse
import RpiBoot.Multiboot.Steps

/-!
# The command line of a kernel

`method_multiboot` splits its argument where it is, so that the string at `args` ends behind the name of
the kernel. `mbinfo->cmdline` is `args`, not the second part of the split.

* `multibootMethod`: the `multiboot` entry of the table of commands, on the configuration in memory. The
  configuration lies outside the memory that kernels are loaded to.
* `splitString_name`: the first part of the split is the string itself, ended early.
* `methodMultiboot_finish`: the boot information of a load that is not cut short.
* **`cmdline_iff`**: the kernel gets its command line just when it is part of the name of the kernel.
-/

namespace RpiBoot

open Store

variable {σ : Type}

/-- `split_string(args, ' ', ..)`; the constant `empty_string` stays as it is. -/
def splitArgs (n : ℕ) (mem : Mem) : Option ℕ → Option (Mem × Option ℕ × Option ℕ)
  | none => some (mem, none, none)
  | some p => splitString n mem p 0x20

/-- `"multiboot"`. -/
def multibootName : List UInt8 := [0x6d, 0x75, 0x6c, 0x74, 0x69, 0x62, 0x6f, 0x6f, 0x74]

theorem multibootName_clean : 0 ∉ multibootName := by decide

/-- `methods[0]`, on memory that holds the configuration and the state of the loader, which is lost when
the command does not return. -/
def multibootMethod (env : BootEnv σ) (n : ℕ) : ConfigMethod (Option (Boot σ)) where
  name := multibootName
  clean := multibootName_clean
  method args w :=
    (w.2.bind fun b => (stringAt n w.1 args).bind fun s => (splitArgs n w.1 args).bind fun t =>
      (methodMultiboot env s b).map fun r => (r.1, t.1, some r.2)).getD (-1, w.1, none)

/-- The kernel of a `multiboot` line. -/
def lineKernel (line : List UInt8) : List UInt8 := methodName 0x20 (argString 0x20 (stripped line))

/-- The command line of a `multiboot` line. -/
def lineCmdline (line : List UInt8) : List UInt8 := argString 0x20 (argString 0x20 (stripped line))

/-! ## The split -/

/-- An argument does not start with a space. -/
theorem argString_takeWhile (delim : UInt8) (l : List UInt8) :
    (argString delim l).takeWhile (· == delim) = [] := by
  rw [List.takeWhile_eq_nil_iff]
  intro h
  exact List.dropWhile_get_zero_not (p := (· == delim)) _ h

/-- **The first part** of a split that starts with it is the string itself, ended early. -/
theorem splitString_name {n a : ℕ} {mem : Mem} {l : List UInt8} {delim : UInt8} (hdelim : delim ≠ 0)
    (h : Str 0 mem a l) (hn : l.length < n) (hl : l ≠ []) (hhead : l.takeWhile (· == delim) = []) :
    ∃ mem' args, splitString n mem a delim = some (mem', some a, args) ∧
      Str 0 mem' a (methodName delim l) ∧ Points mem' args (argString delim l) := by
  obtain ⟨c, l, rfl⟩ := List.exists_cons_of_ne_nil hl
  obtain ⟨n, rfl⟩ : ∃ k, n = k + 1 := ⟨n - 1, by simp at hn; omega⟩
  have hd : c ≠ delim := by
    rintro rfl
    simp at hhead
  obtain ⟨hc, ha, hstr⟩ := h
  obtain ⟨mem', args, hrun, hname, hargs, -, hoff⟩ :=
    splitLoop_method delim (some a) hstr (show l.length < n by simp at hn; omega)
  have hkernel : methodName delim (c :: l) = c :: l.takeWhile (· != delim) := by simp [methodName, hd]
  have hcmdline : argString delim (c :: l) = (l.dropWhile (· != delim)).dropWhile (· == delim) := by
    simp [argString, hd]
  rw [hkernel, hcmdline]
  refine ⟨mem', args, ?_, ⟨hc, ?_, hname⟩, hargs⟩
  · simp only [splitString, if_neg hdelim, splitLoop, ha, if_neg hc, if_neg hd, hrun]
  · rw [hoff a (Or.inl (Nat.lt_succ_self a)), ha]

/-- The split of an argument: the string at `args` is the name of the kernel behind it. -/
theorem splitArgs_spec {n : ℕ} {mem : Mem} {args : Option ℕ} {l : List UInt8} (h : Points mem args l)
    (hn : l.length < n) (hhead : l.takeWhile (· == 0x20) = []) :
    ∃ t, splitArgs n mem args = some t ∧ Points t.1 args (methodName 0x20 l) ∧
      Points t.1 t.2.1 (methodName 0x20 l) ∧ Points t.1 t.2.2 (argString 0x20 l) := by
  cases args with
  | none =>
    obtain rfl : l = [] := h
    exact ⟨_, rfl, rfl, rfl, rfl⟩
  | some p =>
    by_cases hl : l = []
    · subst hl
      obtain ⟨n, rfl⟩ : ∃ k, n = k + 1 := ⟨n - 1, by simp at hn; omega⟩
      have hp : mem p = 0 := h
      refine ⟨(mem, none, none), ?_, h, rfl, rfl⟩
      simp [splitArgs, splitString, splitLoop, hp]
    · obtain ⟨mem', cmdLine, hrun, hname, hargs⟩ := splitString_name (by decide) h hn hl hhead
      exact ⟨_, hrun, hname, hname, hargs⟩

/-! ## The load -/

section Load

variable {env : BootEnv σ} {args : List UInt8} {b b' : Boot σ}

/-- The command line that `finishMultiboot` leaves. -/
theorem finishMultiboot_cmdline {k : MbKernel σ} {l : Loading σ}
    (h : some (finishMultiboot env args k l) = some (0, b')) {info : MultibootInfo}
    (hl : l.boot.mbinfo = some info) : ∃ info, b'.mbinfo = some info ∧
      info.cmdline = some (args.takeWhile (· == 0x20) ++ methodName 0x20 args) := by
  have hb : b'.mbinfo = l.boot.mbinfo.map (setKernelInfo env
      (args.takeWhile (· == 0x20) ++ methodName 0x20 args) k.opened.device) := by
    rw [← (Prod.mk.inj (Option.some.inj h)).2]
    rfl
  rw [hl, Option.map_some] at hb
  exact ⟨_, hb, rfl⟩

/-- **A load that is not cut short** sets the command line. -/
theorem methodMultiboot_finish (h : methodMultiboot env args b = some (0, b'))
    (hload : NoneRefused env b (.multiboot args)) :
    ∃ info, b'.mbinfo = some info ∧
      info.cmdline = some (args.takeWhile (· == 0x20) ++ methodName 0x20 args) := by
  unfold methodMultiboot at h
  have hopen := openMultiboot_spec env args b
  cases hk : openMultiboot env args b with
  | error r =>
    simp only [hk] at h hopen
    exact absurd (congrArg Prod.fst (Option.some.inj h)) hopen
  | ok k =>
    simp only [hk] at h hopen
    obtain ⟨dev, hopen⟩ := hopen
    have hinfo : k.state.boot.mbinfo = some (newInfo env dev k.header) := congrArg Prod.fst hopen
    split_ifs at h with hflag hret
    · exact absurd (congrArg Prod.fst (Option.some.inj h)) hret
    · have haout : (loadAout k).2.boot.mbinfo = some (newInfo env dev k.header) :=
        (congrArg Prod.fst (loadAout_tables k)).trans hinfo
      exact finishMultiboot_cmdline h haout
    · obtain ⟨r, hr, hr'⟩ := Option.map_eq_some_iff.mp h
      have hcases := loadElf_cases hr
      rcases r with r | l
      · -- a segment has been refused
        subst hr'
        obtain ⟨-, hd, hhd, hrefused⟩ := hcases rfl
        have hloop : segmentLoop env b (.multiboot args) =
            some ⟨k.opened.fsRead, translateEntry, hd.phdrs, hd.state⟩ := by
          simp only [segmentLoop, hk, hhd, if_neg hflag]
        exact absurd hrefused (hload _ hloop)
      · obtain ⟨hd, shBuf, -, -, hkept⟩ := hcases
        have helf : l.boot.mbinfo = some (setElfSec hd.ehdr shBuf (newInfo env dev k.header)) := by
          rw [show l.boot.mbinfo = (k.state.boot.mbinfo).map _ from congrArg Prod.fst hkept, hinfo,
            Option.map_some]
        exact finishMultiboot_cmdline (congrArg some hr') helf

/-- Only the name of the kernel is opened. -/
theorem methodMultiboot_fopen (fopen' : List UInt8 → σ → Option (OpenFile σ) × σ)
    (h : fopen' (methodName 0x20 args) = env.fopen (methodName 0x20 args)) :
    methodMultiboot { env with fopen := fopen' } args b = methodMultiboot env args b := by
  have hopen : openMultiboot { env with fopen := fopen' } args b = openMultiboot env args b := by
    simp only [openMultiboot, h]
  unfold methodMultiboot
  rw [hopen]
  rfl

end Load

/-! ## The line -/

section Line

variable (env : BootEnv σ) (n : ℕ) (others : List (ConfigMethod (Option (Boot σ)))) (a : ℕ)

/-- The round of `config_parse` for a line at `a`, with a table that starts with `multiboot`. -/
def bootLine (w : Mem × Option (Boot σ)) : Option (ℤ × Mem × Option (Boot σ)) :=
  configLine n 0x20 (multibootMethod env n :: others) a w

/-- What is opened is `kernel` alone: no other file matters for the line. -/
def OpensAlone (kernel : List UInt8) (w : Mem × Option (Boot σ)) : Prop :=
  ∀ fopen' : List UInt8 → σ → Option (OpenFile σ) × σ, fopen' kernel = env.fopen kernel →
    bootLine { env with fopen := fopen' } n others a w = bootLine env n others a w

/-- The string at `mbinfo->cmdline` contains `cmdline` in full. -/
def PassesCmdline (cmdline : List UInt8) (mem : Mem) (b : Boot σ) : Prop :=
  ∃ info p s, b.mbinfo = some info ∧ info.cmdline = some s ∧ Points mem p s ∧ cmdline <:+: s

variable {env n others a}

/-- The entry of a `multiboot` line. -/
theorem configEntry_multiboot {line : List UInt8}
    (hname : strlwr (methodName 0x20 (stripped line)) = multibootName) :
    configEntry 0x20 (multibootMethod env n :: others) line =
      some (multibootMethod env n, argString 0x20 (stripped line)) := by
  have hne : methodName 0x20 (stripped line) ≠ [] := by
    intro hnil
    rw [hnil] at hname
    cases hname
  have hfirst : sameName (multibootMethod env n).name (methodName 0x20 (stripped line)) = true := by
    rw [sameName_eq, hname]
    exact beq_iff_eq.mpr (by decide : strlwr multibootName = multibootName)
  rw [configEntry, if_neg hne, List.find?_cons, hfirst, Option.map_some]

/-- A `multiboot` line leads to the method, on the argument, and ends the string at `args`. -/
theorem bootLine_multiboot (hlower : ∀ m ∈ others, strlwr m.name = m.name) {mem : Mem} {line : List UInt8}
    (h : Str 0 mem a line) (hn : line.length < n)
    (hname : strlwr (methodName 0x20 (stripped line)) = multibootName) (b : Boot σ) :
    ∃ args mem₁ mem₂, Points mem₂ args (lineKernel line) ∧ ∀ env : BootEnv σ,
      bootLine env n others a (mem, some b) =
        some (((methodMultiboot env (argString 0x20 (stripped line)) b).map
          fun r => (r.1, mem₂, some r.2)).getD (-1, mem₁, none)) := by
  obtain ⟨mem₁, args, -, hpoints, hwithin, hrun⟩ :=
    configLine_split (show (0x20 : UInt8) ≠ 0 by decide) h hn
  have hlen : (argString 0x20 (stripped line)).length < n := by
    cases args with
    | none =>
      rw [show argString 0x20 (stripped line) = [] from hpoints, List.length_nil]
      omega
    | some p =>
      have := hwithin p rfl
      omega
  obtain ⟨t, ht, hargs, -, -⟩ := splitArgs_spec hpoints hlen (argString_takeWhile _ _)
  refine ⟨args, mem₁, t.1, hargs, fun env => ?_⟩
  have hlow : ∀ m ∈ multibootMethod env n :: others, strlwr m.name = m.name := by
    intro m hm
    rcases List.mem_cons.mp hm with rfl | hm
    · exact (by decide : strlwr multibootName = multibootName)
    · exact hlower m hm
  rw [bootLine, hrun hlow, configEntry_multiboot hname]
  simp only [Option.elim_some, multibootMethod, Option.bind_some, stringAt_eq hpoints hlen, ht]

/-- What is passed on by a load that is not cut short. -/
theorem bootLine_cmdline (hlower : ∀ m ∈ others, strlwr m.name = m.name) {mem mem' : Mem}
    {line : List UInt8} (h : Str 0 mem a line) (hn : line.length < n)
    (hname : strlwr (methodName 0x20 (stripped line)) = multibootName) {b b' : Boot σ}
    (hrun : bootLine env n others a (mem, some b) = some (0, mem', some b'))
    (hload : NoneRefused env b (.multiboot (argString 0x20 (stripped line)))) :
    ∃ info p, b'.mbinfo = some info ∧ info.cmdline = some (lineKernel line) ∧
      Points mem' p (lineKernel line) := by
  obtain ⟨args, mem₁, mem₂, hargs, hline⟩ := bootLine_multiboot hlower h hn hname b
  have hmethod : methodMultiboot env (argString 0x20 (stripped line)) b = some (0, b') ∧ mem₂ = mem' := by
    rw [hline] at hrun
    cases hr : methodMultiboot env (argString 0x20 (stripped line)) b with
    | none =>
      rw [hr] at hrun
      cases hrun
    | some r =>
      rw [hr] at hrun
      simp only [Option.map_some, Option.getD_some, Option.some.injEq, Prod.mk.injEq] at hrun
      obtain ⟨h0, rfl, rfl⟩ := hrun
      exact ⟨by rw [← h0], rfl⟩
  obtain ⟨hmethod, rfl⟩ := hmethod
  obtain ⟨info, hinfo, hcmdline⟩ := methodMultiboot_finish hmethod hload
  rw [argString_takeWhile, List.nil_append] at hcmdline
  exact ⟨info, args, hinfo, hcmdline, hargs⟩

theorem passesCmdline_iff {cmdline s : List UInt8} {mem : Mem} {b : Boot σ} {info : MultibootInfo}
    {p : Option ℕ} (hinfo : b.mbinfo = some info) (hs : info.cmdline = some s) (hp : Points mem p s) :
    PassesCmdline cmdline mem b ↔ cmdline <:+: s := by
  constructor
  · rintro ⟨info', p', s', hinfo', hs', -, hin⟩
    obtain rfl := Option.some.inj (hinfo.symm.trans hinfo')
    obtain rfl := Option.some.inj (hs.symm.trans hs')
    exact hin
  · exact fun hin => ⟨info, p, s, hinfo, hs, hp, hin⟩

end Line

/-- **Command lines.** After a load that is not cut short, what was opened is the kernel alone and the
string at `mbinfo->cmdline` contains the command line of the configuration, if and only if that is
part of the name of the kernel. -/
theorem cmdline_iff (env : BootEnv σ) (n : ℕ) {others : List (ConfigMethod (Option (Boot σ)))}
    (hlower : ∀ m ∈ others, strlwr m.name = m.name) {a : ℕ} {mem mem' : Mem} {line : List UInt8}
    (h : Str 0 mem a line) (hn : line.length < n)
    (hname : strlwr (methodName 0x20 (stripped line)) = multibootName) {b b' : Boot σ}
    (hrun : bootLine env n others a (mem, some b) = some (0, mem', some b'))
    (hload : NoneRefused env b (.multiboot (argString 0x20 (stripped line)))) :
    OpensAlone env n others a (lineKernel line) (mem, some b) ∧ PassesCmdline (lineCmdline line) mem' b' ↔
      lineCmdline line <:+: lineKernel line := by
  obtain ⟨info, p, hinfo, hs, hp⟩ := bootLine_cmdline hlower h hn hname hrun hload
  rw [passesCmdline_iff hinfo hs hp, and_iff_right_iff_imp]
  intro _ fopen' hopen
  obtain ⟨args, mem₁, mem₂, -, hline⟩ := bootLine_multiboot hlower h hn hname b
  rw [hline, hline, methodMultiboot_fopen fopen' hopen]

/-! ## Examples -/

/-- A loader with an a.out kernel. -/
def lineEnv : BootEnv Unit := filesEnv fun _ => some aoutImage

/-- Free memory for it. -/
def lineBoot : Boot Unit := Boot.init (fun _ => 0) () ⟨[⟨0x100000, 0x1000⟩], [], 0x101000⟩

/-- `"multiboot k"`. -/
def kernelLine : List UInt8 := multibootName ++ [0x20, 0x6b]

/-- `"multiboot k x"`. -/
def cmdlineLine : List UInt8 := kernelLine ++ [0x20, 0x78]

/-- `"multiboot k k"`. -/
def againLine : List UInt8 := kernelLine ++ [0x20, 0x6b]

/-- The kernel is loaded with both lines. -/
theorem bootLine_loads {line : List UInt8} (h : line = againLine ∨ line = cmdlineLine) :
    Str 0 (patch (fun _ => 0) 0 line) 0 line ∧ strlwr (methodName 0x20 (stripped line)) = multibootName ∧
      (∃ mem' b', bootLine lineEnv 32 [] 0 (patch (fun _ => 0) 0 line, some lineBoot) =
        some (0, mem', some b')) ∧
      NoneRefused lineEnv lineBoot (.multiboot (argString 0x20 (stripped line))) := by
  have hstr : Str 0 (patch (fun _ => 0) 0 line) 0 line := by
    rw [str_iff]
    refine ⟨?_, slice_patch _ _ _, patch_apply_of_notMem _ _ _ (Or.inr (Nat.le_refl _))⟩
    rcases h with rfl | rfl <;> decide
  have hname : strlwr (methodName 0x20 (stripped line)) = multibootName := by
    rcases h with rfl | rfl <;> decide
  have hrun : (methodMultiboot lineEnv (argString 0x20 (stripped line)) lineBoot).map (·.1) = some 0 := by
    rcases h with rfl | rfl <;> decide +kernel
  have hn : line.length < 32 := by
    rcases h with rfl | rfl <;> decide
  have hload : segmentLoop lineEnv lineBoot (.multiboot (argString 0x20 (stripped line))) = none := by
    rw [← Option.isNone_iff_eq_none]
    rcases h with rfl | rfl <;> decide +kernel
  refine ⟨hstr, hname, ?_, fun s hs => ?_⟩
  · obtain ⟨args, mem₁, mem₂, -, hline⟩ := bootLine_multiboot (List.forall_mem_nil _) hstr hn hname lineBoot
    obtain ⟨⟨retno, b'⟩, hr, rfl⟩ := Option.map_eq_some_iff.mp hrun
    exact ⟨mem₂, b', by rw [hline, hr]; rfl⟩
  · rw [hload] at hs
    cases hs

/-- A command line that is in the name of the kernel. -/
theorem cmdline_iff_again :
    ∃ mem' b', bootLine lineEnv 32 [] 0 (patch (fun _ => 0) 0 againLine, some lineBoot) =
        some (0, mem', some b') ∧ lineCmdline againLine = [0x6b] ∧
      OpensAlone lineEnv 32 [] 0 (lineKernel againLine) (patch (fun _ => 0) 0 againLine, some lineBoot) ∧
      PassesCmdline (lineCmdline againLine) mem' b' := by
  obtain ⟨hstr, hname, ⟨mem', b', hrun⟩, hload⟩ := bootLine_loads (Or.inl rfl)
  exact ⟨mem', b', hrun, by decide,
    (cmdline_iff lineEnv 32 (List.forall_mem_nil _) hstr (by decide) hname hrun hload).mpr (by decide)⟩

/-- The command line `x` is not passed on. -/
theorem cmdline_broken :
    ∃ mem' b', bootLine lineEnv 32 [] 0 (patch (fun _ => 0) 0 cmdlineLine, some lineBoot) =
        some (0, mem', some b') ∧ lineCmdline cmdlineLine = [0x78] ∧
      ¬ PassesCmdline (lineCmdline cmdlineLine) mem' b' := by
  obtain ⟨hstr, hname, ⟨mem', b', hrun⟩, hload⟩ := bootLine_loads (Or.inr rfl)
  obtain ⟨info, p, hinfo, hs, hp⟩ := bootLine_cmdline (List.forall_mem_nil _) hstr (by decide) hname hrun hload
  refine ⟨mem', b', hrun, by decide, ?_⟩
  rw [passesCmdline_iff hinfo hs hp]
  decide

end RpiBoot
