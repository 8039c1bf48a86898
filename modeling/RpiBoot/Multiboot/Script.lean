import RpiBoot.Lib.Script
import RpiBoot.Multiboot.Cmdline

/-!
# Boot scripts (`multiboot.c`)

`multiboot_cfg_parse` performs the commands of a configuration while it cuts up the text in memory.

* `command`: the language of the commands. A kernel that has control keeps it.
* `ArgsUse`: what a method does to the string at its argument. `BootEntry`, `bootEntries`: the table
  `methods`. `multibootCfgParse`: the parser with this table.
* `bootScript`: the commands of a text.
* `configParse_exec`: a parser of which every line does what its command does performs the script.
* **`multibootCfgParse_exec`**: `multiboot_cfg_parse` performs the script of every text.
-/

namespace RpiBoot

open Store Script

variable {σ : Type}

/-! ## The language -/

/-- A command of a script. -/
def command (env : BootEnv σ) (b : Boot σ) (c : BootCommand) : Option (ℤ × Boot σ) :=
  if b.handoff.isSome then some (-1, b) else bootMethod env b c

theorem goesOn_command (env : BootEnv σ) : goesOn (command env) = bootStep env := by
  funext b c
  unfold goesOn command bootStep
  split_ifs with h
  · rfl
  · rfl

/-! ## The table -/

/-- What a method does to the string at its argument, which does not start with a space. It changes no
other byte. -/
structure ArgsUse where
  run : ℕ → Mem → Option ℕ → Option Mem
  framed : ∀ {n : ℕ} {mem : Mem} {args : Option ℕ} {s : List UInt8}, Points mem args s → s.length < n →
    s.takeWhile (· == 0x20) = [] → ∃ mem', run n mem args = some mem' ∧
      ∀ i, (∀ p ∈ args, i < p ∨ p + s.length ≤ i) → mem' i = mem i

/-- The string is only read. -/
def ArgsUse.keep : ArgsUse where
  run _ mem _ := some mem
  framed _ _ _ := ⟨_, rfl, fun _ _ => rfl⟩

/-- The split of an argument changes nothing else; its first part starts where the argument does. -/
theorem splitArgs_framed {n : ℕ} {mem : Mem} {args : Option ℕ} {s : List UInt8} (h : Points mem args s)
    (hn : s.length < n) (hhead : s.takeWhile (· == 0x20) = []) :
    ∃ t, splitArgs n mem args = some t ∧ Points t.1 t.2.1 (methodName 0x20 s) ∧ (∀ q ∈ t.2.1, q ∈ args) ∧
      ∀ i, (∀ p ∈ args, i < p ∨ p + s.length ≤ i) → t.1 i = mem i := by
  cases args with
  | none =>
    obtain rfl : s = [] := h
    exact ⟨_, rfl, rfl, fun q hq => hq, fun _ _ => rfl⟩
  | some p =>
    obtain ⟨mem', method, args, hrun, hmethod, -, -, hoff⟩ :=
      splitString_spec (show (0x20 : UInt8) ≠ 0 by decide) h hn
    have hstart : ∀ q ∈ method, q ∈ some p := by
      by_cases hs : s = []
      · subst hs
        obtain ⟨n, rfl⟩ : ∃ k, n = k + 1 := ⟨n - 1, by simp at hn; omega⟩
        have hp : mem p = 0 := h
        have hnone : splitString (n + 1) mem p 0x20 = some (mem, none, none) := by
          simp [splitString, splitLoop, hp]
        obtain ⟨rfl, rfl, rfl⟩ : mem' = mem ∧ method = none ∧ args = none := by
          rw [hrun] at hnone
          cases hnone
          exact ⟨rfl, rfl, rfl⟩
        exact fun q hq => absurd hq (Option.not_mem_none q)
      · obtain ⟨mem'', args', hname, -, -⟩ := splitString_name (by decide) h hn hs hhead
        obtain rfl : method = some p := by
          rw [hrun] at hname
          cases hname
          rfl
        exact fun q hq => hq
    exact ⟨_, hrun, hmethod, hstart, fun i hi => hoff i (hi p rfl)⟩

/-- The string is split. -/
def ArgsUse.split : ArgsUse where
  run n mem args := (splitArgs n mem args).map (·.1)
  framed h hn hhead := by
    obtain ⟨t, ht, -, -, hoff⟩ := splitArgs_framed h hn hhead
    exact ⟨t.1, by rw [ht, Option.map_some], hoff⟩

/-- A name that ends in `+` is cut there. -/
def cutPlus (n : ℕ) (mem : Mem) : Option ℕ → Option Mem
  | none => some mem
  | some p => (stringAt n mem (some p)).map fun name =>
    if name.getLast? = some 0x2b then Function.update mem (p + name.length - 1) 0 else mem

/-- The string is split, and the `+` behind its first part is cut off. -/
def ArgsUse.log : ArgsUse where
  run n mem args := (splitArgs n mem args).bind fun t => cutPlus n t.1 t.2.1
  framed {n mem args s} h hn hhead := by
    obtain ⟨⟨mem', method, rest⟩, ht, hmethod, hstart, hoff⟩ := splitArgs_framed h hn hhead
    rw [ht, Option.bind_some]
    have hle : (methodName 0x20 s).length ≤ s.length :=
      (List.takeWhile_prefix _).length_le.trans (List.dropWhile_suffix _).length_le
    cases method with
    | none => exact ⟨mem', rfl, hoff⟩
    | some p =>
      obtain rfl : some p = args := (hstart p rfl).symm
      have hname : stringAt n mem' (some p) = some (methodName 0x20 s) := stringAt_eq hmethod (by omega)
      refine ⟨_, by rw [cutPlus, hname, Option.map_some], fun i hi => ?_⟩
      split_ifs with hplus
      · have hpos : 0 < (methodName 0x20 s).length := by
          cases hnil : methodName 0x20 s with
          | nil =>
            rw [hnil] at hplus
            cases hplus
          | cons => exact Nat.succ_pos _
        have := hi p rfl
        rw [Function.update_of_ne (by omega), hoff i hi]
      · exact hoff i hi

/-- An entry of `methods`. -/
structure BootEntry where
  name : List UInt8
  clean : 0 ∉ name
  use : ArgsUse
  command : List UInt8 → BootCommand

/-- `"boot"`, `"module"`, `"kernel"`, `"entry_addr"`, `"binary_load_addr"` and `"console_log"`. -/
def bootCommandName : List UInt8 := [0x62, 0x6f, 0x6f, 0x74]
def moduleCommandName : List UInt8 := [0x6d, 0x6f, 0x64, 0x75, 0x6c, 0x65]
def kernelCommandName : List UInt8 := [0x6b, 0x65, 0x72, 0x6e, 0x65, 0x6c]
def entryAddrName : List UInt8 := [0x65, 0x6e, 0x74, 0x72, 0x79, 0x5f, 0x61, 0x64, 0x64, 0x72]
def binaryLoadAddrName : List UInt8 :=
  [0x62, 0x69, 0x6e, 0x61, 0x72, 0x79, 0x5f, 0x6c, 0x6f, 0x61, 0x64, 0x5f, 0x61, 0x64, 0x64, 0x72]
def consoleLogName : List UInt8 := [0x63, 0x6f, 0x6e, 0x73, 0x6f, 0x6c, 0x65, 0x5f, 0x6c, 0x6f, 0x67]

theorem bootCommandName_clean : 0 ∉ bootCommandName := by decide
theorem moduleCommandName_clean : 0 ∉ moduleCommandName := by decide
theorem kernelCommandName_clean : 0 ∉ kernelCommandName := by decide
theorem entryAddrName_clean : 0 ∉ entryAddrName := by decide
theorem binaryLoadAddrName_clean : 0 ∉ binaryLoadAddrName := by decide
theorem consoleLogName_clean : 0 ∉ consoleLogName := by decide

/-- The table `methods`. -/
def bootEntries : List BootEntry := [
  ⟨multibootName, multibootName_clean, .split, .multiboot⟩,
  ⟨bootCommandName, bootCommandName_clean, .keep, .boot⟩,
  ⟨moduleCommandName, moduleCommandName_clean, .split, .module⟩,
  ⟨kernelCommandName, kernelCommandName_clean, .split, .kernel⟩,
  ⟨entryAddrName, entryAddrName_clean, .keep, .entryAddr⟩,
  ⟨binaryLoadAddrName, binaryLoadAddrName_clean, .keep, .binaryLoadAddr⟩,
  ⟨consoleLogName, consoleLogName_clean, .log, .consoleLog⟩]

theorem bootEntries_lower : ∀ e ∈ bootEntries, strlwr e.name = e.name := by decide

/-- What is left of the state: none behind a command that never returns. -/
def outcome {S : Type} (mem : Mem) : Option (ℤ × S) → ℤ × Mem × Option S
  | some r => (r.1, mem, some r.2)
  | none => (-1, mem, none)

theorem outcome_inj {S : Type} {mem mem' : Mem} {r r' : Option (ℤ × S)}
    (h : outcome mem r = outcome mem' r') : r = r' := by
  have hstate := congrArg (fun w => w.2.2) h
  have hret := congrArg Prod.fst h
  cases r with
  | none =>
    cases r' with
    | none => rfl
    | some r' => exact nomatch hstate
  | some r =>
    cases r' with
    | none => exact nomatch hstate
    | some r' => exact congrArg some (Prod.ext hret (Option.some.inj hstate))

/-- The method of an entry, on memory that holds the configuration and the state of the loader. -/
def BootEntry.method (env : BootEnv σ) (n : ℕ) (e : BootEntry) : ConfigMethod (Option (Boot σ)) where
  name := e.name
  clean := e.clean
  method args w :=
    match stringAt n w.1 args, e.use.run n w.1 args with
    | some s, some mem => outcome mem (w.2.bind fun b => RpiBoot.command env b (e.command s))
    | _, _ => outcome w.1 none

/-- `multiboot_cfg_parse(buf)`. -/
def multibootCfgParse (env : BootEnv σ) (n buf : ℕ) (w : Mem × Option (Boot σ)) :
    Option (ℤ × Mem × Option (Boot σ)) :=
  configParse n 0x20 (bootEntries.map (BootEntry.method env n)) n buf w

/-! ## The script of a text -/

/-- The command of a line. -/
def lineCommand (line : List UInt8) : Option BootCommand :=
  if methodName 0x20 (stripped line) = [] then none
  else (bootEntries.find? fun e => sameName e.name (methodName 0x20 (stripped line))).map fun e =>
    e.command (argString 0x20 (stripped line))

def bootScript (content : List UInt8) : List BootCommand := (content.splitOn 0x0a).filterMap lineCommand

section Parser

variable {S ω : Type} {cmd : S → ω → Option (ℤ × S)} {lineOf : List UInt8 → Option ω} {n : ℕ} {delim : UInt8}
  {methods : List (ConfigMethod (Option S))}

/-- **A parser performs the script** when a line of it does what the command of the line does. -/
theorem configParse_exec (hnil : lineOf [] = none)
    (hline : ∀ {mem : Mem} {a : ℕ} {line : List UInt8} (s : S), Str 0 mem a line → line.length < n →
      ∃ mem', AgreeOff mem mem' a (a + line.length) ∧ configLine n delim methods a (mem, some s) =
        some (outcome mem' ((lineOf line).elim (some (0, s)) (cmd s))))
    {fuel buf : ℕ} {mem : Mem} {content : List UInt8} (h : Str 0 mem buf content) (hn : content.length < n)
    (hfuel : content.length < fuel) (s : S) :
    ∃ mem', configParse n delim methods fuel buf (mem, some s) =
      some (outcome mem' (exec cmd s ((content.splitOn 0x0a).filterMap lineOf))) := by
  induction fuel generalizing buf mem content s with
  | zero => exact absurd hfuel (Nat.not_lt_zero _)
  | succ fuel ih =>
    have hempty : (([] : List UInt8).splitOn 0x0a).filterMap lineOf = [] := by
      rw [show ([] : List UInt8).splitOn 0x0a = [[]] from rfl, List.filterMap_cons, hnil, List.filterMap_nil]
    unfold configParse
    by_cases hc : content = []
    · subst hc
      rw [readLine_nil h, hempty]
      exact ⟨mem, rfl⟩
    obtain ⟨line, rest, b, mem₁, hread, hstr, hrest, hb, hlen, hshort, hsplit⟩ := readLine_spec h hc hn
    have hscript : (content.splitOn 0x0a).filterMap lineOf =
        (lineOf line).toList ++ (rest.splitOn 0x0a).filterMap lineOf := by
      rcases hsplit with hs | ⟨hs, rfl⟩
      · rw [hs, List.filterMap_cons]
        cases lineOf line <;> rfl
      · rw [hs, hempty, List.filterMap_cons]
        cases lineOf line <;> rfl
    obtain ⟨mem₂, hoff, hrun⟩ := hline s hstr (by omega)
    have hrest₂ : Str 0 mem₂ b rest := hrest.agreeOff hoff (Or.inr hb)
    rw [hread, Option.bind_some, hscript]
    dsimp only
    rw [hrun, Option.bind_some]
    cases lineOf line with
    | none =>
      -- a line that is skipped
      obtain ⟨mem', hmem'⟩ := ih hrest₂ (by omega) (by omega) s
      exact ⟨mem', hmem'⟩
    | some o =>
      rw [Option.elim_some, Option.toList_some, List.singleton_append, exec]
      cases hcmd : cmd s o with
      | none => exact ⟨mem₂, rfl⟩
      | some r =>
        rw [Option.bind_some]
        by_cases h0 : r.1 = 0
        · obtain ⟨mem', hmem'⟩ := ih hrest₂ (by omega) (by omega) r.2
          have hgo : ¬ (outcome mem₂ (some r)).1 ≠ 0 := not_not.mpr h0
          exact ⟨mem', by rw [if_pos h0, ← hmem', if_neg hgo]; rfl⟩
        · exact ⟨mem₂, by rw [if_neg h0, if_pos (show (outcome mem₂ (some r)).1 ≠ 0 from h0)]⟩

end Parser

variable {env : BootEnv σ} {n : ℕ}

/-- The entry of a line in the table is that of its command. -/
theorem configEntry_bootEntries (env : BootEnv σ) (n : ℕ) (line : List UInt8) :
    configEntry 0x20 (bootEntries.map (BootEntry.method env n)) line =
      (if methodName 0x20 (stripped line) = [] then none
        else bootEntries.find? fun e => sameName e.name (methodName 0x20 (stripped line))).map fun e =>
          (e.method env n, argString 0x20 (stripped line)) := by
  unfold configEntry
  split_ifs
  · rfl
  · rw [List.find?_map, Option.map_map]
    rfl

/-- A line does what its command does. -/
theorem configLine_bootEntries {mem : Mem} {a : ℕ} {line : List UInt8} (b : Boot σ) (h : Str 0 mem a line)
    (hn : line.length < n) : ∃ mem', AgreeOff mem mem' a (a + line.length) ∧
      configLine n 0x20 (bootEntries.map (BootEntry.method env n)) a (mem, some b) =
        some (outcome mem' ((lineCommand line).elim (some (0, b)) (command env b))) := by
  have hlower : ∀ m ∈ bootEntries.map (BootEntry.method env n), strlwr m.name = m.name := by
    intro m hm
    obtain ⟨e, he, rfl⟩ := List.mem_map.mp hm
    exact bootEntries_lower e he
  obtain ⟨mem₁, args, hoff, hpoints, hwithin, hrun⟩ :=
    configLine_split (show (0x20 : UInt8) ≠ 0 by decide) h hn
  rw [hrun hlower, configEntry_bootEntries, lineCommand]
  have hargs : (argString 0x20 (stripped line)).length < n := by
    cases args with
    | none =>
      rw [show argString 0x20 (stripped line) = [] from hpoints, List.length_nil]
      omega
    | some p =>
      have := hwithin p rfl
      omega
  split_ifs with hname
  · exact ⟨mem₁, hoff, rfl⟩
  · cases bootEntries.find? fun e => sameName e.name (methodName 0x20 (stripped line)) with
    | none => exact ⟨mem₁, hoff, rfl⟩
    | some e =>
      obtain ⟨mem₂, huse, hframe⟩ := e.use.framed hpoints hargs (argString_takeWhile _ _)
      refine ⟨mem₂, fun i hi => ?_, ?_⟩
      · rw [hframe i fun p hp => ?_, hoff i hi]
        have := hwithin p hp
        omega
      · simp only [Option.map_some, Option.elim_some, BootEntry.method, stringAt_eq hpoints hargs, huse,
          Option.bind_some]

/-- **`multiboot_cfg_parse` performs the script** of the text in the buffer. -/
theorem multibootCfgParse_exec (env : BootEnv σ) {mem : Mem} {buf : ℕ} {content : List UInt8}
    (h : Str 0 mem buf content) (hn : content.length < n) (b : Boot σ) :
    ∃ mem', multibootCfgParse env n buf (mem, some b) =
      some (outcome mem' (exec (command env) b (bootScript content))) :=
  configParse_exec rfl (fun b h hn => configLine_bootEntries b h hn) h hn hn b

end RpiBoot
