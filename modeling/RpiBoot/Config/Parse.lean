import RpiBoot.Config.Scanners

/-!
# Configuration parsing

* `findMethod_eq`: the table is searched up to case.
* `configLine_split`, `configLine_spec`: a line leads to the call of its entry, or to none.
* `configParse_traced`: the list of the calls changes nothing else.
* **`config_parse_calls`**: the calls are those of the reference grammar.
-/

namespace RpiBoot

open Store

variable {τ : Type} {n fuel : ℕ} {delim : UInt8} {methods : List (ConfigMethod τ)}

theorem notMem_strlwr {s : List UInt8} (h : 0 ∉ s) : 0 ∉ strlwr s := by
  intro h₀
  obtain ⟨c, hc, hlow⟩ := List.mem_map.mp h₀
  exact tolower_ne_zero (fun hz => h (hz ▸ hc)) hlow

/-- Where the names are lower case, the table is searched up to case. -/
theorem findMethod_eq (hlower : ∀ m ∈ methods, strlwr m.name = m.name) {s : List UInt8} (hs : 0 ∉ s) :
    findMethod (strlwr s) methods = methods.find? fun m => sameName m.name s := by
  induction methods with
  | nil => rfl
  | cons m methods ih =>
    have ih := ih fun m' hm' => hlower m' (List.mem_cons_of_mem m hm')
    rw [findMethod, ih, List.find?_cons, sameName_eq, hlower m List.mem_cons_self]
    by_cases h : strlwr s = m.name
    · have hbeq : (m.name == strlwr s) = true := beq_iff_eq.mpr h.symm
      rw [if_pos ((strcmp_eq_zero (notMem_strlwr hs) m.clean).mpr h), hbeq]
    · have hbeq : (m.name == strlwr s) = false := beq_eq_false_iff_ne.mpr (Ne.symm h)
      rw [if_neg fun h₀ => h ((strcmp_eq_zero (notMem_strlwr hs) m.clean).mp h₀), hbeq]

/-- A line is split in the same way for all tables. -/
theorem configLine_split (hdelim : delim ≠ 0) {mem : Mem} {a : ℕ} {line : List UInt8} (h : Str 0 mem a line)
    (hn : line.length < n) :
    ∃ mem' args, AgreeOff mem mem' a (a + line.length) ∧
      Points mem' args (argString delim (stripped line)) ∧
      Within args (argString delim (stripped line)) a (a + line.length) ∧
      ∀ {τ : Type} {methods : List (ConfigMethod τ)}, (∀ m ∈ methods, strlwr m.name = m.name) → ∀ w : τ,
        configLine n delim methods a (mem, w) = some
          ((configEntry delim methods line).elim (0, mem', w) fun e => e.1.method args (mem', w)) := by
  obtain ⟨b, mem₁, hstrip, hstr₁, hb, hlen, hoff₁⟩ := stripComments_spec h hn
  obtain ⟨mem₂, method, args, hsplit, hmethod, hargs, hwithin, hoff₂⟩ :=
    splitString_spec hdelim hstr₁ (n := n) (by omega)
  have hname : (methodName delim (stripped line)).length < n := by
    have h₁ := (List.takeWhile_prefix (l := (stripped line).dropWhile (· == delim))
      (· != delim)).length_le
    have h₂ := (List.dropWhile_suffix (l := stripped line) (· == delim)).length_le
    unfold methodName
    omega
  have hclean : (0 : UInt8) ∉ methodName delim (stripped line) := by
    cases method with
    | none => rw [show methodName delim (stripped line) = [] from hmethod]; exact List.not_mem_nil
    | some p => exact Str.notMem (z := 0) hmethod
  have hempty : strcmp (methodName delim (stripped line)) [] = 0 ↔
      methodName delim (stripped line) = [] := strcmp_eq_zero hclean List.not_mem_nil
  refine ⟨mem₂, args, hoff₁.trans (hoff₂.mono hb hlen), hargs, fun p hp => ?_, fun {τ methods} hlower w => ?_⟩
  · have := hwithin p hp
    omega
  have hrun : configLine n delim methods a (mem, w) = some
      (if strcmp (methodName delim (stripped line)) [] = 0 then (0, mem₂, w)
      else (findMethod (strlwr (methodName delim (stripped line))) methods).elim (0, mem₂, w)
        fun m => m.method args (mem₂, w)) := by
    simp only [configLine, hstrip, Option.bind_some, hsplit, stringAt_eq hmethod hname,
      Option.map_some]
    cases findMethod (strlwr (methodName delim (stripped line))) methods <;> rfl
  rw [hrun, findMethod_eq hlower hclean]
  unfold configEntry
  by_cases hnil : methodName delim (stripped line) = []
  · rw [if_pos hnil, if_pos (hempty.mpr hnil)]
    rfl
  · rw [if_neg hnil, if_neg fun h₀ => hnil (hempty.mp h₀)]
    cases methods.find? fun m => sameName m.name (methodName delim (stripped line)) <;> rfl

/-- **One line.** -/
theorem configLine_spec (hdelim : delim ≠ 0) (hlower : ∀ m ∈ methods, strlwr m.name = m.name)
    {w : Mem × τ} {a : ℕ} {line : List UInt8} (h : Str 0 w.1 a line) (hn : line.length < n) :
    ∃ mem', AgreeOff w.1 mem' a (a + line.length) ∧
      match configEntry delim methods line with
      | none => configLine n delim methods a w = some (0, mem', w.2)
      | some (m, s) => ∃ args, Points mem' args s ∧ Within args s a (a + line.length) ∧
          configLine n delim methods a w = some (m.method args (mem', w.2)) := by
  obtain ⟨mem', args, hoff, hpoints, hwithin, hrun⟩ := configLine_split hdelim h hn
  have hrun := hrun hlower w.2
  refine ⟨mem', hoff, ?_⟩
  cases hentry : configEntry delim methods line with
  | none =>
    rw [hentry] at hrun
    exact hrun
  | some e =>
    obtain ⟨m, s⟩ := e
    rw [hentry] at hrun
    have hs : s = argString delim (stripped line) := by
      unfold configEntry at hentry
      split_ifs at hentry
      obtain ⟨m', -, heq⟩ := Option.map_eq_some_iff.mp hentry
      exact (congrArg Prod.snd heq).symm
    subst hs
    exact ⟨args, hpoints, hwithin, hrun⟩

/-! ## The calls -/

/-- Forget the list of the calls. -/
def forget (r : ℤ × Mem × τ × List (ConfigCall τ)) : ℤ × Mem × τ := (r.1, r.2.1, r.2.2.1)

theorem findMethod_traced (lwr : List UInt8) (methods : List (ConfigMethod τ)) :
    findMethod lwr (methods.map ConfigMethod.traced) =
      (findMethod lwr methods).map ConfigMethod.traced := by
  induction methods with
  | nil => rfl
  | cons m methods ih =>
    rw [List.map_cons, findMethod, findMethod, ih]
    by_cases h : strcmp lwr m.name = 0
    · rw [if_pos h, if_pos (show strcmp lwr m.traced.name = 0 from h)]
      rfl
    · rw [if_neg h, if_neg (show ¬ strcmp lwr m.traced.name = 0 from h)]

theorem configEntry_traced (line : List UInt8) :
    configEntry delim (methods.map ConfigMethod.traced) line =
      (configEntry delim methods line).map fun e => (e.1.traced, e.2) := by
  unfold configEntry
  split_ifs
  · rfl
  · rw [List.find?_map, Option.map_map, Option.map_map]
    rfl

theorem mem_of_configEntry {line s : List UInt8} {m : ConfigMethod τ}
    (h : configEntry delim methods line = some (m, s)) : m ∈ methods := by
  unfold configEntry at h
  split_ifs at h
  obtain ⟨m', hm', heq⟩ := Option.map_eq_some_iff.mp h
  obtain rfl : m' = m := congrArg Prod.fst heq
  exact List.mem_of_find?_eq_some hm'

/-- The entries of a line and of the rest. -/
theorem configEntries_eq {content line rest : List UInt8}
    (h : content.splitOn 0x0a = line :: rest.splitOn 0x0a ∨
      content.splitOn 0x0a = [line] ∧ rest = []) :
    configEntries delim methods content =
      (configEntry delim methods line).toList ++ configEntries delim methods rest := by
  have hcons : ∀ ls : List (List UInt8), (line :: ls).filterMap (configEntry delim methods) =
      (configEntry delim methods line).toList ++ ls.filterMap (configEntry delim methods) := by
    intro ls
    rw [List.filterMap_cons]
    cases configEntry delim methods line <;> rfl
  unfold configEntries
  rcases h with h | ⟨h, rfl⟩
  · rw [h, hcons]
  · rw [h, hcons]
    rfl

/-- A line with the list of the calls runs as without. -/
theorem configLine_traced (n : ℕ) (delim : UInt8) (methods : List (ConfigMethod τ)) (a : ℕ) (mem : Mem)
    (t : τ) (old : List (ConfigCall τ)) :
    (configLine n delim (methods.map ConfigMethod.traced) a (mem, t, old)).map forget =
      configLine n delim methods a (mem, t) := by
  unfold configLine
  cases stripComments n mem a with
  | none => rfl
  | some r =>
    dsimp only [Option.bind_some]
    cases splitString n r.2 r.1 delim with
    | none => rfl
    | some q =>
      dsimp only [Option.bind_some]
      cases stringAt n q.1 q.2.1 with
      | none => rfl
      | some method =>
        dsimp only [Option.map_some]
        rw [findMethod_traced]
        split_ifs
        · rfl
        · cases findMethod (strlwr method) methods <;> rfl

/-- **The list of the calls** changes nothing else. -/
theorem configParse_traced (n : ℕ) (delim : UInt8) (methods : List (ConfigMethod τ)) (fuel buf : ℕ)
    (mem : Mem) (t : τ) (old : List (ConfigCall τ)) :
    (configParse n delim (methods.map ConfigMethod.traced) fuel buf (mem, t, old)).map forget =
      configParse n delim methods fuel buf (mem, t) := by
  induction fuel generalizing buf mem t old with
  | zero => rfl
  | succ fuel ih =>
    unfold configParse
    cases readLine n mem buf with
    | none => rfl
    | some r =>
      obtain ⟨line, buf', mem'⟩ := r
      cases line with
      | none => rfl
      | some line =>
        have hline := configLine_traced n delim methods line mem' t old
        dsimp only [Option.bind_some]
        rw [← hline]
        cases configLine n delim (methods.map ConfigMethod.traced) line (mem', t, old) with
        | none => rfl
        | some q =>
          dsimp only [Option.bind_some, Option.map_some]
          by_cases hret : q.1 ≠ 0
          · rw [if_pos hret, if_pos (show (forget q).1 ≠ 0 from hret)]
            rfl
          · rw [if_neg hret, if_neg (show ¬ (forget q).1 ≠ 0 from hret)]
            exact ih buf' q.2.1 q.2.2.1 q.2.2.2

/-- The run, with the list of the calls before. -/
theorem configParse_executes (hdelim : delim ≠ 0)
    (hlower : ∀ m ∈ methods, strlwr m.name = m.name) (hframed : ∀ m ∈ methods, m.Framed)
    {buf : ℕ} {mem : Mem} {content : List UInt8} (h : Str 0 mem buf content)
    (hn : content.length < n) (hfuel : content.length < fuel) (t : τ) (old : List (ConfigCall τ)) :
    ∃ retno mem' t' calls,
      configParse n delim (methods.map ConfigMethod.traced) fuel buf (mem, t, old) =
        some (retno, mem', t', old ++ calls) ∧
      Executes calls (configEntries delim methods content) retno := by
  induction fuel generalizing buf mem content t old with
  | zero => exact absurd hfuel (Nat.not_lt_zero _)
  | succ fuel ih =>
    unfold configParse
    by_cases hnil : content = []
    · obtain rfl := hnil
      rw [readLine_nil h]
      exact ⟨0, mem, t, [], by rw [List.append_nil]; rfl, Executes.done⟩
    · obtain ⟨line, rest, b, mem₁, hread, hline, hrest, hb, hlen, hshort, hsplit⟩ :=
        readLine_spec h hnil hn
      have hlower' : ∀ m ∈ methods.map ConfigMethod.traced, strlwr m.name = m.name := by
        intro m hm
        obtain ⟨m', hm', rfl⟩ := List.mem_map.mp hm
        exact hlower m' hm'
      obtain ⟨mem₂, hoff, hcall⟩ := configLine_spec hdelim hlower' (w := (mem₁, t, old)) hline
        (n := n) (by omega)
      have hrest₂ : Str 0 mem₂ b rest := hrest.agreeOff hoff (Or.inr hb)
      rw [configEntry_traced] at hcall
      rw [hread, Option.bind_some, configEntries_eq hsplit]
      cases hentry : configEntry delim methods line with
      | none =>
        -- no call: on with the rest
        rw [hentry] at hcall
        obtain ⟨retno, mem', t', calls, hrun, hexec⟩ :=
          ih hrest₂ (by omega) (by omega) t old
        refine ⟨retno, mem', t', calls, ?_, hexec⟩
        rw [← hrun]
        dsimp only
        rw [show configLine n delim _ buf _ = _ from hcall, Option.bind_some, if_neg (by simp)]
      | some e =>
        obtain ⟨m, s⟩ := e
        rw [hentry] at hcall
        obtain ⟨args, hargs, hwithin, hcall⟩ := hcall
        have hm := mem_of_configEntry hentry
        have hof : ConfigCall.Of ⟨m, args, mem₂, (m.method args (mem₂, t)).1⟩ (m, s) := ⟨rfl, hargs⟩
        dsimp only
        rw [show configLine n delim _ buf _ = _ from hcall, Option.bind_some]
        by_cases hret : (m.method args (mem₂, t)).1 = 0
        · -- the method changes nothing of the rest
          have hrest₃ : Str 0 (m.method args (mem₂, t)).2.1 b rest := hrest₂.congr fun i hi _ =>
            hframed m hm args (mem₂, t) s hargs i fun p hp => by
              have : buf ≤ p ∧ p + s.length ≤ buf + line.length := hwithin p hp
              omega
          obtain ⟨retno, mem', t', calls, hrun, hexec⟩ := ih hrest₃ (by omega) (by omega)
            (m.method args (mem₂, t)).2.2 (old ++ [⟨m, args, mem₂, (m.method args (mem₂, t)).1⟩])
          refine ⟨retno, mem', t', _ :: calls, ?_, Executes.next hof hret hexec⟩
          rw [if_neg (show ¬ (m.traced.method args (mem₂, t, old)).1 ≠ 0 from not_not.mpr hret)]
          rw [List.append_assoc] at hrun
          exact hrun
        · rw [if_pos (show (m.traced.method args (mem₂, t, old)).1 ≠ 0 from hret)]
          exact ⟨_, _, _, [_], rfl, Executes.stop hof hret⟩

/-- **Configuration parsing.** Every buffer is parsed; the calls are those of the reference grammar, in
order, up to the first that fails, and what the last one returned is returned. -/
theorem config_parse_calls (hdelim : delim ≠ 0)
    (hlower : ∀ m ∈ methods, strlwr m.name = m.name) (hframed : ∀ m ∈ methods, m.Framed)
    {buf : ℕ} {mem : Mem} {content : List UInt8} (h : Str 0 mem buf content)
    (hn : content.length < n) (t : τ) :
    ∃ retno mem' t' calls,
      configParse n delim methods n buf (mem, t) = some (retno, mem', t') ∧
      configParse n delim (methods.map ConfigMethod.traced) n buf (mem, t, []) =
        some (retno, mem', t', calls) ∧
      Executes calls (configEntries delim methods content) retno := by
  obtain ⟨retno, mem', t', calls, hrun, hexec⟩ :=
    configParse_executes hdelim hlower hframed h hn hn t []
  have hplain := configParse_traced n delim methods n buf mem t []
  rw [hrun] at hplain
  exact ⟨retno, mem', t', calls, hplain.symm, hrun, hexec⟩

/-- A method that puts a mark at the first byte of its argument. -/
def markArgs : ConfigMethod Unit where
  name := [0x62, 0x6f, 0x6f, 0x74]
  clean := by decide
  method args w :=
    match args with
    | some p => if w.1 p = 0 then (1, w) else (0, Function.update w.1 p 0x21, ())
    | none => (1, w)

theorem markArgs_framed : markArgs.Framed := by
  intro args w s hs i hi
  cases args with
  | none => rfl
  | some p =>
    by_cases hp : w.1 p = 0
    · simp [markArgs, hp]
    · have hlen : 0 < s.length := by
        cases s with
        | nil => exact absurd hs hp
        | cons c s => exact Nat.succ_pos _
      have hne : i ≠ p := by
        have := hi p rfl
        omega
      simp [markArgs, hp, Function.update_of_ne hne]

/-- ` BOOT a#` and `boot`: the second call fails. -/
theorem config_parse_calls_boot : ∃ retno mem' t' calls,
    configParse 16 0x20 [markArgs] 16 0x100 (patch (fun _ => 0) 0x100
      [0x20, 0x42, 0x4f, 0x4f, 0x54, 0x20, 0x61, 0x23, 0x0a, 0x62, 0x6f, 0x6f, 0x74], ()) =
        some (retno, mem', t') ∧
    configParse 16 0x20 ([markArgs].map ConfigMethod.traced) 16 0x100 (patch (fun _ => 0) 0x100
      [0x20, 0x42, 0x4f, 0x4f, 0x54, 0x20, 0x61, 0x23, 0x0a, 0x62, 0x6f, 0x6f, 0x74], (), []) =
        some (retno, mem', t', calls) ∧
    Executes calls (configEntries 0x20 [markArgs]
      [0x20, 0x42, 0x4f, 0x4f, 0x54, 0x20, 0x61, 0x23, 0x0a, 0x62, 0x6f, 0x6f, 0x74]) retno := by
  refine config_parse_calls (by decide) (by simp; decide) ?_ ?_ (by decide) ()
  · rintro m hm
    rw [List.mem_singleton.mp hm]
    exact markArgs_framed
  · exact str_iff.mpr ⟨by decide, slice_patch .., rfl⟩

end RpiBoot
