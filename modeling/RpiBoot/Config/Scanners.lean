import RpiBoot.Config.Model

/-!
# The scanners of the configuration parser

Each of the three scanners, on a string in memory: what it finds, that it only writes to the cells of
the string, and that what it finds is ended.

* `readLine_spec`: a line, and the rest behind it.
* `stripComments_spec`: what `stripped` leaves of a line.
* **`splitString_spec`**: `methodName` and `argString`.
-/

namespace RpiBoot

open Store

variable {n fuel : ℕ} {mem : Mem} {a : ℕ} {l : List UInt8} {delim : UInt8}

/-! ## Lines -/

theorem readLine_nil (h : Str 0 mem a []) : readLine n mem a = some (none, a, mem) := if_pos h

/-- Where a line is read, it is ended; the rest lies behind it. -/
theorem readLine_spec (h : Str 0 mem a l) (hne : l ≠ []) (hn : l.length < n) :
    ∃ line rest b mem', readLine n mem a = some (some a, b, mem') ∧
      Str 0 mem' a line ∧ Str 0 mem' b rest ∧ a + line.length ≤ b ∧ line.length ≤ l.length ∧
      rest.length < l.length ∧
      (l.splitOn 0x0a = line :: rest.splitOn 0x0a ∨ l.splitOn 0x0a = [line] ∧ rest = []) := by
  have hfirst : mem a ≠ 0 := by
    cases l with
    | nil => exact absurd rfl hne
    | cons c l => exact h.2.1 ▸ h.1
  have hskip : ∀ line : List UInt8, 0 ∉ line → 0x0a ∉ line →
      ∀ c ∈ line, (!(c == 0 || c == 0x0a)) = true := by
    intro line h₀ h₁ c hc
    have hc₀ : c ≠ 0 := fun h => h₀ (h ▸ hc)
    have hc₁ : c ≠ 0x0a := fun h => h₁ (h ▸ hc)
    simp [hc₀, hc₁]
  have hscan := scan_str (p := fun c => c == 0 || c == 0x0a) h rfl hn
  unfold readLine
  rw [if_neg hfirst, hscan, Option.map_some]
  by_cases hnl : (0x0a : UInt8) ∈ l
  · -- a line break: the line is cut there
    obtain ⟨line, rest, rfl, hline⟩ := List.eq_append_cons_of_mem hnl
    obtain ⟨hz, -, hbreak⟩ := str_append.mp h
    have htake : (line ++ 0x0a :: rest).takeWhile (fun c => !(c == 0 || c == 0x0a)) = line := by
      rw [List.takeWhile_append_of_pos (hskip line hz hline)]
      simp
    have hstop : mem (a + line.length) ≠ 0 := hbreak.2.1 ▸ hbreak.1
    rw [htake, if_neg hstop]
    refine ⟨line, rest, _, _, rfl, h.cut, ?_, by omega, by simp, by simp; omega,
      Or.inl (List.splitOn_append_cons_self_of_not_mem hline rest)⟩
    exact hbreak.2.2.agreeOff (agreeOff_update (Nat.le_refl _) (Nat.lt_succ_self _)) (by omega)
  · -- the last line
    have htake : l.takeWhile (fun c => !(c == 0 || c == 0x0a)) = l :=
      List.takeWhile_eq_self_iff.mpr (hskip l h.notMem hnl)
    rw [htake, if_pos h.stop]
    exact ⟨l, [], _, mem, rfl, h, h.stop, Nat.le_refl _, Nat.le_refl _,
      List.length_pos_iff.mpr hne, Or.inr ⟨List.splitOn_eq_singleton hnl, rfl⟩⟩

/-! ## Stripping -/

/-- What stands before a comment. -/
theorem cutComment_spec (h : Str 0 mem a l) (hn : l.length < fuel) :
    ∃ mem', cutComment fuel mem a = some (mem', a + (l.takeWhile (· != 0x23)).length) ∧
      Str 0 mem' a (l.takeWhile (· != 0x23)) ∧ AgreeOff mem mem' a (a + l.length) := by
  induction l generalizing a fuel with
  | nil =>
    obtain ⟨fuel, rfl⟩ : ∃ k, fuel = k + 1 := ⟨fuel - 1, by simp at hn; omega⟩
    exact ⟨mem, if_pos h, h, AgreeOff.refl⟩
  | cons c l ih =>
    obtain ⟨fuel, rfl⟩ : ∃ k, fuel = k + 2 := ⟨fuel - 2, by simp at hn; omega⟩
    obtain ⟨hc, ha, hl⟩ := h
    rw [cutComment, ha, if_neg hc]
    by_cases hhash : c = 0x23
    · have hzero : Function.update mem a 0 a = 0 := Function.update_self ..
      rw [if_pos hhash, cutComment, if_pos hzero]
      have htake : (c :: l).takeWhile (· != 0x23) = [] := by simp [hhash]
      rw [htake]
      exact ⟨_, rfl, hzero, agreeOff_update (Nat.le_refl _) (by simp)⟩
    · obtain ⟨mem', hcut, hstr, hoff⟩ := ih hl (show l.length < fuel + 1 by simp at hn; omega)
      have htake : (c :: l).takeWhile (· != 0x23) = c :: l.takeWhile (· != 0x23) := by simp [hhash]
      rw [if_neg hhash, hcut, htake, List.length_cons, List.length_cons]
      refine ⟨mem', by congr 2; omega, ⟨hc, ?_, hstr⟩, hoff.mono (by omega) (by omega)⟩
      rw [hoff a (Or.inl (Nat.lt_succ_self a)), ha]

theorem trimTrailing_of_le {s : ℕ} (h : s ≤ a) : trimTrailing a mem s = mem := by
  cases s with
  | zero => rfl
  | succ s => exact if_neg fun h' => by omega

/-- Trailing white space goes, up to the first character, which is none. -/
theorem trimTrailing_spec (h : Str 0 mem a l) (hfirst : ∀ c ∈ l.head?, isspace c = false) :
    Str 0 (trimTrailing a mem (a + l.length - 1)) a (l.rdropWhile isspace) ∧
      AgreeOff mem (trimTrailing a mem (a + l.length - 1)) a (a + l.length) := by
  induction l using List.reverseRecOn generalizing mem with
  | nil =>
    rw [trimTrailing_of_le (by simp)]
    exact ⟨h, AgreeOff.refl⟩
  | append_singleton l c ih =>
    have hlast : a + (l ++ [c]).length - 1 = a + l.length := by simp
    have hc : mem (a + l.length) = c := ((str_append.mp h).2.2).2.1
    rw [hlast]
    by_cases hl : l = []
    · -- the first character is no white space
      have hspace : isspace c = false := hfirst c (by simp [hl])
      rw [trimTrailing_of_le (by simp [hl]), List.rdropWhile_concat_neg _ _ _ (by simp [hspace])]
      exact ⟨h, AgreeOff.refl⟩
    · have hpos : 0 < l.length := List.length_pos_iff.mpr hl
      obtain ⟨k, hk⟩ : ∃ k, a + l.length = k + 1 := ⟨a + l.length - 1, by omega⟩
      by_cases hspace : isspace c = true
      · have hstep : trimTrailing a mem (a + l.length) =
            trimTrailing a (Function.update mem (a + l.length) 0) (a + l.length - 1) := by
          rw [hk] at hc ⊢
          exact if_pos ⟨by omega, hc ▸ hspace⟩
        obtain ⟨hstr, hoff⟩ := ih h.cut fun d hd => hfirst d (by
          rw [List.head?_append_of_ne_nil _ hl]
          exact hd)
        rw [hstep, List.rdropWhile_concat_pos _ _ _ hspace]
        have hput : AgreeOff mem (Function.update mem (a + l.length) 0) a (a + (l ++ [c]).length) :=
          agreeOff_update (by omega) (by simp)
        exact ⟨hstr, hput.trans (hoff.mono (Nat.le_refl _) (by simp))⟩
      · have hstop : trimTrailing a mem (a + l.length) = mem := by
          rw [hk] at hc ⊢
          exact if_neg fun h' => hspace (hc ▸ h'.2)
        rw [hstop, List.rdropWhile_concat_neg _ _ _ hspace]
        exact ⟨h, AgreeOff.refl⟩

/-- **A stripped line** is a string within the line. -/
theorem stripComments_spec (h : Str 0 mem a l) (hn : l.length < n) :
    ∃ b mem', stripComments n mem a = some (b, mem') ∧ Str 0 mem' b (stripped l) ∧
      a ≤ b ∧ b + (stripped l).length ≤ a + l.length ∧ AgreeOff mem mem' a (a + l.length) := by
  rw [stripped_eq]
  have hscan := scan_str (p := fun c => !isspace c) h rfl hn
  simp only [Bool.not_not] at hscan
  have hsplit : l.takeWhile isspace ++ l.dropWhile isspace = l := List.takeWhile_append_dropWhile
  have hlen := congrArg List.length hsplit
  rw [List.length_append] at hlen
  have hrest : Str 0 mem (a + (l.takeWhile isspace).length) (l.dropWhile isspace) := by
    rw [← hsplit] at h
    exact (str_append.mp h).2.2
  obtain ⟨mem₁, hcut, hstr₁, hoff₁⟩ := cutComment_spec hrest
    (show (l.dropWhile isspace).length < n by omega)
  have hle₁ : ((l.dropWhile isspace).takeWhile (· != 0x23)).length ≤ (l.dropWhile isspace).length :=
    (List.takeWhile_prefix _).length_le
  have hfirst : ∀ c ∈ ((l.dropWhile isspace).takeWhile (· != 0x23)).head?, isspace c = false := by
    intro c hc
    rw [Option.mem_def, List.head?_takeWhile] at hc
    obtain ⟨hc, -⟩ := Option.filter_eq_some_iff.mp hc
    have := List.head?_dropWhile_not isspace l
    rw [hc] at this
    simpa using this
  obtain ⟨hstr₂, hoff₂⟩ := trimTrailing_spec hstr₁ hfirst
  have hle₂ := (List.rdropWhile_prefix isspace ((l.dropWhile isspace).takeWhile (· != 0x23))).length_le
  refine ⟨_, _, ?_, hstr₂, Nat.le_add_right _ _, ?_, ?_⟩
  · rw [stripComments, hscan, Option.bind_some, hcut, Option.map_some]
  · omega
  · exact (hoff₁.mono (by omega) (by omega)).trans (hoff₂.mono (by omega) (by omega))

/-! ## Splitting -/

/-- Where an argument of a line is: in the cells `[a, b)`. -/
def Within (args : Option ℕ) (s : List UInt8) (a b : ℕ) : Prop := ∀ p ∈ args, a ≤ p ∧ p + s.length ≤ b

theorem within_none {s : List UInt8} {b : ℕ} : Within none s a b := fun _ h => nomatch h

/-- Behind the method: the argument starts at the first character that is no delimiter. -/
theorem splitLoop_behind (delim : UInt8) (method : Option ℕ) (h : Str 0 mem a l) (hn : l.length < fuel) :
    ∃ args, splitLoop delim fuel mem a .behind method none = some (mem, method, args) ∧
      Points mem args (l.dropWhile (· == delim)) ∧
      Within args (l.dropWhile (· == delim)) a (a + l.length) := by
  induction l generalizing a fuel with
  | nil =>
    obtain ⟨fuel, rfl⟩ : ∃ k, fuel = k + 1 := ⟨fuel - 1, by simp at hn; omega⟩
    exact ⟨none, if_pos h, rfl, within_none⟩
  | cons c l ih =>
    obtain ⟨fuel, rfl⟩ : ∃ k, fuel = k + 1 := ⟨fuel - 1, by simp at hn; omega⟩
    have hstr := h
    obtain ⟨hc, ha, hl⟩ := h
    rw [splitLoop, ha, if_neg hc]
    by_cases hd : c = delim
    · obtain ⟨args, hrun, hpoints, hwithin⟩ := ih hl (show l.length < fuel by simp at hn; omega)
      have hdrop : (c :: l).dropWhile (· == delim) = l.dropWhile (· == delim) := by simp [hd]
      rw [if_pos hd, if_neg (by decide), hdrop]
      refine ⟨args, hrun, hpoints, fun p hp => ?_⟩
      have := hwithin p hp
      rw [List.length_cons]
      omega
    · have hdrop : (c :: l).dropWhile (· == delim) = c :: l := by simp [hd]
      rw [if_neg hd, hdrop]
      refine ⟨some a, rfl, hstr, fun p hp => ?_⟩
      obtain rfl : a = p := Option.some.inj hp
      exact ⟨Nat.le_refl _, Nat.le_refl _⟩

/-- In the method: it is ended at the first delimiter. -/
theorem splitLoop_method (delim : UInt8) (method : Option ℕ) (h : Str 0 mem a l) (hn : l.length < fuel) :
    ∃ mem' args, splitLoop delim fuel mem a .method method none = some (mem', method, args) ∧
      Str 0 mem' a (l.takeWhile (· != delim)) ∧
      Points mem' args ((l.dropWhile (· != delim)).dropWhile (· == delim)) ∧
      Within args ((l.dropWhile (· != delim)).dropWhile (· == delim)) a (a + l.length) ∧
      AgreeOff mem mem' a (a + l.length) := by
  induction l generalizing a fuel with
  | nil =>
    obtain ⟨fuel, rfl⟩ : ∃ k, fuel = k + 1 := ⟨fuel - 1, by simp at hn; omega⟩
    exact ⟨mem, none, if_pos h, h, rfl, within_none, AgreeOff.refl⟩
  | cons c l ih =>
    obtain ⟨fuel, rfl⟩ : ∃ k, fuel = k + 1 := ⟨fuel - 1, by simp at hn; omega⟩
    obtain ⟨hc, ha, hl⟩ := h
    rw [splitLoop, ha, if_neg hc]
    by_cases hd : c = delim
    · -- the delimiter gives way to the end mark
      have hput : AgreeOff mem (Function.update mem a 0) a (a + 1) :=
        agreeOff_update (Nat.le_refl _) (Nat.lt_succ_self _)
      obtain ⟨args, hrun, hpoints, hwithin⟩ := splitLoop_behind delim method
        (hl.agreeOff hput (Or.inr (Nat.le_refl _))) (show l.length < fuel by simp at hn; omega)
      have htake : (c :: l).takeWhile (· != delim) = [] := by simp [hd]
      have hdrop : ((c :: l).dropWhile (· != delim)).dropWhile (· == delim) =
          l.dropWhile (· == delim) := by simp [hd]
      rw [if_pos hd, if_pos rfl, htake, hdrop, List.length_cons]
      refine ⟨_, args, hrun, Function.update_self .., hpoints, fun p hp => ?_,
        hput.mono (Nat.le_refl _) (by omega)⟩
      have := hwithin p hp
      omega
    · obtain ⟨mem', args, hrun, hstr, hpoints, hwithin, hoff⟩ :=
        ih hl (show l.length < fuel by simp at hn; omega)
      have htake : (c :: l).takeWhile (· != delim) = c :: l.takeWhile (· != delim) := by simp [hd]
      have hdrop : (c :: l).dropWhile (· != delim) = l.dropWhile (· != delim) := by simp [hd]
      rw [if_neg hd, htake, hdrop, List.length_cons]
      refine ⟨mem', args, hrun, ⟨hc, ?_, hstr⟩, hpoints, fun p hp => ?_,
        hoff.mono (by omega) (by omega)⟩
      · rw [hoff a (Or.inl (Nat.lt_succ_self a)), ha]
      · have := hwithin p hp
        omega

/-- Before the method: it starts at the first character that is no delimiter. -/
theorem splitLoop_before (h : Str 0 mem a l) (hn : l.length < fuel) :
    ∃ mem' method args, splitLoop delim fuel mem a .before none none = some (mem', method, args) ∧
      Points mem' method (methodName delim l) ∧ Points mem' args (argString delim l) ∧
      Within args (argString delim l) a (a + l.length) ∧ AgreeOff mem mem' a (a + l.length) := by
  induction l generalizing a fuel with
  | nil =>
    obtain ⟨fuel, rfl⟩ : ∃ k, fuel = k + 1 := ⟨fuel - 1, by simp at hn; omega⟩
    exact ⟨mem, none, none, if_pos h, rfl, rfl, within_none, AgreeOff.refl⟩
  | cons c l ih =>
    obtain ⟨fuel, rfl⟩ : ∃ k, fuel = k + 1 := ⟨fuel - 1, by simp at hn; omega⟩
    obtain ⟨hc, ha, hl⟩ := h
    rw [splitLoop, ha, if_neg hc]
    unfold methodName argString
    by_cases hd : c = delim
    · obtain ⟨mem', method, args, hrun, hmethod, hargs, hwithin, hoff⟩ :=
        ih hl (show l.length < fuel by simp at hn; omega)
      have hdrop : (c :: l).dropWhile (· == delim) = l.dropWhile (· == delim) := by simp [hd]
      rw [if_pos hd, if_neg (by decide), hdrop, List.length_cons]
      refine ⟨mem', method, args, hrun, hmethod, hargs, fun p hp => ?_,
        hoff.mono (by omega) (by omega)⟩
      have := hwithin p hp
      unfold argString at this
      omega
    · obtain ⟨mem', args, hrun, hstr, hargs, hwithin, hoff⟩ :=
        splitLoop_method delim (some a) hl (show l.length < fuel by simp at hn; omega)
      have hdrop : (c :: l).dropWhile (· == delim) = c :: l := by simp [hd]
      have htake : (c :: l).takeWhile (· != delim) = c :: l.takeWhile (· != delim) := by simp [hd]
      have hbehind : (c :: l).dropWhile (· != delim) = l.dropWhile (· != delim) := by simp [hd]
      rw [if_neg hd, hdrop, htake, hbehind, List.length_cons]
      refine ⟨mem', some a, args, hrun, ⟨hc, ?_, hstr⟩, hargs, fun p hp => ?_,
        hoff.mono (by omega) (by omega)⟩
      · rw [hoff a (Or.inl (Nat.lt_succ_self a)), ha]
      · have := hwithin p hp
        omega

/-- **Splitting a line** into the method and its argument. -/
theorem splitString_spec (hdelim : delim ≠ 0) (h : Str 0 mem a l) (hn : l.length < n) :
    ∃ mem' method args, splitString n mem a delim = some (mem', method, args) ∧
      Points mem' method (methodName delim l) ∧ Points mem' args (argString delim l) ∧
      Within args (argString delim l) a (a + l.length) ∧ AgreeOff mem mem' a (a + l.length) := by
  have hd : (if delim = 0 then (0x20 : UInt8) else delim) = delim := if_neg hdelim
  rw [splitString, hd]
  exact splitLoop_before h hn

end RpiBoot
