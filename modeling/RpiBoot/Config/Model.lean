import Mathlib.Data.List.DropRight
import RpiBoot.Cstring

/-!
# The configuration parser (`config_parse.c`)

The lines of the buffer are cut, stripped and split where they are. A method gets the rest of its
line and may change memory; `τ` is the rest of the world. Every scan takes at most `n` steps.

* `readLine`, `stripComments`, `splitString`, `configParse`: the functions of `config_parse.c`.
* `configEntries`: the reference grammar, with its own `whiteSpace` and `sameName`; `isspace_eq` and
  `sameName_eq` say that they are those of the code.
* `Executes`: the calls that a list of entries leads to, up to the first one that fails.
-/

namespace RpiBoot

open Store

/-- `read_line(&buf)`: the line, if there is one, and the rest. -/
def readLine (n : ℕ) (mem : Mem) (buf : ℕ) : Option (Option ℕ × ℕ × Mem) :=
  if mem buf = 0 then some (none, buf, mem)
  else (scan (fun c => c == 0 || c == 0x0a) mem n buf).map fun ptr =>
    if mem ptr = 0 then (some buf, ptr, mem)
    else (some buf, ptr + 1, Function.update mem ptr 0)

/-- The loop of `strip_comments` that cuts at `#`: memory and the end of what is left. -/
def cutComment : ℕ → Mem → ℕ → Option (Mem × ℕ)
  | 0, _, _ => none
  | fuel + 1, mem, s =>
    if mem s = 0 then some (mem, s)
    else if mem s = 0x23 then cutComment fuel (Function.update mem s 0) s
    else cutComment fuel mem (s + 1)

/-- The loop of `strip_comments` that removes white space from `s` down, but never at `buf`. -/
def trimTrailing (buf : ℕ) (mem : Mem) : ℕ → Mem
  | 0 => mem
  | s + 1 =>
    if s + 1 > buf ∧ isspace (mem (s + 1)) then trimTrailing buf (Function.update mem (s + 1) 0) s
    else mem

/-- `strip_comments(buf)`. A buffer does not start at address `0`, so that `s - 1` is the pointer
before it. -/
def stripComments (n : ℕ) (mem : Mem) (buf : ℕ) : Option (ℕ × Mem) :=
  (scan (fun c => !isspace c) mem n buf).bind fun buf =>
    (cutComment n mem buf).map fun (mem, s) => (buf, trimTrailing buf mem (s - 1))

/-- The states of `split_string`: before the method, in it, before the argument. -/
inductive SplitState where
  | before | method | behind
deriving DecidableEq

/-- The loop of `split_string`: memory, method and argument. -/
def splitLoop (delim : UInt8) : ℕ → Mem → ℕ → SplitState → Option ℕ → Option ℕ →
    Option (Mem × Option ℕ × Option ℕ)
  | 0, _, _, _, _, _ => none
  | fuel + 1, mem, p, state, method, args =>
    if mem p = 0 then some (mem, method, args)
    else if mem p = delim then
      if state = .method then
        splitLoop delim fuel (Function.update mem p 0) (p + 1) .behind method args
      else splitLoop delim fuel mem (p + 1) state method args
    else match state with
      | .before => splitLoop delim fuel mem (p + 1) .method (some p) args
      | .behind => some (mem, method, some p)
      | .method => splitLoop delim fuel mem (p + 1) .method method args

/-- `split_string(str, delim, &method, &args)`. -/
def splitString (n : ℕ) (mem : Mem) (str : ℕ) (delim : UInt8) : Option (Mem × Option ℕ × Option ℕ) :=
  let delim := if delim = 0 then 0x20 else delim
  splitLoop delim n mem str .before none none

variable {τ : Type}

/-- `struct config_parse_method`, without the delimiter, which nothing reads. -/
structure ConfigMethod (τ : Type) where
  name : List UInt8
  clean : 0 ∉ name
  method : (args : Option ℕ) → Mem × τ → ℤ × Mem × τ

/-- The loop of `config_parse` over the table. -/
def findMethod (lwr : List UInt8) : List (ConfigMethod τ) → Option (ConfigMethod τ)
  | [] => none
  | m :: methods => if strcmp lwr m.name = 0 then some m else findMethod lwr methods

/-- One round of `config_parse`, on a line; `0` for the lines that are skipped. -/
def configLine (n : ℕ) (delim : UInt8) (methods : List (ConfigMethod τ)) (line : ℕ) (w : Mem × τ) :
    Option (ℤ × Mem × τ) :=
  (stripComments n w.1 line).bind fun (line, mem) =>
    (splitString n mem line delim).bind fun (mem, method, args) =>
      (stringAt n mem method).map fun method =>
        if strcmp method [] = 0 then (0, mem, w.2)
        else match findMethod (strlwr method) methods with
          | some m => m.method args (mem, w.2)
          | none => (0, mem, w.2)

/-- `config_parse(buf, delim, methods)`, of at most `fuel` lines. -/
def configParse (n : ℕ) (delim : UInt8) (methods : List (ConfigMethod τ)) :
    ℕ → ℕ → Mem × τ → Option (ℤ × Mem × τ)
  | 0, _, _ => none
  | fuel + 1, buf, w =>
    (readLine n w.1 buf).bind fun
      | (none, _, mem) => some (0, mem, w.2)
      | (some line, buf, mem) =>
        (configLine n delim methods line (mem, w.2)).bind fun r =>
          if r.1 ≠ 0 then some r else configParse n delim methods fuel buf r.2

/-! ## The grammar -/

/-- A blank, or one of tab, line feed, vertical tab, form feed and carriage return. -/
def whiteSpace (c : UInt8) : Bool := c == 0x20 || 0x09 ≤ c && c ≤ 0x0d

def capital (c : UInt8) : Bool := 0x41 ≤ c && c ≤ 0x5a

/-- The same character, up to case. -/
def sameLetter (c d : UInt8) : Bool :=
  c == d || capital c && d == c + 0x20 || capital d && c == d + 0x20

/-- The same name, up to case. -/
def sameName (s t : List UInt8) : Bool := s.isEqv t sameLetter

/-- A line without leading white space, comment and trailing white space. -/
def stripped (line : List UInt8) : List UInt8 :=
  ((line.dropWhile whiteSpace).takeWhile (· != 0x23)).rdropWhile whiteSpace

/-- The first run without a delimiter. -/
def methodName (delim : UInt8) (line : List UInt8) : List UInt8 :=
  (line.dropWhile (· == delim)).takeWhile (· != delim)

/-- What follows the delimiters behind it. -/
def argString (delim : UInt8) (line : List UInt8) : List UInt8 :=
  ((line.dropWhile (· == delim)).dropWhile (· != delim)).dropWhile (· == delim)

/-- The entry of a line: the method that has the name up to case, and the argument. -/
def configEntry (delim : UInt8) (methods : List (ConfigMethod τ)) (line : List UInt8) :
    Option (ConfigMethod τ × List UInt8) :=
  if methodName delim (stripped line) = [] then none
  else (methods.find? fun m => sameName m.name (methodName delim (stripped line))).map
    fun m => (m, argString delim (stripped line))

/-- The entries of a configuration file. -/
def configEntries (delim : UInt8) (methods : List (ConfigMethod τ)) (content : List UInt8) :
    List (ConfigMethod τ × List UInt8) :=
  (content.splitOn 0x0a).filterMap (configEntry delim methods)

/-! ### The characters of the code -/

theorem isspace_eq : isspace = whiteSpace := funext (forall_char (by decide +kernel))

theorem tolower_eq : ∀ c, tolower c = if capital c then c + 0x20 else c :=
  forall_char (by decide +kernel)

theorem capital_add : ∀ c, capital c = true → capital (c + 0x20) = false :=
  forall_char (by decide +kernel)

theorem sameLetter_iff (c d : UInt8) : sameLetter c d = true ↔ tolower c = tolower d := by
  have hc := capital_add c
  have hd := capital_add d
  rw [tolower_eq, tolower_eq, sameLetter]
  cases hcap : capital c <;> cases hcap' : capital d
  · simp
  · have hne : c ≠ d := fun h => by simp [h, hcap'] at hcap
    simp [hne]
  · have hne : c ≠ d := fun h => by simp [h, hcap'] at hcap
    simp only [beq_eq_false_iff_ne.mpr hne, Bool.false_or, Bool.true_and, Bool.false_and,
      Bool.or_false, beq_iff_eq, if_true, Bool.false_eq_true, if_false]
    exact eq_comm
  · -- a capital is 0x20 below no capital
    have hne : d ≠ c + 0x20 := fun h => by simp [← h, hcap'] at hc; simp [hc] at hcap
    have hne' : c ≠ d + 0x20 := fun h => by simp [← h, hcap] at hd; simp [hd] at hcap'
    simp [hne, hne']

/-- Names are the same up to case when `strlwr` makes them equal. -/
theorem sameName_eq (s t : List UInt8) : sameName s t = (strlwr s == strlwr t) := by
  rw [Bool.eq_iff_iff, beq_iff_eq, sameName, strlwr, strlwr]
  induction s generalizing t with
  | nil => cases t <;> simp
  | cons c s ih =>
    cases t with
    | nil => simp
    | cons d t => simp [List.isEqv, sameLetter_iff, ih t]

theorem stripped_eq (line : List UInt8) :
    stripped line = ((line.dropWhile isspace).takeWhile (· != 0x23)).rdropWhile isspace := by
  rw [isspace_eq, stripped]

/-! ## The calls -/

/-- A call of a method: with which pointer, in which state of memory, and what it returned. -/
structure ConfigCall (τ : Type) where
  method : ConfigMethod τ
  args : Option ℕ
  mem : Mem
  retno : ℤ

/-- The method, with a list of the calls. -/
def ConfigMethod.traced (m : ConfigMethod τ) : ConfigMethod (τ × List (ConfigCall τ)) where
  name := m.name
  clean := m.clean
  method args w :=
    let r := m.method args (w.1, w.2.1)
    (r.1, r.2.1, (r.2.2, w.2.2 ++ [⟨m, args, w.1, r.1⟩]))

/-- The call is that of an entry. -/
def ConfigCall.Of (c : ConfigCall τ) (e : ConfigMethod τ × List UInt8) : Prop :=
  c.method = e.1 ∧ Points c.mem c.args e.2

/-- The calls are those of the entries, in order, up to the first that does not return `0`; the last
argument is what it returned, or `0`. -/
inductive Executes : List (ConfigCall τ) → List (ConfigMethod τ × List UInt8) → ℤ → Prop where
  | done : Executes [] [] 0
  | next {c e calls entries retno} : c.Of e → c.retno = 0 → Executes calls entries retno →
    Executes (c :: calls) (e :: entries) retno
  | stop {c e entries} : c.Of e → c.retno ≠ 0 → Executes [c] (e :: entries) c.retno

/-- A method changes no byte but those of its argument string. -/
def ConfigMethod.Framed (m : ConfigMethod τ) : Prop :=
  ∀ args w s, Points w.1 args s →
    ∀ i, (∀ p ∈ args, i < p ∨ p + s.length ≤ i) → (m.method args w).2.1 i = w.1 i

end RpiBoot
