import RpiBoot.Copy
import RpiBoot.Word

/-!
# `strstr` (`strstr.c`, `stdlib.c`)

A needle of up to four bytes is compared as one word that rolls over the haystack; a longer one is cut at a
critical position, and the part behind it is compared first. Strings are addresses in `ram`. A loop takes
`fuel` steps at most, and `none` is a loop that goes on.

* `twobyteStrstr`, `threebyteStrstr`, `fourbyteStrstr`: the rolling words.
* `fillTables`, `suffixLoop`, `splitNeedle`: what `twoway_strstr` finds out about the needle.
* `searchLoop`, `twowayStrstr`: its search.
* `strstr`: the choice between them.
-/

namespace RpiBoot.Strstr

open Store

/-! ## `stdlib.c` -/

section Stdlib

variable (ram : Mem)

/-- `strchr(s, c)`. -/
def strchr (c : UInt8) : ℕ → ℕ → Option (Option ℕ)
  | 0, _ => none
  | fuel + 1, sc =>
    if ram sc = 0 then some none else if ram sc = c then some (some sc) else strchr c fuel (sc + 1)

/-- `memchr(s, c, n)`. -/
def memchr (c : UInt8) : ℕ → ℕ → Option ℕ
  | 0, _ => none
  | n + 1, sc => if ram sc = c then some sc else memchr c n (sc + 1)

/-- `memcmp(s1, s2, n)`. -/
def memcmp : ℕ → ℕ → ℕ → ℤ
  | 0, _, _ => 0
  | n + 1, s₁, s₂ =>
    let v : ℤ := (ram s₁).toNat - (ram s₂).toNat
    if v ≠ 0 then v else memcmp n (s₁ + 1) (s₂ + 1)

end Stdlib

variable (ram : Mem)

/-! ## Short needles -/

/-- The loop over the haystack: `hw` takes in one byte after another until it is `nw`. -/
def rollLoop (next : ℕ → UInt8 → ℕ) (nw : ℕ) : ℕ → ℕ → ℕ → Option ℕ
  | 0, _, _ => none
  | fuel + 1, h, hw =>
    if ram h ≠ 0 ∧ hw ≠ nw then rollLoop next nw fuel (h + 1) (next hw (ram (h + 1))) else some h

/-- Byte `i` of a string, as the operand of a shift. -/
def byte (s i : ℕ) : ℕ := (ram (s + i)).toNat

def twobyteStrstr (fuel h n : ℕ) : Option (Option ℕ) :=
  let nw := byte ram n 0 <<< 8 ||| byte ram n 1
  let hw := byte ram h 0 <<< 8 ||| byte ram h 1
  (rollLoop ram (fun hw c => (hw <<< 8 ||| c.toNat) % 2 ^ 16) nw fuel (h + 1) hw).map fun h =>
    if ram h ≠ 0 then some (h - 1) else none

def threebyteStrstr (fuel h n : ℕ) : Option (Option ℕ) :=
  let nw := byte ram n 0 <<< 24 ||| byte ram n 1 <<< 16 ||| byte ram n 2 <<< 8
  let hw := byte ram h 0 <<< 24 ||| byte ram h 1 <<< 16 ||| byte ram h 2 <<< 8
  (rollLoop ram (fun hw c => (hw ||| c.toNat) <<< 8 % 2 ^ 32) nw fuel (h + 2) hw).map fun h =>
    if ram h ≠ 0 then some (h - 2) else none

def fourbyteStrstr (fuel h n : ℕ) : Option (Option ℕ) :=
  let nw := byte ram n 0 <<< 24 ||| byte ram n 1 <<< 16 ||| byte ram n 2 <<< 8 ||| byte ram n 3
  let hw := byte ram h 0 <<< 24 ||| byte ram h 1 <<< 16 ||| byte ram h 2 <<< 8 ||| byte ram h 3
  (rollLoop ram (fun hw c => (hw <<< 8 ||| c.toNat) % 2 ^ 32) nw fuel (h + 3) hw).map fun h =>
    if ram h ≠ 0 then some (h - 3) else none

/-! ## The needle of `twoway_strstr` -/

/-- The tables `byteset` and `shift`; the latter is not cleared. -/
structure Tables where
  byteset : UInt8 → Bool
  shift : UInt8 → ℕ

def Tables.add (t : Tables) (c : UInt8) (l : ℕ) : Tables :=
  ⟨Function.update t.byteset c true, Function.update t.shift c (l + 1)⟩

/-- `for (l=0; n[l] && h[l]; l++)`. -/
def fillTables (h n : ℕ) : ℕ → ℕ → Tables → Option (ℕ × Tables)
  | 0, _, _ => none
  | fuel + 1, l, t =>
    if ram (n + l) ≠ 0 ∧ ram (h + l) ≠ 0 then fillTables h n fuel (l + 1) (t.add (ram (n + l)) l)
    else some (l, t)

/-- The loop for the maximal suffix, with `r` for the comparison; the result is `ip + 1` and `p`. `ip` starts
at `-1`, so that `ip1` is `ip + 1`. -/
def suffixLoop (r : UInt8 → UInt8 → Prop) [DecidableRel r] (n l : ℕ) : ℕ → ℕ → ℕ → ℕ → ℕ → Option (ℕ × ℕ)
  | 0, _, _, _, _ => none
  | fuel + 1, ip1, jp, k, p =>
    if jp + k < l then
      if ram (n + (ip1 + k - 1)) = ram (n + (jp + k)) then
        if k = p then suffixLoop r n l fuel ip1 (jp + p) 1 p else suffixLoop r n l fuel ip1 jp (k + 1) p
      else if r (ram (n + (jp + k))) (ram (n + (ip1 + k - 1))) then
        suffixLoop r n l fuel ip1 (jp + k) 1 (jp + k + 1 - ip1)
      else suffixLoop r n l fuel (jp + 1) (jp + 1) 1 1
    else some (ip1, p)

/-- What the search needs of the needle; `ms1` is `ms + 1`. -/
structure Needle where
  l : ℕ
  tables : Tables
  ms1 : ℕ
  p : ℕ
  mem0 : ℕ

/-- The part of `twoway_strstr` between the tables and the search. -/
def splitNeedle (fuel n l : ℕ) (t : Tables) : Option Needle :=
  (suffixLoop ram (· < ·) n l fuel 0 0 1 1).bind fun s =>
    (suffixLoop ram (· > ·) n l fuel 0 0 1 1).map fun s' =>
      let ms1 := if s'.1 > s.1 then s'.1 else s.1
      let p := if s'.1 > s.1 then s'.2 else s.2
      -- is the needle periodic?
      if memcmp ram ms1 n (n + p) ≠ 0 then ⟨l, t, ms1, max (ms1 - 1) (l - ms1) + 1, 0⟩
      else ⟨l, t, ms1, p, l - p⟩

/-! ## The search -/

/-- `for (k=MAX(ms+1,mem); n[k] && n[k] == h[k]; k++);` -/
def rightLoop (h n : ℕ) : ℕ → ℕ → Option ℕ
  | 0, _ => none
  | fuel + 1, k =>
    if ram (n + k) ≠ 0 ∧ ram (n + k) = ram (h + k) then rightLoop h n fuel (k + 1) else some k

/-- `for (k=ms+1; k>mem && n[k-1] == h[k-1]; k--);` -/
def leftLoop (h n mem : ℕ) : ℕ → ℕ
  | 0 => 0
  | k + 1 => if k + 1 > mem ∧ ram (n + k) = ram (h + k) then leftLoop h n mem k else k + 1

/-- The end of the haystack up to which it is known, brought up to date; `none` returns. -/
def growEnd (l h z : ℕ) : Option ℕ :=
  if z < h + l then
    match memchr ram 0 (l ||| 63) z with
    | some z₂ => if z₂ < h + l then none else some z₂
    | none => some (z + (l ||| 63))
  else some z

/-- The search loop of `twoway_strstr`, at `h`; `mem` cells of the needle are known to match. -/
def searchLoop (nd : Needle) (n fuel : ℕ) : ℕ → ℕ → ℕ → ℕ → Option (Option ℕ)
  | 0, _, _, _ => none
  | steps + 1, h, z, mem =>
    match growEnd ram nd.l h z with
    | none => some none
    | some z =>
      let c := ram (h + nd.l - 1)
      if nd.tables.byteset c then
        let k := nd.l - nd.tables.shift c
        if k ≠ 0 then
          let k := if nd.mem0 ≠ 0 ∧ mem ≠ 0 ∧ k < nd.p then nd.l - nd.p else k
          searchLoop nd n fuel steps (h + k) z 0
        else
          (rightLoop ram h n fuel (max nd.ms1 mem)).bind fun k =>
            if ram (n + k) ≠ 0 then searchLoop nd n fuel steps (h + (k + 1 - nd.ms1)) z 0
            else if leftLoop ram h n mem nd.ms1 ≤ mem then some (some h)
            else searchLoop nd n fuel steps (h + nd.p) z nd.mem0
      else searchLoop nd n fuel steps (h + nd.l) z 0

/-- `twoway_strstr(h, n)`; `shift` is what the table holds before it is filled. -/
def twowayStrstr (shift : UInt8 → ℕ) (fuel h n : ℕ) : Option (Option ℕ) :=
  (fillTables ram h n fuel 0 ⟨fun _ => false, shift⟩).bind fun (l, t) =>
    if ram (n + l) ≠ 0 then some none
    else (splitNeedle ram fuel n l t).bind fun nd => searchLoop ram nd n fuel fuel h h 0

/-- The pointer that is returned. -/
def pointer (found : Option ℕ) : ℕ := found.getD 0

/-- `strstr(h, n)`; `some none` is the null pointer. -/
def strstr (shift : UInt8 → ℕ) (fuel h n : ℕ) : Option (Option ℕ) :=
  if ram n = 0 then some (some h)
  else (strchr ram (ram n) fuel h).bind fun
    | none => some none
    | some h =>
      if ram (n + 1) = 0 then some (some h)
      else if ram (h + 1) = 0 then some none
      else if ram (n + 2) = 0 then twobyteStrstr ram fuel h n
      else if ram (h + 2) = 0 then some none
      else if ram (n + 3) = 0 then threebyteStrstr ram fuel h n
      else if ram (h + 3) = 0 then some none
      else if ram (n + 4) = 0 then fourbyteStrstr ram fuel h n
      else twowayStrstr ram shift fuel h n

end RpiBoot.Strstr
