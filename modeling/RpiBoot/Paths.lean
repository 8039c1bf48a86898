import RpiBoot.Cstring
import RpiBoot.Lib.Segments

/-!
# Paths (`split_dir` of `vfs.c`)

A path is `(device)` and then names between slashes; the device may be left out. `split_dir` goes through
a path twice: it counts the names, and then cuts them off.

* `findVe`, `countDirs`, `cutDirs`, `splitDir`: the function of `vfs.c` and its two passes.
* `devName`, `dirPart`: the device and the rest of a path. `Rejected`: the paths that name nothing.
* `Splits`: the passes agree, and find the segments of the path.
* **`splitDir_eq`**, **`split_dir_agrees`**: they do, for every path but `(`.
-/

namespace RpiBoot

open Segments

abbrev slash : UInt8 := 0x2f
abbrev openParen : UInt8 := 0x28
abbrev closeParen : UInt8 := 0x29

/-- `struct vfs_entry`, without the link. -/
structure VfsEntry (φ : Type) where
  deviceName : List UInt8
  fs : φ
deriving DecidableEq

/-- The list of entries from `first` on, and the entry `def`. -/
structure VfsState (φ : Type) where
  first : List (VfsEntry φ)
  dflt : Option (VfsEntry φ)

variable {φ : Type}

/-- `find_ve(path)`. -/
def findVe (vfs : VfsState φ) (path : List UInt8) : Option (VfsEntry φ) :=
  vfs.first.find? fun cur => strcmp cur.deviceName path = 0

/-- What `path[i]` reads; nothing may be read behind the end of the string. -/
def charAt (path : List UInt8) (i : ℕ) : Option UInt8 := (path ++ [0])[i]?

/-- The variables of the first pass. -/
structure DirScan (φ : Type) where
  dirStart : ℕ
  dirCount : ℕ
  readingDev : Bool
  ve : Option (VfsEntry φ)

/-- The first pass of `split_dir`, from character `i` on. `none` is a null pointer. -/
def countDirs (vfs : VfsState φ) (path : List UInt8) : ℕ → List UInt8 → DirScan φ → Option (DirScan φ)
  | _, [], st => some st
  | i, c :: cs, st =>
    if c = openParen then
      if i = 0 then countDirs vfs path (i + 1) cs { st with readingDev := true } else none
    else if c = closeParen then
      if !st.readingDev then none
      else
        -- the device name runs from position 1 to `i`
        let devName := (path.drop 1).take (i - 1)
        countDirs vfs path (i + 1) cs
          { st with ve := findVe vfs devName, readingDev := false, dirStart := i + 1 }
    else if c = slash then
      if st.readingDev then none
      else if i ≠ st.dirStart then countDirs vfs path (i + 1) cs { st with dirCount := st.dirCount + 1 }
      else countDirs vfs path (i + 1) cs { st with dirStart := st.dirStart + 1 }
    else if i = path.length - 1 then countDirs vfs path (i + 1) cs { st with dirCount := st.dirCount + 1 }
    else countDirs vfs path (i + 1) cs st

/-- The inner loop of the second pass: the next slash or the end of the string. `none` is a read behind
the end. -/
def dirEnd (path : List UInt8) : ℕ → ℕ → Option ℕ
  | 0, _ => none
  | fuel + 1, curIdx => (charAt path curIdx).bind fun c =>
    if c ≠ slash ∧ c ≠ 0 then dirEnd path fuel (curIdx + 1) else some curIdx

/-- The second pass of `split_dir`, for the given number of names. -/
def cutDirs (path : List UInt8) : ℕ → ℕ → Option (List (List UInt8))
  | 0, _ => some []
  | n + 1, curDirStart => (dirEnd path (path.length + 1) curDirStart).bind fun curIdx =>
    (cutDirs path n (curIdx + 1)).map ((path.drop curDirStart).take (curIdx - curDirStart) :: ·)

/-- `split_dir(path, &ve)`: a null pointer, or the entry and the names. `none` is a read behind the end of
the string. -/
def splitDir (vfs : VfsState φ) (path : List UInt8) : Option (Option (VfsEntry φ × List (List UInt8))) :=
  match countDirs vfs path 0 path ⟨0, 0, false, vfs.dflt⟩ with
  | none => some none
  | some st =>
    match st.ve with
    | none => some none
    | some ve => (cutDirs path st.dirCount st.dirStart).map fun ret => some (ve, ret)

/-! ## Paths that name something -/

/-- The name of the device that a path starts with. -/
def devName : List UInt8 → Option (List UInt8)
  | [] => none
  | c :: path =>
    if c = openParen ∧ closeParen ∈ path then some (path.takeWhile (· != closeParen)) else none

/-- The part behind it: the directories and the name of a file. -/
def dirPart : List UInt8 → List UInt8
  | [] => []
  | c :: path =>
    if c = openParen ∧ closeParen ∈ path then (path.dropWhile (· != closeParen)).tail else c :: path

/-- A parenthesis where none may be: one that opens behind the start, or one that closes nothing. -/
def Misplaced (path : List UInt8) : Prop := openParen ∈ path.tail ∨ closeParen ∈ dirPart path

/-- A slash in the name of a device, which runs to the end when it is not closed. -/
def SlashInDevice : List UInt8 → Prop
  | [] => False
  | c :: path => c = openParen ∧ slash ∈ path.takeWhile (· != closeParen)

/-- The entry for a path: that of its device, or the default. -/
def entryOf (vfs : VfsState φ) (path : List UInt8) : Option (VfsEntry φ) :=
  match devName path with
  | some name => findVe vfs name
  | none => vfs.dflt

/-- The path names nothing. -/
def Rejected (vfs : VfsState φ) (path : List UInt8) : Prop :=
  Misplaced path ∨ SlashInDevice path ∨ entryOf vfs path = none

/-- The passes agree: nothing is read behind the end of the string, the result is a null pointer just for
the paths that are rejected, and else the names are the segments of the path, as many as were counted. -/
structure Splits (vfs : VfsState φ) (path : List UInt8) : Prop where
  reads : ∃ r, splitDir vfs path = some r
  null_iff : splitDir vfs path = some none ↔ Rejected vfs path
  names : ∀ ve ret, splitDir vfs path = some (some (ve, ret)) →
    entryOf vfs path = some ve ∧ ret = segments slash (dirPart path) ∧
      ∃ st, countDirs vfs path 0 path ⟨0, 0, false, vfs.dflt⟩ = some st ∧ st.dirCount = ret.length

/-! ## Kinds of paths -/

section Kinds

variable {path name part : List UInt8} {vfs : VfsState φ} {cs : List UInt8} {c : UInt8}

/-- There is a parenthesis in the list. -/
def HasParen (cs : List UInt8) : Prop := openParen ∈ cs ∨ closeParen ∈ cs

instance : Decidable (HasParen cs) := inferInstanceAs (Decidable (_ ∨ _))

theorem hasParen_cons (hopen : c ≠ openParen) (hclose : c ≠ closeParen) :
    HasParen (c :: cs) ↔ HasParen cs := by
  simp only [HasParen, List.mem_cons, hopen.symm, hclose.symm, false_or]

theorem hasParen_of_eq (hc : c = openParen ∨ c = closeParen) : HasParen (c :: cs) := by
  rcases hc with rfl | rfl
  · exact Or.inl List.mem_cons_self
  · exact Or.inr List.mem_cons_self

theorem dirPart_suffix (path : List UInt8) : dirPart path <:+ path := by
  rcases path with _ | ⟨c, path⟩
  · exact List.suffix_refl _
  · rw [dirPart]
    split_ifs
    · exact ((List.tail_suffix _).trans (List.dropWhile_suffix _)).trans (List.suffix_cons _ _)
    · exact List.suffix_refl _

theorem takeWhile_closed (h : closeParen ∉ name) :
    (name ++ closeParen :: part).takeWhile (· != closeParen) = name := by
  have hall : ∀ x ∈ name, (x != closeParen) = true := fun x hx => by
    simpa using fun hx' : x = closeParen => h (hx' ▸ hx)
  rw [List.takeWhile_append_of_pos hall, List.takeWhile_cons_of_neg (by simp), List.append_nil]

theorem dropWhile_closed (h : closeParen ∉ name) :
    (name ++ closeParen :: part).dropWhile (· != closeParen) = closeParen :: part := by
  have hall : ∀ x ∈ name, (x != closeParen) = true := fun x hx => by
    simpa using fun hx' : x = closeParen => h (hx' ▸ hx)
  rw [List.dropWhile_append_of_pos hall, List.dropWhile_cons_of_neg (by simp)]

/-- A path starts with a device, or with a parenthesis that is not closed, or with neither. -/
theorem path_cases (path : List UInt8) :
    (∃ name part, closeParen ∉ name ∧ path = openParen :: (name ++ closeParen :: part)) ∨
    (∃ rest, closeParen ∉ rest ∧ path = openParen :: rest) ∨ path.head? ≠ some openParen := by
  rcases path with _ | ⟨c, rest⟩
  · exact Or.inr (Or.inr (by simp))
  by_cases hc : c = openParen
  · subst hc
    by_cases hmem : closeParen ∈ rest
    · obtain ⟨name, part, rfl, hname⟩ := List.eq_append_cons_of_mem hmem
      exact Or.inl ⟨name, part, hname, rfl⟩
    · exact Or.inr (Or.inl ⟨rest, hmem, rfl⟩)
  · exact Or.inr (Or.inr (by simpa using hc))

section Device

variable (hname : closeParen ∉ name)

include hname

theorem devName_device : devName (openParen :: (name ++ closeParen :: part)) = some name := by
  rw [devName, if_pos ⟨rfl, by simp⟩, takeWhile_closed hname]

theorem dirPart_device : dirPart (openParen :: (name ++ closeParen :: part)) = part := by
  rw [dirPart, if_pos ⟨rfl, by simp⟩, dropWhile_closed hname, List.tail_cons]

theorem slashInDevice_device :
    SlashInDevice (openParen :: (name ++ closeParen :: part)) ↔ slash ∈ name := by
  rw [SlashInDevice, takeWhile_closed hname]
  exact and_iff_right rfl

theorem misplaced_device :
    Misplaced (openParen :: (name ++ closeParen :: part)) ↔ openParen ∈ name ∨ HasParen part := by
  have hne : openParen ≠ closeParen := by decide
  simp only [Misplaced, dirPart_device hname, HasParen, List.tail_cons, List.mem_append, List.mem_cons, hne,
    false_or, or_assoc]

end Device

section Unclosed

variable (hrest : closeParen ∉ cs)

include hrest

theorem devName_unclosed : devName (openParen :: cs) = none := if_neg fun h => hrest h.2

theorem dirPart_unclosed : dirPart (openParen :: cs) = openParen :: cs := if_neg fun h => hrest h.2

theorem slashInDevice_unclosed : SlashInDevice (openParen :: cs) ↔ slash ∈ cs := by
  have hall : cs.takeWhile (· != closeParen) = cs := List.takeWhile_eq_self_iff.mpr fun x hx => by
    simpa using fun hx' : x = closeParen => hrest (hx' ▸ hx)
  rw [SlashInDevice, hall]
  exact and_iff_right rfl

theorem misplaced_unclosed : Misplaced (openParen :: cs) ↔ openParen ∈ cs := by
  have hne : closeParen ≠ openParen := by decide
  simp only [Misplaced, dirPart_unclosed hrest, List.tail_cons, List.mem_cons, hne, hrest, or_false]

end Unclosed

section Plain

variable (hhead : path.head? ≠ some openParen)

include hhead

theorem devName_plain : devName path = none := by
  rcases path with _ | ⟨c, path⟩
  · rfl
  · exact if_neg fun h => hhead (by rw [h.1, List.head?_cons])

theorem dirPart_plain : dirPart path = path := by
  rcases path with _ | ⟨c, path⟩
  · rfl
  · exact if_neg fun h => hhead (by rw [h.1, List.head?_cons])

theorem slashInDevice_plain : ¬ SlashInDevice path := by
  rcases path with _ | ⟨c, path⟩
  · exact fun h => h
  · exact fun h => hhead (by rw [h.1, List.head?_cons])

theorem misplaced_plain : Misplaced path ↔ HasParen path := by
  rw [Misplaced, dirPart_plain hhead, HasParen]
  rcases path with _ | ⟨c, path⟩
  · rfl
  · have hc : openParen ≠ c := fun h => hhead (by rw [h, List.head?_cons])
    simp only [List.tail_cons, List.mem_cons, hc, false_or]

end Plain

end Kinds

/-! ## The first pass -/

section Count

variable {vfs : VfsState φ} {path cs : List UInt8} {i ds dc : ℕ} {reading : Bool}
  {ve : Option (VfsEntry φ)} {c : UInt8}

/-- A character of a name is counted if it is the last one. -/
theorem countDirs_char (hopen : c ≠ openParen) (hclose : c ≠ closeParen) (hslash : c ≠ slash)
    (hlen : i + (c :: cs).length = path.length) : countDirs vfs path i (c :: cs) ⟨ds, dc, reading, ve⟩ =
      countDirs vfs path (i + 1) cs ⟨ds, dc + if cs = [] then 1 else 0, reading, ve⟩ := by
  have hlast : i = path.length - 1 ↔ cs = [] := by
    rw [← List.length_eq_zero_iff, ← hlen, List.length_cons]
    omega
  rw [countDirs, if_neg hopen, if_neg hclose, if_neg hslash]
  by_cases hnil : cs = []
  · rw [if_pos (hlast.mpr hnil), if_pos hnil]
  · rw [if_neg (mt hlast.mp hnil), if_neg hnil]
    rfl

theorem countDirs_slash : countDirs vfs path i (slash :: cs) ⟨ds, dc, false, ve⟩ =
    if i ≠ ds then countDirs vfs path (i + 1) cs ⟨ds, dc + 1, false, ve⟩
    else countDirs vfs path (i + 1) cs ⟨ds + 1, dc, false, ve⟩ := rfl

/-- A path starts with a device. -/
theorem countDirs_open (hpath : path = openParen :: cs) : countDirs vfs path 0 path ⟨ds, dc, reading, ve⟩ =
    countDirs vfs path 1 cs ⟨ds, dc, true, ve⟩ :=
  (congrArg (fun l => countDirs vfs path 0 l ⟨ds, dc, reading, ve⟩) hpath).trans rfl

/-- A parenthesis behind the start of a path, or one that closes nothing. -/
theorem countDirs_paren (hi : i = 0 → c ≠ openParen) (hc : c = openParen ∨ c = closeParen) :
    countDirs vfs path i (c :: cs) ⟨ds, dc, false, ve⟩ = none := by
  rw [countDirs]
  rcases hc with rfl | rfl
  · rw [if_pos rfl, if_neg fun h => hi h rfl]
  · rfl

/-- The first pass behind the first name: slashes are counted, and the last character if it is none. -/
theorem countDirs_names (hi : ds < i) (hlen : i + cs.length = path.length) :
    countDirs vfs path i cs ⟨ds, dc, false, ve⟩ =
      if HasParen cs then none else some ⟨ds, dc + pieces slash cs, false, ve⟩ := by
  induction cs generalizing i dc with
  | nil => simp [countDirs, pieces, HasParen]
  | cons c cs ih =>
    have hlen' : i + 1 + cs.length = path.length := by
      rw [← hlen, List.length_cons]
      omega
    by_cases hparen : c = openParen ∨ c = closeParen
    · rw [countDirs_paren (fun h => by omega) hparen, if_pos (hasParen_of_eq hparen)]
    obtain ⟨hopen, hclose⟩ := not_or.mp hparen
    by_cases hslash : c = slash
    · subst hslash
      rw [countDirs_slash, if_pos (by omega), ih (by omega) hlen']
      simp only [hasParen_cons hopen hclose, pieces, true_or, if_true, Nat.add_assoc]
    · rw [countDirs_char hopen hclose hslash hlen, ih (by omega) hlen']
      simp only [hasParen_cons hopen hclose, pieces, hslash, false_or, Nat.add_assoc]

/-- The first pass before the first name: slashes are left out. -/
theorem countDirs_leading (hlen : i + cs.length = path.length) (hzero : i = 0 → cs.head? ≠ some openParen) :
    countDirs vfs path i cs ⟨i, dc, false, ve⟩ =
      if HasParen cs then none
      else some ⟨path.length - (body slash cs).length, dc + pieces slash (body slash cs), false, ve⟩ := by
  induction cs generalizing i with
  | nil =>
    have hend : path.length = i := by
      rw [← hlen]
      rfl
    simp [countDirs, body, pieces, hend, HasParen]
  | cons c cs ih =>
    have hlen' : i + 1 + cs.length = path.length := by
      rw [← hlen, List.length_cons]
      omega
    by_cases hparen : c = openParen ∨ c = closeParen
    · have hne : i = 0 → c ≠ openParen := fun h0 hc => hzero h0 (by rw [hc, List.head?_cons])
      rw [countDirs_paren hne hparen, if_pos (hasParen_of_eq hparen)]
    obtain ⟨hopen, hclose⟩ := not_or.mp hparen
    by_cases hslash : c = slash
    · subst hslash
      rw [countDirs_slash, if_neg (not_not.mpr rfl), ih hlen' fun h => by omega]
      simp only [hasParen_cons hopen hclose, body_cons_self]
    · -- the first character of a name
      have hstart : path.length - (c :: cs).length = i := by
        rw [← hlen, Nat.add_sub_cancel]
      rw [countDirs_char hopen hclose hslash hlen, countDirs_names i.lt_succ_self hlen']
      simp only [hasParen_cons hopen hclose, body_cons_of_ne hslash, hstart, pieces, hslash, false_or,
        Nat.add_assoc]

/-- The name of a device may hold neither slashes nor parentheses. It is not counted when it is closed. -/
theorem countDirs_device {rest : List UInt8} (hi : 0 < i) (hclosed : closeParen ∉ cs)
    (hlen : i + (cs ++ rest).length = path.length) : countDirs vfs path i (cs ++ rest) ⟨ds, dc, true, ve⟩ =
      if openParen ∈ cs ∨ slash ∈ cs then none
      else countDirs vfs path (i + cs.length) rest
        ⟨ds, dc + if cs ≠ [] ∧ rest = [] then 1 else 0, true, ve⟩ := by
  induction cs generalizing i dc with
  | nil => simp
  | cons c cs ih =>
    have hclose : c ≠ closeParen := fun h => hclosed (h ▸ List.mem_cons_self)
    rw [List.cons_append] at hlen ⊢
    have hlen' : i + 1 + (cs ++ rest).length = path.length := by
      rw [← hlen, List.length_cons]
      omega
    by_cases hopen : c = openParen
    · subst hopen
      rw [countDirs, if_pos rfl, if_neg (by omega), if_pos (Or.inl List.mem_cons_self)]
    by_cases hslash : c = slash
    · subst hslash
      rw [if_pos (Or.inr List.mem_cons_self)]
      rfl
    have hmem : openParen ∈ c :: cs ∨ slash ∈ c :: cs ↔ openParen ∈ cs ∨ slash ∈ cs := by
      simp only [List.mem_cons, Ne.symm hopen, Ne.symm hslash, false_or]
    have hcount : (dc + if cs ++ rest = [] then 1 else 0) + (if cs ≠ [] ∧ rest = [] then 1 else 0) =
        dc + if c :: cs ≠ [] ∧ rest = [] then 1 else 0 := by
      rcases cs with _ | ⟨d, cs⟩ <;> simp
    have hpos : i + 1 + cs.length = i + (c :: cs).length := by
      rw [List.length_cons]
      omega
    rw [countDirs_char hopen hclose hslash hlen,
      ih (by omega) (fun h => hclosed (List.mem_cons_of_mem c h)) hlen', hcount, hpos]
    simp only [hmem]

/-- The first pass over a path with a device. -/
theorem countDirs_closed {name part : List UInt8} (hname : closeParen ∉ name)
    (hpath : path = openParen :: (name ++ closeParen :: part)) :
    countDirs vfs path 0 path ⟨0, 0, false, vfs.dflt⟩ =
      if openParen ∈ name ∨ slash ∈ name then none
      else if HasParen part then none
      else some ⟨path.length - (body slash part).length, pieces slash (body slash part), false,
        findVe vfs name⟩ := by
  have hlen : 1 + (name ++ closeParen :: part).length = path.length := by
    rw [hpath, List.length_cons, Nat.add_comm]
  have hlen' : 1 + name.length + 1 + part.length = path.length := by
    rw [← hlen, List.length_append, List.length_cons]
    omega
  have hdev : (path.drop 1).take (1 + name.length - 1) = name := by
    rw [hpath, List.drop_one, List.tail_cons, Nat.add_sub_cancel_left, List.take_left]
  have hdevice : countDirs vfs path 1 (name ++ closeParen :: part) ⟨0, 0, true, vfs.dflt⟩ =
      if openParen ∈ name ∨ slash ∈ name then none
      else countDirs vfs path (1 + name.length) (closeParen :: part)
        ⟨0, 0 + if name ≠ [] ∧ closeParen :: part = [] then 1 else 0, true, vfs.dflt⟩ :=
    countDirs_device Nat.one_pos hname hlen
  have hcount : (0 + if name ≠ [] ∧ closeParen :: part = [] then 1 else 0) = 0 := by simp
  have hclose : countDirs vfs path (1 + name.length) (closeParen :: part) ⟨0, 0, true, vfs.dflt⟩ =
      countDirs vfs path (1 + name.length + 1) part
        ⟨1 + name.length + 1, 0, false, findVe vfs ((path.drop 1).take (1 + name.length - 1))⟩ := rfl
  rw [countDirs_open hpath, hdevice, hcount, hclose, hdev, countDirs_leading hlen' fun h => by omega,
    Nat.zero_add]

/-- The first pass over a path with a device that is not closed: the whole path is a name. -/
theorem countDirs_unclosed {rest : List UInt8} (hrest : closeParen ∉ rest) (hne : rest ≠ [])
    (hpath : path = openParen :: rest) : countDirs vfs path 0 path ⟨0, 0, false, vfs.dflt⟩ =
      if openParen ∈ rest ∨ slash ∈ rest then none else some ⟨0, 1, true, vfs.dflt⟩ := by
  have hlen : 1 + (rest ++ []).length = path.length := by
    rw [hpath, List.append_nil, List.length_cons, Nat.add_comm]
  have hdevice : countDirs vfs path 1 (rest ++ []) ⟨0, 0, true, vfs.dflt⟩ =
      if openParen ∈ rest ∨ slash ∈ rest then none
      else countDirs vfs path (1 + rest.length) []
        ⟨0, 0 + if rest ≠ [] ∧ ([] : List UInt8) = [] then 1 else 0, true, vfs.dflt⟩ :=
    countDirs_device Nat.one_pos hrest hlen
  rw [List.append_nil, if_pos (show rest ≠ [] ∧ ([] : List UInt8) = [] from ⟨hne, rfl⟩)] at hdevice
  exact (countDirs_open hpath).trans hdevice

/-- What the first pass finds, when it finds something. -/
structure DirsCounted (vfs : VfsState φ) (path : List UInt8) (st : DirScan φ) : Prop where
  dirStart : st.dirStart = path.length - (body slash (dirPart path)).length
  dirCount : st.dirCount = pieces slash (body slash (dirPart path))
  ve : st.ve = entryOf vfs path

/-- **The first pass** fails, or finds where the names start, how many there are, and the entry. -/
theorem countDirs_spec (vfs : VfsState φ) {path : List UInt8} (h : path ≠ [openParen]) :
    (countDirs vfs path 0 path ⟨0, 0, false, vfs.dflt⟩ = none ∧ (Misplaced path ∨ SlashInDevice path)) ∨
    ∃ st, countDirs vfs path 0 path ⟨0, 0, false, vfs.dflt⟩ = some st ∧
      ¬ (Misplaced path ∨ SlashInDevice path) ∧ DirsCounted vfs path st := by
  rcases path_cases path with ⟨name, part, hname, hpath⟩ | ⟨rest, hrest, hpath⟩ | hhead
  · rw [countDirs_closed hname hpath, hpath, misplaced_device hname, slashInDevice_device hname]
    by_cases hbad : openParen ∈ name ∨ slash ∈ name
    · exact Or.inl ⟨if_pos hbad, hbad.imp_left Or.inl⟩
    by_cases hparen : HasParen part
    · rw [if_neg hbad, if_pos hparen]
      exact Or.inl ⟨rfl, Or.inl (Or.inr hparen)⟩
    · rw [if_neg hbad, if_neg hparen]
      obtain ⟨hopen, hslash⟩ := not_or.mp hbad
      refine Or.inr ⟨_, rfl, not_or.mpr ⟨not_or.mpr ⟨hopen, hparen⟩, hslash⟩, ?_, ?_, ?_⟩
      · rw [dirPart_device hname]
      · rw [dirPart_device hname]
      · rw [entryOf, devName_device hname]
  · have hne : rest ≠ [] := by
      rintro rfl
      exact h hpath
    rw [countDirs_unclosed hrest hne hpath, hpath, misplaced_unclosed hrest, slashInDevice_unclosed hrest]
    by_cases hbad : openParen ∈ rest ∨ slash ∈ rest
    · exact Or.inl ⟨if_pos hbad, hbad⟩
    · have hbody : body slash (openParen :: rest) = openParen :: rest := body_cons_of_ne (by decide)
      have hslash : slash ∉ openParen :: rest := by
        rw [List.mem_cons]
        exact not_or.mpr ⟨by decide, fun hmem => hbad (Or.inr hmem)⟩
      rw [if_neg hbad]
      refine Or.inr ⟨_, rfl, hbad, ?_, ?_, ?_⟩
      · rw [dirPart_unclosed hrest, hbody, Nat.sub_self]
      · rw [dirPart_unclosed hrest, hbody, pieces_of_notMem hslash (List.cons_ne_nil _ _)]
      · rw [entryOf, devName_unclosed hrest]
  · have hcount : countDirs vfs path 0 path ⟨0, 0, false, vfs.dflt⟩ =
        if HasParen path then none
        else some ⟨path.length - (body slash path).length, 0 + pieces slash (body slash path), false,
          vfs.dflt⟩ := countDirs_leading (Nat.zero_add path.length) fun _ => hhead
    rw [hcount, misplaced_plain hhead]
    by_cases hparen : HasParen path
    · exact Or.inl ⟨if_pos hparen, Or.inl hparen⟩
    · rw [if_neg hparen]
      refine Or.inr ⟨_, rfl, not_or.mpr ⟨hparen, slashInDevice_plain hhead⟩, ?_, ?_, ?_⟩
      · rw [dirPart_plain hhead]
      · rw [dirPart_plain hhead, Nat.zero_add]
      · rw [entryOf, devName_plain hhead]

end Count

/-! ## The second pass -/

section Cut

variable {path : List UInt8} {vfs : VfsState φ}

/-- Before the end of a string the inner loop stops at the next slash, or at the end. -/
theorem dirEnd_eq (h0 : 0 ∉ path) : ∀ {fuel i : ℕ}, i ≤ path.length → path.length - i < fuel →
    dirEnd path fuel i = some (i + ((path.drop i).takeWhile (· != slash)).length) := by
  intro fuel
  induction fuel with
  | zero => exact fun _ hfuel => absurd hfuel (Nat.not_lt_zero _)
  | succ fuel ih =>
    intro i hi hfuel
    rcases Nat.eq_or_lt_of_le hi with rfl | hlt
    · rw [dirEnd, charAt, List.getElem?_concat_length, Option.bind_some, List.drop_length]
      rfl
    · have hchar : charAt path i = some path[i] := by
        rw [charAt, List.getElem?_append_left hlt, List.getElem?_eq_getElem hlt]
      rw [dirEnd, hchar, Option.bind_some, List.drop_eq_getElem_cons hlt]
      by_cases hslash : path[i] = slash
      · rw [if_neg fun h => h.1 hslash, List.takeWhile_cons_of_neg (by simp [hslash])]
        rfl
      · have hne : path[i] ≠ 0 := fun h => h0 (h ▸ List.getElem_mem hlt)
        rw [if_pos ⟨hslash, hne⟩, List.takeWhile_cons_of_pos (by simpa using hslash), ih hlt (by omega),
          List.length_cons, Nat.succ_add_eq_add_succ]

/-- **The second pass** cuts off the first names, of which there are enough. -/
theorem cutDirs_eq (h0 : 0 ∉ path) : ∀ {n i : ℕ}, i ≤ path.length →
    n ≤ ((path.drop i).splitOn slash).length →
      cutDirs path n i = some (((path.drop i).splitOn slash).take n) := by
  intro n
  induction n with
  | zero => exact fun _ _ => rfl
  | succ n ih =>
    intro i hi hn
    have htake : (path.drop i).take ((path.drop i).takeWhile (· != slash)).length =
        (path.drop i).takeWhile (· != slash) :=
      (List.prefix_iff_eq_take.mp (List.takeWhile_prefix _)).symm
    rw [cutDirs, dirEnd_eq h0 hi (by omega), Option.bind_some, Nat.add_sub_cancel_left, htake]
    rw [splitOn_eq_cons] at hn ⊢
    rw [List.take_succ_cons]
    split_ifs at hn ⊢ with hmem
    · have hlt := length_takeWhile_lt hmem
      have hrest : path.drop (i + ((path.drop i).takeWhile (· != slash)).length + 1) =
          ((path.drop i).dropWhile (· != slash)).tail := by
        rw [Nat.add_assoc, ← List.drop_drop, drop_takeWhile]
      have hnext := @ih (i + ((path.drop i).takeWhile (· != slash)).length + 1)
      rw [hrest] at hnext
      rw [List.length_drop] at hlt
      rw [hnext (by omega) (Nat.le_of_succ_le_succ hn), Option.map_some]
    · obtain rfl : n = 0 := by simpa using hn
      rfl

end Cut

/-- **`split_dir`**, by the segments of the path. -/
theorem splitDir_eq (vfs : VfsState φ) {path : List UInt8} (h0 : 0 ∉ path) (h : path ≠ [openParen]) :
    (splitDir vfs path = some none ∧ Rejected vfs path) ∨
    ∃ ve, entryOf vfs path = some ve ∧ ¬ Rejected vfs path ∧
      splitDir vfs path = some (some (ve, segments slash (dirPart path))) ∧
      ∃ st, countDirs vfs path 0 path ⟨0, 0, false, vfs.dflt⟩ = some st ∧
        st.dirCount = (segments slash (dirPart path)).length := by
  rcases countDirs_spec vfs h with ⟨hcount, hbad⟩ | ⟨st, hcount, hok, hst⟩
  · refine Or.inl ⟨?_, or_assoc.mp (Or.inl hbad)⟩
    rw [splitDir, hcount]
  · rw [splitDir, hcount]
    dsimp only
    rw [hst.ve]
    cases hve : entryOf vfs path with
    | none => exact Or.inl ⟨rfl, Or.inr (Or.inr hve)⟩
    | some ve =>
      have hdrop : path.drop st.dirStart = body slash (dirPart path) := by
        rw [hst.dirStart]
        exact List.suffix_iff_eq_drop.mp ((List.dropWhile_suffix _).trans (dirPart_suffix path)) |>.symm
      have hcut : cutDirs path st.dirCount st.dirStart = some (segments slash (dirPart path)) := by
        have hle : st.dirStart ≤ path.length := by
          rw [hst.dirStart]
          exact Nat.sub_le _ _
        rw [cutDirs_eq h0 hle (by rw [hdrop, hst.dirCount]; exact pieces_le), hdrop, hst.dirCount, take_pieces]
      refine Or.inr ⟨ve, rfl, ?_, ?_, st, rfl, ?_⟩
      · rw [Rejected, hve, ← or_assoc]
        exact not_or.mpr ⟨hok, Option.some_ne_none ve⟩
      · rw [hcut]
        rfl
      · rw [hst.dirCount, length_segments]

/-- **Splitting a path.** For every path but `(`, the second pass finds as many names as the first has
counted and reads nothing behind the end; the names are the segments of the path, and there are none just
for the paths that are rejected. -/
theorem split_dir_agrees (vfs : VfsState φ) {path : List UInt8} (h0 : 0 ∉ path) (h : path ≠ [openParen]) :
    Splits vfs path := by
  rcases splitDir_eq vfs h0 h with ⟨hnull, hrej⟩ | ⟨ve, hve, hok, hsplit, hcount⟩
  · refine ⟨⟨none, hnull⟩, iff_of_true hnull hrej, fun ve ret hret => ?_⟩
    rw [hnull] at hret
    cases hret
  · refine ⟨⟨_, hsplit⟩, iff_of_false (fun hnull => ?_) hok, fun ve' ret hret => ?_⟩
    · rw [hsplit] at hnull
      cases hnull
    · rw [hsplit] at hret
      cases hret
      exact ⟨hve, rfl, hcount⟩

/-- `(d)/a/b/`, on a device of this name. -/
theorem split_dir_agrees_device : Splits ⟨[⟨[0x64], 1⟩], none⟩
    [0x28, 0x64, 0x29, 0x2f, 0x61, 0x2f, 0x62, 0x2f] :=
  split_dir_agrees ⟨[⟨[0x64], 1⟩], none⟩ (by decide) (by decide)

end RpiBoot
