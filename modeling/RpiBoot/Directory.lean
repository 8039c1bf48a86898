import RpiBoot.Cstring

/-!
# Directories (`dirent.h`, `vfs.c`)

A directory that has been read is a list of entries; a directory without entries and no directory at
all are the same null pointer. The walk along a path keeps the list of the directory it has reached.

* `walkDirectory`: the walk that the filesystems share. `opendir`, `readdir`: the calls of `vfs.c`.
* `resolve`: the directory that a path names.
* `Opens`: opening and reading a directory, or the error, as the path says.
* **`opens_iff`**: that holds just for the paths that do not end in a directory without entries.
-/

namespace RpiBoot

open Store

/-- `struct dirent`, without the link. -/
structure Dirent where
  name : List UInt8
  clean : 0 ∉ name
  byteSize : ℕ
  isDir : Bool
  opq : ℕ
deriving DecidableEq

/-- `ENOENT`. -/
def enoent : ℤ := -3

/-- `ENOTDIR`. -/
def enotdir : ℤ := -4

variable {σ : Type}

/-- The loop of `fat_read_directory` and `ext2_read_directory` over the entries. -/
def findEntry (name : List UInt8) : List Dirent → Option Dirent
  | [] => none
  | d :: curDir => if strcmp name d.name = 0 then some d else findEntry name curDir

/-- The loop of `fat_read_directory` and `ext2_read_directory` over the path; `readDir` reads one
directory, and may not end. -/
def walkDirectory (readDir : Option Dirent → σ → Option (List Dirent × σ)) :
    List (List UInt8) → List Dirent → ℤ → σ → Option (List Dirent × ℤ × σ)
  | [], curDir, errno, s => some (curDir, errno, s)
  | name :: names, curDir, errno, s =>
    match findEntry name curDir with
    | some d =>
      if !d.isDir then some ([], enotdir, s)
      else (readDir (some d) s).bind fun r => walkDirectory readDir names r.1 errno r.2
    | none => some ([], enoent, s)

/-- `read_directory(fs, name)`. -/
def readDirectory (readDir : Option Dirent → σ → Option (List Dirent × σ)) (name : List (List UInt8))
    (errno : ℤ) (s : σ) : Option (List Dirent × ℤ × σ) :=
  (readDir none s).bind fun r => walkDirectory readDir name r.1 errno r.2

/-- `struct dir_info`. -/
structure DirInfo where
  first : List Dirent
  next : List Dirent

/-- The `struct dir_info` that `opendir` makes of a list of entries. -/
def dirInfo : List Dirent → Option DirInfo
  | [] => none
  | ret => some ⟨ret, ret⟩

/-- `opendir(name)`, of a name that has been split to `p`. -/
def opendir (readDir : Option Dirent → σ → Option (List Dirent × σ)) (p : List (List UInt8))
    (errno : ℤ) (s : σ) : Option (Option DirInfo × ℤ × σ) :=
  (readDirectory readDir p errno s).map fun r => (dirInfo r.1, r.2)

/-- `readdir(dirp)`. -/
def readdir (dirp : DirInfo) : Option Dirent × DirInfo :=
  match dirp.next with
  | [] => (none, dirp)
  | d :: next => (some d, { dirp with next := next })

/-- What `k` calls of `readdir` return. -/
def readdirs : ℕ → DirInfo → List (Option Dirent)
  | 0, _ => []
  | k + 1, dirp => (readdir dirp).1 :: readdirs k (readdir dirp).2

/-! ## Paths -/

/-- The directory that a path names from `dir` on, where `none` is the root; or the error. -/
def resolve (entries : Option Dirent → List Dirent) (dir : Option Dirent) :
    List (List UInt8) → Except ℤ (Option Dirent)
  | [] => .ok dir
  | name :: names =>
    match (entries dir).find? fun d => d.name == name with
    | none => .error enoent
    | some d => if d.isDir then resolve entries (some d) names else .error enotdir

/-- The directories below `dir`. -/
inductive Below (entries : Option Dirent → List Dirent) (dir : Option Dirent) :
    Option Dirent → Prop where
  | self : Below entries dir dir
  | sub {d e} : Below entries dir d → e ∈ entries d → e.isDir = true → Below entries dir (some e)

/-- Every directory of the tree is read, and has the given entries. -/
def ReadsDirs (readDir : Option Dirent → σ → Option (List Dirent × σ)) (inv : σ → Prop)
    (entries : Option Dirent → List Dirent) : Prop :=
  ∀ dir, Below entries none dir → ∀ s, inv s → ∃ s', readDir dir s = some (entries dir, s') ∧ inv s'

/-- The calls find what the path names: on an error there is no directory and `errno` tells why, else
the entries are enumerated once each, in order, and then there are no more. -/
def Opens (readDir : Option Dirent → σ → Option (List Dirent × σ))
    (entries : Option Dirent → List Dirent) (p : List (List UInt8)) (errno : ℤ) (s : σ) : Prop :=
  ∃ dirp errno' s', opendir readDir p errno s = some (dirp, errno', s') ∧
    match resolve entries none p with
    | .error e => dirp = none ∧ errno' = e
    | .ok dir => ∃ di, dirp = some di ∧ ∀ k,
        readdirs ((entries dir).length + k) di = (entries dir).map some ++ List.replicate k none

variable {readDir : Option Dirent → σ → Option (List Dirent × σ)} {inv : σ → Prop}
  {entries : Option Dirent → List Dirent} {dir : Option Dirent} {p : List (List UInt8)}
  {errno : ℤ} {s : σ}

theorem findEntry_eq {name : List UInt8} (h : 0 ∉ name) (l : List Dirent) :
    findEntry name l = l.find? fun d => d.name == name := by
  induction l with
  | nil => rfl
  | cons d l ih =>
    rw [findEntry, ih, List.find?_cons]
    by_cases hd : d.name = name
    · have hbeq : (d.name == name) = true := beq_iff_eq.mpr hd
      rw [if_pos ((strcmp_eq_zero h d.clean).mpr hd.symm), hbeq]
    · have hbeq : (d.name == name) = false := beq_eq_false_iff_ne.mpr hd
      rw [if_neg fun h₀ => hd ((strcmp_eq_zero h d.clean).mp h₀).symm, hbeq]

/-- **The walk** ends at the entries of the directory that the path names. -/
theorem walkDirectory_spec (errno : ℤ) (hread : ReadsDirs readDir inv entries)
    (hdir : Below entries none dir) (hs : inv s) (hp : ∀ name ∈ p, 0 ∉ name) :
    ∃ s', inv s' ∧ walkDirectory readDir p (entries dir) errno s =
      match resolve entries dir p with
      | .error e => some ([], e, s')
      | .ok dir' => some (entries dir', errno, s') := by
  induction p generalizing dir s with
  | nil => exact ⟨s, hs, rfl⟩
  | cons name p ih =>
    rw [walkDirectory, findEntry_eq (hp name List.mem_cons_self), resolve]
    cases hfind : (entries dir).find? fun d => d.name == name with
    | none => exact ⟨s, hs, rfl⟩
    | some d =>
      dsimp only
      by_cases hd : d.isDir = true
      · -- a directory: its entries take the place of those searched
        have hbelow := hdir.sub (List.mem_of_find?_eq_some hfind) hd
        obtain ⟨s₁, hr, hs₁⟩ := hread (some d) hbelow s hs
        obtain ⟨s', hs', hw⟩ := ih hbelow hs₁ fun n hn => hp n (List.mem_cons_of_mem name hn)
        rw [hr, Option.bind_some, hw, hd]
        exact ⟨s', hs', rfl⟩
      · rw [Bool.not_eq_true] at hd
        rw [hd]
        exact ⟨s, hs, rfl⟩

/-- The calls of `readdir` go through the entries. -/
theorem readdirs_eq (first l : List Dirent) (k : ℕ) :
    readdirs (l.length + k) ⟨first, l⟩ = l.map some ++ List.replicate k none := by
  induction l with
  | nil =>
    induction k with
    | zero => rfl
    | succ k ih => exact congrArg (none :: ·) ih
  | cons d l ih =>
    rw [List.length_cons, Nat.add_right_comm, readdirs]
    exact congrArg (some d :: ·) ih

/-- **Opening a directory** goes as the path says if and only if the path does not end in a directory
without entries. -/
theorem opens_iff (hread : ReadsDirs readDir inv entries) (hs : inv s) (hp : ∀ name ∈ p, 0 ∉ name) :
    Opens readDir entries p errno s ↔ ∀ dir, resolve entries none p = .ok dir → entries dir ≠ [] := by
  obtain ⟨s₁, hr, hs₁⟩ := hread none Below.self s hs
  obtain ⟨s', -, hw⟩ := walkDirectory_spec errno hread Below.self hs₁ hp
  have hopen : opendir readDir p errno s = match resolve entries none p with
      | .error e => some (none, e, s')
      | .ok dir => some (dirInfo (entries dir), errno, s') := by
    rw [opendir, readDirectory, hr, Option.bind_some, hw]
    cases resolve entries none p <;> rfl
  unfold Opens
  rw [hopen]
  cases hres : resolve entries none p with
  | error e => exact ⟨fun _ dir h => (nomatch h), fun _ => ⟨none, e, s', rfl, rfl, rfl⟩⟩
  | ok dir =>
    simp only [Except.ok.injEq, forall_eq']
    constructor
    · rintro ⟨dirp, errno', s'', hr, di, hdi, -⟩ hnil
      -- no entries are no directory
      rw [hnil] at hr
      obtain rfl : none = dirp := congrArg Prod.fst (Option.some.inj hr)
      exact nomatch hdi
    · intro hne
      obtain ⟨d, l, hl⟩ := List.exists_cons_of_ne_nil hne
      rw [hl]
      exact ⟨_, errno, s', rfl, _, rfl, readdirs_eq (d :: l) (d :: l)⟩

end RpiBoot
