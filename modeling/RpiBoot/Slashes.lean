import RpiBoot.Directory
import RpiBoot.Paths

/-!
# Runs of slashes in a path

`split_dir` leaves out the slashes at the start of the directories. Of every later run of slashes it makes
names of no characters, which no directory has.

* `vfsFopen`, `vfsOpendir`: the calls of `vfs.c` that split a path.
* `withRun`: a path with a run of slashes in it.
* `OpensAlike`: two paths are split alike, and open the same file and the same directory.
* **`slash_run_iff`**: a run may be replaced by one slash at the start of the directories only.
-/

namespace RpiBoot

open Segments

variable {φ ω ι : Type}

/-- `EFAULT`. -/
def efault : ℤ := -5

/-- The functions of a filesystem that `vfs.c` calls; the state `ω` has `errno`. -/
structure FsOps (φ ω ι : Type) where
  supportsEmptyFname : φ → Bool
  readDirectory : φ → List (List UInt8) → ω → List Dirent × ω
  fopen : φ → Option Dirent → String → ω → Option ι × ω
  setErrno : ℤ → ω → ω

/-- The name of a whole device, `:`. -/
def wholeDevice : List UInt8 := [0x3a]

section Calls

variable (ops : FsOps φ ω ι) (vfs : VfsState φ)

/-- `fopen` of a path that has been split to `p`. -/
def fopenSplit (fs : φ) (p : List (List UInt8)) (mode : String) (w : ω) : Option ι × ω :=
  match p.getLast? with
  | none => openWhole
  | some fname =>
    if p.head?.any (strcmp · wholeDevice = 0) then openWhole
    else
      let dir := ops.readDirectory fs p.dropLast w
      match dir.1.find? fun d => strcmp d.name fname = 0 with
      | none => (none, dir.2)
      | some file => ops.fopen fs (some file) mode dir.2
where
  openWhole : Option ι × ω :=
    if ops.supportsEmptyFname fs then ops.fopen fs none mode w else (none, ops.setErrno efault w)

/-- `fopen(path, mode)`; `none` is a read behind the end of the path. -/
def vfsFopen (path : Option (List UInt8)) (mode : String) (w : ω) : Option (Option ι × ω) :=
  match path with
  | none => some (none, ops.setErrno efault w)
  | some path => (splitDir vfs path).map fun
    | none => (none, ops.setErrno efault w)
    | some (ve, p) => fopenSplit ops ve.fs p mode w

/-- `read_directory(path)`. -/
def vfsReadDirectory (path : List UInt8) (w : ω) : Option (List Dirent × ω) :=
  (splitDir vfs path).map fun
    | none => ([], w)
    | some (ve, p) => ops.readDirectory ve.fs p w

/-- `opendir(name)`. -/
def vfsOpendir (name : List UInt8) (w : ω) : Option (Option DirInfo × ω) :=
  (vfsReadDirectory ops vfs name w).map fun r => (dirInfo r.1, r.2)

end Calls

/-- The path, with `k` slashes between its two parts. -/
def withRun (pre : List UInt8) (k : ℕ) (post : List UInt8) : List UInt8 :=
  pre ++ List.replicate k slash ++ post

/-- The two paths are split to the same names on the same device, and whatever the filesystem does they
open the same file and the same directory. -/
structure OpensAlike (vfs : VfsState φ) (path path' : List UInt8) : Prop where
  splitDir_eq : splitDir vfs path = splitDir vfs path'
  fopen_eq : ∀ {ω ι : Type} (ops : FsOps φ ω ι) mode w,
    vfsFopen ops vfs (some path) mode w = vfsFopen ops vfs (some path') mode w
  opendir_eq : ∀ {ω ι : Type} (ops : FsOps φ ω ι) w, vfsOpendir ops vfs path w = vfsOpendir ops vfs path' w

theorem opensAlike_iff {vfs : VfsState φ} {path path' : List UInt8} :
    OpensAlike vfs path path' ↔ splitDir vfs path = splitDir vfs path' := by
  refine ⟨OpensAlike.splitDir_eq, fun h => ⟨h, fun ops mode w => ?_, fun ops w => ?_⟩⟩
  · rw [vfsFopen, vfsFopen, h]
  · rw [vfsOpendir, vfsOpendir, vfsReadDirectory, vfsReadDirectory, h]

/-! ## Paths with a run -/

section Run

variable {pre post name part : List UInt8} {k : ℕ} {vfs : VfsState φ}

theorem withRun_device : withRun (openParen :: (name ++ closeParen :: part)) k post =
    openParen :: (name ++ closeParen :: withRun part k post) := by
  simp [withRun]

theorem hasParen_withRun : HasParen (withRun pre k post) ↔ HasParen pre ∨ HasParen post := by
  have hrun : ∀ c, c ≠ slash → c ∉ List.replicate k slash := fun c hc hmem =>
    hc (List.eq_of_mem_replicate hmem)
  have hopen := hrun openParen (by decide)
  have hclose := hrun closeParen (by decide)
  simp only [HasParen, withRun, List.mem_append, hopen, hclose, or_false]
  tauto

/-- What a run of slashes leaves alone. -/
structure RunAlike (vfs : VfsState φ) (pre : List UInt8) (k : ℕ) (post : List UInt8) : Prop where
  rejected_iff : Rejected vfs (withRun pre (k + 1) post) ↔ Rejected vfs (withRun pre 1 post)
  entryOf_eq : ¬ Rejected vfs (withRun pre 1 post) →
    entryOf vfs (withRun pre (k + 1) post) = entryOf vfs (withRun pre 1 post)
  dirPart_eq : ¬ Rejected vfs (withRun pre 1 post) → ∀ n,
    dirPart (withRun pre (n + 1) post) = withRun (dirPart pre) (n + 1) post

theorem runAlike (vfs : VfsState φ) (pre : List UInt8) (k : ℕ) (post : List UInt8) :
    RunAlike vfs pre k post := by
  rcases path_cases pre with ⟨name, part, hname, rfl⟩ | ⟨rest, hrest, rfl⟩ | hhead
  · have hentry (n : ℕ) : entryOf vfs (withRun (openParen :: (name ++ closeParen :: part)) n post) =
        findVe vfs name := by
      rw [withRun_device, entryOf, devName_device hname]
    have hrej (n : ℕ) : Rejected vfs (withRun (openParen :: (name ++ closeParen :: part)) n post) ↔
        (openParen ∈ name ∨ HasParen part ∨ HasParen post) ∨ slash ∈ name ∨ findVe vfs name = none := by
      rw [Rejected, hentry, withRun_device, misplaced_device hname, slashInDevice_device hname,
        hasParen_withRun]
    refine ⟨(hrej _).trans (hrej _).symm, fun _ => (hentry _).trans (hentry _).symm, fun _ n => ?_⟩
    rw [withRun_device, dirPart_device hname, dirPart_device hname]
  · -- the run is in the name of a device
    have hslash (n : ℕ) : SlashInDevice (withRun (openParen :: rest) (n + 1) post) := by
      have hall : ∀ x ∈ rest, (x != closeParen) = true := fun x hx => by
        simpa using fun hx' : x = closeParen => hrest (hx' ▸ hx)
      have hrun : withRun (openParen :: rest) (n + 1) post =
          openParen :: (rest ++ slash :: (List.replicate n slash ++ post)) := by
        simp [withRun, List.replicate_succ]
      rw [hrun]
      refine ⟨rfl, ?_⟩
      rw [List.takeWhile_append_of_pos hall, List.takeWhile_cons_of_pos (by decide)]
      exact List.mem_append_right _ List.mem_cons_self
    have hrej (n : ℕ) : Rejected vfs (withRun (openParen :: rest) (n + 1) post) := Or.inr (Or.inl (hslash n))
    exact ⟨iff_of_true (hrej k) (hrej 0), fun h => absurd (hrej 0) h, fun h => absurd (hrej 0) h⟩
  · have hplain (n : ℕ) : (withRun pre (n + 1) post).head? ≠ some openParen := by
      rcases pre with _ | ⟨c, pre⟩
      · rw [withRun, List.nil_append, List.replicate_succ]
        exact fun h => absurd (Option.some.inj h) (by decide)
      · exact hhead
    have hentry (n : ℕ) : entryOf vfs (withRun pre (n + 1) post) = vfs.dflt := by
      rw [entryOf, devName_plain (hplain n)]
    have hrej (n : ℕ) : Rejected vfs (withRun pre (n + 1) post) ↔
        (HasParen pre ∨ HasParen post) ∨ vfs.dflt = none := by
      rw [Rejected, hentry, misplaced_plain (hplain n), hasParen_withRun]
      exact or_congr Iff.rfl (or_iff_right (slashInDevice_plain (hplain n)))
    refine ⟨(hrej _).trans (hrej _).symm, fun _ => (hentry _).trans (hentry _).symm, fun _ n => ?_⟩
    rw [dirPart_plain (hplain n), dirPart_plain hhead]

/-- Two paths are split alike when neither names anything, or they name the same entry and segments. -/
theorem splitDir_withRun_iff (h0 : 0 ∉ pre ++ post) (k : ℕ) :
    splitDir vfs (withRun pre (k + 1) post) = splitDir vfs (withRun pre 1 post) ↔
      Rejected vfs (withRun pre (k + 1) post) ∨
        segments slash (withRun (dirPart pre) (k + 1) post) = segments slash (withRun (dirPart pre) 1 post) := by
  obtain ⟨hrej, hentry, hpart⟩ := runAlike vfs pre k post
  have hclean (n : ℕ) : 0 ∉ withRun pre (n + 1) post := by
    intro hmem
    rcases List.mem_append.mp hmem with hmem | hmem
    · rcases List.mem_append.mp hmem with hmem | hmem
      · exact h0 (List.mem_append_left _ hmem)
      · exact absurd (List.eq_of_mem_replicate hmem) (by decide)
    · exact h0 (List.mem_append_right _ hmem)
  have hne (n : ℕ) : withRun pre (n + 1) post ≠ [openParen] := by
    intro heq
    have hmem : slash ∈ withRun pre (n + 1) post :=
      List.mem_append_left _ (List.mem_append_right _ (List.mem_replicate.mpr ⟨n.succ_ne_zero, rfl⟩))
    rw [heq] at hmem
    exact absurd hmem (by decide)
  rcases splitDir_eq vfs (hclean k) (hne k) with ⟨hnull, hbad⟩ | ⟨ve, hve, hok, hsplit, -⟩
  · rcases splitDir_eq vfs (hclean 0) (hne 0) with ⟨hnull', -⟩ | ⟨ve', -, hok', -⟩
    · exact iff_of_true (hnull.trans hnull'.symm) (Or.inl hbad)
    · exact absurd (hrej.mp hbad) hok'
  · rcases splitDir_eq vfs (hclean 0) (hne 0) with ⟨-, hbad'⟩ | ⟨ve', hve', hok', hsplit', -⟩
    · exact absurd (hrej.mpr hbad') hok
    · rw [hentry hok', hve', Option.some.injEq] at hve
      rw [hsplit, hsplit', hpart hok' k, hpart hok' 0, hve, or_iff_right hok]
      simp

end Run

/-- The names of `a//b`, and of `a/b`. -/
theorem slash_run_broken : ¬ OpensAlike (⟨[], some ⟨[0x64], ()⟩⟩ : VfsState Unit) (withRun [0x61] 2 [0x62])
    (withRun [0x61] 1 [0x62]) := by
  intro h
  have heq := h.splitDir_eq
  revert heq
  decide

/-- **Runs of slashes.** For every path with a run of slashes, the path with one slash in its place is
split alike and opens the same file and directory if and only if the run is of one slash, or the path
names nothing, or only slashes come before the run in the directories. -/
theorem slash_run_iff (vfs : VfsState φ) {pre post : List UInt8} (h0 : 0 ∉ pre ++ post) (k : ℕ) :
    OpensAlike vfs (withRun pre (k + 1) post) (withRun pre 1 post) ↔
      k = 0 ∨ Rejected vfs (withRun pre (k + 1) post) ∨ ∀ c ∈ dirPart pre, c = slash := by
  have hsegments : segments slash (withRun (dirPart pre) (k + 1) post) =
      segments slash (withRun (dirPart pre) 1 post) ↔ k = 0 ∨ ∀ c ∈ dirPart pre, c = slash := segments_run_iff
  rw [opensAlike_iff, splitDir_withRun_iff h0, hsegments, or_left_comm]

/-- `//a` and `/a`. -/
theorem slash_run_iff_leading : OpensAlike (⟨[], some ⟨[0x64], ()⟩⟩ : VfsState Unit) (withRun [] 2 [0x61])
    (withRun [] 1 [0x61]) :=
  (slash_run_iff _ (by decide) 1).mpr (Or.inr (Or.inr fun _ hc => nomatch hc))

end RpiBoot
