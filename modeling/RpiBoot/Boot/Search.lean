import Mathlib.Data.List.Find
import Mathlib.Data.List.Induction
import RpiBoot.Boot.Model

/-!
# Where the configuration is looked for

The paths that `find_and_run_config` puts together are taken apart again by `split_dir`. What is left is a
list of files on filesystems, in the order in which these were registered.

* `lastNamed`, `Candidate`, `candidates`: the files that are tried.
* `firstOpened`: the first of them that opens.
* `registerAll_eq`: what a run of `vfs_register` leaves.
* `fopen_default`, `fopen_device`: a path is split to the file that it stands for.
* **`find_config_order`**: the search opens the first candidate, and touches none behind it.
-/

namespace RpiBoot

open Segments

variable {φ ω ι : Type}

/-- A file that is tried: its path, and the filesystem and names that this stands for, if any. -/
structure Candidate (φ : Type) where
  path : List UInt8
  target : Option (φ × List (List UInt8))

/-- Opening a candidate. -/
def Candidate.fopen (ops : FsOps φ ω ι) (c : Candidate φ) (w : ω) : Option ι × ω :=
  match c.target with
  | none => (none, ops.setErrno efault w)
  | some (fs, p) => fopenSplit ops fs p "r" w

/-- The files of `boot_cfg_names` on one filesystem. -/
def candidatesOn (ve : Option (VfsEntry φ)) (pathOf : List UInt8 → List UInt8) : List (Candidate φ) :=
  bootCfgNames.map fun fname => ⟨pathOf fname, ve.map fun ve => (ve.fs, segments slash fname)⟩

/-- The filesystem that a device name stands for in a path: the last one that was registered for it. A
name with a parenthesis or a slash stands for none. -/
def lastNamed (regs : List (VfsEntry φ)) (dev : List UInt8) : Option (VfsEntry φ) :=
  if HasParen dev ∨ slash ∈ dev then none else regs.reverse.find? fun ve => ve.deviceName == dev

/-- The files that are tried: those on the filesystem that was registered first, and those on the devices
of the first 255 registrations. -/
def candidates (regs : List (VfsEntry φ)) : List (Candidate φ) :=
  candidatesOn regs.head? id ++ (regs.take (maxDevNames - 1)).flatMap fun ve =>
    candidatesOn (lastNamed regs ve.deviceName) (devicePath ve.deviceName)

/-- The first candidate that opens. -/
def firstOpened (ops : FsOps φ ω ι) : List (Candidate φ) → ω → Option (List UInt8 × ι) × ω
  | [], w => (none, w)
  | c :: cs, w =>
    match (c.fopen ops w).1 with
    | some f => (some (c.path, f), (c.fopen ops w).2)
    | none => firstOpened ops cs (c.fopen ops w).2

/-! ## Registration -/

/-- A list that grows until it has `n` elements. -/
theorem take_concat {α : Type} (l : List α) (x : α) (n : ℕ) :
    (l ++ [x]).take n = if l.length < n then l.take n ++ [x] else l.take n := by
  rw [List.take_append]
  by_cases h : l.length < n
  · rw [if_pos h, List.take_of_length_le (show [x].length ≤ n - l.length from Nat.sub_pos_of_lt h)]
  · rw [if_neg h, Nat.sub_eq_zero_of_le (not_lt.mp h), List.take_zero, List.append_nil]

/-- **A run of `vfs_register`** leaves the entries in reverse order, the first one as the default, and the
first 255 device names. -/
theorem registerAll_eq (regs : List (VfsEntry φ)) : VfsTable.registerAll regs =
    ⟨⟨regs.reverse, regs.head?⟩, (regs.take (maxDevNames - 1)).map VfsEntry.deviceName⟩ := by
  induction regs using List.reverseRec with
  | nil => rfl
  | append_singleton regs ve ih =>
    have hfull : ((regs.take (maxDevNames - 1)).map VfsEntry.deviceName).length < maxDevNames - 1 ↔
        regs.length < maxDevNames - 1 := by
      rw [List.length_map, List.length_take]
      omega
    have hnames : ((regs ++ [ve]).take (maxDevNames - 1)).map VfsEntry.deviceName =
        if regs.length < maxDevNames - 1 then
          (regs.take (maxDevNames - 1)).map VfsEntry.deviceName ++ [ve.deviceName]
        else (regs.take (maxDevNames - 1)).map VfsEntry.deviceName := by
      rw [take_concat, apply_ite (List.map VfsEntry.deviceName), List.map_append]
      rfl
    rw [VfsTable.registerAll, List.foldl_append, ← VfsTable.registerAll, ih, hnames]
    simp only [List.foldl_cons, List.foldl_nil, VfsTable.vfsRegister, VfsTable.vfsAdd, hfull,
      List.reverse_append, List.reverse_singleton, List.singleton_append]
    cases regs <;> rfl

/-! ## Paths -/

theorem bootCfgNames_plain {fname : List UInt8} (h : fname ∈ bootCfgNames) :
    0 ∉ fname ∧ ¬ HasParen fname ∧ fname.head? = some slash := by
  revert fname
  decide

section Candidates

variable {vfs : VfsState φ} {fname dev : List UInt8} (ops : FsOps φ ω ι) (w : ω)

/-- `fopen` of a path that is split or rejected. -/
theorem vfsFopen_of_split {path : List UInt8} (h0 : 0 ∉ path) (hne : path ≠ [openParen]) :
    ∃ target, (Rejected vfs path → target = none) ∧
      (¬ Rejected vfs path → target = (entryOf vfs path).map fun ve => (ve.fs, segments slash (dirPart path))) ∧
      vfsFopen ops vfs (some path) "r" w = some (Candidate.fopen ops ⟨path, target⟩ w) := by
  rcases splitDir_eq vfs h0 hne with ⟨hnull, hrej⟩ | ⟨ve, hve, hok, hsplit, -⟩
  · exact ⟨none, fun _ => rfl, fun h => absurd hrej h, by rw [vfsFopen, hnull]; rfl⟩
  · exact ⟨some (ve.fs, segments slash (dirPart path)), fun h => absurd h hok,
      fun _ => by rw [hve, Option.map_some], by rw [vfsFopen, hsplit]; rfl⟩

/-- A file on the default device. -/
theorem fopen_default (hf : fname ∈ bootCfgNames) : vfsFopen ops vfs (some fname) "r" w =
    some (Candidate.fopen ops ⟨fname, vfs.dflt.map fun ve => (ve.fs, segments slash fname)⟩ w) := by
  obtain ⟨h0, hparen, hhead⟩ := bootCfgNames_plain hf
  have hplain : fname.head? ≠ some openParen := by
    rw [hhead]
    decide
  have hne : fname ≠ [openParen] := by
    rintro rfl
    exact hplain rfl
  have hentry : entryOf vfs fname = vfs.dflt := by rw [entryOf, devName_plain hplain]
  have hrej : Rejected vfs fname ↔ vfs.dflt = none := by
    rw [Rejected, hentry, misplaced_plain hplain]
    exact ⟨fun h => (h.resolve_left hparen).resolve_left (slashInDevice_plain hplain),
      fun h => Or.inr (Or.inr h)⟩
  obtain ⟨target, hbad, hok, hopen⟩ := @vfsFopen_of_split φ ω ι vfs ops w fname h0 hne
  rw [hopen]
  cases hd : vfs.dflt with
  | none => rw [hbad (hrej.mpr hd), Option.map_none]
  | some ve => rw [hok (mt hrej.mp (by rw [hd]; exact Option.some_ne_none ve)), hentry, hd, dirPart_plain hplain]

/-- A file on a device that has a name. -/
theorem fopen_device (hf : fname ∈ bootCfgNames) (hdev : 0 ∉ dev) :
    vfsFopen ops vfs (some (devicePath dev fname)) "r" w =
      some (Candidate.fopen ops ⟨devicePath dev fname,
        (if HasParen dev ∨ slash ∈ dev then none else findVe vfs dev).map
          fun ve => (ve.fs, segments slash fname)⟩ w) := by
  obtain ⟨h0, hparen, hhead⟩ := bootCfgNames_plain hf
  have h0' : 0 ∉ devicePath dev fname := by
    have : (0 : UInt8) ≠ openParen ∧ (0 : UInt8) ≠ closeParen := by decide
    simp [devicePath, h0, hdev, this.1, this.2]
  have hne : devicePath dev fname ≠ [openParen] := by simp [devicePath]
  obtain ⟨target, hbad, hok, hopen⟩ := @vfsFopen_of_split φ ω ι vfs ops w _ h0' hne
  rw [hopen]
  by_cases hclose : closeParen ∈ dev
  · -- the name ends at its first closing parenthesis, and the second one closes nothing
    obtain ⟨name, rest, hsplit, hname⟩ := List.eq_append_cons_of_mem hclose
    have hpath : devicePath dev fname = openParen :: (name ++ closeParen :: (rest ++ closeParen :: fname)) := by
      rw [devicePath, hsplit]
      simp
    have hrej : Rejected vfs (devicePath dev fname) := by
      rw [Rejected, hpath, misplaced_device hname]
      exact Or.inl (Or.inr (Or.inr (by simp)))
    have hbadName : HasParen dev ∨ slash ∈ dev := Or.inl (Or.inr hclose)
    rw [hbad hrej, if_pos hbadName, Option.map_none]
  · have hentry : entryOf vfs (devicePath dev fname) = findVe vfs dev := by
      rw [entryOf, devicePath, devName_device hclose]
    have hrej : Rejected vfs (devicePath dev fname) ↔
        (HasParen dev ∨ slash ∈ dev) ∨ findVe vfs dev = none := by
      rw [Rejected, hentry, devicePath, misplaced_device hclose, slashInDevice_device hclose]
      simp only [HasParen] at hparen ⊢
      tauto
    by_cases hname : HasParen dev ∨ slash ∈ dev
    · rw [hbad (hrej.mpr (Or.inl hname)), if_pos hname, Option.map_none]
    · rw [if_neg hname]
      cases hve : findVe vfs dev with
      | none => rw [hbad (hrej.mpr (Or.inr hve)), Option.map_none]
      | some ve =>
        have hgood : ¬ Rejected vfs (devicePath dev fname) := fun h =>
          (hrej.mp h).elim hname fun h => Option.some_ne_none ve (hve.symm.trans h)
        rw [hok hgood, hentry, hve, devicePath, dirPart_device hclose]

end Candidates

/-! ## The search -/

section Search

variable (ops : FsOps φ ω ι)

theorem firstOpened_append (cs cs' : List (Candidate φ)) (w : ω) :
    firstOpened ops (cs ++ cs') w =
      match (firstOpened ops cs w).1 with
      | some f => (some f, (firstOpened ops cs w).2)
      | none => firstOpened ops cs' (firstOpened ops cs w).2 := by
  induction cs generalizing w with
  | nil => rfl
  | cons c cs ih =>
    rw [List.cons_append, firstOpened, firstOpened]
    cases (c.fopen ops w).1 with
    | some f => rfl
    | none => exact ih _

/-- A loop over file names tries the candidates of these paths. -/
theorem findCfg_eq {fopen : List UInt8 → ω → Option (Option ι × ω)} {pathOf : List UInt8 → List UInt8}
    {target : List UInt8 → Option (φ × List (List UInt8))} {fnames : List (List UInt8)}
    (h : ∀ fname ∈ fnames, ∀ w,
      fopen (pathOf fname) w = some (Candidate.fopen ops ⟨pathOf fname, target fname⟩ w))
    (w : ω) : findCfg fopen (fnames.map pathOf) w =
      some (firstOpened ops (fnames.map fun fname => ⟨pathOf fname, target fname⟩) w) := by
  induction fnames generalizing w with
  | nil => rfl
  | cons fname fnames ih =>
    rw [List.map_cons, List.map_cons, findCfg, h fname List.mem_cons_self, Option.bind_some, firstOpened]
    cases (Candidate.fopen ops ⟨pathOf fname, target fname⟩ w).1 with
    | some f => rfl
    | none => exact ih (fun fname' hf => h fname' (List.mem_cons_of_mem fname hf)) _

variable {regs : List (VfsEntry φ)}

theorem findVe_registerAll (hclean : ∀ ve ∈ regs, 0 ∉ ve.deviceName) {dev : List UInt8} (hdev : 0 ∉ dev) :
    findVe (VfsTable.registerAll regs).toVfsState dev =
      regs.reverse.find? fun ve => ve.deviceName == dev := by
  rw [registerAll_eq, findVe]
  refine List.find?_congr fun ve hve => ?_
  rw [Bool.eq_iff_iff, decide_eq_true_iff, beq_iff_eq]
  exact strcmp_eq_zero (hclean ve (List.mem_reverse.mp hve)) hdev

/-- The loop over the devices tries the candidates on them. -/
theorem findOnDevices_eq (hclean : ∀ ve ∈ regs, 0 ∉ ve.deviceName) {devs : List (VfsEntry φ)}
    (hdevs : ∀ ve ∈ devs, 0 ∉ ve.deviceName) (w : ω) :
    findOnDevices (fun path => vfsFopen ops (VfsTable.registerAll regs).toVfsState (some path) "r")
        (devs.map VfsEntry.deviceName) w =
      some (firstOpened ops (devs.flatMap fun ve =>
        candidatesOn (lastNamed regs ve.deviceName) (devicePath ve.deviceName)) w) := by
  induction devs generalizing w with
  | nil => rfl
  | cons ve devs ih =>
    have hve := hdevs ve List.mem_cons_self
    have hfound : (if HasParen ve.deviceName ∨ slash ∈ ve.deviceName then none
        else findVe (VfsTable.registerAll regs).toVfsState ve.deviceName) = lastNamed regs ve.deviceName := by
      rw [findVe_registerAll hclean hve]
      rfl
    rw [List.map_cons, List.flatMap_cons, findOnDevices, firstOpened_append,
      findCfg_eq ops (fun fname hf w => fopen_device ops w hf hve), Option.bind_some, hfound]
    change (match (firstOpened ops (candidatesOn _ _) w).1 with
      | some f => _
      | none => _) = _
    cases (firstOpened ops (candidatesOn (lastNamed regs ve.deviceName) (devicePath ve.deviceName)) w).1 with
    | some f => rfl
    | none => exact ih (fun ve' hve' => hdevs ve' (List.mem_cons_of_mem ve hve')) _

/-- The search opens the candidates. -/
theorem findConfig_eq (hclean : ∀ ve ∈ regs, 0 ∉ ve.deviceName) (w : ω) :
    findConfig ops (VfsTable.registerAll regs) w = some (firstOpened ops (candidates regs) w) := by
  have hdflt : (VfsTable.registerAll regs).toVfsState.dflt = regs.head? := by rw [registerAll_eq]
  have hdefault : findCfg (fun path => vfsFopen ops (VfsTable.registerAll regs).toVfsState (some path) "r")
      (bootCfgNames.map id) w = some (firstOpened ops (candidatesOn regs.head? id) w) := by
    rw [← hdflt]
    exact findCfg_eq ops (fun fname hf w => fopen_default ops w hf) w
  rw [List.map_id] at hdefault
  have hnames : (VfsTable.registerAll regs).deviceNames =
      (regs.take (maxDevNames - 1)).map VfsEntry.deviceName := by rw [registerAll_eq]
  rw [findConfig, hdefault, Option.bind_some, candidates, firstOpened_append]
  change (match (firstOpened ops (candidatesOn regs.head? id) w).1 with
    | some f => _
    | none => _) = _
  cases (firstOpened ops (candidatesOn regs.head? id) w).1 with
  | some f => rfl
  | none =>
    rw [hnames]
    exact findOnDevices_eq ops hclean (fun ve hve => hclean ve (List.mem_of_mem_take hve)) _

/-- **The order of the search.** After any filesystems have been registered, one after another, the search
opens the candidates in their order up to the first one that opens: on the filesystem registered first, and
then on the devices of the first 255 registrations, of which a name stands for the last one that has it.
Nothing is read behind the end of a path, and no filesystem is asked for anything else. -/
theorem find_config_order (hclean : ∀ ve ∈ regs, 0 ∉ ve.deviceName) (w : ω) :
    findConfig ops (VfsTable.registerAll regs) w = some (firstOpened ops (candidates regs) w) :=
  findConfig_eq ops hclean w

/-- Two devices `a` and `b`, of which only the second one has a file `/boot/rpi_boot.cfg`. -/
def twoDevices : FsOps Bool ℤ Unit where
  supportsEmptyFname _ := false
  readDirectory fs p w :=
    if fs ∧ p = [[0x62, 0x6f, 0x6f, 0x74]] then
      ([⟨[0x72, 0x70, 0x69, 0x5f, 0x62, 0x6f, 0x6f, 0x74, 0x2e, 0x63, 0x66, 0x67], by simp, 0, false, 2⟩], w)
    else ([], enoent)
  fopen _ _ _ w := (some (), w)
  setErrno e _ := e

theorem find_config_order_twoDevices :
    findConfig twoDevices (VfsTable.registerAll [⟨[0x61], false⟩, ⟨[0x62], true⟩]) 0 =
      some (firstOpened twoDevices (candidates [⟨[0x61], false⟩, ⟨[0x62], true⟩]) 0) :=
  find_config_order twoDevices (by decide) 0

/-- **The first candidate that is there**, when each of them opens as the state says that it is there. -/
theorem firstOpened_spec {κ : Type} {inv : ω → Prop} {cand : κ → Candidate φ} {has : κ → Option ι} {cs : List κ}
    (h : ∀ c ∈ cs, ∀ w, inv w → ∃ w', (cand c).fopen ops w = (has c, w') ∧ inv w') {w : ω} (hw : inv w) :
    ∃ w', firstOpened ops (cs.map cand) w =
      (cs.findSome? fun c => (has c).map ((cand c).path, ·), w') ∧ inv w' := by
  induction cs generalizing w with
  | nil => exact ⟨w, rfl, hw⟩
  | cons c cs ih =>
    obtain ⟨w₁, hopen, hw₁⟩ := h c List.mem_cons_self w hw
    rw [List.map_cons, firstOpened, hopen, List.findSome?_cons]
    cases has c with
    | some f => exact ⟨w₁, rfl, hw₁⟩
    | none => exact ih (fun c' hc' => h c' (List.mem_cons_of_mem c hc')) hw₁

end Search

/-! ## Renaming filesystems -/

section Map

variable {ψ : Type} (g : φ → ψ)

/-- The entry, with another representation of the filesystem. -/
def VfsEntry.map (ve : VfsEntry φ) : VfsEntry ψ := ⟨ve.deviceName, g ve.fs⟩

/-- The candidate, with another representation of the filesystem. -/
def Candidate.map (c : Candidate φ) : Candidate ψ := ⟨c.path, c.target.map fun t => (g t.1, t.2)⟩

theorem candidatesOn_map (ve : Option (VfsEntry φ)) (pathOf : List UInt8 → List UInt8) :
    candidatesOn (ve.map (VfsEntry.map g)) pathOf = (candidatesOn ve pathOf).map (Candidate.map g) := by
  rw [candidatesOn, candidatesOn, List.map_map]
  cases ve <;> rfl

theorem lastNamed_map (regs : List (VfsEntry φ)) (dev : List UInt8) :
    lastNamed (regs.map (VfsEntry.map g)) dev = (lastNamed regs dev).map (VfsEntry.map g) := by
  unfold lastNamed
  rw [← List.map_reverse, List.find?_map, apply_ite (Option.map (VfsEntry.map g))]
  rfl

theorem candidates_map (regs : List (VfsEntry φ)) :
    candidates (regs.map (VfsEntry.map g)) = (candidates regs).map (Candidate.map g) := by
  unfold candidates
  rw [List.map_append, List.head?_map, candidatesOn_map, List.map_flatMap, ← List.map_take,
    List.flatMap_map]
  refine congrArg _ (List.flatMap_congr fun ve _ => ?_)
  change candidatesOn (lastNamed (regs.map (VfsEntry.map g)) ve.deviceName) _ = _
  rw [lastNamed_map, candidatesOn_map]
  rfl

end Map

/-- Every candidate is on a registered filesystem, and its names are those of a configuration file. -/
theorem mem_candidates {regs : List (VfsEntry φ)} {c : Candidate φ} (hc : c ∈ candidates regs) {fs : φ}
    {p : List (List UInt8)} (ht : c.target = some (fs, p)) :
    (∃ ve ∈ regs, ve.fs = fs) ∧ ∃ fname ∈ bootCfgNames, p = segments slash fname := by
  have hon {ve : Option (VfsEntry φ)} {pathOf : List UInt8 → List UInt8} (hc : c ∈ candidatesOn ve pathOf) :
      (∃ e ∈ ve, e.fs = fs) ∧ ∃ fname ∈ bootCfgNames, p = segments slash fname := by
    obtain ⟨fname, hf, rfl⟩ := List.mem_map.mp hc
    obtain ⟨e, he, heq⟩ := Option.map_eq_some_iff.mp ht
    exact ⟨⟨e, he, congrArg Prod.fst heq⟩, fname, hf, (congrArg Prod.snd heq).symm⟩
  rcases List.mem_append.mp hc with hc | hc
  · obtain ⟨⟨e, he, hfs⟩, hp⟩ := hon hc
    exact ⟨⟨e, List.mem_of_mem_head? he, hfs⟩, hp⟩
  · obtain ⟨ve, -, hc⟩ := List.mem_flatMap.mp hc
    obtain ⟨⟨e, he, hfs⟩, hp⟩ := hon hc
    refine ⟨⟨e, ?_, hfs⟩, hp⟩
    unfold lastNamed at he
    split_ifs at he
    · exact nomatch he
    · exact List.mem_reverse.mp (List.mem_of_find?_eq_some he)

end RpiBoot
