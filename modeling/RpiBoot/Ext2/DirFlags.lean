import RpiBoot.Ext2.DirList

/-!
# The directory flags of `ext2_read_dir`

On a volume with entry types the flag `is_dir` is taken from the record, and else from the mode of the
inode, of which bit `0x2000` is looked at. A directory has the format `0x4000`.

* `isDirMode`: the format of a directory. `flagged_iff`: what bit `0x2000` says of it.
* `DirList.Holds`, `holds_foldl`: the nodes of the listed entries stay as they have been filled in.
* **`ext2_dir_flags_iff`**: the flags agree with the modes if and only if the volume has entry types, or
  every listed entry is neither a directory nor has bit `0x2000`.
-/

namespace RpiBoot

open Store LinkedList

/-- The mode has the format of a directory. -/
def isDirMode (mode : ℕ) : Prop := mode &&& 0xf000 = 0x4000

instance (mode : ℕ) : Decidable (isDirMode mode) := inferInstanceAs (Decidable (_ = _))

/-- Bit `0x2000` tells the directories just among modes that are none and have it clear. -/
theorem flagged_iff (mode : ℕ) : ((mode &&& 0x2000 != 0) = true ↔ isDirMode mode) ↔
    mode &&& 0x2000 = 0 ∧ ¬ isDirMode mode := by
  have hbit : mode &&& 0x2000 = mode &&& 0xf000 &&& 0x2000 := by
    rw [Nat.and_assoc, show (0xf000 &&& 0x2000 : ℕ) = 0x2000 by decide]
  rw [bne_iff_ne]
  constructor
  · intro h
    by_contra hno
    have hdir : isDirMode mode := by
      by_contra hn
      exact hno ⟨not_not.mp fun h0 => hn (h.mp h0), hn⟩
    -- a directory has the bit clear
    rw [isDirMode] at hdir
    exact h.mpr hdir (by rw [hbit, hdir]; rfl)
  · rintro ⟨h0, hn⟩
    exact iff_of_false (fun hne => hne h0) hn

/-- The nodes of the list have the given contents. -/
def DirList.Holds (st : DirList) (l : List (ℕ × Dirent)) : Prop :=
  ∀ n ∈ l, ∃ next, st.heap n.1 = some (n.2, next)

variable {addr : ℕ → ℕ} {st : DirList} {l : List (ℕ × Dirent)} {ds : List Dirent}

theorem append_heap {p : ℕ} (hp : p ≠ addr st.mallocs) {d : Dirent} {next : ℕ}
    (h : st.heap p = some (d, next)) : ∃ next', (st.append addr).heap p = some (d, next') := by
  have halloc : (st.alloc addr).heap p = some (d, next) := (Function.update_of_ne hp _ _).trans h
  obtain ⟨-, ha⟩ | ⟨-, -, ha⟩ | ⟨-, n, hn, ha⟩ := append_cases addr st
  · exact ⟨next, by rw [ha]; exact halloc⟩
  · exact ⟨next, by rw [ha]; exact halloc⟩
  · rw [ha]
    by_cases hprev : p = st.prev
    · rw [← hprev, halloc] at hn
      obtain rfl := Option.some.inj hn
      exact ⟨addr st.mallocs, by rw [hprev]; exact Function.update_self ..⟩
    · exact ⟨next, (Function.update_of_ne hprev _ _).trans halloc⟩

/-- An entry is added elsewhere. -/
theorem holds_add (h : st.Holds l) (hnew : addr st.mallocs ∉ l.map Prod.fst) (d : Dirent) :
    (st.add addr d).Holds (l ++ if d.name ∈ specialNames then [] else [(addr st.mallocs, d)]) := by
  have hne : ∀ n ∈ l, n.1 ≠ addr st.mallocs := fun n hn heq =>
    hnew (List.mem_map.mpr ⟨n, hn, heq⟩)
  have hkeep : ∀ n ∈ l, ∃ next, (st.append addr).heap n.1 = some (n.2, next) := fun n hn => by
    obtain ⟨next, hnode⟩ := h n hn
    exact append_heap (hne n hn) hnode
  unfold DirList.add
  intro n hn
  split_ifs at hn ⊢ with hspecial
  · rw [List.append_nil] at hn
    obtain ⟨next, hnode⟩ := hkeep n hn
    exact ⟨next, (Function.update_of_ne (hne n hn) _ _).trans hnode⟩
  · rcases List.mem_append.mp hn with hn | hn
    · obtain ⟨next, hnode⟩ := hkeep n hn
      exact ⟨next, (Function.update_of_ne (hne n hn) _ _).trans hnode⟩
    · obtain rfl := List.mem_singleton.mp hn
      exact ⟨0, Function.update_self ..⟩

/-- **The nodes of the listed entries.** -/
theorem holds_foldl (h : MallocFresh addr (ds.map (·.name))) :
    (ds.foldl (DirList.add addr) .empty).Holds (keptNodes addr 0 ds) := by
  induction ds using List.reverseRecOn with
  | nil => exact fun n hn => absurd hn List.not_mem_nil
  | append_singleton ds d ih =>
    have hinit : MallocFresh addr (ds.map (·.name)) := by
      rw [List.map_append] at h
      exact h.init
    have hnew := h.notMem
    rw [← (foldl_add_spec hinit).1] at hnew
    have hadd := holds_add (ih hinit) hnew d
    rw [(foldl_add_spec hinit).1] at hadd
    rwa [List.foldl_append, keptNodes_concat, Nat.zero_add]

/-! ## Directories -/

variable {σ : Type} {fs : Ext2Fs σ} {inv : σ → Prop} {read : ℕ → ℕ → ℕ × Mem} {typed : Bool}
  {rs : List DirRecord}

/-- The node of every listed record has the flag that the mode of its inode asks for. -/
def DirList.FlagsAgree (fs : Ext2Fs σ) (read : ℕ → ℕ → ℕ × Mem) (addr : ℕ → ℕ) (st : DirList)
    (rs : List DirRecord) : Prop :=
  ∀ k r, rs[k]? = some r → ¬ r.Special → ∃ n mode, st.heap (addr k) = some n ∧
    fs.mode read r.inode = some mode ∧ (n.1.isDir = true ↔ isDirMode mode)

/-- The entry types agree with the modes. -/
def TypesAgree (fs : Ext2Fs σ) (read : ℕ → ℕ → ℕ × Mem) (rs : List DirRecord) : Prop :=
  ∀ r ∈ rs, ¬ r.Special → ∃ mode, fs.mode read r.inode = some mode ∧ (r.fileType = 2 ↔ isDirMode mode)

/-- The flags are those of the records. -/
theorem flagsAgree_iff (h : MallocFresh addr (rs.map (·.name))) :
    ((rs.map (·.dirent fs read typed)).foldl (DirList.add addr) .empty).FlagsAgree fs read addr rs ↔
      ∀ r ∈ rs, ¬ r.Special → ∃ mode, fs.mode read r.inode = some mode ∧
        (r.isDir fs read typed = true ↔ isDirMode mode) := by
  have hnames : (rs.map (·.dirent fs read typed)).map (·.name) = rs.map (·.name) := map_dirent_name
  rw [← hnames] at h
  have hnode : ∀ k r, rs[k]? = some r → ¬ r.Special → ∃ next,
      ((rs.map (·.dirent fs read typed)).foldl (DirList.add addr) .empty).heap (addr k) =
        some (r.dirent fs read typed, next) := fun k r hr hno => by
    refine holds_foldl h (addr k, r.dirent fs read typed) (mem_keptNodes.mpr ⟨k, ?_, hno, ?_⟩)
    · rw [List.getElem?_map, hr]
      rfl
    · rw [Nat.zero_add]
  constructor
  · intro hflags r hr hno
    obtain ⟨k, hk⟩ := List.getElem?_of_mem hr
    obtain ⟨n, mode, hn, hmode, hdir⟩ := hflags k r hk hno
    obtain ⟨next, hnext⟩ := hnode k r hk hno
    obtain rfl := Option.some.inj (hn.symm.trans hnext)
    exact ⟨mode, hmode, hdir⟩
  · intro hdirs k r hk hno
    obtain ⟨mode, hmode, hdir⟩ := hdirs r (List.mem_of_getElem? hk) hno
    obtain ⟨next, hnext⟩ := hnode k r hk hno
    exact ⟨_, mode, hnext, hmode, hdir⟩

/-- A directory without entry types, with a link `dir` to itself. -/
def subDirVolume : Mem := dirVolume (dirRecordBytes 2 1024 [0x64, 0x69, 0x72] 0)

def subRecord : DirRecord := ⟨2, [0x64, 0x69, 0x72], 0, dotRecord.inode_ne, by decide⟩

/-- `dir` is a directory, and is not flagged as one. -/
theorem ext2_dir_flags_wrong :
    (∃ s', ext2Init (storeDevice 64) subDirVolume = (.ok (dirFs subDirVolume), s')) ∧
      typeFlagsUsed (window subDirVolume 1024) = false ∧
      WellFormedDir (dirFs subDirVolume) (readAt (storeDevice 64) subDirVolume) false subDirVolume none
        [subRecord] ∧
      MallocFresh (fun _ => 0x1000) ([subRecord].map (·.name)) ∧
      ¬ ∃ st s', ext2ReadDir (dirFs subDirVolume) false (fun _ => 0x1000) none subDirVolume = .ok (st, s') ∧
        st.FlagsAgree (dirFs subDirVolume) (readAt (storeDevice 64) subDirVolume) (fun _ => 0x1000)
          [subRecord] := by
  refine ⟨dirFs_init (by decide +kernel), by decide +kernel, ?_, ⟨fun k _ => by decide, ?_⟩, ?_⟩
  · refine dirVolume_wellFormed (by decide +kernel) (by decide +kernel) ?_
    have hsub : subRecord.At false (dirVolumeBlock subDirVolume) 0 :=
      ⟨by decide +kernel, by decide +kernel, nofun, by decide +kernel⟩
    exact dirRecords_used hsub (by decide +kernel) (by decide +kernel) le_rfl .done
  · intro j k hjk hk
    have hk : k < 1 := hk
    omega
  · rintro ⟨st, s', hrun, hagree⟩
    have hflag : (ext2ReadDir (dirFs subDirVolume) false (fun _ => 0x1000) none subDirVolume).toOption.map
        (fun r => (r.1.heap 0x1000).map fun n => n.1.isDir) = some (some false) := by decide +kernel
    have hmode : (dirFs subDirVolume).mode (readAt (storeDevice 64) subDirVolume) 2 = some 0x41ed := by
      decide +kernel
    obtain ⟨n, mode, hn, hm, hdir⟩ := hagree 0 subRecord rfl (by decide)
    obtain rfl := Option.some.inj (hm.symm.trans hmode)
    rw [hrun] at hflag
    have hn' : (st.heap 0x1000).map (fun n => n.1.isDir) = some false := Option.some.inj hflag
    rw [hn] at hn'
    have hfalse : n.1.isDir = false := Option.some.inj hn'
    rw [hdir.mpr (by decide)] at hfalse
    cases hfalse

/-- **The flags of a directory.** When the entry types agree with the modes, so do the flags of the listed
entries if and only if the volume has entry types, or every listed entry is no directory and has bit
`0x2000` of its mode clear. -/
theorem ext2_dir_flags_iff {parent : BlockDevice σ} {s₀ s₁ s : σ} (h : SteadyReads parent inv read)
    (hinit : ext2Init parent s₀ = (.ok fs, s₁)) (hne : fs.b.blockSize ≠ 0) (hs : inv s)
    {d : Option Dirent} (hdir : WellFormedDir fs read typed s d rs)
    (haddr : MallocFresh addr (rs.map (·.name))) (htypes : typed = true → TypesAgree fs read rs) :
    (∃ st s', ext2ReadDir fs typed addr d s = .ok (st, s') ∧ st.FlagsAgree fs read addr rs) ↔
      typed = true ∨ ∀ r ∈ rs, ¬ r.Special → ∃ mode, fs.mode read r.inode = some mode ∧
        mode &&& 0x2000 = 0 ∧ ¬ isDirMode mode := by
  have hbs := blockSize_le hinit
  obtain ⟨rfl, -, -⟩ := ext2Init_ok hinit
  rw [ext2ReadDir_records h (Nat.pos_of_ne_zero hne) hbs hs hdir, flagsAgree_iff haddr]
  have hread : (∀ r ∈ rs, ¬ r.Special → ∃ mode, fs.mode read r.inode = some mode ∧
      (r.isDir fs read typed = true ↔ isDirMode mode)) → ∀ r ∈ rs, r.ModeRead fs read typed := by
    intro hflags r hr _ hno
    obtain ⟨mode, hmode, -⟩ := hflags r hr hno
    rw [hmode]
    exact Option.isSome_some
  rw [and_iff_right_of_imp hread]
  cases typed with
  | true =>
    refine iff_of_true (fun r hr hno => ?_) (Or.inl rfl)
    obtain ⟨mode, hmode, htype⟩ := htypes rfl r hr hno
    exact ⟨mode, hmode, by rw [← htype, DirRecord.isDir, if_neg hno, if_pos rfl, beq_iff_eq]⟩
  | false =>
    rw [or_iff_right Bool.false_ne_true]
    refine forall₃_congr fun r hr hno => exists_congr fun mode => and_congr_right fun hmode => ?_
    rw [← flagged_iff, DirRecord.isDir, if_neg hno, if_neg Bool.false_ne_true, hmode, Option.getD_some]

/-- A directory with the file `a`, without entry types. -/
theorem ext2_dir_flags_iff_small :
    ∃ st s', ext2ReadDir (dirFs smallDirVolume) false (fun _ => 0x1000) none smallDirVolume = .ok (st, s') ∧
      st.FlagsAgree (dirFs smallDirVolume) (readAt (storeDevice 64) smallDirVolume) (fun _ => 0x1000)
        [dotRecord, dotDotRecord, fileRecord] := by
  obtain ⟨s', hinit⟩ := dirFs_init
    (by decide +kernel : (ext2Init (storeDevice 64) smallDirVolume).1.toOption.isSome)
  refine (ext2_dir_flags_iff (storeDevice_steady 64 smallDirVolume) hinit (by decide +kernel) rfl
    smallDirVolume_wellFormed smallDirVolume_fresh nofun).mpr (Or.inr fun r hr hno => ?_)
  simp only [List.mem_cons, List.not_mem_nil, or_false] at hr
  obtain rfl | rfl | rfl := hr
  · exact absurd (by decide) hno
  · exact absurd (by decide) hno
  · exact ⟨0x81a4, by decide +kernel, by decide, by decide⟩

end RpiBoot
