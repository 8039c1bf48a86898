import RpiBoot.Multiboot.EntryPoint

/-!
# The header tables of an ELF file

A table is as long as the file says, entries times their size, and what is looked at in an entry is as
long as the structure.

* `HeaderTable`: a table in the buffer that has been filled. `HeaderTable.Inside`: its headers lie in it.
* `headerTables`: the tables that a command looks at.
* `inside_iff`: the headers of a filled table lie in it just when there are none, or an entry has room
  for one.
* **`header_tables_iff`**: the same of the tables of every command.
-/

namespace RpiBoot

open Store Bytes

variable {σ : Type}

def sizeofPhdr : ℕ := 32
def sizeofShdr : ℕ := 40

/-- A header table: the size and the number of its entries, the size of the structure at each of them,
and the number of bytes that `fread` has put into the buffer. -/
structure HeaderTable where
  entsize : ℕ
  num : ℕ
  structSize : ℕ
  filled : ℕ
deriving DecidableEq

/-- Every header of the table lies in the part of the buffer that has been filled. -/
def HeaderTable.Inside (t : HeaderTable) : Prop := ∀ i < t.num, i * t.entsize + t.structSize ≤ t.filled

/-- There are no entries, or there is room for the structure in each. -/
def HeaderTable.Fits (t : HeaderTable) : Prop := t.num = 0 ∨ t.structSize ≤ t.entsize

/-- **A table that has been filled.** -/
theorem inside_iff {t : HeaderTable} (h : t.filled = t.num * t.entsize) : t.Inside ↔ t.Fits := by
  unfold HeaderTable.Inside HeaderTable.Fits
  rw [h]
  constructor
  · intro hall
    by_contra hnot
    obtain ⟨hnum, hsize⟩ := not_or.mp hnot
    obtain ⟨n, hn⟩ := Nat.exists_eq_succ_of_ne_zero hnum
    have hlast := hall n (by omega)
    rw [hn, Nat.succ_mul] at hlast
    omega
  · rintro (h0 | hsize) i hi
    · omega
    · calc i * t.entsize + t.structSize ≤ i * t.entsize + t.entsize := Nat.add_le_add_left hsize _
        _ = (i + 1) * t.entsize := (Nat.succ_mul i t.entsize).symm
        _ ≤ t.num * t.entsize := Nat.mul_le_mul_right _ hi

/-! ## What the commands look at -/

/-- What `fread` returns for a table. -/
def readCount (fsRead : FsTransfer σ) (fresh : Mem) (offset entsize num : ℕ) (io : FileIo σ) : ℕ :=
  (freadNew fsRead fresh (u32 (entsize * num)) (io.seek offset)).1

/-- A table that is accepted has been filled. -/
theorem readCount_eq {fsRead : FsTransfer σ} {fresh : Mem} {offset entsize num : ℕ} {io : FileIo σ}
    (hentsize : entsize < 2 ^ 16) (hnum : num < 2 ^ 16)
    (h : (readTable fsRead fresh offset entsize num io).1 = elfOk) :
    readCount fsRead fresh offset entsize num io = num * entsize := by
  have hlt : entsize * num < 2 ^ 32 := by
    calc entsize * num ≤ 2 ^ 16 * num := Nat.mul_le_mul_right _ hentsize.le
      _ < 2 ^ 16 * 2 ^ 16 := Nat.mul_lt_mul_of_pos_left hnum (by decide)
      _ = 2 ^ 32 := by decide
  unfold readTable at h
  simp only at h
  split_ifs at h with hcount
  · exact absurd h (by decide)
  · rw [readCount, not_not.mp hcount, u32_of_lt hlt, Nat.mul_comm]

variable (env : BootEnv σ)

/-- The state behind the ELF header. -/
def behindEhdr (fsRead : FsTransfer σ) (l : Loading σ) : Loading σ :=
  l.withIo (elf32ReadEhdr fsRead (env.fresh l.boot.dev) l.io).2.2

/-- The state behind the section headers. -/
def behindShdrs (fsRead : FsTransfer σ) (ehdr : Ehdr) (l : Loading σ) : Loading σ :=
  l.withIo (elf32ReadShdrs fsRead (env.fresh l.boot.dev) ehdr l.io).2.2

/-- The program headers of a file, read in a state. -/
def programTable (fsRead : FsTransfer σ) (ehdr : Ehdr) (l : Loading σ) : HeaderTable where
  entsize := ehdr.ePhentsize
  num := ehdr.ePhnum
  structSize := sizeofPhdr
  filled := readCount fsRead (env.fresh l.boot.dev) ehdr.ePhoff ehdr.ePhentsize ehdr.ePhnum l.io

/-- The section headers of a file, read in a state. -/
def sectionTable (fsRead : FsTransfer σ) (ehdr : Ehdr) (l : Loading σ) : HeaderTable where
  entsize := ehdr.eShentsize
  num := ehdr.eShnum
  structSize := sizeofShdr
  filled := readCount fsRead (env.fresh l.boot.dev) ehdr.eShoff ehdr.eShentsize ehdr.eShnum l.io

/-- The tables that a command looks at, if it comes to load an ELF file. -/
def headerTables (b : Boot σ) : BootCommand → List HeaderTable
  | .multiboot args =>
    match openMultiboot env args b with
    | .error _ => []
    | .ok k =>
      if k.header.flags &&& 1 <<< 16 ≠ 0 then []
      else match elfHeaders env k with
        | .error _ => []
        | .ok h =>
          let l := behindEhdr env k.opened.fsRead k.state
          [sectionTable env k.opened.fsRead h.ehdr l,
            programTable env k.opened.fsRead h.ehdr (behindShdrs env k.opened.fsRead h.ehdr l)]
  | .kernel args =>
    match openKernel env args b with
    | .error _ => []
    | .ok k =>
      if k.type = .elf then
        match kernelHeaders env k with
        | .error _ => []
        | .ok (ehdr, _, _) =>
          [programTable env k.opened.fsRead ehdr (behindEhdr env k.opened.fsRead k.state)]
      else []
  | _ => []

/-- The sizes in the ELF header of the tables that a command looks at leave room for the structures. -/
def TablesFit (ehdr : Ehdr) : BootCommand → Prop
  | .multiboot _ => (ehdr.ePhnum = 0 ∨ sizeofPhdr ≤ ehdr.ePhentsize) ∧
    (ehdr.eShnum = 0 ∨ sizeofShdr ≤ ehdr.eShentsize)
  | _ => ehdr.ePhnum = 0 ∨ sizeofPhdr ≤ ehdr.ePhentsize

variable {env} {b : Boot σ} {c : BootCommand}

/-- The sizes of an ELF header are halfwords. -/
theorem elf32ReadEhdr_lt (fsRead : FsTransfer σ) (fresh : Mem) (io : FileIo σ) {ehdr : Ehdr}
    (h : (elf32ReadEhdr fsRead fresh io).2.1 = ehdr) : (ehdr.ePhentsize < 2 ^ 16 ∧ ehdr.ePhnum < 2 ^ 16) ∧
      ehdr.eShentsize < 2 ^ 16 ∧ ehdr.eShnum < 2 ^ 16 := by
  subst h
  exact ⟨⟨le16_lt _ _, le16_lt _ _⟩, le16_lt _ _, le16_lt _ _⟩

theorem elfHeaders_filled {k : MbKernel σ} {h : ElfHeaders σ} (hk : elfHeaders env k = .ok h) :
    let l := behindEhdr env k.opened.fsRead k.state
    (sectionTable env k.opened.fsRead h.ehdr l).filled = h.ehdr.eShnum * h.ehdr.eShentsize ∧
      (programTable env k.opened.fsRead h.ehdr (behindShdrs env k.opened.fsRead h.ehdr l)).filled =
        h.ehdr.ePhnum * h.ehdr.ePhentsize := by
  unfold elfHeaders at hk
  simp only at hk
  split_ifs at hk with _ _ hshdrs hphdrs
  obtain rfl := Except.ok.inj hk
  obtain ⟨⟨hphent, hphnum⟩, hshent, hshnum⟩ := elf32ReadEhdr_lt k.opened.fsRead
    (env.fresh k.state.boot.dev) k.state.io rfl
  exact ⟨readCount_eq hshent hshnum (not_not.mp hshdrs), readCount_eq hphent hphnum (not_not.mp hphdrs)⟩

theorem kernelHeaders_filled {k : KernelFile σ} {ehdr : Ehdr} {phdrs : List Phdr} {l : Loading σ}
    (hk : kernelHeaders env k = .ok (ehdr, phdrs, l)) :
    (programTable env k.opened.fsRead ehdr (behindEhdr env k.opened.fsRead k.state)).filled =
      ehdr.ePhnum * ehdr.ePhentsize := by
  unfold kernelHeaders at hk
  simp only at hk
  split_ifs at hk with _ hphdrs
  obtain ⟨rfl, -⟩ := Prod.mk.inj (Except.ok.inj hk)
  obtain ⟨⟨hphent, hphnum⟩, -⟩ := elf32ReadEhdr_lt k.opened.fsRead (env.fresh k.state.boot.dev)
    k.state.io rfl
  exact readCount_eq hphent hphnum (not_not.mp hphdrs)

/-- Both commands look at full tables. -/
theorem headerTables_filled {ehdr : Ehdr} {phdrs : List Phdr}
    (hfile : elfFile env b c = some (ehdr, phdrs)) :
    (∀ t ∈ headerTables env b c, t.filled = t.num * t.entsize) ∧
      ((∀ t ∈ headerTables env b c, t.Fits) ↔ TablesFit ehdr c) := by
  cases c with
  | multiboot args =>
    obtain ⟨k, hd, hk, hflag, hhd, rfl, rfl⟩ := elfFile_multiboot hfile
    simp only [headerTables, hk, if_neg hflag, hhd, List.forall_mem_cons, List.not_mem_nil,
      false_implies, implies_true, and_true]
    obtain ⟨hshdrs, hphdrs⟩ := elfHeaders_filled hhd
    exact ⟨⟨hshdrs, hphdrs⟩, and_comm⟩
  | kernel args =>
    obtain ⟨k, l, hk, htype, hhd⟩ := elfFile_kernel hfile
    simp only [headerTables, hk, if_pos htype, hhd, List.forall_mem_cons, List.not_mem_nil,
      false_implies, implies_true, and_true]
    exact ⟨kernelHeaders_filled hhd, Iff.rfl⟩
  | _ => cases hfile

/-- An ELF kernel whose program header has an entry of 24 bytes. -/
def shortImage : List UInt8 :=
  [0x7f, 0x45, 0x4c, 0x46, 1, 1] ++ List.replicate 10 0 ++ toBytes 2 2 ++ toBytes 2 40 ++
  [1, 0x8000, 52, 76, 0].flatMap (toBytes 4) ++ [52, 24, 1, 40, 1, 0].flatMap (toBytes 2) ++
  [ptLoad, 0, 0x8000, 0x8000, 0, 0x1000].flatMap (toBytes 4) ++ List.replicate 40 0 ++
  [multibootHeaderMagic, 0, 2 ^ 32 - multibootHeaderMagic].flatMap (toBytes 4)

/-- The buffer of the program headers has 24 bytes, and 32 are looked at. -/
theorem header_tables_broken :
    (∃ ehdr phdrs, elfFile (filesEnv fun _ => some shortImage) (Boot.init (fun _ => 0) () Chunks.init)
        (.multiboot []) = some (ehdr, phdrs)) ∧
      ∃ t ∈ headerTables (filesEnv fun _ => some shortImage) (Boot.init (fun _ => 0) () Chunks.init)
        (.multiboot []), ¬ t.Inside := by
  have hfile : (elfFile (filesEnv fun _ => some shortImage) (Boot.init (fun _ => 0) () Chunks.init)
      (.multiboot [])).isSome = true := by decide +kernel
  have htables : headerTables (filesEnv fun _ => some shortImage)
      (Boot.init (fun _ => 0) () Chunks.init) (.multiboot []) =
        [⟨40, 1, sizeofShdr, 40⟩, ⟨24, 1, sizeofPhdr, 24⟩] := by decide +kernel
  obtain ⟨⟨ehdr, phdrs⟩, hfile⟩ := Option.isSome_iff_exists.mp hfile
  refine ⟨⟨ehdr, phdrs, hfile⟩, ⟨24, 1, sizeofPhdr, 24⟩, by rw [htables]; simp, fun hinside => ?_⟩
  exact absurd (hinside 0 (by decide)) (by decide)

/-- **Header tables**, of every file with an ELF header that is accepted, by every command that comes to
look at them: every header lies in the buffer that has been filled just when the sizes fit. -/
theorem header_tables_iff {ehdr : Ehdr} {phdrs : List Phdr}
    (hfile : elfFile env b c = some (ehdr, phdrs)) :
    (∀ t ∈ headerTables env b c, t.Inside) ↔ TablesFit ehdr c := by
  obtain ⟨hfilled, hfit⟩ := headerTables_filled hfile
  rw [← hfit]
  exact forall₂_congr fun t ht => inside_iff (hfilled t ht)

/-- A kernel whose tables have room. -/
theorem header_tables_iff_elfImage :
    ∃ ehdr phdrs, elfFile (filesEnv fun _ => some elfImage) (Boot.init (fun _ => 0) () Chunks.init)
        (.multiboot []) = some (ehdr, phdrs) ∧
      ((∀ t ∈ headerTables (filesEnv fun _ => some elfImage) (Boot.init (fun _ => 0) () Chunks.init)
        (.multiboot []), t.Inside) ↔ TablesFit ehdr (.multiboot [])) := by
  have hfile : (elfFile (filesEnv fun _ => some elfImage) (Boot.init (fun _ => 0) () Chunks.init)
      (.multiboot [])).isSome = true := by decide +kernel
  obtain ⟨⟨ehdr, phdrs⟩, hfile⟩ := Option.isSome_iff_exists.mp hfile
  exact ⟨ehdr, phdrs, hfile, header_tables_iff hfile⟩

end RpiBoot
