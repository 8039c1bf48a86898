import RpiBoot.Fat.RootExtent

/-!
# What a FAT directory holds

A directory is a sequence of entries of 32 bytes. The first one that starts with a zero byte ends it;
what lies behind is undefined. `fat_read_dir` takes such an entry for a free one and goes on.

* `IsShort`, `shortDirent`: the entries that name a file or a directory, and what they say.
* `fatDirEntry_eq`: the code tells them from the others.
* `FatBS.listing`: the entries of a directory up to its end.
* **`fat_dir_listing_iff`**: `fat_read_dir` lists just these if and only if no such entry lies behind
  the end.
-/

namespace RpiBoot

open Store

/-- The eight characters in front of the extension, without padding. -/
def baseName (buf : Mem) (a : ℕ) : List UInt8 := (slice buf a 8).takeWhile (· != 0x20)

/-- The entry at `a` is in use, and it is the short name of a file or a directory other than the two dot
entries: neither a volume label nor part of a long name, which have bit 3 set. -/
def IsShort (buf : Mem) (a : ℕ) : Prop :=
  buf a ≠ 0 ∧ buf a ≠ 0xe5 ∧ baseName buf a ≠ [0x2e] ∧ baseName buf a ≠ [0x2e, 0x2e] ∧
    buf (a + 11) &&& 0x08 = 0

instance (buf : Mem) (a : ℕ) : Decidable (IsShort buf a) :=
  inferInstanceAs (Decidable (_ ∧ _ ∧ _ ∧ _ ∧ _))

/-- What the entry says. -/
def shortDirent (buf : Mem) (a : ℕ) : Dirent where
  name := fatName buf a
  clean := zero_notMem_fatName buf a
  isDir := decide (buf (a + 11) &&& 0x10 ≠ 0)
  byteSize := le32 buf (a + 28)
  opq := 2 ^ 16 * le16 buf (a + 20) + le16 buf (a + 26)

/-- The entry at `a`, if it is to be listed. -/
def shortEntry (buf : Mem) (a : ℕ) : Option Dirent :=
  if IsShort buf a then some (shortDirent buf a) else none

/-- The names of the dot entries. -/
theorem baseName_dot (buf : Mem) (a : ℕ) :
    (baseName buf a = [0x2e] ↔ buf a = 0x2e ∧ buf (a + 1) = 0x20) ∧
      (baseName buf a = [0x2e, 0x2e] ↔ buf a = 0x2e ∧ buf (a + 1) = 0x2e ∧ buf (a + 2) = 0x20) := by
  obtain ⟨l, hl⟩ : ∃ l, slice buf a 8 = buf a :: buf (a + 1) :: buf (a + 2) :: l := ⟨_, rfl⟩
  rw [baseName, hl]
  simp only [List.takeWhile_cons, bne_iff_ne, ne_eq]
  -- the padding starts at the first, the second or the third character, or behind it
  constructor <;> split_ifs <;> simp_all

/-- **The code knows the entries that are to be listed.** -/
theorem fatDirEntry_eq (buf : Mem) (a : ℕ) : fatDirEntry buf a = shortEntry buf a := by
  obtain ⟨hdot, hdots⟩ := baseName_dot buf a
  have hopq : le16 buf (a + 26) ||| le16 buf (a + 20) <<< 16 =
      2 ^ 16 * le16 buf (a + 20) + le16 buf (a + 26) := by
    rw [Nat.two_pow_add_eq_or_of_lt (le16_lt _ _), Nat.or_comm, Nat.shiftLeft_eq, Nat.mul_comm]
  unfold fatDirEntry shortEntry IsShort
  simp only [ne_eq, hdot, hdots]
  by_cases h₁ : buf a = 0 ∨ buf a = 0xe5
  · rw [if_pos h₁, if_neg fun h => h₁.elim h.1 h.2.1]
  · rw [if_neg h₁]
    obtain ⟨h₁, h₁'⟩ := not_or.mp h₁
    by_cases h₂ : buf a = 0x2e ∧ buf (a + 1) = 0x20
    · rw [if_pos h₂, if_neg fun h => h.2.2.1 h₂]
    · rw [if_neg h₂]
      by_cases h₃ : buf a = 0x2e ∧ buf (a + 1) = 0x2e ∧ buf (a + 2) = 0x20
      · rw [if_pos h₃, if_neg fun h => h.2.2.2.1 h₃]
      · rw [if_neg h₃]
        by_cases h₄ : buf (a + 11) &&& 0x08 = 0
        · rw [if_neg (not_not.mpr h₄), if_pos ⟨h₁, h₁', h₂, h₃, h₄⟩, shortDirent]
          simp only [hopq]
        · rw [if_pos h₄, if_neg fun h => h₄ h.2.2.2.2]

/-! ## Directories -/

/-- The addresses of the entries of a directory, in order. -/
def FatBS.slots (bs : FatBS) (chain : List ℕ) : List ℕ :=
  chain.flatMap fun c => (List.range (16 * bs.sectorsPerCluster)).map fun k =>
    bs.clusterSector c * 512 + 32 * k

/-- The entries of a directory up to its end. -/
def FatBS.listing (bs : FatBS) (vol : Mem) (chain : List ℕ) : List Dirent :=
  ((bs.slots chain).takeWhile (vol · != 0)).filterMap (shortEntry vol)

/-- The addresses from the end of a directory on. -/
def FatBS.behindEnd (bs : FatBS) (vol : Mem) (chain : List ℕ) : List ℕ :=
  (bs.slots chain).dropWhile (vol · != 0)

/-- The entries that the loop lists. -/
theorem chainEntries_eq (bs : FatBS) (vol : Mem) (chain : List ℕ) :
    chainEntries bs vol chain = (bs.slots chain).filterMap (shortEntry vol) := by
  rw [chainEntries, FatBS.slots, List.filterMap_flatMap]
  refine List.flatMap_congr fun c _ => ?_
  rw [sectorEntries_eq, liveEntries, List.filterMap_map]
  refine List.filterMap_congr fun k _ => ?_
  rw [Function.comp_apply, ← fatDirEntry_eq]
  exact fatDirEntry_congr fun i _ => congrArg vol (Nat.add_assoc _ _ _).symm

theorem listing_append (bs : FatBS) (vol : Mem) (chain : List ℕ) : chainEntries bs vol chain =
    bs.listing vol chain ++ (bs.behindEnd vol chain).filterMap (shortEntry vol) := by
  rw [chainEntries_eq, FatBS.listing, FatBS.behindEnd, ← List.filterMap_append,
    List.takeWhile_append_dropWhile]

/-- `emptyDirVolume` with an entry in the directory, behind its end. -/
def staleVolume : Mem := patch emptyDirVolume (19 * 512 + 32) plainEntry

theorem staleVolume_volume : (FatBS.ofBuf staleVolume).Volume .fat16 := by
  have hboot : FatBS.ofBuf staleVolume = FatBS.ofBuf emptyDirVolume :=
    ofBuf_congr (slice_patch_of_disjoint (Or.inl (by decide)))
  rw [hboot]
  exact emptyDirVolume_volume

theorem staleVolume_chain :
    ClusterChain (FatBS.ofBuf staleVolume) .fat16 staleVolume subDirent.opq [2] :=
  clusterChain_singleton (by unfold FatBS.IsCluster; decide) (by decide : 0xfff8 ≤ 0xffff)

/-- The entry behind the end of the directory is listed. -/
theorem fat_dir_listing_broken :
    (FatBS.ofBuf staleVolume).Volume .fat16 ∧
      ClusterChain (FatBS.ofBuf staleVolume) .fat16 staleVolume subDirent.opq [2] ∧
      (fatReadDir ((FatBS.ofBuf staleVolume).toFs (storeDevice 4200)) (some subDirent) staleVolume).map
        (fun r => r.1.map (·.name)) = some [[0x61]] ∧
      (FatBS.ofBuf staleVolume).listing staleVolume [2] = [] :=
  ⟨staleVolume_volume, staleVolume_chain, by decide +kernel, by decide +kernel⟩

variable {σ : Type} {inv : σ → Prop} {content : σ → Mem} {parent : BlockDevice σ} {bs : FatBS}
  {ft : FatType}

/-- **Directory listings.** A directory with a chain is listed up to its end if and only if no entry to
be listed lies behind that. -/
theorem fat_dir_listing_iff (h : HealthyReads parent inv content (· < bs.sectors))
    (hbs : parent.blockSize = 512) (hv : bs.Volume ft) {d : Option Dirent}
    (hroot : d = none → ft = .fat32) {s : σ} (hs : inv s) {chain : List ℕ}
    (hc : ClusterChain bs ft (content s) (bs.dirCluster d) chain) :
    (fatReadDir (bs.toFs parent) d s).map Prod.fst = some (bs.listing (content s) chain) ↔
      ∀ a ∈ bs.behindEnd (content s) chain, ¬ IsShort (content s) a := by
  obtain ⟨s', hr, -, -⟩ := fatReadDir_chain h hbs hv hroot hs hc
  rw [hr, Option.map_some, Option.some.injEq, listing_append, List.append_right_eq_self,
    List.filterMap_eq_nil_iff]
  refine forall₂_congr fun a _ => ?_
  rw [shortEntry, ite_eq_right_iff]
  exact ⟨fun h hshort => Option.some_ne_none _ (h hshort), fun h hshort => absurd hshort h⟩

/-- The directory `boot` of `cfgVolume`, with its file. -/
theorem fat_dir_listing_iff_boot :
    (fatReadDir ((FatBS.ofBuf cfgVolume).toFs (storeDevice 4200)) (some cfgDirDirent) cfgVolume).map Prod.fst =
        some ((FatBS.ofBuf cfgVolume).listing cfgVolume [2]) ∧
      (FatBS.ofBuf cfgVolume).listing cfgVolume [2] = [cfgDirent] :=
  ⟨(fat_dir_listing_iff (smallVolume_healthy rfl) rfl cfgVolume_volume
    (fun h => absurd h (Option.some_ne_none _)) trivial (cfgVolume_chain (Or.inl rfl))).mpr (by decide +kernel),
    by decide +kernel⟩

end RpiBoot
