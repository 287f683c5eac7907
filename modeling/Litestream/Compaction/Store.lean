import Litestream.Ltx.FileInfo

/-!
# The files of a replica

`Files` are the files a replica holds, level by level, in the order a client lists them.
Writing a file replaces one with the same name.  A client over them keeps the listing
contract as soon as every level is sorted and valid (`Files.listings`).
-/

namespace Litestream

/-- The files of a replica, level by level, in the order a client lists them. -/
abbrev Files := Nat → List FileInfo

namespace FileInfo

/-- Two files of one level have the same name. -/
def SameName (f g : FileInfo) : Prop := f.minTXID = g.minTXID ∧ f.maxTXID = g.maxTXID

instance : DecidableRel SameName := fun f g =>
  inferInstanceAs (Decidable (f.minTXID = g.minTXID ∧ f.maxTXID = g.maxTXID))

/-- The order of listings, between files with different names. -/
def KeyLT (f g : FileInfo) : Prop :=
  f.minTXID < g.minTXID ∨ (f.minTXID = g.minTXID ∧ f.maxTXID < g.maxTXID)

theorem KeyLT.le {f g : FileInfo} (h : KeyLT f g) : KeyLE f g := by
  unfold KeyLT at h
  unfold KeyLE
  omega

theorem KeyLT.not_sameName {f g : FileInfo} (h : KeyLT f g) : ¬ f.SameName g := by
  rintro ⟨hmin, hmax⟩
  unfold KeyLT at h
  omega

theorem Ascending.keyLT {fs : List FileInfo} (h : Ascending fs) (hv : ∀ f ∈ fs, f.Valid) :
    fs.Pairwise KeyLT :=
  h.imp_of_mem fun hf _ hlt => Or.inl (Nat.lt_of_le_of_lt (hv _ hf).min_le_max hlt)

/-- The file as a listing without metadata shows it, with the time of the backend. -/
def stamp (listedAt : FileInfo → Nat) (f : FileInfo) : FileInfo :=
  { f with createdAt := listedAt f }

end FileInfo

/-- Puts a file at its place in a listing. -/
def insertFile (info : FileInfo) : List FileInfo → List FileInfo
  | [] => [info]
  | f :: fs =>
      if info.SameName f then info :: fs
      else if info.KeyLE f then info :: f :: fs
      else f :: insertFile info fs

/-- `WriteLTXFile`: the file is stored at its level under its name. -/
def Files.writeLTXFile (files : Files) (info : FileInfo) : Files :=
  Function.update files info.level (insertFile info (files info.level))

/-- `DeleteLTXFiles` for files of one level. -/
def Files.deleteLTXFiles (files : Files) (level : Nat) (deleted : List FileInfo) : Files :=
  Function.update files level
    ((files level).filter fun f => !deleted.any fun g => decide (f.SameName g))

/-- The client of a replica. -/
def Files.client (files : Files) : ReplicaClient where
  ltxFiles level seek _ := .ok ⟨(files level).filter fun f => seek ≤ f.minTXID, none⟩

/-- Every level is a listing and snapshots start at TXID 1. -/
structure Files.WellFormed (files : Files) : Prop where
  sorted : ∀ n, (files n).Pairwise FileInfo.KeyLT
  valid : ∀ n, ∀ f ∈ files n, f.Valid
  snapshot_min : ∀ f ∈ files snapshotLevel, f.minTXID = 1

/-- The listings of a well-formed replica. -/
def Files.listings (files : Files) (h : files.WellFormed) : Listings where
  level n := ⟨files n, (h.sorted n).imp FileInfo.KeyLT.le, h.valid n⟩
  snapshot_min := h.snapshot_min

theorem Files.listings_client (files : Files) (h : files.WellFormed) :
    (files.listings h).client = files.client := rfl

/-! ## Writing and deleting -/

section
variable {files : Files} {info : FileInfo} {deleted : List FileInfo} {level n : Nat}

theorem Files.writeLTXFile_same (h : info.level = n) :
    files.writeLTXFile info n = insertFile info (files n) := by
  subst h
  simp [writeLTXFile]

theorem Files.writeLTXFile_other (h : info.level ≠ n) : files.writeLTXFile info n = files n := by
  simp [writeLTXFile, Function.update_of_ne (Ne.symm h)]

theorem Files.deleteLTXFiles_same :
    files.deleteLTXFiles level deleted level =
      (files level).filter fun f => !deleted.any fun g => decide (f.SameName g) := by
  simp [deleteLTXFiles]

theorem Files.deleteLTXFiles_other (h : level ≠ n) :
    files.deleteLTXFiles level deleted n = files n := by
  simp [deleteLTXFiles, Function.update_of_ne (Ne.symm h)]

end

theorem mem_insertFile {info f : FileInfo} :
    ∀ {fs : List FileInfo}, f ∈ insertFile info fs → f = info ∨ f ∈ fs
  | [], h => Or.inl (by simpa [insertFile] using h)
  | g :: fs, h => by
      simp only [insertFile] at h
      split at h
      · rcases List.mem_cons.mp h with h | h
        · exact Or.inl h
        · exact Or.inr (by simp [h])
      · split at h
        · rcases List.mem_cons.mp h with h | h
          · exact Or.inl h
          · exact Or.inr h
        · rcases List.mem_cons.mp h with h | h
          · exact Or.inr (by simp [h])
          · rcases mem_insertFile h with h | h
            · exact Or.inl h
            · exact Or.inr (by simp [h])

theorem self_mem_insertFile (info : FileInfo) : ∀ fs : List FileInfo, info ∈ insertFile info fs
  | [] => by simp [insertFile]
  | g :: fs => by
      simp only [insertFile]
      split
      · simp
      · split
        · simp
        · simp [self_mem_insertFile info fs]

/-- A file with a different name survives an insertion. -/
theorem mem_insertFile_of_ne {info f : FileInfo} (hne : ¬ info.SameName f) :
    ∀ {fs : List FileInfo}, f ∈ fs → f ∈ insertFile info fs
  | g :: fs, h => by
      simp only [insertFile]
      split
      · next hsame =>
          rcases List.mem_cons.mp h with rfl | h
          · exact absurd hsame hne
          · simp [h]
      · split
        · exact List.mem_cons_of_mem _ h
        · rcases List.mem_cons.mp h with rfl | h
          · simp
          · simp [mem_insertFile_of_ne hne h]

/-- A file past the end of a listing goes to the end. -/
theorem insertFile_of_lt {info : FileInfo} :
    ∀ {fs : List FileInfo}, (∀ f ∈ fs, f.minTXID < info.minTXID) →
      insertFile info fs = fs ++ [info]
  | [], _ => rfl
  | f :: fs, h => by
      have hf := h f (by simp)
      have hname : ¬ info.SameName f := fun hs => by
        have := hs.1
        omega
      have hle : ¬ info.KeyLE f := fun hs => by
        have := hs.min_le
        omega
      rw [insertFile, if_neg hname, if_neg hle,
        insertFile_of_lt fun g hg => h g (by simp [hg])]
      rfl

/-- Insertion keeps a listing sorted and its names distinct. -/
theorem insertFile_sorted {info : FileInfo} :
    ∀ {fs : List FileInfo}, fs.Pairwise FileInfo.KeyLT → (insertFile info fs).Pairwise FileInfo.KeyLT
  | [], _ => by simp [insertFile]
  | f :: fs, h => by
      obtain ⟨hf, hfs⟩ := List.pairwise_cons.mp h
      simp only [insertFile]
      split
      · next hsame =>
          refine .cons (fun g hg => ?_) hfs
          have := hf g hg
          simp only [FileInfo.KeyLT, hsame.1, hsame.2] at this ⊢
          exact this
      · next hname =>
          simp only [FileInfo.SameName] at hname
          split
          · next hle =>
              refine .cons (fun g hg => ?_) h
              simp only [FileInfo.KeyLE] at hle
              rcases List.mem_cons.mp hg with rfl | hg
              · simp only [FileInfo.KeyLT]
                omega
              · have := hf g hg
                simp only [FileInfo.KeyLT] at this ⊢
                omega
          · next hle =>
              refine .cons (fun g hg => ?_) (insertFile_sorted hfs)
              rcases mem_insertFile hg with rfl | hg
              · simp only [FileInfo.KeyLE, FileInfo.KeyLT] at hle ⊢
                omega
              · exact hf g hg

/-! ## Deleting from a listing with distinct names -/

section
variable {files : Files} {n : Nat} {del keep : List FileInfo}

/-- Deletion keeps the order of what is left. -/
theorem Files.deleteLTXFiles_sublist (level : Nat) :
    ((files.deleteLTXFiles level del) n).Sublist (files n) := by
  by_cases h : level = n
  · subst h
    rw [deleteLTXFiles_same]
    exact List.filter_sublist
  · rw [deleteLTXFiles_other h]

/-- A file whose name is not deleted stays. -/
theorem Files.mem_deleteLTXFiles {f : FileInfo} (hf : f ∈ files n)
    (hdel : ∀ g ∈ del, ¬ f.SameName g) : f ∈ files.deleteLTXFiles n del n := by
  rw [deleteLTXFiles_same]
  exact List.mem_filter.mpr ⟨hf, by simpa using hdel⟩

/-- Deleting a prefix of a listing leaves the rest of it. -/
theorem Files.deleteLTXFiles_prefix (listedAt : FileInfo → Nat) (h : files n = del ++ keep)
    (hsorted : (files n).Pairwise FileInfo.KeyLT) :
    files.deleteLTXFiles n (del.map (FileInfo.stamp listedAt)) n = keep := by
  rw [deleteLTXFiles_same, h, List.filter_append]
  rw [h] at hsorted
  have hdel : del.filter (fun f => !(del.map (FileInfo.stamp listedAt)).any fun g =>
      decide (f.SameName g)) = [] := by
    refine List.filter_eq_nil_iff.mpr fun f hf => ?_
    simpa using ⟨f, hf, rfl, rfl⟩
  have hkeep : keep.filter (fun f => !(del.map (FileInfo.stamp listedAt)).any fun g =>
      decide (f.SameName g)) = keep := by
    refine List.filter_eq_self.mpr fun f hf => ?_
    simp only [List.any_map, Bool.not_eq_true', List.any_eq_false, Function.comp_apply,
      decide_eq_true_eq]
    intro g hg hsame
    exact ((List.pairwise_append.mp hsorted).2.2 g hg f hf).not_sameName
      ⟨hsame.1.symm, hsame.2.symm⟩
  rw [hdel, hkeep, List.nil_append]

end

end Litestream
