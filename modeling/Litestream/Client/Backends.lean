import Mathlib
import Litestream.Client.Contract

/-!
# The four backends

Each client's listing over a backend that holds the stored files, and when all four keep
the listing contract.
-/

namespace Litestream

variable {ltx : LtxPackage} {stored : List FileInfo} {level seek : Nat}

/-! ## Object stores -/

/-- GCS lists the files of the level, and only those that start at the seek TXID if it is
not zero. -/
theorem gsLTXFiles_lists {root : List Char} {bucket : Bucket} (hstored : Storable stored)
    (hholds : bucket.Holds (pathKey ltx root) stored) (hseek : seek < txidLimit) :
    Lists stored (fun f => f.level = level ∧ (seek ≠ 0 → f.minTXID = seek))
      (gsLTXFiles ltx root bucket level seek) := by
  have hiff : ∀ f ∈ stored, seekPrefix ltx root level seek <+: pathKey ltx root f ↔
      f.level = level ∧ (seek ≠ 0 → f.minTXID = seek) :=
    fun f hf => seekPrefix_pathKey_iff root hseek (hstored f hf).1
  refine (ltxFileItems_lists (pathKey_layout root) hstored hholds fun f hf h =>
    ((hiff f hf).mp h).1).congr fun f hf => ?_
  rw [hiff f hf]
  simp

/-- Azure lists the same files as GCS. -/
theorem absLTXFiles_lists {root : List Char} {bucket : Bucket} (hstored : Storable stored)
    (hholds : bucket.Holds (pathKey ltx root) stored) (hseek : seek < txidLimit) :
    Lists stored (fun f => f.level = level ∧ (seek ≠ 0 → f.minTXID = seek))
      (absLTXFiles ltx root bucket level seek) := by
  have hiff : ∀ f ∈ stored, seekPrefix ltx root level seek <+: pathKey ltx root f ↔
      f.level = level ∧ (seek ≠ 0 → f.minTXID = seek) :=
    fun f hf => seekPrefix_pathKey_iff root hseek (hstored f hf).1
  refine (ltxFileItems_lists (pathKey_layout root) hstored hholds fun f hf h =>
    ((hiff f hf).mp h).1).congr fun f hf => ?_
  rw [hiff f hf, decide_eq_false_iff_not]
  constructor
  · exact fun h => h.1
  · intro h
    refine ⟨h, fun hlt => ?_⟩
    have := h.2 (by omega)
    omega

/-- The key of a file in S3. -/
def s3FileKey (ltx : LtxPackage) (root : List Char) (f : FileInfo) : List Char :=
  s3Key ltx root f.level f.minTXID f.maxTXID

theorem s3FileKey_layout (root : List Char) : KeyLayout ltx (s3FileKey ltx root) where
  base := fun f => by
    rw [s3FileKey, s3Key, ← List.cons_append, ← List.append_assoc]
    exact pathBase_append _ (slash_not_mem_formatFilename _ _) (formatFilename_ne_nil _ _)
  lt := fun f g hlevel hlt => by
    rw [s3FileKey, s3FileKey, s3Key, s3Key, hlevel, Digits.append_lt_append_iff,
      List.cons_lt_cons_iff] at hlt
    have hlt := (hlt.resolve_left (by decide)).2
    rw [Digits.append_lt_append_iff, List.cons_lt_cons_iff] at hlt
    exact (hlt.resolve_left (by decide)).2

theorem s3LevelPrefix_iff (root : List Char) (hlevel : level ≤ snapshotLevel) {f : FileInfo}
    (hf : f.level ≤ snapshotLevel) :
    s3LevelPrefix root level <+: s3FileKey ltx root f ↔ f.level = level := by
  have hlt : ∀ {n}, n ≤ snapshotLevel → n < 16 ^ 4 := fun h => Nat.lt_of_le_of_lt h (by decide)
  rw [s3LevelPrefix, s3FileKey, s3Key, List.prefix_append_right_inj, List.cons_prefix_cons,
    append_sep_prefix_iff (slash_not_mem_fixed _ _) (slash_not_mem_fixed _ _),
    Digits.fixed_inj (by decide) (by decide) (hlt hlevel) (hlt hf)]
  simp [eq_comm]

/-- S3 keeps the contract. -/
theorem s3LTXFiles_lists {root : List Char} {bucket : Bucket} (useMetadata : Bool)
    (hstored : Storable stored) (hholds : bucket.Holds (s3FileKey ltx root) stored)
    (hlevel : level ≤ snapshotLevel) :
    Lists stored (Wanted level seek) (s3LTXFiles ltx root bucket level seek useMetadata) := by
  have hiff : ∀ f ∈ stored, s3LevelPrefix root level <+: s3FileKey ltx root f ↔
      f.level = level := fun f hf => s3LevelPrefix_iff root hlevel (hstored f hf).2
  refine (ltxFileItems_lists (s3FileKey_layout root) hstored hholds fun f hf h =>
    (hiff f hf).mp h).congr fun f hf => ?_
  rw [hiff f hf, Wanted, decide_eq_false_iff_not, Nat.not_lt]

/-! ## The file system -/

/-- The item of a directory entry, if its name is that of an LTX file. -/
def dirEntryItem (ltx : LtxPackage) (level seek : Nat) (e : DirEntry) : Option FileInfo :=
  match ltx.parseFilename e.name with
  | none => none
  | some (minTXID, maxTXID) =>
      if minTXID < seek then none else some ⟨level, minTXID, maxTXID, e.size, e.modTime⟩

/-- The file client keeps the contract. -/
theorem fileLTXFiles_lists {dirs : Dirs} (hstored : Storable stored)
    (hholds : dirs.Hold ltx stored) :
    Lists stored (Wanted level seek) (fileLTXFiles ltx dirs level seek) := by
  unfold fileLTXFiles
  cases hdir : dirs level with
  | none =>
      have hnil : ltx.newFileInfoSliceIterator [] = [] := (ltx.iterator_perm []).eq_nil
      simp only [hnil]
      refine ⟨.nil, by simp, fun g hg hw => ?_⟩
      obtain ⟨entries, hentries, -⟩ := hholds.complete g hg
      rw [hw.1, hdir] at hentries
      cases hentries
  | some entries =>
      simp only
      change Lists stored (Wanted level seek)
        (ltx.newFileInfoSliceIterator (entries.filterMap (dirEntryItem ltx level seek)))
      set item := dirEntryItem ltx level seek with hitemdef
      have hitem : ∀ e ∈ entries, ∀ i, item e = some i → ∃ g ∈ stored,
          e.name = ltx.formatFilename g.minTXID g.maxTXID ∧ i.SameFile g ∧
            Wanted level seek g := by
        intro e he i hi
        obtain ⟨g, hg, hlevel, hname, hsize⟩ := hholds.sound level entries hdir e he
        have hv := (hstored g hg).1
        simp only [hitemdef, dirEntryItem, hname, ltx.parseFilename_formatFilename
          (Nat.lt_of_le_of_lt hv.min_le_max hv.max_lt) hv.max_lt, Option.ite_none_left_eq_some,
          Nat.not_lt, Option.some.injEq] at hi
        obtain ⟨hseek, rfl⟩ := hi
        exact ⟨g, hg, hname, ⟨hlevel.symm, rfl, rfl, hsize⟩, hlevel, hseek⟩
      have hperm := ltx.iterator_perm (entries.filterMap item)
      have hsound : ∀ i ∈ ltx.newFileInfoSliceIterator (entries.filterMap item),
          ∃ g ∈ stored, i.SameFile g ∧ Wanted level seek g := by
        intro i hi
        obtain ⟨e, he, hi⟩ := List.mem_filterMap.mp (hperm.mem_iff.mp hi)
        obtain ⟨g, hg, -, hsame, hw⟩ := hitem e he i hi
        exact ⟨g, hg, hsame, hw⟩
      refine ⟨?_, hsound, fun g hg hw => ?_⟩
      · -- distinct names and a sorted iteration
        have hnames : (entries.filterMap item).Pairwise fun i j => ¬ i.SameName j := by
          refine List.pairwise_filterMap.mpr (List.Pairwise.imp_of_mem ?_
            (hholds.nodup level entries hdir))
          intro e e' he he' hne i hi j hj hsame
          obtain ⟨g, -, hname, ⟨-, hmin, hmax, -⟩, -⟩ := hitem e he i hi
          obtain ⟨g', -, hname', ⟨-, hmin', hmax', -⟩, -⟩ := hitem e' he' j hj
          exact hne (by rw [hname, hname', ← hmin, ← hmax, ← hmin', ← hmax', hsame.1, hsame.2])
        have hnames := hperm.symm.pairwise hnames fun h h' => h ⟨h'.1.symm, h'.2.symm⟩
        refine ((ltx.iterator_sorted _).and hnames).imp_of_mem fun {i j} hi hj h => ?_
        obtain ⟨g, -, hig, hgw⟩ := hsound i hi
        obtain ⟨g', -, hjg, hgw'⟩ := hsound j hj
        have hij : i.level = j.level :=
          (hig.1.trans hgw.1).trans (hjg.1.trans hgw'.1).symm
        obtain ⟨hle | ⟨-, hle⟩, hname⟩ := h
        · exact absurd hle (by omega)
        · simp only [FileInfo.SameName, FileInfo.KeyLE, FileInfo.KeyLT] at hname hle ⊢
          omega
      · obtain ⟨entries', hentries, e, he, hname, hsize⟩ := hholds.complete g hg
        rw [hw.1, hdir] at hentries
        obtain rfl := Option.some.inj hentries
        have hv := (hstored g hg).1
        refine ⟨⟨level, g.minTXID, g.maxTXID, e.size, e.modTime⟩, hperm.mem_iff.mpr
          (List.mem_filterMap.mpr ⟨e, he, ?_⟩), hw.1.symm, rfl, rfl, hsize⟩
        simp [hitemdef, dirEntryItem, hname, ltx.parseFilename_formatFilename
          (Nat.lt_of_le_of_lt hv.min_le_max hv.max_lt) hv.max_lt, Nat.not_lt.mpr hw.2]

/-! ## All backends -/

/-- A backend of each kind, with the path each client stores files under. -/
structure Backends where
  dirs : Dirs
  s3Path : List Char
  s3 : Bucket
  gsPath : List Char
  gs : Bucket
  absPath : List Char
  abs : Bucket

/-- Every backend holds the stored files. -/
structure Backends.Hold (backends : Backends) (ltx : LtxPackage) (stored : List FileInfo) :
    Prop where
  file : backends.dirs.Hold ltx stored
  s3 : backends.s3.Holds (s3FileKey ltx backends.s3Path) stored
  gs : backends.gs.Holds (pathKey ltx backends.gsPath) stored
  abs : backends.abs.Holds (pathKey ltx backends.absPath) stored

/-- The listings of every client keep the contract. -/
structure Backends.Keep (backends : Backends) (ltx : LtxPackage) (stored : List FileInfo)
    (level seek : Nat) (useMetadata : Bool) : Prop where
  file : Lists stored (Wanted level seek) (fileLTXFiles ltx backends.dirs level seek)
  s3 : Lists stored (Wanted level seek)
    (s3LTXFiles ltx backends.s3Path backends.s3 level seek useMetadata)
  gs : Lists stored (Wanted level seek) (gsLTXFiles ltx backends.gsPath backends.gs level seek)
  abs : Lists stored (Wanted level seek)
    (absLTXFiles ltx backends.absPath backends.abs level seek)

/-- A listing of exactly the files that start at the seek TXID keeps the contract when no
file of the level starts later. -/
theorem seekExact_iff {items : List FileInfo}
    (h : Lists stored (fun f => f.level = level ∧ (seek ≠ 0 → f.minTXID = seek)) items) :
    Lists stored (Wanted level seek) items ↔
      seek = 0 ∨ ∀ f ∈ stored, f.level = level → f.minTXID ≤ seek := by
  constructor
  · intro hwanted
    by_cases h0 : seek = 0
    · exact Or.inl h0
    · refine Or.inr fun f hf hlevel => ?_
      by_contra hlt
      obtain ⟨i, hi, -, hmin, -⟩ := hwanted.complete f hf ⟨hlevel, by omega⟩
      obtain ⟨g, -, ⟨-, hmin', -⟩, -, hg⟩ := h.sound i hi
      have := hg h0
      omega
  · intro hcond
    refine h.congr fun f hf => ?_
    simp only [Wanted]
    constructor
    · rintro ⟨hlevel, hmin⟩
      refine ⟨hlevel, ?_⟩
      by_cases h0 : seek = 0
      · omega
      · exact Nat.le_of_eq (hmin h0).symm
    · rintro ⟨hlevel, hmin⟩
      refine ⟨hlevel, fun h0 => ?_⟩
      have := hcond.resolve_left h0 f hf hlevel
      omega

/-- All clients keep the listing contract exactly when the seek TXID is zero or no stored
file of the level starts past it. -/
theorem ltxFiles_contract {backends : Backends} (useMetadata : Bool) (hstored : Storable stored)
    (hholds : backends.Hold ltx stored) (hlevel : level ≤ snapshotLevel)
    (hseek : seek < txidLimit) :
    backends.Keep ltx stored level seek useMetadata ↔
      seek = 0 ∨ ∀ f ∈ stored, f.level = level → f.minTXID ≤ seek := by
  have hgs : Lists stored (fun f => f.level = level ∧ (seek ≠ 0 → f.minTXID = seek)) _ :=
    gsLTXFiles_lists hstored hholds.gs hseek
  have habs : Lists stored (fun f => f.level = level ∧ (seek ≠ 0 → f.minTXID = seek)) _ :=
    absLTXFiles_lists hstored hholds.abs hseek
  constructor
  · exact fun h => (seekExact_iff hgs).mp h.gs
  · exact fun h => ⟨fileLTXFiles_lists hstored hholds.file,
      s3LTXFiles_lists useMetadata hstored hholds.s3 hlevel,
      (seekExact_iff hgs).mpr h, (seekExact_iff habs).mpr h⟩

/-! ## A package and its backends -/

/-- A name is parsed by reading both numerals and printing them again. -/
def parseName (name : List Char) : Option (Nat × Nat) :=
  let minTXID := Digits.value 16 (name.take 16)
  let maxTXID := Digits.value 16 ((name.drop 17).take 16)
  if name = Digits.fixed 16 16 minTXID ++
      '-' :: (Digits.fixed 16 16 maxTXID ++ ".ltx".toList) then
    some (minTXID, maxTXID)
  else none

theorem parseName_format {minTXID maxTXID : Nat} (hmin : minTXID < txidLimit)
    (hmax : maxTXID < txidLimit) :
    parseName (Digits.fixed 16 16 minTXID ++
      '-' :: (Digits.fixed 16 16 maxTXID ++ ".ltx".toList)) = some (minTXID, maxTXID) := by
  have hvalue : ∀ n < txidLimit, Digits.value 16 (Digits.fixed 16 16 n) = n := fun n hn => by
    rw [Digits.value_fixed (by decide) (by decide)]
    exact Nat.mod_eq_of_lt hn
  have hlow := hvalue minTXID hmin
  have hhigh := hvalue maxTXID hmax
  have hlen : (Digits.fixed 16 16 minTXID ++ ['-']).length = 17 := by simp
  have htake : (Digits.fixed 16 16 minTXID ++
      '-' :: (Digits.fixed 16 16 maxTXID ++ ".ltx".toList)).take 16 =
        Digits.fixed 16 16 minTXID := List.take_left' (Digits.length_fixed _ _)
  have hdrop : (Digits.fixed 16 16 minTXID ++
      '-' :: (Digits.fixed 16 16 maxTXID ++ ".ltx".toList)).drop 17 =
        Digits.fixed 16 16 maxTXID ++ ".ltx".toList := by
    rw [List.append_cons]
    exact List.drop_left' hlen
  simp only [parseName, htake, hdrop, List.take_left' (Digits.length_fixed 16 maxTXID), hlow,
    hhigh, if_true]

/-- The order of iteration over a slice of files. -/
def IterLE (f g : FileInfo) : Prop := f.level < g.level ∨ f.level = g.level ∧ f.KeyLE g

instance : DecidableRel IterLE := fun f g =>
  inferInstanceAs (Decidable (f.level < g.level ∨ f.level = g.level ∧ f.KeyLE g))

instance : Std.Total IterLE where
  total f g := by
    simp only [IterLE, FileInfo.KeyLE]
    omega

instance : IsTrans FileInfo IterLE where
  trans f g h hfg hgh := by
    simp only [IterLE, FileInfo.KeyLE] at *
    omega

/-- The package as it is documented. -/
def ltxPackage : LtxPackage where
  txidString := Digits.fixed 16 16
  formatFilename minTXID maxTXID :=
    Digits.fixed 16 16 minTXID ++ '-' :: (Digits.fixed 16 16 maxTXID ++ ".ltx".toList)
  parseFilename := parseName
  newFileInfoSliceIterator infos := infos.insertionSort IterLE
  txidString_eq _ := rfl
  formatFilename_eq _ _ := rfl
  parseFilename_formatFilename hmin hmax := parseName_format hmin hmax
  iterator_perm infos := infos.perm_insertionSort IterLE
  iterator_sorted infos := infos.pairwise_insertionSort IterLE

/-- Three transactions at level 0. -/
def threeFiles : List FileInfo := [⟨0, 1, 1, 10, 1⟩, ⟨0, 2, 2, 10, 2⟩, ⟨0, 3, 3, 10, 3⟩]

def Object.ofFile (key : FileInfo → List Char) (f : FileInfo) : Object :=
  ⟨key f, f.size, f.createdAt, none⟩

theorem Bucket.holds_ofFile {key : FileInfo → List Char} {bucket : Bucket}
    (h : bucket.objects = stored.map (Object.ofFile key)) : bucket.Holds key stored where
  sound := fun o ho => by
    rw [h] at ho
    obtain ⟨f, hf, rfl⟩ := List.mem_map.mp ho
    exact ⟨f, hf, rfl, rfl⟩
  complete := fun f hf => ⟨Object.ofFile key f, by rw [h]; exact List.mem_map_of_mem hf, rfl, rfl⟩

/-- Every backend with the three files. -/
def threeBackends : Backends where
  dirs level :=
    if level = 0 then
      some (threeFiles.map fun f =>
        ⟨ltxPackage.formatFilename f.minTXID f.maxTXID, f.size, f.createdAt⟩)
    else none
  s3Path := ['r']
  s3 := ⟨threeFiles.map (Object.ofFile (s3FileKey ltxPackage ['r'])), by decide⟩
  gsPath := ['r']
  gs := ⟨threeFiles.map (Object.ofFile (pathKey ltxPackage ['r'])), by decide⟩
  absPath := ['r']
  abs := ⟨threeFiles.map (Object.ofFile (pathKey ltxPackage ['r'])), by decide⟩

theorem threeFiles_storable : Storable threeFiles := by
  unfold Storable
  decide

theorem threeBackends_hold : threeBackends.Hold ltxPackage threeFiles where
  file := by
    refine ⟨fun level entries h => ?_, fun level entries h e he => ?_, fun f hf => ?_⟩
    · simp only [threeBackends, Option.ite_none_right_eq_some, Option.some.injEq] at h
      obtain ⟨-, rfl⟩ := h
      decide
    · simp only [threeBackends, Option.ite_none_right_eq_some, Option.some.injEq] at h
      obtain ⟨rfl, rfl⟩ := h
      obtain ⟨f, hf, rfl⟩ := List.mem_map.mp he
      have hlevel : ∀ f ∈ threeFiles, f.level = 0 := by decide
      exact ⟨f, hf, hlevel f hf, rfl, rfl⟩
    · have hlevel : ∀ f ∈ threeFiles, f.level = 0 := by decide
      exact ⟨_, by rw [hlevel f hf]; rfl, _, List.mem_map_of_mem hf, rfl, rfl⟩
  s3 := Bucket.holds_ofFile rfl
  gs := Bucket.holds_ofFile rfl
  abs := Bucket.holds_ofFile rfl

theorem ltxFiles_contract_sample : threeBackends.Keep ltxPackage threeFiles 0 3 true :=
  (ltxFiles_contract true threeFiles_storable threeBackends_hold (by decide) (by decide)).mpr
    (Or.inr (by decide))

/-- With the files of three transactions, a seek to the second lists only that one. -/
theorem ltxFiles_seek_lost : ¬ ∀ (ltx : LtxPackage) (stored : List FileInfo)
    (backends : Backends) (level seek : Nat) (useMetadata : Bool), Storable stored →
      backends.Hold ltx stored → level ≤ snapshotLevel → seek < txidLimit →
        backends.Keep ltx stored level seek useMetadata := by
  intro h
  have hgs := (h ltxPackage threeFiles threeBackends 0 2 false threeFiles_storable
    threeBackends_hold (by decide) (by decide)).gs
  have hcond := (seekExact_iff (gsLTXFiles_lists threeFiles_storable threeBackends_hold.gs
    (by decide))).mp hgs
  exact absurd hcond (by decide)

end Litestream
