import Litestream.Client.Clients

/-!
# The listing contract

The interface of a replica client says that a listing starts from the seek TXID or the
next one available.  A listing keeps it when it has exactly the stored files of the level
that start at the seek TXID or later, each once and in order (`Lists`).

The file and S3 clients filter what the backend lists, and keep the contract.  The GCS
and Azure clients append the seek TXID to the key prefix, so a nonzero seek lists only
the files that start exactly there.  `ltxFiles_contract` says when that makes no
difference.
-/

namespace Litestream

variable {ltx : LtxPackage} {stored : List FileInfo}

/-- Two files agree but for their times. -/
def FileInfo.SameFile (f g : FileInfo) : Prop :=
  f.level = g.level ∧ f.minTXID = g.minTXID ∧ f.maxTXID = g.maxTXID ∧ f.size = g.size

/-- The items are the wanted files among those stored, each once and in order. -/
structure Lists (stored : List FileInfo) (wanted : FileInfo → Prop) (items : List FileInfo) :
    Prop where
  sorted : items.Pairwise FileInfo.KeyLT
  sound : ∀ f ∈ items, ∃ g ∈ stored, f.SameFile g ∧ wanted g
  complete : ∀ g ∈ stored, wanted g → ∃ f ∈ items, f.SameFile g

/-- The files a listing of a level from a seek TXID has to return. -/
def Wanted (level seek : Nat) (f : FileInfo) : Prop := f.level = level ∧ seek ≤ f.minTXID

/-- The stored files are files of levels `0` to `9`. -/
def Storable (stored : List FileInfo) : Prop := ∀ f ∈ stored, f.Valid ∧ f.level ≤ snapshotLevel

/-- A bucket holds the stored files, each under its key. -/
structure Bucket.Holds (bucket : Bucket) (key : FileInfo → List Char) (stored : List FileInfo) :
    Prop where
  sound : ∀ o ∈ bucket.objects, ∃ f ∈ stored, o.key = key f ∧ o.size = f.size
  complete : ∀ f ∈ stored, ∃ o ∈ bucket.objects, o.key = key f ∧ o.size = f.size

/-- The level directories hold the stored files, each under its name. -/
structure Dirs.Hold (dirs : Dirs) (ltx : LtxPackage) (stored : List FileInfo) : Prop where
  nodup : ∀ level entries, dirs level = some entries →
    entries.Pairwise fun e e' => e.name ≠ e'.name
  sound : ∀ level entries, dirs level = some entries → ∀ e ∈ entries,
    ∃ f ∈ stored, f.level = level ∧ e.name = ltx.formatFilename f.minTXID f.maxTXID ∧
      e.size = f.size
  complete : ∀ f ∈ stored, ∃ entries, dirs f.level = some entries ∧ ∃ e ∈ entries,
    e.name = ltx.formatFilename f.minTXID f.maxTXID ∧ e.size = f.size

/-! ## Names -/

section
variable {f g : FileInfo}

theorem length_txidString (t : Nat) : (ltx.txidString t).length = 16 := by
  rw [ltx.txidString_eq, Digits.length_fixed]

theorem txidString_inj {t u : Nat} (ht : t < txidLimit) (hu : u < txidLimit) :
    ltx.txidString t = ltx.txidString u ↔ t = u := by
  rw [ltx.txidString_eq, ltx.txidString_eq]
  exact Digits.fixed_inj (by decide) (by decide) ht hu

theorem txidString_lt_iff {t u : Nat} (ht : t < txidLimit) (hu : u < txidLimit) :
    ltx.txidString t < ltx.txidString u ↔ t < u := by
  rw [ltx.txidString_eq, ltx.txidString_eq, Digits.fixed_lt_iff (by decide) (by decide),
    show 16 ^ 16 = txidLimit by decide, Nat.mod_eq_of_lt ht, Nat.mod_eq_of_lt hu]

/-- Names are ordered as listings are. -/
theorem formatFilename_lt (hf : f.Valid) (hg : g.Valid)
    (h : ltx.formatFilename f.minTXID f.maxTXID < ltx.formatFilename g.minTXID g.maxTXID) :
    f.KeyLT g := by
  have hmin : ∀ {f : FileInfo}, f.Valid → f.minTXID < txidLimit := fun hf =>
    Nat.lt_of_le_of_lt hf.min_le_max hf.max_lt
  rw [ltx.formatFilename_eq, ltx.formatFilename_eq, Digits.append_lt_append_of_length
    (by rw [length_txidString, length_txidString]), txidString_lt_iff (hmin hf) (hmin hg),
    txidString_inj (hmin hf) (hmin hg), List.cons_lt_cons_iff,
    Digits.append_lt_append_of_length (by rw [length_txidString, length_txidString]),
    txidString_lt_iff hf.max_lt hg.max_lt] at h
  rcases h with h | ⟨hmin, h | ⟨-, h | ⟨-, h⟩⟩⟩
  · exact Or.inl h
  · exact absurd h (by decide)
  · exact Or.inr ⟨hmin, h⟩
  · exact absurd h (by decide)

theorem slash_not_mem_fixed (w n : Nat) : '/' ∉ Digits.fixed 16 w n := by
  intro h
  obtain ⟨i, hi, heq⟩ := Digits.mem_fixed (by decide) h
  have hne : ∀ i < 16, '/' ≠ Nat.digitChar i := by decide
  exact hne i hi heq

theorem slash_not_mem_formatFilename (minTXID maxTXID : Nat) :
    '/' ∉ ltx.formatFilename minTXID maxTXID := by
  rw [ltx.formatFilename_eq, ltx.txidString_eq, ltx.txidString_eq]
  simp [slash_not_mem_fixed]

theorem formatFilename_ne_nil (minTXID maxTXID : Nat) :
    ltx.formatFilename minTXID maxTXID ≠ [] := by
  rw [ltx.formatFilename_eq]
  simp

/-- The last element of a path is found again. -/
theorem pathBase_append (dir : List Char) {name : List Char} (hname : '/' ∉ name)
    (hne : name ≠ []) : pathBase (dir ++ '/' :: name) = name := by
  obtain ⟨c, cs, hcs⟩ := List.exists_cons_of_ne_nil (List.reverse_ne_nil_iff.mpr hne)
  have hrev : '/' ∉ name.reverse := by simpa using hname
  have hdrop : (dir ++ '/' :: name).rdropWhile (fun c => c = '/') = dir ++ '/' :: name := by
    have hc : c ≠ '/' := fun h => hrev (by rw [hcs, h]; simp)
    rw [List.rdropWhile, List.reverse_append, List.reverse_cons, hcs]
    simp only [List.append_assoc, List.cons_append, List.dropWhile_cons, decide_eq_true_eq, hc,
      if_false]
    rw [← List.cons_append, ← hcs]
    simp
  have htake : (dir ++ '/' :: name).rtakeWhile (fun c => c ≠ '/') = name := by
    have hall : ∀ c ∈ name.reverse, decide (c ≠ '/') = true := fun c hc =>
      decide_eq_true fun h => hrev (h ▸ hc)
    rw [List.rtakeWhile, List.reverse_append, List.reverse_cons, List.append_assoc,
      List.takeWhile_append_of_pos hall]
    simp
  rw [pathBase, if_neg (by simp)]
  simp only [hdrop, htake]
  rw [if_neg (by simp)]

/-- Prefixes up to a separator agree exactly when the parts before it do. -/
theorem append_sep_prefix_iff {c : Char} : ∀ {a b : List Char} {p q : List Char}, c ∉ a → c ∉ b →
    (a ++ c :: p <+: b ++ c :: q ↔ a = b ∧ p <+: q)
  | [], [], p, q, _, _ => by simp [List.cons_prefix_cons]
  | [], y :: b, p, q, _, hb => by
      have hc : c ≠ y := fun h => hb (by simp [h])
      simp [List.cons_prefix_cons, hc]
  | x :: a, [], p, q, ha, _ => by
      have hc : x ≠ c := fun h => ha (by simp [h])
      simp [List.cons_prefix_cons, hc]
  | x :: a, y :: b, p, q, ha, hb => by
      have ih := append_sep_prefix_iff (p := p) (q := q)
        (fun h => ha (List.mem_cons_of_mem _ h)) (fun h => hb (List.mem_cons_of_mem _ h))
      simp only [List.cons_append, List.cons_prefix_cons, ih, List.cons.injEq, and_assoc]

end

/-! ## Listing objects -/

/-- How a client names the objects of files: the name comes last, keys of one level are
ordered as names are. -/
structure KeyLayout (ltx : LtxPackage) (key : FileInfo → List Char) : Prop where
  base : ∀ f, pathBase (key f) = ltx.formatFilename f.minTXID f.maxTXID
  lt : ∀ f g, f.level = g.level → key f < key g →
    ltx.formatFilename f.minTXID f.maxTXID < ltx.formatFilename g.minTXID g.maxTXID

/-- The item of an object, if its name is that of an LTX file. -/
def ltxFileItem (ltx : LtxPackage) (level : Nat) (skip : Nat → Bool) (createdAt : Object → Nat)
    (o : Object) : Option FileInfo :=
  match ltx.parseFilename (pathBase o.key) with
  | none => none
  | some (minTXID, maxTXID) =>
      if skip minTXID then none else some ⟨level, minTXID, maxTXID, o.size, createdAt o⟩

theorem ltxFileItems_eq (level : Nat) (skip : Nat → Bool) (createdAt : Object → Nat)
    (objects : List Object) : ltxFileItems ltx level skip createdAt objects =
      objects.filterMap (ltxFileItem ltx level skip createdAt) := rfl

/-- A listing by a prefix has the stored files whose keys start with it and that the
iterator does not skip, if those are all of one level. -/
theorem ltxFileItems_lists {key : FileInfo → List Char} {bucket : Bucket} {level : Nat}
    {skip : Nat → Bool} {createdAt : Object → Nat} {keyPrefix : List Char}
    (hkey : KeyLayout ltx key) (hstored : Storable stored) (hholds : bucket.Holds key stored)
    (hlevel : ∀ f ∈ stored, keyPrefix <+: key f → f.level = level) :
    Lists stored (fun f => keyPrefix <+: key f ∧ skip f.minTXID = false)
      (ltxFileItems ltx level skip createdAt (bucket.list keyPrefix)) := by
  have hparse : ∀ f ∈ stored, ltx.parseFilename (ltx.formatFilename f.minTXID f.maxTXID) =
      some (f.minTXID, f.maxTXID) := fun f hf => by
    have hv := (hstored f hf).1
    exact ltx.parseFilename_formatFilename (Nat.lt_of_le_of_lt hv.min_le_max hv.max_lt) hv.max_lt
  -- what a listed object and its item say about the stored file
  have hitem : ∀ o ∈ bucket.list keyPrefix, ∀ i, ltxFileItem ltx level skip createdAt o = some i →
      ∃ g ∈ stored, o.key = key g ∧ i.SameFile g ∧ keyPrefix <+: key g ∧
        skip g.minTXID = false := by
    intro o ho i hi
    obtain ⟨hmem, hpre⟩ := List.mem_filter.mp ho
    obtain ⟨g, hg, hog, hsize⟩ := hholds.sound o hmem
    rw [List.isPrefixOf_iff_prefix, hog] at hpre
    rw [ltxFileItem, hog, hkey.base, hparse g hg] at hi
    simp only [Option.ite_none_left_eq_some, Bool.not_eq_true, Option.some.injEq] at hi
    obtain ⟨hskip, rfl⟩ := hi
    exact ⟨g, hg, hog, ⟨(hlevel g hg hpre).symm, rfl, rfl, hsize⟩, hpre, hskip⟩
  rw [ltxFileItems_eq]
  refine ⟨?_, fun i hi => ?_, fun g hg hwanted => ?_⟩
  · refine List.pairwise_filterMap.mpr (List.Pairwise.imp_of_mem ?_
      (bucket.sorted.sublist List.filter_sublist))
    intro o o' ho ho' hlt i hi i' hi'
    obtain ⟨g, hg, hog, hsame, hpre, -⟩ := hitem o ho i hi
    obtain ⟨g', hg', hog', hsame', hpre', -⟩ := hitem o' ho' i' hi'
    rw [hog, hog'] at hlt
    have hname := hkey.lt g g' ((hlevel g hg hpre).trans (hlevel g' hg' hpre').symm) hlt
    have hglt := formatFilename_lt (hstored g hg).1 (hstored g' hg').1 hname
    obtain ⟨-, hmin, hmax, -⟩ := hsame
    obtain ⟨-, hmin', hmax', -⟩ := hsame'
    simp only [FileInfo.KeyLT, hmin, hmax, hmin', hmax']
    exact hglt
  · obtain ⟨o, ho, hi⟩ := List.mem_filterMap.mp hi
    obtain ⟨g, hg, -, hsame, hwanted⟩ := hitem o ho i hi
    exact ⟨g, hg, hsame, hwanted⟩
  · obtain ⟨o, ho, hog, hsize⟩ := hholds.complete g hg
    refine ⟨⟨level, g.minTXID, g.maxTXID, o.size, createdAt o⟩, List.mem_filterMap.mpr
      ⟨o, List.mem_filter.mpr ⟨ho, ?_⟩, ?_⟩, (hlevel g hg hwanted.1).symm, rfl, rfl, hsize⟩
    · rw [hog, List.isPrefixOf_iff_prefix]
      exact hwanted.1
    · rw [ltxFileItem, hog, hkey.base, hparse g hg]
      simp [hwanted.2]

/-- Only what is wanted decides whether a listing is right. -/
theorem Lists.iff {wanted wanted' : FileInfo → Prop} {items : List FileInfo}
    (h : Lists stored wanted items) :
    Lists stored wanted' items → ∀ f ∈ stored, wanted f → ∃ g ∈ stored, f.SameFile g ∧ wanted' g := by
  intro h' f hf hw
  obtain ⟨i, hi, hsame⟩ := h.complete f hf hw
  obtain ⟨g, hg, hsame', hw'⟩ := h'.sound i hi
  obtain ⟨h1, h2, h3, h4⟩ := hsame
  obtain ⟨h1', h2', h3', h4'⟩ := hsame'
  exact ⟨g, hg, ⟨h1.symm.trans h1', h2.symm.trans h2', h3.symm.trans h3', h4.symm.trans h4'⟩, hw'⟩

theorem Lists.congr {wanted wanted' : FileInfo → Prop} {items : List FileInfo}
    (h : Lists stored wanted items) (heq : ∀ f ∈ stored, wanted f ↔ wanted' f) :
    Lists stored wanted' items where
  sorted := h.sorted
  sound := fun f hf => by
    obtain ⟨g, hg, hsame, hw⟩ := h.sound f hf
    exact ⟨g, hg, hsame, (heq g hg).mp hw⟩
  complete := fun g hg hw => h.complete g hg ((heq g hg).mpr hw)

/-! ## The layouts -/

theorem ltxDir_ne_nil (root : List Char) : ltxDir root ≠ [] := by
  unfold ltxDir pathJoin
  split <;> simp

theorem ltxLevelDir_eq (root : List Char) (level : Nat) :
    ltxLevelDir root level = ltxDir root ++ '/' :: Nat.toDigits 10 level := by
  rw [ltxLevelDir, pathJoin, if_neg (ltxDir_ne_nil root)]

theorem ltxFilePath_eq (root : List Char) (level minTXID maxTXID : Nat) :
    ltxFilePath ltx root level minTXID maxTXID =
      ltxLevelDir root level ++ '/' :: ltx.formatFilename minTXID maxTXID := by
  rw [ltxFilePath, pathJoin, if_neg (by rw [ltxLevelDir_eq]; simp)]

/-- The key of a file in GCS and Azure. -/
def pathKey (ltx : LtxPackage) (root : List Char) (f : FileInfo) : List Char :=
  ltxFilePath ltx root f.level f.minTXID f.maxTXID

theorem pathKey_layout (root : List Char) : KeyLayout ltx (pathKey ltx root) where
  base := fun f => by
    rw [pathKey, ltxFilePath_eq]
    exact pathBase_append _ (slash_not_mem_formatFilename _ _) (formatFilename_ne_nil _ _)
  lt := fun f g hlevel hlt => by
    rw [pathKey, pathKey, ltxFilePath_eq, ltxFilePath_eq, hlevel, Digits.append_lt_append_iff,
      List.cons_lt_cons_iff] at hlt
    exact (hlt.resolve_left (by decide)).2

theorem slash_not_mem_toDigits (n : Nat) : '/' ∉ Nat.toDigits 10 n := fun h =>
  absurd (Nat.isDigit_of_mem_toDigits (by decide) (by decide) h) (by decide)

theorem toDigits_inj {m n : Nat} (h : Nat.toDigits 10 m = Nat.toDigits 10 n) : m = n := by
  have := congrArg (fun cs => Nat.ofDigitChars 10 cs 0) h
  simpa only [Nat.ofDigitChars_ten_toDigits] using this

/-- A key starts with the prefix of a level and a part of a name exactly when the file is
at that level and its name starts so. -/
theorem levelPrefix_pathKey_iff (root : List Char) (level : Nat) (p : List Char) (f : FileInfo) :
    ltxLevelDir root level ++ '/' :: p <+: pathKey ltx root f ↔
      f.level = level ∧ p <+: ltx.formatFilename f.minTXID f.maxTXID := by
  rw [pathKey, ltxFilePath_eq, ltxLevelDir_eq, ltxLevelDir_eq, List.append_assoc,
    List.append_assoc, List.prefix_append_right_inj, List.cons_append, List.cons_append,
    List.cons_prefix_cons,
    append_sep_prefix_iff (slash_not_mem_toDigits _) (slash_not_mem_toDigits _)]
  constructor
  · rintro ⟨-, h, hp⟩
    exact ⟨(toDigits_inj h).symm, hp⟩
  · rintro ⟨rfl, hp⟩
    exact ⟨rfl, rfl, hp⟩

/-- A file name starts with a TXID exactly when the file starts there. -/
theorem txidString_prefix_iff {t : Nat} {f : FileInfo} (ht : t < txidLimit) (hf : f.Valid) :
    ltx.txidString t <+: ltx.formatFilename f.minTXID f.maxTXID ↔ f.minTXID = t := by
  have hmin : f.minTXID < txidLimit := Nat.lt_of_le_of_lt hf.min_le_max hf.max_lt
  rw [ltx.formatFilename_eq, List.prefix_iff_eq_take, length_txidString,
    List.take_left' (length_txidString _), txidString_inj ht hmin]
  exact eq_comm

theorem seekPrefix_pathKey_iff (root : List Char) {level seek : Nat} {f : FileInfo}
    (hseek : seek < txidLimit) (hf : f.Valid) :
    seekPrefix ltx root level seek <+: pathKey ltx root f ↔
      f.level = level ∧ (seek ≠ 0 → f.minTXID = seek) := by
  unfold seekPrefix
  by_cases h0 : seek = 0
  · simp [h0, levelPrefix_pathKey_iff]
  · simp [h0, levelPrefix_pathKey_iff, txidString_prefix_iff hseek hf]

end Litestream
