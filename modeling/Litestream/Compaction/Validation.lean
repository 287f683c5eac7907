import Litestream.Compaction.Levels
import Litestream.Lib.Digits

/-!
# The two checks of a level

`Replica.ValidateLevel` collects an error for every pair of neighbouring files that do not
fit, and `Compactor.VerifyLevelConsistency` returns the first.  Both compare the start of a
file with the successor of the last TXID before it, which wraps as a `uint64` does.

`issue` is what the loop of `ValidateLevel` finds between two files.  Both checks accept a
pair exactly when the second file starts right after the first one, unless the first ends at
the last TXID and the second starts at zero (`issue_eq_none_iff`, `minTXID_eq_next_iff`).
-/

namespace Litestream

/-! ## Validation -/

/-- The `Type` of a validation error. -/
inductive ValidationType where
  | unsorted
  | gap
  | overlap
deriving DecidableEq, Repr

/-- A single validation issue. -/
structure ValidationError where
  level : Nat
  type : ValidationType
  message : List Char
  prevFile : FileInfo
  currFile : FileInfo
deriving DecidableEq, Repr

/-- A TXID as it is printed. -/
def formatTXID (txID : Nat) : List Char := Digits.fixed 16 16 txID

/-- What `ValidateLevel` reports about a file after the one before it. -/
def issue (level : Nat) (prevInfo info : FileInfo) : Option ValidationError :=
  if info.minTXID < prevInfo.minTXID then
    some
      { level := level
        type := .unsorted
        message := "files out of order: curr.MinTXID=".toList ++ formatTXID info.minTXID ++
          " < prev.MinTXID=".toList ++ formatTXID prevInfo.minTXID
        prevFile := prevInfo
        currFile := info }
  else
    let expectedMinTXID := nextTXID prevInfo.maxTXID
    if info.minTXID ≠ expectedMinTXID then
      if info.minTXID > expectedMinTXID then
        some
          { level := level
            type := .gap
            message := "TXID gap: prev.MaxTXID=".toList ++ formatTXID prevInfo.maxTXID ++
              ", curr.MinTXID=".toList ++ formatTXID info.minTXID ++ " (expected ".toList ++
              formatTXID expectedMinTXID ++ ")".toList
            prevFile := prevInfo
            currFile := info }
      else
        some
          { level := level
            type := .overlap
            message := "TXID overlap: prev.MaxTXID=".toList ++ formatTXID prevInfo.maxTXID ++
              ", curr.MinTXID=".toList ++ formatTXID info.minTXID
            prevFile := prevInfo
            currFile := info }
    else none

/-- The loop of `ValidateLevel`, after a first file. -/
def validateFrom (level : Nat) (prevInfo : FileInfo) : List FileInfo → List ValidationError
  | [] => []
  | info :: infos => (issue level prevInfo info).toList ++ validateFrom level info infos

/-- `Replica.ValidateLevel` over the listing of a level. -/
def validateLevel (level : Nat) : List FileInfo → List ValidationError
  | [] => []
  | info :: infos => validateFrom level info infos

/-! ## Neighbouring files -/

/-- The second file starts right after the first. -/
def FileInfo.Follows (f g : FileInfo) : Prop := g.minTXID = f.maxTXID + 1

/-- The first file ends at the last TXID, and the second starts at zero. -/
def FileInfo.Wraps (f g : FileInfo) : Prop := f.maxTXID + 1 = txidLimit ∧ g.minTXID = 0

section

variable {level : Nat} {prevInfo info : FileInfo} {infos : List FileInfo}

/-- A file starts at the wrapped successor exactly when it follows. -/
theorem minTXID_eq_next_iff (hprev : prevInfo.maxTXID < txidLimit) (hmin : info.minTXID < txidLimit)
    (hwrap : ¬ prevInfo.Wraps info) :
    info.minTXID = nextTXID prevInfo.maxTXID ↔ prevInfo.Follows info := by
  unfold FileInfo.Wraps at hwrap
  unfold FileInfo.Follows
  by_cases hlast : prevInfo.maxTXID + 1 = txidLimit
  · have hzero : nextTXID prevInfo.maxTXID = 0 := by rw [nextTXID, hlast, Nat.mod_self]
    have hpos : info.minTXID ≠ 0 := fun h => hwrap ⟨hlast, h⟩
    rw [hzero]
    omega
  · rw [nextTXID_eq (by omega)]

/-- An error names the level and the two files. -/
theorem issue_names {err : ValidationError} (h : issue level prevInfo info = some err) :
    err.level = level ∧ err.prevFile = prevInfo ∧ err.currFile = info := by
  unfold issue at h
  split at h
  · cases h
    exact ⟨rfl, rfl, rfl⟩
  · dsimp only at h
    split at h
    · split at h <;> cases h <;> exact ⟨rfl, rfl, rfl⟩
    · cases h

theorem issue_eq_none_iff (hprev : prevInfo.minTXID ≤ prevInfo.maxTXID)
    (hmax : prevInfo.maxTXID < txidLimit) (hmin : info.minTXID < txidLimit)
    (hwrap : ¬ prevInfo.Wraps info) :
    issue level prevInfo info = none ↔ prevInfo.Follows info := by
  have hnext := minTXID_eq_next_iff hmax hmin hwrap
  unfold issue
  by_cases hsorted : info.minTXID < prevInfo.minTXID
  · have hne : ¬ prevInfo.Follows info := fun h => by
      unfold FileInfo.Follows at h
      omega
    simp [hsorted, hne]
  · rw [if_neg hsorted, ← hnext]
    by_cases heq : info.minTXID = nextTXID prevInfo.maxTXID
    · simp [heq]
    · simp only [ne_eq, heq, not_false_eq_true, if_true, iff_false]
      split <;> simp

/-- The errors are the issues of neighbouring files, in order. -/
theorem validateFrom_eq : validateFrom level prevInfo infos =
    ((prevInfo :: infos).zip infos).filterMap fun pair => issue level pair.1 pair.2 := by
  induction infos generalizing prevInfo with
  | nil => rfl
  | cons info infos ih =>
      rw [validateFrom, ih, List.zip_cons_cons, List.filterMap_cons]
      cases issue level prevInfo info with
      | none => rfl
      | some err => rfl

theorem validateFrom_eq_nil_cons : validateFrom level prevInfo (info :: infos) = [] ↔
    issue level prevInfo info = none ∧ validateFrom level info infos = [] := by
  rw [validateFrom, List.append_eq_nil_iff, Option.toList_eq_nil_iff]

theorem verifyFrom_eq_ok_cons : verifyFrom prevInfo (info :: infos) = .ok () ↔
    info.minTXID = nextTXID prevInfo.maxTXID ∧ verifyFrom info infos = .ok () := by
  rw [verifyFrom]
  by_cases heq : info.minTXID = nextTXID prevInfo.maxTXID
  · simp [heq]
  · simp only [ne_eq, heq, not_false_eq_true, if_true, false_and, iff_false]
    split <;> simp

end

/-! ## Whole listings -/

/-- The files of a listing hold TXIDs in order, each of 64 bits, and the TXIDs do not start
again at zero. -/
structure Ranged (infos : List FileInfo) : Prop where
  min_le_max : ∀ f ∈ infos, f.minTXID ≤ f.maxTXID
  max_lt : ∀ f ∈ infos, f.maxTXID < txidLimit
  no_wrap : infos.IsChain fun f g => ¬ f.Wraps g

variable {level : Nat} {prevInfo info : FileInfo} {infos : List FileInfo}

theorem Ranged.min_lt (h : Ranged infos) {f : FileInfo} (hf : f ∈ infos) : f.minTXID < txidLimit :=
  Nat.lt_of_le_of_lt (h.min_le_max f hf) (h.max_lt f hf)

theorem Ranged.tail (h : Ranged (prevInfo :: infos)) : Ranged infos :=
  ⟨fun f hf => h.min_le_max f (List.mem_cons_of_mem _ hf),
    fun f hf => h.max_lt f (List.mem_cons_of_mem _ hf), h.no_wrap.tail⟩

/-- Both loops pass exactly when every file follows the one before it. -/
theorem checks_from (h : Ranged (prevInfo :: infos)) :
    (validateFrom level prevInfo infos = [] ↔
      (prevInfo :: infos).IsChain FileInfo.Follows) ∧
    (verifyFrom prevInfo infos = .ok () ↔ (prevInfo :: infos).IsChain FileInfo.Follows) := by
  induction infos generalizing prevInfo with
  | nil => simp [validateFrom, verifyFrom]
  | cons info infos ih =>
      obtain ⟨hvalidate, hverify⟩ := ih h.tail
      have hwrap : ¬ prevInfo.Wraps info := (List.isChain_cons_cons.mp h.no_wrap).1
      have hmax := h.max_lt prevInfo List.mem_cons_self
      have hmin := h.min_lt (List.mem_cons_of_mem _ List.mem_cons_self : info ∈ _)
      have hissue : issue level prevInfo info = none ↔ prevInfo.Follows info :=
        issue_eq_none_iff (h.min_le_max prevInfo List.mem_cons_self) hmax hmin hwrap
      constructor
      · rw [validateFrom_eq_nil_cons, List.isChain_cons_cons, hissue, hvalidate]
      · rw [verifyFrom_eq_ok_cons, List.isChain_cons_cons, minTXID_eq_next_iff hmax hmin hwrap,
          hverify]

/-- The two checks accept a level exactly when its files, in the order listed, tile an
interval of TXIDs. -/
theorem levelChecks_agree (level : Nat) (infos : List FileInfo) (h : Ranged infos) :
    (validateLevel level infos = [] ↔ verifyLevelConsistency infos = .ok ()) ∧
    (verifyLevelConsistency infos = .ok () ↔ infos.IsChain FileInfo.Follows) := by
  cases infos with
  | nil => simp [validateLevel, verifyLevelConsistency]
  | cons info infos =>
      obtain ⟨hvalidate, hverify⟩ := @checks_from level _ _ h
      rw [validateLevel, verifyLevelConsistency, hvalidate, hverify]
      exact ⟨Iff.rfl, Iff.rfl⟩

/-- Two files that tile, and a third one that leaves a gap. -/
def gappedListing : List FileInfo := [⟨2, 1, 4, 10, 1⟩, ⟨2, 5, 5, 10, 2⟩, ⟨2, 8, 9, 10, 3⟩]

theorem gappedListing_ranged : Ranged gappedListing :=
  ⟨by decide, by decide, by simp [gappedListing, FileInfo.Wraps]⟩

theorem levelChecks_agree_gapped :
    (validateLevel 2 gappedListing = [] ↔ verifyLevelConsistency gappedListing = .ok ()) ∧
    (verifyLevelConsistency gappedListing = .ok () ↔ gappedListing.IsChain FileInfo.Follows) :=
  levelChecks_agree 2 gappedListing gappedListing_ranged

/-- A file at TXID zero after one that ends at the last TXID passes one check only, and does
not follow. -/
theorem levelChecks_wrap : ¬ ∀ (level : Nat) (infos : List FileInfo),
    (∀ f ∈ infos, f.minTXID ≤ f.maxTXID ∧ f.maxTXID < txidLimit) →
      (validateLevel level infos = [] ↔ verifyLevelConsistency infos = .ok ()) ∧
      (verifyLevelConsistency infos = .ok () ↔ infos.IsChain FileInfo.Follows) := by
  intro h
  have hchecks := h 0 [⟨0, 2 ^ 64 - 1, 2 ^ 64 - 1, 10, 1⟩, ⟨0, 0, 0, 10, 2⟩] (by decide)
  have hverify : verifyLevelConsistency
      [⟨0, 2 ^ 64 - 1, 2 ^ 64 - 1, 10, 1⟩, ⟨0, 0, 0, 10, 2⟩] = .ok () := by decide
  have hfollows := hchecks.2.mp hverify
  simp [FileInfo.Follows] at hfollows

end Litestream
