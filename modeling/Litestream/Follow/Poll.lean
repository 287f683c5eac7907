import Litestream.Follow.Apply

/-!
# Polling for new LTX files

`applyNewLTXFiles` applies the level 0 files that follow the position of the follower.
Where level 0 has a gap, `fillFollowGap` looks for a file that bridges it at levels `1` to
`8`.

The loops are written over any state `σ` that a file is applied to.  The code applies files
to the database (`Poll.applyNewLTXFiles`).  Which files it tries depends only on the listings
and on which files fail (`Poll.tried`), since the loops read nothing else.
-/

namespace Litestream

open FileOp

inductive FollowError where
  | listLevel (level : Nat) (err : ClientError)
  | iterateLevel (level : Nat) (err : ClientError)
  | closeLevel (level : Nat) (err : ClientError)
  | applyLTXFile (info : FileInfo) (err : ApplyError)
  | applyGapFill (info : FileInfo) (err : ApplyError)
  /-- `errors.Join`. -/
  | join (err closeErr : FollowError)
deriving DecidableEq, Repr

/-- How the loop over the files of a level ends without an error. -/
inductive LevelEnd where
  /-- `Next` returned false. -/
  | exhausted
  /-- At a file that starts past the position. -/
  | gap
  /-- The position is past the gap. -/
  | bridged
deriving DecidableEq, Repr

/-- `closeLevel`: closes the iterator of a level and returns. -/
def closeLevel {α : Type*} (level : Nat) (closeErr : Option ClientError) :
    Except FollowError α → Except FollowError α
  | .ok a =>
      match closeErr with
      | none => .ok a
      | some err => .error (.closeLevel level err)
  | .error retErr =>
      match closeErr with
      | none => .error retErr
      | some err => .error (.join retErr (.closeLevel level err))

/-- What a poll meets. -/
structure Poll (pageSize : Nat) where
  /-- The client when the follower is at a TXID.  The position moves on between two listings
  of a level, so this is every behaviour of the client. -/
  client : Nat → ReplicaClient
  /-- What closing the iterator of a level reports that was opened at a TXID. -/
  closeErr : Nat → Nat → Option ClientError
  stream : FileInfo → LTXStream pageSize

namespace Poll

variable {pageSize : Nat} (poll : Poll pageSize)

section Loops

variable {σ : Type*} (apply : FileInfo → σ → Option ApplyError × σ)

/-- Applies a file and goes on. -/
def applyThen {α : Type*} (info : FileInfo) (wrap : ApplyError → FollowError)
    (next : σ → Except FollowError α × σ) (s : σ) : Except FollowError α × σ :=
  match apply info s with
  | (some err, s) => (.error (wrap err), s)
  | (none, s) => next s

/-- Closes the iterator of a level and goes on. -/
def closeThen {α : Type*} (level : Nat) (closeErr : Option ClientError)
    (next : σ → Except FollowError α × σ) (s : σ) : Except FollowError α × σ :=
  match closeLevel level closeErr (.ok ()) with
  | .error err => (.error err, s)
  | .ok () => next s

/-- The loop of `fillFollowGap` over the files of one level. -/
def fillLevel (gapMinTXID : Nat) :
    List FileInfo → Nat → σ → Except FollowError (LevelEnd × Nat) × σ
  | [], currentTXID, s => (.ok (.exhausted, currentTXID), s)
  | info :: infos, currentTXID, s =>
      if nextTXID currentTXID < info.minTXID then (.ok (.gap, currentTXID), s)
      else if info.maxTXID ≤ currentTXID then fillLevel gapMinTXID infos currentTXID s
      else applyThen apply info (.applyGapFill info) (fun s =>
        if gapMinTXID ≤ nextTXID info.maxTXID then (.ok (.bridged, info.maxTXID), s)
        else fillLevel gapMinTXID infos info.maxTXID s) s

/-- The loop of `fillFollowGap` over levels. -/
def fillLevels (afterTXID gapMinTXID : Nat) : List Nat → σ → Except FollowError Nat × σ
  | [], s => (.ok afterTXID, s)
  | level :: levels, s =>
      match (poll.client afterTXID).ltxFiles level 0 false with
      | .error err => (.error (.listLevel level err), s)
      | .ok itr =>
          let closeErr := poll.closeErr afterTXID level
          match fillLevel apply gapMinTXID itr.items afterTXID s with
          | (.error err, s) => (closeLevel level closeErr (.error err), s)
          | (.ok (.bridged, currentTXID), s) => (closeLevel level closeErr (.ok currentTXID), s)
          | (.ok (levelEnd, currentTXID), s) =>
              match levelEnd, itr.err with
              | .exhausted, some err => (closeLevel level closeErr (.error (.iterateLevel level err)), s)
              | _, _ => closeThen level closeErr (fun s =>
                  if afterTXID < currentTXID then (.ok currentTXID, s)
                  else fillLevels afterTXID gapMinTXID levels s) s

/-- The levels between level 0 and the snapshots. -/
def fillLevelNumbers : List Nat := List.range' 1 (snapshotLevel - 1)

theorem mem_fillLevelNumbers {level : Nat} :
    level ∈ fillLevelNumbers ↔ 1 ≤ level ∧ level < snapshotLevel := by
  rw [fillLevelNumbers, List.mem_range'_1, snapshotLevel]

theorem lt_of_mem_fillLevelNumbers (level : Nat) (h : level ∈ fillLevelNumbers) :
    level < snapshotLevel := (mem_fillLevelNumbers.mp h).2

/-- `Replica.fillFollowGap`. -/
def fillFollowGap (afterTXID gapMinTXID : Nat) (s : σ) : Except FollowError Nat × σ :=
  fillLevels poll apply afterTXID gapMinTXID fillLevelNumbers s

/-- The end of the loop body over level 0: applies the file unless it is covered. -/
def level0Apply (info : FileInfo) (next : Nat → σ → Except FollowError (LevelEnd × Nat) × σ)
    (currentTXID : Nat) (s : σ) : Except FollowError (LevelEnd × Nat) × σ :=
  if info.maxTXID ≤ currentTXID then next currentTXID s
  else applyThen apply info (.applyLTXFile info) (next info.maxTXID) s

/-- The loop of `applyNewLTXFiles` over level 0. -/
def level0 : List FileInfo → Nat → σ → Except FollowError (LevelEnd × Nat) × σ
  | [], currentTXID, s => (.ok (.exhausted, currentTXID), s)
  | info :: infos, currentTXID, s =>
      if nextTXID currentTXID < info.minTXID then
        match fillFollowGap poll apply currentTXID info.minTXID s with
        | (.error err, s) => (.error err, s)
        | (.ok currentTXID, s) =>
            if currentTXID < info.maxTXID ∧ nextTXID currentTXID < info.minTXID then
              (.ok (.gap, currentTXID), s)
            else level0Apply apply info (level0 infos) currentTXID s
      else level0Apply apply info (level0 infos) currentTXID s

/-- `Replica.applyNewLTXFiles` over any state that files are applied to. -/
def applyNewLTXFilesTo (afterTXID : Nat) (s : σ) : Except FollowError Nat × σ :=
  match (poll.client afterTXID).ltxFiles 0 (nextTXID afterTXID) false with
  | .error err => (.error (.listLevel 0 err), s)
  | .ok itr =>
      let closeErr := poll.closeErr afterTXID 0
      match level0 poll apply itr.items afterTXID s with
      | (.error err, s) => (closeLevel 0 closeErr (.error err), s)
      | (.ok (levelEnd, currentTXID), s) =>
          match levelEnd, itr.err with
          | .exhausted, some err => (closeLevel 0 closeErr (.error (.iterateLevel 0 err)), s)
          | .exhausted, none => closeThen 0 closeErr (fun s =>
              if itr.items = [] then
                fillFollowGap poll apply currentTXID (nextTXID currentTXID) s
              else (.ok currentTXID, s)) s
          | _, _ => (closeLevel 0 closeErr (.ok currentTXID), s)

end Loops

/-- `Replica.applyNewLTXFiles`: what is returned, and the database. -/
def applyNewLTXFiles (afterTXID : Nat) (f : Bytes) : Except FollowError Nat × Bytes :=
  applyNewLTXFilesTo poll (fun info f => applyLTXFile (poll.stream info) f) afterTXID f

/-- A run of the loops that only notes the files. -/
def trace (afterTXID : Nat) : Except FollowError Nat × List FileInfo :=
  applyNewLTXFilesTo poll (fun info tried => ((poll.stream info).err, tried ++ [info]))
    afterTXID []

/-- The files that a poll applies, in order.  If one fails it is the last. -/
def tried (afterTXID : Nat) : List FileInfo := (poll.trace afterTXID).2

/-- Some listing of a level below the snapshots has the file. -/
def Listed (info : FileInfo) : Prop :=
  ∃ txID level seek itr, level < snapshotLevel ∧
    (poll.client txID).ltxFiles level seek false = .ok itr ∧ info ∈ itr.items

/-! ## A rule for the loops -/

section Rule

variable {σ τ : Type*} {apply : FileInfo → σ → Option ApplyError × σ}
  {apply' : FileInfo → τ → Option ApplyError × τ} {I : Nat → σ → τ → Prop} {J : σ → τ → Prop}
  {s : σ} {t : τ}

/-- Two runs return the same.  Their states are related by `I` at the position returned, and by
`J` after an error. -/
def Related {α : Type*} (I : Nat → σ → τ → Prop) (J : σ → τ → Prop) (pos : α → Nat)
    (r : Except FollowError α × σ) (r' : Except FollowError α × τ) : Prop :=
  match r, r' with
  | (.ok a, s), (.ok a', t) => a = a' ∧ I (pos a) s t
  | (.error e, s), (.error e', t) => e = e' ∧ J s t
  | _, _ => False

/-- What applying a file that is due does in two runs. -/
def Applies (I : Nat → σ → τ → Prop) (J : σ → τ → Prop) (info : FileInfo)
    (r : Option ApplyError × σ) (r' : Option ApplyError × τ) : Prop :=
  match r, r' with
  | (none, s), (none, t) => I info.maxTXID s t
  | (some e, s), (some e', t) => e = e' ∧ J s t
  | _, _ => False

/-- Applying a listed file that is due keeps the relation. -/
def Keeps (apply : FileInfo → σ → Option ApplyError × σ)
    (apply' : FileInfo → τ → Option ApplyError × τ) (I : Nat → σ → τ → Prop) (J : σ → τ → Prop) :
    Prop :=
  ∀ info currentTXID s t, poll.Listed info → info.minTXID ≤ nextTXID currentTXID →
    currentTXID < info.maxTXID → I currentTXID s t → Applies I J info (apply info s) (apply' info t)

theorem Related.close {α : Type*} {pos : α → Nat} {r : Except FollowError α}
    (hIJ : ∀ cur s t, I cur s t → J s t) (h : Related I J pos (r, s) (r, t)) (level : Nat)
    (closeErr : Option ClientError) :
    Related I J pos (closeLevel level closeErr r, s) (closeLevel level closeErr r, t) := by
  cases r with
  | ok a =>
      cases closeErr with
      | none => exact h
      | some err => exact ⟨rfl, hIJ _ _ _ h.2⟩
  | error e =>
      cases closeErr with
      | none => exact h
      | some err => exact ⟨rfl, h.2⟩

theorem applyThen_related {α : Type*} {pos : α → Nat} {info : FileInfo}
    {wrap : ApplyError → FollowError} {next : σ → Except FollowError α × σ}
    {next' : τ → Except FollowError α × τ}
    (happly : Applies I J info (apply info s) (apply' info t))
    (hnext : ∀ s t, I info.maxTXID s t → Related I J pos (next s) (next' t)) :
    Related I J pos (applyThen apply info wrap next s) (Poll.applyThen apply' info wrap next' t) := by
  unfold Poll.applyThen
  revert happly
  rcases apply info s with ⟨_ | e, s'⟩ <;> rcases apply' info t with ⟨_ | e', t'⟩ <;> intro happly
  · exact hnext s' t' happly
  · exact happly.elim
  · exact happly.elim
  · obtain ⟨rfl, hJ⟩ := happly
    exact ⟨rfl, hJ⟩

theorem closeThen_related {α : Type*} {pos : α → Nat} {next : σ → Except FollowError α × σ}
    {next' : τ → Except FollowError α × τ} (hJ : J s t) (level : Nat)
    (closeErr : Option ClientError) (hnext : Related I J pos (next s) (next' t)) :
    Related I J pos (closeThen level closeErr next s) (closeThen level closeErr next' t) := by
  cases closeErr with
  | none => exact hnext
  | some err => exact ⟨rfl, hJ⟩

variable {poll}

/-- One run, as far as the position is concerned. -/
theorem keeps_self (apply : FileInfo → σ → Option ApplyError × σ) (startTXID : Nat) :
    poll.Keeps apply apply (fun cur s t => s = t ∧ startTXID ≤ cur) (fun s t => s = t) := by
  rintro info cur s t - - hmax ⟨rfl, hle⟩
  rcases apply info s with ⟨_ | e, s'⟩
  · exact ⟨rfl, hle.trans hmax.le⟩
  · exact ⟨rfl, rfl⟩

theorem fillLevel_related (hkeeps : poll.Keeps apply apply' I J) (gapMinTXID : Nat)
    {infos : List FileInfo} (hlisted : ∀ info ∈ infos, poll.Listed info) {currentTXID : Nat}
    (h : I currentTXID s t) :
    Related I J Prod.snd (fillLevel apply gapMinTXID infos currentTXID s)
      (fillLevel apply' gapMinTXID infos currentTXID t) := by
  induction infos generalizing currentTXID s t with
  | nil => exact ⟨rfl, h⟩
  | cons info infos ih =>
      have ih' {cur : Nat} {s : σ} {t : τ} (h : I cur s t) :=
        ih (fun i hi => hlisted i (List.mem_cons_of_mem info hi)) h
      unfold fillLevel
      by_cases hgap : nextTXID currentTXID < info.minTXID
      · rw [if_pos hgap, if_pos hgap]
        exact ⟨rfl, h⟩
      rw [if_neg hgap, if_neg hgap]
      by_cases hcovered : info.maxTXID ≤ currentTXID
      · rw [if_pos hcovered, if_pos hcovered]
        exact ih' h
      rw [if_neg hcovered, if_neg hcovered]
      refine applyThen_related (hkeeps info currentTXID s t (hlisted info List.mem_cons_self)
        (Nat.not_lt.mp hgap) (Nat.not_le.mp hcovered) h) fun s t h => ?_
      by_cases hbridged : gapMinTXID ≤ nextTXID info.maxTXID
      · rw [if_pos hbridged, if_pos hbridged]
        exact ⟨rfl, h⟩
      · rw [if_neg hbridged, if_neg hbridged]
        exact ih' h

theorem fillLevel_le {gapMinTXID : Nat} {infos : List FileInfo} {currentTXID cur : Nat}
    {levelEnd : LevelEnd} {s' : σ}
    (h : fillLevel apply gapMinTXID infos currentTXID s = (.ok (levelEnd, cur), s')) :
    currentTXID ≤ cur := by
  induction infos generalizing currentTXID s with
  | nil =>
      cases h
      exact le_rfl
  | cons info infos ih =>
      unfold fillLevel at h
      split at h
      · cases h
        exact le_rfl
      split at h
      · exact ih h
      next hcovered =>
        unfold applyThen at h
        split at h
        · cases h
        split at h
        · cases h
          omega
        · exact le_trans (by omega) (ih h)

theorem fillLevels_related (hIJ : ∀ cur s t, I cur s t → J s t)
    (hkeeps : poll.Keeps apply apply' I J) (afterTXID gapMinTXID : Nat) {levels : List Nat}
    (hlevels : ∀ level ∈ levels, level < snapshotLevel) (h : I afterTXID s t) :
    Related I J id (fillLevels poll apply afterTXID gapMinTXID levels s)
      (fillLevels poll apply' afterTXID gapMinTXID levels t) := by
  induction levels generalizing s t with
  | nil => exact ⟨rfl, h⟩
  | cons level levels ih =>
      unfold fillLevels
      cases hlist : (poll.client afterTXID).ltxFiles level 0 false with
      | error err => exact ⟨rfl, hIJ _ _ _ h⟩
      | ok itr =>
          have hlevel := fillLevel_related hkeeps gapMinTXID
            (fun info hi => ⟨afterTXID, level, 0, itr, hlevels level List.mem_cons_self, hlist, hi⟩) h
          simp only
          rcases hs : fillLevel apply gapMinTXID itr.items afterTXID s with
            ⟨e | ⟨levelEnd, cur⟩, s'⟩ <;>
            rcases ht : fillLevel apply' gapMinTXID itr.items afterTXID t with
              ⟨e' | ⟨levelEnd', cur'⟩, t'⟩ <;> rw [hs, ht] at hlevel
          · obtain ⟨rfl, hJ⟩ := hlevel
            exact Related.close (r := .error e) hIJ ⟨rfl, hJ⟩ level _
          · exact hlevel.elim
          · exact hlevel.elim
          obtain ⟨heq, hI⟩ := hlevel
          cases heq
          have hle := fillLevel_le hs
          have hnext : Related I J id
              (if afterTXID < cur then (.ok cur, s')
                else fillLevels poll apply afterTXID gapMinTXID levels s')
              (if afterTXID < cur then (.ok cur, t')
                else fillLevels poll apply' afterTXID gapMinTXID levels t') := by
            by_cases hprogress : afterTXID < cur
            · rw [if_pos hprogress, if_pos hprogress]
              exact ⟨rfl, hI⟩
            · rw [if_neg hprogress, if_neg hprogress]
              obtain rfl : afterTXID = cur := by omega
              exact ih (fun n hn => hlevels n (List.mem_cons_of_mem level hn)) hI
          cases levelEnd with
          | bridged => exact Related.close (r := .ok cur) hIJ ⟨rfl, hI⟩ level _
          | gap => exact closeThen_related (hIJ _ _ _ hI) level _ hnext
          | exhausted =>
              cases itr.err with
              | none => exact closeThen_related (hIJ _ _ _ hI) level _ hnext
              | some err => exact Related.close (r := .error _) hIJ ⟨rfl, hIJ _ _ _ hI⟩ level _

theorem level0_related (hIJ : ∀ cur s t, I cur s t → J s t)
    (hkeeps : poll.Keeps apply apply' I J) {infos : List FileInfo}
    (hlisted : ∀ info ∈ infos, poll.Listed info) {currentTXID : Nat} (h : I currentTXID s t) :
    Related I J Prod.snd (level0 poll apply infos currentTXID s)
      (level0 poll apply' infos currentTXID t) := by
  induction infos generalizing currentTXID s t with
  | nil => exact ⟨rfl, h⟩
  | cons info infos ih =>
      have ih' {cur : Nat} {s : σ} {t : τ} (h : I cur s t) :=
        ih (fun i hi => hlisted i (List.mem_cons_of_mem info hi)) h
      have happly : ∀ {cur : Nat} {s : σ} {t : τ}, info.minTXID ≤ nextTXID cur ∨
          info.maxTXID ≤ cur → I cur s t → Related I J Prod.snd
            (level0Apply apply info (level0 poll apply infos) cur s)
            (level0Apply apply' info (level0 poll apply' infos) cur t) := by
        intro cur s t hdue h
        unfold level0Apply
        by_cases hcovered : info.maxTXID ≤ cur
        · rw [if_pos hcovered, if_pos hcovered]
          exact ih' h
        · rw [if_neg hcovered, if_neg hcovered]
          exact applyThen_related (hkeeps info cur s t (hlisted info List.mem_cons_self)
            (hdue.resolve_right hcovered) (Nat.not_le.mp hcovered) h) fun s t h => ih' h
      unfold level0
      by_cases hgap : nextTXID currentTXID < info.minTXID
      · rw [if_pos hgap, if_pos hgap]
        have hfill := fillLevels_related hIJ hkeeps currentTXID info.minTXID
          lt_of_mem_fillLevelNumbers h
        revert hfill
        unfold fillFollowGap
        rcases fillLevels poll apply currentTXID info.minTXID fillLevelNumbers s with
          ⟨e | cur, s'⟩ <;>
          rcases fillLevels poll apply' currentTXID info.minTXID fillLevelNumbers t with
            ⟨e' | cur', t'⟩ <;> intro hfill
        · exact hfill
        · exact hfill.elim
        · exact hfill.elim
        obtain ⟨rfl, hI⟩ := hfill
        simp only
        by_cases hstill : cur < info.maxTXID ∧ nextTXID cur < info.minTXID
        · rw [if_pos hstill, if_pos hstill]
          exact ⟨rfl, hI⟩
        · rw [if_neg hstill, if_neg hstill]
          exact happly (by omega) hI
      · rw [if_neg hgap, if_neg hgap]
        exact happly (Or.inl (Nat.not_lt.mp hgap)) h

/-- What applying a file that is due keeps, a poll keeps. -/
theorem applyNewLTXFilesTo_related (hIJ : ∀ cur s t, I cur s t → J s t)
    (hkeeps : poll.Keeps apply apply' I J) {afterTXID : Nat} (h : I afterTXID s t) :
    Related I J id (applyNewLTXFilesTo poll apply afterTXID s)
      (applyNewLTXFilesTo poll apply' afterTXID t) := by
  unfold applyNewLTXFilesTo
  cases hlist : (poll.client afterTXID).ltxFiles 0 (nextTXID afterTXID) false with
  | error err => exact ⟨rfl, hIJ _ _ _ h⟩
  | ok itr =>
      have hlevel := level0_related hIJ hkeeps
        (fun info hi => ⟨afterTXID, 0, _, itr, by decide, hlist, hi⟩) h
      revert hlevel
      simp only
      rcases level0 poll apply itr.items afterTXID s with ⟨e | ⟨levelEnd, cur⟩, s'⟩ <;>
        rcases level0 poll apply' itr.items afterTXID t with ⟨e' | ⟨levelEnd', cur'⟩, t'⟩ <;>
        intro hlevel
      · obtain ⟨rfl, hJ⟩ := hlevel
        exact Related.close (r := .error e) hIJ ⟨rfl, hJ⟩ 0 _
      · exact hlevel.elim
      · exact hlevel.elim
      obtain ⟨heq, hI⟩ := hlevel
      cases heq
      cases levelEnd with
      | bridged => exact Related.close (r := .ok cur) hIJ ⟨rfl, hI⟩ 0 _
      | gap => exact Related.close (r := .ok cur) hIJ ⟨rfl, hI⟩ 0 _
      | exhausted =>
          cases itr.err with
          | some err => exact Related.close (r := .error _) hIJ ⟨rfl, hIJ _ _ _ hI⟩ 0 _
          | none =>
              refine closeThen_related (hIJ _ _ _ hI) 0 _ ?_
              by_cases hitems : itr.items = []
              · rw [if_pos hitems, if_pos hitems]
                exact fillLevels_related hIJ hkeeps cur _ lt_of_mem_fillLevelNumbers hI
              · rw [if_neg hitems, if_neg hitems]
                exact ⟨rfl, hI⟩

end Rule

end Poll

end Litestream
