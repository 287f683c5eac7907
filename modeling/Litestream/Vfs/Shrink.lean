import Litestream.Lib.Resize
import Litestream.Vfs.Open

/-!
# Polls that shrink the database

A level poll that finds a smaller commit size drops the index it has built so far, and the
poll then replaces the index of the file by what it has read since.  The pages that were not
written since are gone, whether they were cut off or not.

`resized_iff` says when a poll does to the index what the polled files do to the database:
cut it off at every commit size and lay the new pages over the rest.
-/

namespace Litestream

namespace Vfs

open Overlay Cover Resize

variable {ps : PageSize}

namespace VFSFile

/-- The files of a listing that follow each other. -/
def contiguous : Nat → List (LTXFile ps) → List (LTXFile ps)
  | _, [] => []
  | maxTXID, file :: files =>
    if file.minTXID ≠ maxTXID + 1 then [] else file :: contiguous file.maxTXID files

/-- The files that a poll reads of a level. -/
def levelFiles (replica : Replica ps) (level prevMaxTXID : Nat) : List (LTXFile ps) :=
  contiguous prevMaxTXID (newFiles replica level prevMaxTXID)

/-- The files that a poll reads, level 0 first. -/
def polledFiles (replica : Replica ps) (f : VFSFile) : List (LTXFile ps) :=
  levelFiles replica 0 f.pos ++ levelFiles replica 1 f.maxTXID1

/-- The index once the result of a poll is applied. -/
def settled (f : VFSFile) : Index :=
  if f.lockType.toNat ≥ LockType.shared.toNat then f.applied else f.index

end VFSFile

/-- What files do to an index: each cuts it off at its commit size, and lays its own pages
over the rest. -/
def resized (index : Index) (files : List (LTXFile ps)) : Index :=
  replay LTXFile.commit FetchPageIndex index files

/-- Some file holds the page. -/
def Holds (files : List (LTXFile ps)) (k : Nat) : Prop :=
  ∃ file ∈ files, ∃ frame ∈ file.frames, frame.pgno = k

instance (files : List (LTXFile ps)) (k : Nat) : Decidable (Holds files k) :=
  inferInstanceAs (Decidable (∃ file ∈ files, ∃ frame ∈ file.frames, frame.pgno = k))

/-- The commit size that the first file of level 1 is compared with. -/
def comparedCommit (commit : Nat) (files : List (LTXFile ps)) : Nat :=
  if Shrinks LTXFile.commit commit files ∨ mergeIndex files ≠ [] then
    finalSize LTXFile.commit commit files
  else commit

/-- Some polled file has a smaller commit size than the one it is compared with. -/
def Replaces (commit : Nat) (files0 files1 : List (LTXFile ps)) : Prop :=
  Shrinks LTXFile.commit commit files0 ∨
    Shrinks LTXFile.commit (comparedCommit commit files0) files1

instance (commit : Nat) (files0 files1 : List (LTXFile ps)) :
    Decidable (Replaces commit files0 files1) := inferInstanceAs (Decidable (_ ∨ _))

/-- The poll reads again, from the last file that shrinks the database on, what is left of
the index and of the files before.  Without such a file every page is within the commit
sizes. -/
structure Rewritten (entries : Index) (commit : Nat) (files0 files1 : List (LTXFile ps)) : Prop where
  index : Replaces commit files0 files1 → ∀ k ∈ entries.map Prod.fst,
    (∀ file ∈ files0 ++ files1, k ≤ file.commit) →
      Holds (sinceShrink LTXFile.commit (files0 ++ files1)) k
  files : Replaces commit files0 files1 → ∀ before file after,
    files0 ++ files1 = before ++ file :: after → ∀ frame ∈ file.frames,
      (∀ g ∈ after, frame.pgno ≤ g.commit) →
        Holds (sinceShrink LTXFile.commit (files0 ++ files1)) frame.pgno
  bounded : ¬ Replaces commit files0 files1 → ∀ k ∈ entries.map Prod.fst,
    ¬ Holds (files0 ++ files1) k → ∀ file ∈ files0 ++ files1, k ≤ file.commit

section

variable {f f' : VFSFile} {replica : Replica ps} {file : LTXFile ps} {level k : Nat}
  {files files0 files1 : List (LTXFile ps)} {p q p0 p1 : VFSFile.LevelPoll} {index : Index}

/-! ## What a level reads -/

theorem pollFiles_eq_ok (h : VFSFile.pollFiles level p files = .ok q) :
    q = (VFSFile.contiguous p.maxTXID files).foldl VFSFile.LevelPoll.add p := by
  induction files generalizing p with
  | nil => exact (Except.ok.inj h).symm
  | cons file files ih =>
      rw [VFSFile.pollFiles] at h
      rw [VFSFile.contiguous]
      by_cases hnext : file.minTXID ≠ p.maxTXID + 1
      · rw [if_pos hnext] at h ⊢
        split at h
        · exact (Except.ok.inj h).symm
        · cases h
      · rw [if_neg hnext] at h ⊢
        exact ih h

theorem commit_foldl (files : List (LTXFile ps)) (p : VFSFile.LevelPoll) :
    (files.foldl VFSFile.LevelPoll.add p).commit = finalSize LTXFile.commit p.commit files := by
  induction files generalizing p with
  | nil => rfl
  | cons file files ih => exact ih (p.add file)

theorem replaceIndex_foldl (files : List (LTXFile ps)) (p : VFSFile.LevelPoll) :
    (files.foldl VFSFile.LevelPoll.add p).replaceIndex = true ↔
      p.replaceIndex = true ∨ Shrinks LTXFile.commit p.commit files := by
  induction files generalizing p with
  | nil => exact (or_iff_left shrinks_nil).symm
  | cons file files ih =>
      rw [List.foldl_cons, ih, VFSFile.LevelPoll.add, Bool.or_eq_true, decide_eq_true_eq,
        shrinks_cons, or_assoc]

/-- A level keeps the entries since the last file that shrinks the database. -/
theorem index_foldl (files : List (LTXFile ps)) (p : VFSFile.LevelPoll) :
    (files.foldl VFSFile.LevelPoll.add p).index =
      (if Shrinks LTXFile.commit p.commit files then [] else p.index) ++
        mergeIndex (sinceShrink LTXFile.commit files) := by
  induction files generalizing p with
  | nil =>
      rw [List.foldl_nil, if_neg shrinks_nil, sinceShrink, mergeIndex, List.flatMap_nil,
        List.append_nil]
  | cons file files ih =>
      rw [List.foldl_cons, ih, VFSFile.LevelPoll.add, sinceShrink]
      dsimp only
      by_cases hlater : Shrinks LTXFile.commit file.commit files
      · have hshrinks : Shrinks LTXFile.commit p.commit (file :: files) := Or.inr hlater
        rw [if_pos hlater, if_pos hlater, if_pos hshrinks]
      · have hiff : Shrinks LTXFile.commit p.commit (file :: files) ↔ file.commit < p.commit :=
          or_iff_left hlater
        rw [if_neg hlater, if_neg hlater, sinceShrink_of_not hlater, mergeIndex, mergeIndex,
          List.flatMap_cons, List.append_assoc]
        simp only [hiff]

theorem pollLevel_eq_ok {prevMaxTXID baseCommit : Nat}
    (h : VFSFile.pollLevel replica level prevMaxTXID baseCommit = .ok q) :
    q.index = mergeIndex (sinceShrink LTXFile.commit (VFSFile.levelFiles replica level prevMaxTXID)) ∧
      q.commit = finalSize LTXFile.commit baseCommit
        (VFSFile.levelFiles replica level prevMaxTXID) ∧
      (q.replaceIndex = true ↔ Shrinks LTXFile.commit baseCommit
        (VFSFile.levelFiles replica level prevMaxTXID)) := by
  rw [pollFiles_eq_ok h, index_foldl, commit_foldl, replaceIndex_foldl, ite_self, List.nil_append]
  exact ⟨rfl, rfl, or_iff_right Bool.false_ne_true⟩

/-! ## What a poll applies -/

theorem settled_applyPoll (htarget : f.targetTime = none) (p0 p1 : VFSFile.LevelPoll) :
    (f.applyPoll p0 p1).settled =
      (if p0.replaceIndex || p1.replaceIndex then [] else f.settled) ++
        VFSFile.combined p0 p1 := by
  rw [VFSFile.applyPoll, if_neg (not_not.mpr htarget)]
  dsimp only
  by_cases hlock : f.lockType.toNat ≥ LockType.shared.toNat
  · rw [if_pos hlock, VFSFile.settled, if_pos hlock, VFSFile.settled, if_pos hlock,
      VFSFile.applied, VFSFile.applied]
    cases hreplace : p0.replaceIndex || p1.replaceIndex with
    | true => simp
    | false =>
        cases hpending : f.pendingReplace with
        | true => simp
        | false => simp [List.append_assoc]
  · rw [if_neg hlock, VFSFile.settled, if_neg hlock, VFSFile.settled, if_neg hlock]

theorem baseCommit_eq (h0 : VFSFile.pollLevel replica 0 f.pos f.commit = .ok p0) :
    VFSFile.baseCommit f.commit p0 =
      comparedCommit f.commit (VFSFile.levelFiles replica 0 f.pos) := by
  obtain ⟨hindex0, hcommit0, hreplace0⟩ := pollLevel_eq_ok h0
  rw [VFSFile.baseCommit, comparedCommit, hcommit0]
  by_cases hshrinks : Shrinks LTXFile.commit f.commit (VFSFile.levelFiles replica 0 f.pos)
  · rw [if_pos (Or.inl (hreplace0.mpr hshrinks)), if_pos (Or.inl hshrinks)]
  · rw [sinceShrink_of_not hshrinks] at hindex0
    simp only [hreplace0, hshrinks, false_or, hindex0]

/-- Some polled file of level 1 has a smaller commit size than the one it is compared with. -/
theorem replaceIndex_iff (h0 : VFSFile.pollLevel replica 0 f.pos f.commit = .ok p0)
    (h1 : VFSFile.pollLevel replica 1 f.maxTXID1 (VFSFile.baseCommit f.commit p0) = .ok p1) :
    p1.replaceIndex = true ↔ Shrinks LTXFile.commit
      (comparedCommit f.commit (VFSFile.levelFiles replica 0 f.pos))
      (VFSFile.levelFiles replica 1 f.maxTXID1) := by
  rw [← baseCommit_eq h0]
  exact (pollLevel_eq_ok h1).2.2

theorem comparedCommit_le {commit : Nat} (h : ¬ Shrinks LTXFile.commit commit files0) :
    comparedCommit commit files0 ≤ finalSize LTXFile.commit commit files0 := by
  rw [comparedCommit]
  split
  · exact le_rfl
  · exact le_finalSize h

theorem comparedCommit_of_shrinks {commit : Nat} (h : Shrinks LTXFile.commit commit files0) :
    comparedCommit commit files0 = finalSize LTXFile.commit commit files0 := if_pos (Or.inl h)

/-- What both levels add up to. -/
theorem combined_eq (index : Index) {commit : Nat} {b0 b1 : Bool}
    (h0 : b0 = true ↔ Shrinks LTXFile.commit commit files0)
    (h1 : b1 = true ↔ Shrinks LTXFile.commit (comparedCommit commit files0) files1) :
    (if b0 || b1 then [] else index) ++
        (if b1 then mergeIndex (sinceShrink LTXFile.commit files1)
          else mergeIndex (sinceShrink LTXFile.commit files0) ++
            mergeIndex (sinceShrink LTXFile.commit files1)) =
      if Replaces commit files0 files1
      then mergeIndex (sinceShrink LTXFile.commit (files0 ++ files1))
      else index ++ mergeIndex (files0 ++ files1) := by
  by_cases hs1 : Shrinks LTXFile.commit (comparedCommit commit files0) files1
  · have hle : comparedCommit commit files0 ≤ finalSize LTXFile.commit commit files0 := by
      by_cases hs0 : Shrinks LTXFile.commit commit files0
      · exact (comparedCommit_of_shrinks hs0).le
      · exact comparedCommit_le hs0
    have hreplaces : Replaces commit files0 files1 := Or.inr hs1
    rw [h1.mpr hs1, Bool.or_true, if_pos rfl, if_pos rfl, if_pos hreplaces, List.nil_append,
      sinceShrink_append_of_shrinks (hs1.mono hle)]
  · rw [Bool.eq_false_iff.mpr (h1.not.mpr hs1), Bool.or_false, if_neg Bool.false_ne_true,
      sinceShrink_of_not hs1, ← mergeIndex_append]
    by_cases hs0 : Shrinks LTXFile.commit commit files0
    · have hreplaces : Replaces commit files0 files1 := Or.inl hs0
      rw [h0.mpr hs0, if_pos rfl, if_pos hreplaces, List.nil_append]
      rw [comparedCommit_of_shrinks hs0] at hs1
      rw [sinceShrink_append_of_not hs1]
    · have hreplaces : ¬ Replaces commit files0 files1 := not_or.mpr ⟨hs0, hs1⟩
      rw [Bool.eq_false_iff.mpr (h0.not.mpr hs0), if_neg Bool.false_ne_true, if_neg hreplaces,
        sinceShrink_of_not hs0]

/-- What a poll reads and applies. -/
theorem pollReplicaClient_eq_ok (hpoll : f.pollReplicaClient replica = .ok f') : ∃ p0 p1,
    VFSFile.pollLevel replica 0 f.pos f.commit = .ok p0 ∧
      VFSFile.pollLevel replica 1 f.maxTXID1 (VFSFile.baseCommit f.commit p0) = .ok p1 ∧
      f' = f.applyPoll p0 p1 := by
  rw [VFSFile.pollReplicaClient] at hpoll
  cases h0 : VFSFile.pollLevel replica 0 f.pos f.commit with
  | error err => rw [h0] at hpoll; cases hpoll
  | ok p0 =>
      rw [h0] at hpoll
      simp only [bind, Except.bind, pure, Except.pure] at hpoll
      cases h1 : VFSFile.pollLevel replica 1 f.maxTXID1 (VFSFile.baseCommit f.commit p0) with
      | error err => rw [h1] at hpoll; cases hpoll
      | ok p1 =>
          rw [h1] at hpoll
          exact ⟨p0, p1, rfl, h1, (Except.ok.inj hpoll).symm⟩

/-- A poll that replaces the index keeps the entries since the last file that shrinks the
database.  Another poll keeps all. -/
theorem settled_poll (hpoll : f.pollReplicaClient replica = .ok f') (htarget : f.targetTime = none) :
    f'.settled =
      if Replaces f.commit (VFSFile.levelFiles replica 0 f.pos)
          (VFSFile.levelFiles replica 1 f.maxTXID1)
      then mergeIndex (sinceShrink LTXFile.commit (f.polledFiles replica))
      else f.settled ++ mergeIndex (f.polledFiles replica) := by
  obtain ⟨p0, p1, h0, h1, rfl⟩ := pollReplicaClient_eq_ok hpoll
  obtain ⟨hindex0, -, hreplace0⟩ := pollLevel_eq_ok h0
  obtain ⟨hindex1, -, -⟩ := pollLevel_eq_ok h1
  have hreplace1 := replaceIndex_iff h0 h1
  rw [settled_applyPoll htarget, VFSFile.combined, hindex0, hindex1, VFSFile.polledFiles]
  generalize VFSFile.levelFiles replica 0 f.pos = files0 at *
  generalize VFSFile.levelFiles replica 1 f.maxTXID1 = files1 at *
  exact combined_eq f.settled hreplace0 hreplace1

/-! ## What the files do to an index -/

theorem holds_iff : Holds files k ↔ k ∈ (mergeIndex files).map Prod.fst := by
  rw [mergeIndex, List.map_flatMap, List.mem_flatMap]
  simp only [Holds, FetchPageIndex, List.map_map, List.mem_map, Function.comp_apply]

theorem fetchPageIndex_le (files : List (LTXFile ps)) :
    ∀ file ∈ files, ∀ w ∈ FetchPageIndex file, w.1 ≤ file.commit := by
  intro file _ w hw
  obtain ⟨frame, hframe, rfl⟩ := List.mem_map.mp hw
  exact (file.bounds frame hframe).2

/-- A page is left if it was there or in a file, and no later file has cut it off. -/
theorem mem_resized_iff : k ∈ (resized index files).map Prod.fst ↔
    (k ∈ index.map Prod.fst ∧ ∀ file ∈ files, k ≤ file.commit) ∨
      ∃ before file after, files = before ++ file :: after ∧
        (∃ frame ∈ file.frames, frame.pgno = k) ∧ ∀ g ∈ after, k ≤ g.commit := by
  rw [resized, mem_replay_iff]
  simp only [FetchPageIndex, List.map_map, List.mem_map, Function.comp_apply]

theorem lastWrite_resized (h : k ∈ (resized index files).map Prod.fst) :
    lastWrite (resized index files) k = lastWrite (index ++ mergeIndex files) k :=
  lastWrite_replay h

theorem mem_resized_of_sinceShrink (h : Holds (sinceShrink LTXFile.commit files) k) :
    k ∈ (resized index files).map Prod.fst :=
  mem_replay_of_sinceShrink (fetchPageIndex_le files) (holds_iff.mp h)

/-- An index that is replaced has what it should if it has every page that is left. -/
theorem replaced_iff :
    (∀ k, lastWrite (mergeIndex (sinceShrink LTXFile.commit files)) k =
        lastWrite (resized index files) k) ↔
      ∀ k ∈ (resized index files).map Prod.fst, Holds (sinceShrink LTXFile.commit files) k := by
  constructor
  · intro h k hk
    by_contra hnot
    rw [holds_iff, ← lastWrite_eq_none_iff] at hnot
    exact lastWrite_eq_none_iff.mp ((h k).symm.trans hnot) hk
  · intro h k
    by_cases hk : Holds (sinceShrink LTXFile.commit files) k
    · -- the last file that holds the page comes after the last that shrinks the database
      obtain ⟨before, hbefore⟩ := sinceShrink_suffix LTXFile.commit files
      obtain ⟨e, he⟩ :=
        Option.ne_none_iff_exists'.mp (lastWrite_eq_none_iff.not_left.mpr (holds_iff.mp hk))
      rw [lastWrite_resized (mem_resized_of_sinceShrink hk), ← hbefore, mergeIndex_append,
        ← List.append_assoc, lastWrite_append, hbefore, he, Option.some_or]
    · have hnone : lastWrite (mergeIndex (sinceShrink LTXFile.commit files)) k = none :=
        lastWrite_eq_none_iff.mpr fun hmem => hk (holds_iff.mpr hmem)
      rw [hnone, eq_comm, lastWrite_eq_none_iff]
      exact fun hmem => hk (h k hmem)

/-- An index that is extended has what it should if no page of it is cut off. -/
theorem extended_iff :
    (∀ k, lastWrite (index ++ mergeIndex files) k = lastWrite (resized index files) k) ↔
      ∀ k ∈ (index ++ mergeIndex files).map Prod.fst, k ∈ (resized index files).map Prod.fst := by
  constructor
  · intro h k hk
    by_contra hnot
    exact lastWrite_eq_none_iff.mp ((h k).trans (lastWrite_eq_none_iff.mpr hnot)) hk
  · intro h k
    by_cases hk : k ∈ (resized index files).map Prod.fst
    · exact (lastWrite_resized hk).symm
    · have hnot : k ∉ (index ++ mergeIndex files).map Prod.fst := fun hmem => hk (h k hmem)
      rw [lastWrite_eq_none_iff.mpr hnot, lastWrite_eq_none_iff.mpr hk]

/-- A poll that extends the index cuts off no page that it reads. -/
theorem mem_resized_of_not_replaces {commit : Nat} (h : ¬ Replaces commit files0 files1)
    (hk : k ∈ (mergeIndex (files0 ++ files1)).map Prod.fst) :
    k ∈ (resized index (files0 ++ files1)).map Prod.fst := by
  obtain ⟨h0, h1⟩ := not_or.mp h
  by_cases hempty : mergeIndex files0 = []
  · rw [mergeIndex_append, hempty, List.nil_append] at hk
    rw [resized, replay_append]
    exact mem_replay_of_not_shrinks (fetchPageIndex_le files1) h1 hk
  · rw [comparedCommit, if_pos (Or.inr hempty)] at h1
    exact mem_replay_of_not_shrinks (fetchPageIndex_le _) (fun hs => (shrinks_append.mp hs).elim h0 h1)
      hk

/-- A poll leaves of the index, and adds to it, what the polled files leave and add, if and
only if the files that replace it hold all that is left. -/
theorem resized_iff (hpoll : f.pollReplicaClient replica = .ok f') (htarget : f.targetTime = none) :
    (∀ k, lastWrite f'.settled k = lastWrite (resized f.settled (f.polledFiles replica)) k) ↔
      Rewritten f.settled f.commit (VFSFile.levelFiles replica 0 f.pos)
        (VFSFile.levelFiles replica 1 f.maxTXID1) := by
  rw [settled_poll hpoll htarget, VFSFile.polledFiles]
  generalize VFSFile.levelFiles replica 0 f.pos = files0
  generalize VFSFile.levelFiles replica 1 f.maxTXID1 = files1
  by_cases hreplaces : Replaces f.commit files0 files1
  · rw [if_pos hreplaces, replaced_iff]
    constructor
    · intro h
      refine ⟨fun _ k hk hle => h k (mem_resized_iff.mpr (Or.inl ⟨hk, hle⟩)),
        fun _ before file after heq frame hframe hle => h frame.pgno ?_,
        fun hnot => absurd hreplaces hnot⟩
      exact mem_resized_iff.mpr (Or.inr ⟨before, file, after, heq, ⟨frame, hframe, rfl⟩, hle⟩)
    · intro h k hk
      rcases mem_resized_iff.mp hk with ⟨hk, hle⟩ | ⟨before, file, after, heq, ⟨frame, hframe, rfl⟩, hle⟩
      · exact h.index hreplaces k hk hle
      · exact h.files hreplaces before file after heq frame hframe hle
  · rw [if_neg hreplaces, extended_iff]
    constructor
    · intro h
      refine ⟨fun hr => absurd hr hreplaces, fun hr => absurd hr hreplaces,
        fun _ k hk hnot file hfile => ?_⟩
      have hmem := h k (by rw [List.map_append]; exact List.mem_append_left _ hk)
      rcases mem_resized_iff.mp hmem with ⟨-, hle⟩ | ⟨before, g, after, heq, ⟨frame, hframe, rfl⟩, -⟩
      · exact hle file hfile
      · exact absurd ⟨g, by rw [heq]; simp, frame, hframe, rfl⟩ hnot
    · intro h k hk
      by_cases hheld : Holds (files0 ++ files1) k
      · exact mem_resized_of_not_replaces hreplaces (holds_iff.mp hheld)
      · rw [List.map_append, List.mem_append, ← holds_iff, or_iff_left hheld] at hk
        exact mem_resized_iff.mpr (Or.inl ⟨hk, h.bounded hreplaces k hk hheld⟩)

end

/-! ## A transaction that drops the last of three pages -/

namespace ThreePages

/-- The second transaction cuts the database to two pages, and writes the first `n`. -/
def cut (n : Nat) (h : n ≤ 2) : LTXFile PageSize.min where
  info := ⟨0, 2, 2, 100, 2⟩
  commit := 2
  frames := (List.range n).map fun i => ⟨i + 1, i, 1, OnePage.page 2⟩
  valid := OnePage.update.valid
  pgnos_nodup := by
    rw [List.map_map]
    exact List.nodup_range.map fun i j h => Nat.succ_injective h
  offsets_nodup := by
    rw [List.map_map]
    exact List.nodup_range.map fun i j h => h
  bounds := by
    intro frame hframe
    obtain ⟨i, hi, rfl⟩ := List.mem_map.mp hframe
    exact ⟨Nat.succ_pos i, (List.mem_range.mp hi).trans_le h⟩

/-- A replica of a snapshot of three pages and the second transaction. -/
def replica (n : Nat) (h : n ≤ 2) : Replica PageSize.min where
  level k := if k = 9 then [OnePage.snapshot 3] else if k = 0 then [cut n h] else []
  level_eq k file hfile := by
    split at hfile
    · next h => rw [List.mem_singleton.mp hfile, h]; rfl
    · split at hfile
      · next h => rw [List.mem_singleton.mp hfile, h]; rfl
      · cases hfile
  names_nodup k := by
    split
    · simp
    · split <;> simp

/-- The file is opened after the snapshot. -/
def file : VFSFile := OnePage.file.rebuildIndex [OnePage.snapshot 3] none

theorem poll_ok (n : Nat) (h : n ≤ 2) : ∃ f', file.pollReplicaClient (replica n h) = .ok f' :=
  ⟨_, rfl⟩

end ThreePages

/-- Both pages that are left are written again. -/
theorem resized_iff_sample : ∃ f',
    ThreePages.file.pollReplicaClient (ThreePages.replica 2 le_rfl) = .ok f' ∧
      ∀ k, lastWrite f'.settled k = lastWrite (resized ThreePages.file.settled
        (ThreePages.file.polledFiles (ThreePages.replica 2 le_rfl))) k := by
  obtain ⟨f', hpoll⟩ := ThreePages.poll_ok 2 le_rfl
  refine ⟨f', hpoll, (resized_iff hpoll rfl).mpr ⟨fun _ => by decide +kernel, ?_, ?_⟩⟩
  · intro _ before file after heq
    have hmem : file ∈ [ThreePages.cut 2 le_rfl] := by
      change file ∈ VFSFile.levelFiles (ThreePages.replica 2 le_rfl) 0 ThreePages.file.pos ++
        VFSFile.levelFiles (ThreePages.replica 2 le_rfl) 1 ThreePages.file.maxTXID1
      rw [heq]
      exact List.mem_append_right _ List.mem_cons_self
    obtain rfl := List.mem_singleton.mp hmem
    exact fun frame hframe _ => ⟨_, List.mem_singleton_self _, frame, hframe, rfl⟩
  · exact fun h => absurd (by decide +kernel) h

/-- The second page, which is not written again, is lost. -/
theorem page_lost : ∃ f',
    ThreePages.file.pollReplicaClient (ThreePages.replica 1 one_le_two) = .ok f' ∧
      f'.commit = 2 ∧
      ¬ Holds (ThreePages.file.polledFiles (ThreePages.replica 1 one_le_two)) 2 ∧
      lastWrite ThreePages.file.settled 2 ≠ none ∧ lastWrite f'.settled 2 = none := by
  refine ⟨_, rfl, ?_, ?_, ?_, ?_⟩
  · decide +kernel
  · decide +kernel
  · decide +kernel
  · decide +kernel

end Vfs

end Litestream
