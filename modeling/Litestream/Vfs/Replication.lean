import Litestream.Lib.Run
import Litestream.Vfs.File

/-!
# Runs of a replica and a file that polls it

The writer uploads level 0 files without gaps, and compactions merge runs of them into
level 1 files with arbitrary boundaries.  A `VFSFile` polls the replica and takes and
releases locks.  The steps come in any order.

`history` holds every level 0 file that was ever uploaded.  Retention may have deleted the
oldest of them before the file was opened.  In a valid state level 0 has all files behind
the position of the file.

A poll reads consecutive files one after the other (`pollFiles_tiled`).  At level 0 they are
the files that the file has not seen (`Valid.newFiles_zero`).
-/

namespace Litestream

namespace Vfs

open Overlay Cover

variable {ps : PageSize}

/-- No file of this name is stored at the level of the file. -/
def Replica.Fresh (replica : Replica ps) (file : LTXFile ps) : Prop :=
  (file.minTXID, file.maxTXID) ∉
    (replica.level file.info.level).map fun g => (g.minTXID, g.maxTXID)

instance (replica : Replica ps) (file : LTXFile ps) : Decidable (replica.Fresh file) :=
  inferInstanceAs (Decidable (_ ∉ _))

/-- Adds a file to the end of its level. -/
def Replica.put (replica : Replica ps) (file : LTXFile ps) (h : replica.Fresh file) :
    Replica ps where
  level n := if n = file.info.level then replica.level n ++ [file] else replica.level n
  level_eq n g hg := by
    split at hg
    · next heq =>
        rcases List.mem_append.mp hg with hg | hg
        · exact replica.level_eq n g hg
        · rw [List.mem_singleton.mp hg, heq]
    · exact replica.level_eq n g hg
  names_nodup n := by
    split
    · next heq =>
        rw [List.map_append, List.nodup_append]
        refine ⟨replica.names_nodup n, by simp, fun a ha b hb hab => ?_⟩
        obtain rfl : b = (file.minTXID, file.maxTXID) := by simpa using hb
        rw [heq, hab] at ha
        exact h ha
    · exact replica.names_nodup n

structure State (ps : PageSize) where
  history : List (LTXFile ps)
  replica : Replica ps
  file : VFSFile

inductive Action (ps : PageSize) where
  | upload (file : LTXFile ps)
  | compact (file : LTXFile ps)
  | poll
  | lock (elock : LockType)
  | unlock (elock : LockType)

namespace State

/-- The next level 0 file. -/
def Uploads (s : State ps) (file : LTXFile ps) : Prop :=
  file.info.level = 0 ∧ file.minTXID = reach LTXFile.maxTXID 0 s.history + 1 ∧ s.replica.Fresh file

/-- The level 0 files that a file of this range merges. -/
def sources (history : List (LTXFile ps)) (file : LTXFile ps) : List (LTXFile ps) :=
  history.filter fun g => file.minTXID ≤ g.minTXID ∧ g.maxTXID ≤ file.maxTXID

/-- The file is what a compaction makes of the level 0 files of its range. -/
def Merges (history : List (LTXFile ps)) (file : LTXFile ps) : Prop :=
  (sources history file).head?.map LTXFile.minTXID = some file.minTXID ∧
    (sources history file).getLast?.map LTXFile.maxTXID = some file.maxTXID ∧
    Compacts (sources history file) file

/-- The next level 1 file. -/
def Compactable (s : State ps) (file : LTXFile ps) : Prop :=
  file.info.level = 1 ∧ Merges s.history file ∧
    (s.replica.level 1).getLast?.all (fun last => decide (file.minTXID = last.maxTXID + 1)) = true ∧
    s.replica.Fresh file

instance (s : State ps) (file : LTXFile ps) : Decidable (s.Uploads file) :=
  inferInstanceAs (Decidable (_ ∧ _ ∧ _))

instance (history : List (LTXFile ps)) (file : LTXFile ps) : Decidable (Merges history file) :=
  inferInstanceAs (Decidable (_ ∧ _ ∧ _))

instance (s : State ps) (file : LTXFile ps) : Decidable (s.Compactable file) :=
  inferInstanceAs (Decidable (_ ∧ _ ∧ _ ∧ _))

/-- The file after a poll; a poll that fails changes nothing. -/
def polled (s : State ps) : VFSFile :=
  match s.file.pollReplicaClient s.replica with
  | .ok f => f
  | .error _ => s.file

/-- The file after an operation that may fail. -/
def orSame (f : VFSFile) : Except VFSError VFSFile → VFSFile
  | .ok f' => f'
  | .error _ => f

def step (s : State ps) : Action ps → Option (State ps)
  | .upload file =>
    if h : s.Uploads file then
      some { s with history := s.history ++ [file], replica := s.replica.put file h.2.2 }
    else none
  | .compact file =>
    if h : s.Compactable file then some { s with replica := s.replica.put file h.2.2.2 } else none
  | .poll => some { s with file := s.polled }
  | .lock elock => some { s with file := orSame s.file (s.file.Lock elock) }
  | .unlock elock => some { s with file := orSame s.file (s.file.Unlock elock) }

/-- The newest TXID of the replica. -/
def newest (s : State ps) : Nat := reach LTXFile.maxTXID 0 s.history

/-- The replica is that of a history without gaps, and the file is at the end of one of its
files. -/
structure Valid (s : State ps) : Prop where
  tiled : Tiled LTXFile.minTXID LTXFile.maxTXID 0 s.history
  level_zero : s.replica.level 0 <:+ s.history
  level_one : ∃ base, Tiled LTXFile.minTXID LTXFile.maxTXID base (s.replica.level 1)
  merges : ∀ file ∈ s.replica.level 1, Merges s.history file
  position : ∃ seen unseen, s.history = seen ++ unseen ∧
    s.file.pos = reach LTXFile.maxTXID 0 seen ∧ unseen <:+ s.replica.level 0
  maxTXID1_le : s.file.maxTXID1 ≤ s.newest
  targetTime : s.file.targetTime = none

end State

variable {s s' : State ps} {a : Action ps} {level : Nat} {p : VFSFile.LevelPoll}
  {file : LTXFile ps} {files history : List (LTXFile ps)}

theorem forall_minTXID_le (files : List (LTXFile ps)) : ∀ file ∈ files, file.minTXID ≤ file.maxTXID :=
  fun file _ => file.minTXID_le

/-! ## Polls of consecutive files -/

@[simp] theorem maxTXID_add : (p.add file).maxTXID = file.maxTXID := rfl

/-- Consecutive files are all read. -/
theorem pollFiles_tiled (h : Tiled LTXFile.minTXID LTXFile.maxTXID p.maxTXID files) :
    VFSFile.pollFiles level p files = .ok (files.foldl VFSFile.LevelPoll.add p) := by
  induction files generalizing p with
  | nil => rfl
  | cons file files ih =>
      rw [VFSFile.pollFiles, if_neg (not_not.mpr h.1), List.foldl_cons]
      exact ih h.2

theorem maxTXID_foldl (files : List (LTXFile ps)) (p : VFSFile.LevelPoll) :
    (files.foldl VFSFile.LevelPoll.add p).maxTXID = reach LTXFile.maxTXID p.maxTXID files := by
  induction files generalizing p with
  | nil => rfl
  | cons file files ih => rw [List.foldl_cons, ih, reach_cons, maxTXID_add]

theorem pollLevel_tiled {replica : Replica ps} {prevMaxTXID baseCommit : Nat}
    (h : Tiled LTXFile.minTXID LTXFile.maxTXID prevMaxTXID (VFSFile.newFiles replica level prevMaxTXID)) :
    VFSFile.pollLevel replica level prevMaxTXID baseCommit =
      .ok ((VFSFile.newFiles replica level prevMaxTXID).foldl VFSFile.LevelPoll.add
        ⟨prevMaxTXID, [], baseCommit, false⟩) :=
  pollFiles_tiled h

/-! ## Level 0 -/

/-- The files that start past the end of a prefix of the history come after it. -/
theorem filter_past {seen unseen : List (LTXFile ps)}
    (h : Tiled LTXFile.minTXID LTXFile.maxTXID 0 (seen ++ unseen)) :
    (seen ++ unseen).filter (fun file => reach LTXFile.maxTXID 0 seen + 1 ≤ file.minTXID) = unseen := by
  obtain ⟨hseen, hunseen⟩ := tiled_append.mp h
  rw [List.filter_append, List.filter_eq_nil_iff.mpr, List.nil_append, List.filter_eq_self.mpr]
  · exact fun file hfile => decide_eq_true (hunseen.lt_lo (forall_minTXID_le _) file hfile)
  · intro file hfile
    have hle := (hseen.chain (forall_minTXID_le _)).hi_le_reach file hfile
    have := file.minTXID_le
    simp only [decide_eq_true_eq]
    omega

namespace State.Valid

/-- The files of level 0 that a poll lists are those that the file has not seen. -/
theorem newFiles_zero (h : s.Valid) : ∃ seen unseen, s.history = seen ++ unseen ∧
    s.file.pos = reach LTXFile.maxTXID 0 seen ∧ unseen <:+ s.replica.level 0 ∧
    VFSFile.newFiles s.replica 0 s.file.pos = unseen := by
  obtain ⟨seen, unseen, hhistory, hpos, hunseen⟩ := h.position
  refine ⟨seen, unseen, hhistory, hpos, hunseen, ?_⟩
  obtain ⟨pruned, hpruned⟩ := h.level_zero
  obtain ⟨old, hold⟩ := hunseen
  have hpast := filter_past (hhistory ▸ h.tiled)
  have hfilter : s.history.filter (fun file => s.file.pos + 1 ≤ file.minTXID) = unseen := by
    rw [hhistory, hpos]
    exact hpast
  have hsub : (VFSFile.newFiles s.replica 0 s.file.pos).Sublist unseen := by
    rw [← hfilter, ← hpruned]
    exact (List.sublist_append_right _ _).filter _
  have hsup : unseen.Sublist (VFSFile.newFiles s.replica 0 s.file.pos) := by
    have hself : unseen.filter (fun file => s.file.pos + 1 ≤ file.minTXID) = unseen := by
      rw [← hfilter, List.filter_filter]
      simp
    rw [VFSFile.newFiles, ← hold, List.filter_append, hself]
    exact List.sublist_append_right _ _
  exact hsub.antisymm hsup

/-- The poll of level 0 reads what the file has not seen, up to the newest TXID. -/
theorem pollLevel_zero (h : s.Valid) : ∃ seen unseen, s.history = seen ++ unseen ∧
    s.file.pos = reach LTXFile.maxTXID 0 seen ∧ unseen <:+ s.replica.level 0 ∧
    VFSFile.pollLevel s.replica 0 s.file.pos s.file.commit =
      .ok (unseen.foldl VFSFile.LevelPoll.add ⟨s.file.pos, [], s.file.commit, false⟩) ∧
    (unseen.foldl VFSFile.LevelPoll.add ⟨s.file.pos, [], s.file.commit, false⟩).maxTXID =
      s.newest := by
  obtain ⟨seen, unseen, hhistory, hpos, hunseen, hnew⟩ := h.newFiles_zero
  have htiled : Tiled LTXFile.minTXID LTXFile.maxTXID s.file.pos unseen := by
    rw [hpos]
    exact (tiled_append.mp (hhistory ▸ h.tiled)).2
  refine ⟨seen, unseen, hhistory, hpos, hunseen, ?_, ?_⟩
  · rw [pollLevel_tiled (hnew.symm ▸ htiled), hnew]
  · rw [maxTXID_foldl, newest, hhistory, reach_append, hpos]

end State.Valid

/-! ## Merged files -/

theorem Merges.sources_ne_nil (h : State.Merges history file) :
    State.sources history file ≠ [] := by
  intro hnil
  have hhead := h.1
  rw [hnil] at hhead
  cases hhead

/-- A merged file ends where a file of the history ends. -/
theorem Merges.maxTXID_le (h : State.Merges history file)
    (htiled : Tiled LTXFile.minTXID LTXFile.maxTXID 0 history) :
    file.maxTXID ≤ reach LTXFile.maxTXID 0 history := by
  have hlast := h.2.1
  rw [Option.map_eq_some_iff] at hlast
  obtain ⟨last, hlast, hmax⟩ := hlast
  have hmem := (List.mem_filter.mp (List.mem_of_getLast? hlast)).1
  rw [← hmax]
  exact (htiled.chain (forall_minTXID_le _)).hi_le_reach last hmem

/-- Later files of the history do not matter. -/
theorem Merges.concat {next : LTXFile ps} (h : State.Merges history file)
    (htiled : Tiled LTXFile.minTXID LTXFile.maxTXID 0 history)
    (hnext : next.minTXID = reach LTXFile.maxTXID 0 history + 1) :
    State.Merges (history ++ [next]) file := by
  have hle := Merges.maxTXID_le h htiled
  have hpast := next.minTXID_le
  have hsources : State.sources (history ++ [next]) file = State.sources history file := by
    rw [State.sources, List.filter_append, List.filter_cons_of_neg, List.filter_nil,
      List.append_nil, State.sources]
    simp only [decide_eq_true_eq]
    omega
  rw [State.Merges, hsources]
  exact h

/-! ## Level 1 -/

namespace State

/-- The first level 1 file past the cursor starts right after it. -/
def Aligned (s : State ps) : Prop :=
  ∀ file ∈ (VFSFile.newFiles s.replica 1 s.file.maxTXID1).head?,
    file.minTXID = s.file.maxTXID1 + 1

instance (s : State ps) : Decidable s.Aligned :=
  inferInstanceAs (Decidable (∀ file ∈ (VFSFile.newFiles s.replica 1 s.file.maxTXID1).head?, _))

/-- The files of level 1 past the cursor follow each other, the first where it may. -/
theorem Valid.aligned_iff (h : s.Valid) : s.Aligned ↔
    Tiled LTXFile.minTXID LTXFile.maxTXID s.file.maxTXID1
      (VFSFile.newFiles s.replica 1 s.file.maxTXID1) := by
  obtain ⟨base, hbase⟩ := h.level_one
  obtain ⟨old, hold⟩ := hbase.filter_suffix (forall_minTXID_le _) (s.file.maxTXID1 + 1)
  have htail := (tiled_append.mp (hold.symm ▸ hbase)).2
  rw [Aligned, VFSFile.newFiles]
  cases hnew : (s.replica.level 1).filter fun file => s.file.maxTXID1 + 1 ≤ file.minTXID with
  | nil => exact ⟨fun _ => trivial, fun _ file hfile => by cases hfile⟩
  | cons first rest =>
      rw [hnew] at htail
      refine ⟨fun haligned => ⟨haligned first rfl, htail.2⟩, fun htiled file hfile => ?_⟩
      obtain rfl := Option.some.inj hfile
      exact htiled.1

/-- The cursor of level 1 stays within the history. -/
theorem Valid.cursor_le (h : s.Valid) (haligned : s.Aligned) :
    reach LTXFile.maxTXID s.file.maxTXID1 (VFSFile.newFiles s.replica 1 s.file.maxTXID1) ≤
      s.newest := by
  rw [(h.aligned_iff.mp haligned).reach_eq (forall_minTXID_le _)]
  refine Nat.max_le.mpr ⟨h.maxTXID1_le, top_le_iff.mpr fun file hfile => ?_⟩
  exact Merges.maxTXID_le (h.merges file (List.mem_filter.mp hfile).1) h.tiled

/-- What a poll of a level 1 that is aligned reads. -/
theorem Valid.pollLevel_one (h : s.Valid) (haligned : s.Aligned) (baseCommit : Nat) :
    VFSFile.pollLevel s.replica 1 s.file.maxTXID1 baseCommit =
        .ok ((VFSFile.newFiles s.replica 1 s.file.maxTXID1).foldl VFSFile.LevelPoll.add
          ⟨s.file.maxTXID1, [], baseCommit, false⟩) :=
  pollLevel_tiled (h.aligned_iff.mp haligned)

/-- A poll of a level 1 that is not aligned fails. -/
theorem pollLevel_one_error (haligned : ¬ s.Aligned) (baseCommit : Nat) :
    ∃ err, VFSFile.pollLevel s.replica 1 s.file.maxTXID1 baseCommit = .error err := by
  rw [Aligned] at haligned
  push Not at haligned
  obtain ⟨file, hfile, hne⟩ := haligned
  rw [VFSFile.pollLevel]
  cases hnew : VFSFile.newFiles s.replica 1 s.file.maxTXID1 with
  | nil => rw [hnew] at hfile; cases hfile
  | cons first rest =>
      rw [hnew] at hfile
      obtain rfl := Option.some.inj hfile
      exact ⟨_, by rw [VFSFile.pollFiles, if_pos hne, if_neg (by simp)]⟩

/-- What a poll does: it reads level 0 from the position on and level 1 from the cursor on. -/
theorem Valid.poll (h : s.Valid) (haligned : s.Aligned) : ∃ seen unseen p0 p1,
    s.history = seen ++ unseen ∧ s.file.pos = reach LTXFile.maxTXID 0 seen ∧
    unseen <:+ s.replica.level 0 ∧
    p0 = unseen.foldl VFSFile.LevelPoll.add ⟨s.file.pos, [], s.file.commit, false⟩ ∧
    p1 = (VFSFile.newFiles s.replica 1 s.file.maxTXID1).foldl VFSFile.LevelPoll.add
      ⟨s.file.maxTXID1, [], VFSFile.baseCommit s.file.commit p0, false⟩ ∧
    p0.maxTXID = s.newest ∧ p1.maxTXID ≤ s.newest ∧
    s.file.pollReplicaClient s.replica = .ok (s.file.applyPoll p0 p1) := by
  obtain ⟨seen, unseen, hhistory, hpos, hunseen, hzero, hmax⟩ := h.pollLevel_zero
  refine ⟨seen, unseen, _, _, hhistory, hpos, hunseen, rfl, rfl, hmax, ?_, ?_⟩
  · rw [maxTXID_foldl]
    exact h.cursor_le haligned
  · rw [VFSFile.pollReplicaClient, hzero]
    simp only [bind, Except.bind, pure, Except.pure]
    rw [h.pollLevel_one haligned]

theorem Valid.poll_error (h : s.Valid) (haligned : ¬ s.Aligned) :
    ∃ err, s.file.pollReplicaClient s.replica = .error err := by
  obtain ⟨seen, unseen, -, -, -, hzero, -⟩ := h.pollLevel_zero
  rw [VFSFile.pollReplicaClient, hzero]
  simp only [bind, Except.bind, pure, Except.pure]
  obtain ⟨err, herr⟩ := pollLevel_one_error haligned (VFSFile.baseCommit s.file.commit
    (unseen.foldl VFSFile.LevelPoll.add ⟨s.file.pos, [], s.file.commit, false⟩))
  exact ⟨err, by rw [herr]⟩

end State

/-- What applying a poll does to the counters. -/
theorem applyPoll_counters {f : VFSFile} (h : f.targetTime = none) (p0 p1 : VFSFile.LevelPoll) :
    (f.applyPoll p0 p1).pos = max p0.maxTXID p1.maxTXID ∧
      (f.applyPoll p0 p1).maxTXID1 = p1.maxTXID ∧ (f.applyPoll p0 p1).targetTime = none := by
  rw [VFSFile.applyPoll, if_neg (not_not.mpr h)]
  refine ⟨?_, rfl, ?_⟩
  · dsimp only
    split <;> omega
  · dsimp only
    split <;> exact h

/-- A poll changes the index, the pending entries, the cache, the commit size and the cursors. -/
theorem applyPoll_eq (p0 p1 : VFSFile.LevelPoll) (f : VFSFile) :
    ∃ index pending pendingReplace cache commit pos maxTXID1, f.applyPoll p0 p1 =
      { f with
        index := index
        pending := pending
        pendingReplace := pendingReplace
        cache := cache
        commit := commit
        pos := pos
        maxTXID1 := maxTXID1 } := by
  rw [VFSFile.applyPoll]
  split
  · exact ⟨_, _, _, _, _, _, _, rfl⟩
  · dsimp only
    split <;> exact ⟨_, _, _, _, _, _, _, rfl⟩

theorem pollReplicaClient_eq {f f' : VFSFile} {replica : Replica ps}
    (h : f.pollReplicaClient replica = .ok f') : ∃ p0 p1, f' = f.applyPoll p0 p1 := by
  rw [VFSFile.pollReplicaClient] at h
  simp only [bind, Except.bind] at h
  split at h
  · cases h
  split at h
  · cases h
  · exact ⟨_, _, (Except.ok.inj h).symm⟩

/-! ## Every step keeps a valid state -/

theorem level_put {replica : Replica ps} {h n} :
    (replica.put file h).level n =
      if n = file.info.level then replica.level n ++ [file] else replica.level n := rfl

namespace State.Valid

theorem upload (h : s.Valid) (hfile : s.Uploads file) :
    Valid ⟨s.history ++ [file], s.replica.put file hfile.2.2, s.file⟩ := by
  obtain ⟨hlevel, hnext, hfresh⟩ := hfile
  have hone : (s.replica.put file hfresh).level 1 = s.replica.level 1 := by
    rw [level_put, hlevel, if_neg (by decide)]
  have hzero : (s.replica.put file hfresh).level 0 = s.replica.level 0 ++ [file] := by
    rw [level_put, hlevel, if_pos rfl]
  have hnewest : s.newest ≤ reach LTXFile.maxTXID 0 (s.history ++ [file]) := by
    have hle := file.minTXID_le
    rw [reach_concat, newest]
    omega
  refine ⟨h.tiled.concat hnext, ?_, ?_, fun g hg => ?_, ?_, h.maxTXID1_le.trans hnewest,
    h.targetTime⟩
  · obtain ⟨pruned, hpruned⟩ := h.level_zero
    refine ⟨pruned, ?_⟩
    dsimp only
    rw [hzero, ← List.append_assoc, hpruned]
  · obtain ⟨base, hbase⟩ := h.level_one
    exact ⟨base, hone ▸ hbase⟩
  · rw [hone] at hg
    exact Merges.concat (h.merges g hg) h.tiled hnext
  · obtain ⟨seen, unseen, hhistory, hpos, old, hold⟩ := h.position
    refine ⟨seen, unseen ++ [file], ?_, hpos, old, ?_⟩
    · dsimp only
      rw [hhistory, List.append_assoc]
    · rw [hzero, ← hold, List.append_assoc]

theorem compact (h : s.Valid) (hfile : s.Compactable file) :
    Valid ⟨s.history, s.replica.put file hfile.2.2.2, s.file⟩ := by
  obtain ⟨hlevel, hmerges, hlast, hfresh⟩ := hfile
  have hone : (s.replica.put file hfresh).level 1 = s.replica.level 1 ++ [file] := by
    rw [level_put, hlevel, if_pos rfl]
  have hzero : (s.replica.put file hfresh).level 0 = s.replica.level 0 := by
    rw [level_put, hlevel, if_neg (by decide)]
  refine ⟨h.tiled, hzero ▸ h.level_zero, ?_, fun g hg => ?_, ?_, h.maxTXID1_le, h.targetTime⟩
  · obtain ⟨base, hbase⟩ := h.level_one
    rw [hone]
    rcases List.eq_nil_or_concat (s.replica.level 1) with hnil | ⟨rest, last, hconcat⟩
    · have hpos := file.valid.one_le
      exact ⟨file.minTXID - 1, by rw [hnil]; exact ⟨by rw [LTXFile.minTXID]; omega, trivial⟩⟩
    · rw [List.concat_eq_append] at hconcat
      rw [hconcat] at hlast hbase
      refine ⟨base, hconcat ▸ hbase.concat ?_⟩
      rw [reach_concat]
      simpa using hlast
  · rw [hone] at hg
    rcases List.mem_append.mp hg with hg | hg
    · exact h.merges g hg
    · rw [List.mem_singleton.mp hg]
      exact hmerges
  · rw [hzero]
    exact h.position

/-- A file that keeps its position and its cursor keeps a valid state. -/
theorem of_file (h : s.Valid) {f : VFSFile} (hpos : f.pos = s.file.pos)
    (hmax : f.maxTXID1 = s.file.maxTXID1) (htarget : f.targetTime = s.file.targetTime) :
    Valid ⟨s.history, s.replica, f⟩ where
  tiled := h.tiled
  level_zero := h.level_zero
  level_one := h.level_one
  merges := h.merges
  position := by
    obtain ⟨seen, unseen, hhistory, hseen, hunseen⟩ := h.position
    exact ⟨seen, unseen, hhistory, hpos.trans hseen, hunseen⟩
  maxTXID1_le := hmax.trans_le h.maxTXID1_le
  targetTime := htarget.trans h.targetTime

theorem polled (h : s.Valid) : Valid ⟨s.history, s.replica, s.polled⟩ := by
  by_cases haligned : s.Aligned
  · obtain ⟨seen, unseen, p0, p1, hhistory, hpos, hunseen, -, -, hmax0, hmax1, hpoll⟩ :=
      h.poll haligned
    obtain ⟨hpos', hmax', htarget'⟩ := applyPoll_counters h.targetTime p0 p1
    rw [State.polled, hpoll]
    refine ⟨h.tiled, h.level_zero, h.level_one, h.merges, ?_, ?_, htarget'⟩
    · refine ⟨s.history, [], by simp, ?_, List.nil_suffix⟩
      rw [hpos', hmax0, Nat.max_eq_left hmax1, newest]
    · dsimp only
      rw [hmax']
      exact hmax1
  · obtain ⟨err, herr⟩ := h.poll_error haligned
    rw [State.polled, herr]
    exact h

theorem step (h : s.Valid) (hstep : State.step s a = some s') : s'.Valid := by
  cases a with
  | upload file =>
      rw [State.step] at hstep
      split at hstep
      · next hfile =>
          obtain rfl := Option.some.inj hstep
          exact h.upload hfile
      · cases hstep
  | compact file =>
      rw [State.step] at hstep
      split at hstep
      · next hfile =>
          obtain rfl := Option.some.inj hstep
          exact h.compact hfile
      · cases hstep
  | poll =>
      obtain rfl := Option.some.inj hstep
      exact h.polled
  | lock elock =>
      obtain rfl := Option.some.inj hstep
      rw [VFSFile.Lock]
      split_ifs
      · exact h
      · exact h.of_file rfl rfl rfl
      · exact h
      · exact h.of_file rfl rfl rfl
  | unlock elock =>
      obtain rfl := Option.some.inj hstep
      rw [VFSFile.Unlock]
      split_ifs
      · exact h
      · exact h.of_file rfl rfl rfl

end State.Valid

end Vfs

end Litestream
