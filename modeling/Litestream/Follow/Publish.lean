import Litestream.Follow.Resume
import Litestream.Follow.Sidecar

/-!
# Publishing the first database of a follower

`Replica.Restore` in follow mode renames the restored database into place and then writes
its TXID file (`restoreFollow`).  When it finds a database it does not restore: it resumes at
the TXID in the file, and it fails if there is no such file.

So a run that is stopped between the two steps leaves a database that every later run fails
on.  `safe_iff` says that this, and a newest snapshot that does not hold the recorded TXID,
is all that can go wrong.
-/

namespace Litestream

open Bytes DirOp

/-! ## Restoring in follow mode -/

/-- The size of the header of an LTX file. -/
def ltxHeaderSize : Nat := 100

inductive IntegrityCheck where
  | passed
  | failed (err : String)
  /-- The context was cancelled meanwhile. -/
  | cancelled (err : String)
deriving DecidableEq, Repr

/-- What one run of `Replica.Restore` meets. -/
structure RestoreRun where
  client : ReplicaClient
  /-- What opening a file of the plan reports. -/
  openErr : FileInfo → Option ClientError
  /-- The bytes of the database that `DecodeDatabaseTo` writes, and its error. -/
  decodeDatabase : List FileInfo → Bytes × Option String
  /-- `passed` if no check is asked for. -/
  checkIntegrity : Bytes → IntegrityCheck
  /-- Files hold transactions from the first one on. -/
  txID_bounds : ∀ infos, calcRestorePlan client 0 0 = .ok infos →
    1 ≤ FileInfo.sliceMaxTXID infos ∧ FileInfo.sliceMaxTXID infos < txidLimit

inductive RestoreFollowError where
  | readTXIDFile (err : TXIDFileError)
  | resume (err : ResumeError)
  | calcRestorePlan (err : RestoreError)
  | invalidSize (info : FileInfo)
  | openLTXFile (info : FileInfo) (err : ClientError)
  | decodeDatabase (err : String)
  | checkIntegrity (err : String)
deriving DecidableEq

/-- Follow mode begins at a TXID. -/
inductive Following where
  | resumed (txID : Nat)
  | restored (txID : Nat)
deriving DecidableEq, Repr

/-- The first file that is too small or cannot be opened. -/
def RestoreRun.openLTXFiles (r : RestoreRun) (infos : List FileInfo) : Option RestoreFollowError :=
  infos.findSome? fun info =>
    if info.size < ltxHeaderSize then some (.invalidSize info)
    else (r.openErr info).map (.openLTXFile info)

section
variable (format : TXIDFormat) (outputPath : Bytes) (r : RestoreRun)

/-- The restored database is written here. -/
def tmpOutputPath : Bytes := outputPath ++ ascii ".tmp"

/-- Resumes follow mode if there is a database. -/
def resumeFollow (d : Directory) : Except RestoreFollowError Following :=
  match readTXIDFile format outputPath d with
  | .error err => .error (.readTXIDFile err)
  | .ok txID =>
      match validateResume r.client txID with
      | .error err => .error (.resume err)
      | .ok () => .ok (.resumed txID)

/-- The operations after the database was decoded, and the result. -/
def publishRestored (data : Bytes) (txID : Nat) :
    List DirOp × Except RestoreFollowError Following :=
  match r.checkIntegrity data with
  | .passed =>
      (rename (tmpOutputPath outputPath) outputPath :: writeTXIDFile format outputPath txID,
        .ok (.restored txID))
  | .failed err =>
      ([rename (tmpOutputPath outputPath) outputPath, remove outputPath,
        remove (outputPath ++ ascii "-shm"), remove (outputPath ++ ascii "-wal")],
        .error (.checkIntegrity err))
  | .cancelled err =>
      ([rename (tmpOutputPath outputPath) outputPath], .error (.checkIntegrity err))

/-- `Replica.Restore` with `Follow` set, up to the follow loop: the operations it makes in the
directory of the database, and its result. -/
def restoreFollow (d : Directory) : List DirOp × Except RestoreFollowError Following :=
  if d outputPath ≠ none then ([], resumeFollow format outputPath r d)
  else
    match calcRestorePlan r.client 0 0 with
    | .error err => ([], .error (.calcRestorePlan err))
    | .ok infos =>
        match r.openLTXFiles infos with
        | some err => ([], .error err)
        | none =>
            let writes := writeFile (tmpOutputPath outputPath) (r.decodeDatabase infos).1
            match (r.decodeDatabase infos).2 with
            | some err => (writes, .error (.decodeDatabase err))
            | none =>
                let published := publishRestored format outputPath r (r.decodeDatabase infos).1
                  (FileInfo.sliceMaxTXID infos)
                (writes ++ published.1, published.2)

/-! ## Stopped runs -/

/-- A run that is stopped after a number of operations. -/
def stop (d : Directory) (s : RestoreRun × Nat) : Option Directory :=
  some (runAll d ((restoreFollow format outputPath s.1 d).1.take s.2))

/-- The operations publish the database, and neither record its TXID nor remove it again. -/
def Unrecorded (done : List DirOp) : Prop :=
  rename (tmpOutputPath outputPath) outputPath ∈ done ∧
    rename (txidTmpPath outputPath) (txidPath outputPath) ∉ done ∧ remove outputPath ∉ done

instance : DecidablePred (Unrecorded outputPath) := fun _ => inferInstanceAs (Decidable (_ ∧ _ ∧ _))

/-- No run is stopped between publishing the database and recording its TXID. -/
def StopsRecorded : Directory → List (RestoreRun × Nat) → Prop :=
  Run.Along (stop format outputPath) fun d s =>
    ¬ Unrecorded outputPath ((restoreFollow format outputPath s.1 d).1.take s.2)

instance (d : Directory) (stops : List (RestoreRun × Nat)) :
    Decidable (StopsRecorded format outputPath d stops) := Run.decidableAlong _ _ _

/-- There is no database and no TXID file. -/
def Fresh (d : Directory) : Prop := d outputPath = none ∧ d (txidPath outputPath) = none

/-- There is a database, but no TXID file. -/
def Lost (d : Directory) : Prop := d outputPath ≠ none ∧ d (txidPath outputPath) = none

/-- The run restores this database at this TXID. -/
def RestoreRun.Restores (data : Bytes) (txID : Nat) : Prop :=
  ∃ infos, calcRestorePlan r.client 0 0 = .ok infos ∧ (r.decodeDatabase infos).1 = data ∧
    FileInfo.sliceMaxTXID infos = txID

/-- There are a database and a TXID file, and the run has restored both. -/
def Recorded (d : Directory) : Prop :=
  ∃ data txID, r.Restores data txID ∧ d outputPath = some data ∧
    d (txidPath outputPath) = some (txidFile format txID)

/-- What a run leaves that found no database and is stopped after these operations. -/
def StopsAfter (d : Directory) (done : List DirOp) : Prop :=
  (Unrecorded outputPath done ∧ Lost outputPath (runAll d done)) ∨
    (¬ Unrecorded outputPath done ∧
      (Fresh outputPath (runAll d done) ∨ Recorded format outputPath r (runAll d done)))

end

variable {format : TXIDFormat} {outputPath : Bytes} {r : RestoreRun} {d : Directory}
  {done : List DirOp} {name data : Bytes}

theorem tmpOutputPath_ne : tmpOutputPath outputPath ≠ outputPath := fun h =>
  absurd (List.append_right_eq_self.mp h) (by decide)

theorem tmpOutputPath_ne_txidPath : tmpOutputPath outputPath ≠ txidPath outputPath := fun h =>
  absurd (List.append_cancel_left h) (by decide)

theorem tmpOutputPath_ne_txidTmpPath : tmpOutputPath outputPath ≠ txidTmpPath outputPath := by
  rw [txidTmpPath, txidPath, List.append_assoc]
  exact fun h => absurd (List.append_cancel_left h) (by decide)

/-- Nothing but the temporary file was written. -/
theorem fresh_of_writes (hfresh : Fresh outputPath d)
    (h : done <+: writeFile (tmpOutputPath outputPath) data) :
    ¬ Unrecorded outputPath done ∧ Fresh outputPath (runAll d done) := by
  have hnames : ∀ op ∈ done, op.names = [tmpOutputPath outputPath] := fun op hop =>
    names_of_mem_writeFile (h.subset hop)
  have hother : ∀ name ≠ tmpOutputPath outputPath, runAll d done name = d name := by
    intro name hname
    refine runAll_of_notMem fun op hop => ?_
    rw [hnames op hop, List.mem_singleton]
    exact hname
  refine ⟨fun hpub => ?_, ?_, ?_⟩
  · have := hnames _ hpub.1
    simp [names] at this
  · rw [hother _ tmpOutputPath_ne.symm]
    exact hfresh.1
  · rw [hother _ tmpOutputPath_ne_txidPath.symm]
    exact hfresh.2

/-- The database is published first.  What is there when the run is stopped after that depends
on the operations that follow. -/
theorem published_cases {more : List DirOp} (hfresh : Fresh outputPath d)
    (h : more <+: rename (tmpOutputPath outputPath) outputPath :: done) :
    let writes := writeFile (tmpOutputPath outputPath) data
    (¬ Unrecorded outputPath (writes ++ more) ∧ Fresh outputPath (runAll d (writes ++ more))) ∨
      ∃ rest d', rest <+: done ∧ d' outputPath = some data ∧ d' (txidPath outputPath) = none ∧
        runAll d (writes ++ more) = runAll d' rest ∧
        (Unrecorded outputPath (writes ++ more) ↔
          rename (txidTmpPath outputPath) (txidPath outputPath) ∉ rest ∧
            remove outputPath ∉ rest) := by
  intro writes
  rcases List.prefix_cons_iff.mp h with rfl | ⟨rest, rfl, hrest⟩
  · refine Or.inl ?_
    rw [List.append_nil]
    exact fresh_of_writes hfresh (List.prefix_refl _)
  · have hnames : ∀ op ∈ writes, op.names = [tmpOutputPath outputPath] := fun op hop =>
      names_of_mem_writeFile hop
    have hrecord : rename (txidTmpPath outputPath) (txidPath outputPath) ∉ writes := by
      intro hop
      have := hnames _ hop
      simp [names] at this
    have hremove : remove outputPath ∉ writes := by
      intro hop
      have := hnames _ hop
      simp only [names, List.cons.injEq, and_true] at this
      exact tmpOutputPath_ne this.symm
    have hpublish : rename (tmpOutputPath outputPath) outputPath ≠
        rename (txidTmpPath outputPath) (txidPath outputPath) := by
      intro h
      exact tmpOutputPath_ne_txidTmpPath (DirOp.rename.inj h).1
    refine Or.inr ⟨rest, _, hrest, ?_, ?_, runAll_append .., ?_⟩
    · rw [runAll_writeFile]
      exact run_rename_new (Function.update_self ..)
    · rw [runAll_writeFile, run_of_notMem, Function.update_of_ne tmpOutputPath_ne_txidPath.symm]
      · exact hfresh.2
      · simp only [names, List.mem_cons, List.not_mem_nil, or_false, not_or]
        exact ⟨tmpOutputPath_ne_txidPath.symm, txidPath_ne⟩
    · simp [Unrecorded, hrecord, hremove, hpublish.symm]

theorem publishRestored_stopped {more : List DirOp} {txID : Nat} (hfresh : Fresh outputPath d)
    (hr : r.Restores data txID) (h : more <+: (publishRestored format outputPath r data txID).1) :
    StopsAfter format outputPath r d (writeFile (tmpOutputPath outputPath) data ++ more) := by
  unfold publishRestored at h
  unfold StopsAfter
  cases hcheck : r.checkIntegrity data with
  | passed =>
      rw [hcheck] at h
      rcases published_cases hfresh h with
        ⟨hpub, hfresh'⟩ | ⟨rest, d', hrest, hdata, htxid, hrun, hiff⟩
      · exact Or.inr ⟨hpub, Or.inl hfresh'⟩
      have hremove : remove outputPath ∉ rest := fun hop => by
        have := names_of_mem_publish (hrest.subset hop) (List.mem_singleton.mpr rfl)
        exact this.elim txidTmpPath_ne_self.symm txidPath_ne.symm
      have hne : outputPath ≠ txidTmpPath outputPath := txidTmpPath_ne_self.symm
      rw [hrun, hiff]
      rcases runAll_publish_prefix txidTmpPath_ne hrest d' with ⟨hnot, hother⟩ | ⟨hmem, hall⟩
      · refine Or.inl ⟨⟨hnot, hremove⟩, ?_, ?_⟩
        · rw [hother _ hne, hdata]
          exact Option.some_ne_none _
        · rw [hother _ txidTmpPath_ne.symm, htxid]
      · refine Or.inr ⟨fun hpub => hpub.1 hmem, Or.inr ⟨data, txID, hr, ?_, ?_⟩⟩
        · rw [hall, Function.update_of_ne txidPath_ne.symm, Function.update_of_ne hne, hdata]
        · rw [hall, Function.update_self]
  | failed err =>
      rw [hcheck] at h
      rcases published_cases hfresh h with
        ⟨hpub, hfresh'⟩ | ⟨rest, d', hrest, hdata, htxid, hrun, hiff⟩
      · exact Or.inr ⟨hpub, Or.inl hfresh'⟩
      rw [hrun, hiff]
      have hkeep : ∀ op ∈ rest, txidPath outputPath ∉ op.names := fun op hop => by
        have hmem := hrest.subset hop
        simp only [List.mem_cons, List.not_mem_nil, or_false] at hmem
        rcases hmem with rfl | rfl | rfl <;> rw [names, List.mem_singleton]
        · exact txidPath_ne
        · exact fun h => absurd (List.append_cancel_left h) (by decide)
        · exact fun h => absurd (List.append_cancel_left h) (by decide)
      have hrecord : rename (txidTmpPath outputPath) (txidPath outputPath) ∉ rest := fun hop =>
        hkeep _ hop (List.mem_pair.mpr (Or.inr rfl))
      rcases List.prefix_cons_iff.mp hrest with rfl | ⟨last, rfl, hlast⟩
      · refine Or.inl ⟨⟨hrecord, List.not_mem_nil⟩, ?_, htxid⟩
        rw [runAll_nil, hdata]
        exact Option.some_ne_none _
      · refine Or.inr ⟨fun hpub => hpub.2 List.mem_cons_self, Or.inl ⟨?_, ?_⟩⟩
        · rw [runAll_cons, runAll_of_notMem, run_remove_same]
          intro op hop
          have hmem := hlast.subset hop
          simp only [List.mem_cons, List.not_mem_nil, or_false] at hmem
          rcases hmem with rfl | rfl <;> rw [names, List.mem_singleton]
          · exact fun h => absurd (List.append_right_eq_self.mp h.symm) (by decide)
          · exact fun h => absurd (List.append_right_eq_self.mp h.symm) (by decide)
        · rw [runAll_of_notMem hkeep, htxid]
  | cancelled err =>
      rw [hcheck] at h
      rcases published_cases hfresh h with
        ⟨hpub, hfresh'⟩ | ⟨rest, d', hrest, hdata, htxid, hrun, hiff⟩
      · exact Or.inr ⟨hpub, Or.inl hfresh'⟩
      obtain rfl := List.prefix_nil.mp hrest
      rw [hrun, hiff]
      refine Or.inl ⟨⟨List.not_mem_nil, List.not_mem_nil⟩, ?_, htxid⟩
      rw [runAll_nil, hdata]
      exact Option.some_ne_none _

/-- Where a run that finds no database is stopped decides what it leaves. -/
theorem restoreFollow_stopped (hfresh : Fresh outputPath d)
    (h : done <+: (restoreFollow format outputPath r d).1) :
    StopsAfter format outputPath r d done := by
  have hnone : done <+: [] → ¬ Unrecorded outputPath done ∧ Fresh outputPath (runAll d done) := by
    intro h
    obtain rfl := List.prefix_nil.mp h
    exact ⟨fun hpub => List.not_mem_nil hpub.1, hfresh⟩
  unfold restoreFollow at h
  rw [if_neg (not_not.mpr hfresh.1)] at h
  cases hplan : calcRestorePlan r.client 0 0 with
  | error err =>
      rw [hplan] at h
      exact Or.inr ((hnone h).imp_right Or.inl)
  | ok infos =>
      rw [hplan] at h
      simp only at h
      cases hopen : r.openLTXFiles infos with
      | some err =>
          rw [hopen] at h
          exact Or.inr ((hnone h).imp_right Or.inl)
      | none =>
          rw [hopen] at h
          simp only at h
          cases hdecode : (r.decodeDatabase infos).2 with
          | some err =>
              rw [hdecode] at h
              exact Or.inr ((fresh_of_writes hfresh h).imp_right Or.inl)
          | none =>
              rw [hdecode] at h
              rcases prefix_append_cases h with h | ⟨more, hmore, rfl⟩
              · exact Or.inr ((fresh_of_writes hfresh h).imp_right Or.inl)
              · exact publishRestored_stopped hfresh ⟨infos, hplan, rfl, rfl⟩ hmore

/-- A run that finds a database changes nothing. -/
theorem restoreFollow_of_database (h : d outputPath ≠ none) (r : RestoreRun) :
    restoreFollow format outputPath r d = ([], resumeFollow format outputPath r d) := if_pos h

/-- A run that finds a database without a TXID fails. -/
theorem Lost.refused (h : Lost outputPath d) (r : RestoreRun) :
    (restoreFollow format outputPath r d).2 = .error (.resume .noTXIDFile) := by
  rw [restoreFollow_of_database h.1, resumeFollow, readTXIDFile_of_none h.2]
  rfl

/-! ## Runs until one succeeds -/

/-- The next run gets what it asks for: listings, files and a database that passes its check. -/
structure RestoreRun.Succeeds (r : RestoreRun) : Prop where
  snapshots : ∃ items, r.client.ltxFiles snapshotLevel 0 false = .ok ⟨items, none⟩
  plan : ∃ infos, calcRestorePlan r.client 0 0 = .ok infos ∧ r.openLTXFiles infos = none ∧
    (r.decodeDatabase infos).2 = none ∧ r.checkIntegrity (r.decodeDatabase infos).1 = .passed

/-- The newest snapshot, if there is one, holds the recorded TXID. -/
def RestoreRun.Holds (format : TXIDFormat) (outputPath : Bytes) (r : RestoreRun)
    (d : Directory) : Prop :=
  d outputPath ≠ none → ∀ txID, readTXIDFile format outputPath d = .ok txID → txID ≠ 0 →
    ∀ itr, r.client.ltxFiles snapshotLevel 0 false = .ok itr → ∀ latestSnapshot,
      itr.items.getLast? = some latestSnapshot →
        latestSnapshot.minTXID ≤ txID ∧ txID ≤ latestSnapshot.maxTXID

/-- After runs that are stopped at any point, the database and the TXID in its file were
restored together if both are there, and the next run follows. -/
structure Safe (format : TXIDFormat) (outputPath : Bytes) (d : Directory)
    (stops : List (RestoreRun × Nat)) (next : RestoreRun) : Prop where
  paired : ∀ before, before <+: stops → ∀ d', Run.run (stop format outputPath) d before = some d' →
    d' outputPath ≠ none → d' (txidPath outputPath) ≠ none →
      ∃ s ∈ before, Recorded format outputPath s.1 d'
  follows : ∀ d', Run.run (stop format outputPath) d stops = some d' →
    ∃ following, (restoreFollow format outputPath next d').2 = .ok following

theorem exists_run (format : TXIDFormat) (outputPath : Bytes) (d : Directory)
    (stops : List (RestoreRun × Nat)) :
    ∃ d', Run.run (stop format outputPath) d stops = some d' := by
  induction stops generalizing d with
  | nil => exact ⟨d, rfl⟩
  | cons s stops ih =>
      obtain ⟨d', h⟩ := ih (runAll d ((restoreFollow format outputPath s.1 d).1.take s.2))
      exact ⟨d', Run.run_cons_eq_some.mpr ⟨_, rfl, h⟩⟩

/-- Runs that find a database change nothing. -/
theorem run_of_database {stops : List (RestoreRun × Nat)} {d' : Directory}
    (h : d outputPath ≠ none) (hrun : Run.run (stop format outputPath) d stops = some d') :
    d' = d ∧ StopsRecorded format outputPath d stops := by
  have hstop : ∀ s, stop format outputPath d s = some d := fun s => by
    rw [stop, restoreFollow_of_database h, List.take_nil, runAll_nil]
  induction stops with
  | nil => exact ⟨(Option.some.inj hrun).symm, trivial⟩
  | cons s stops ih =>
      obtain ⟨m, hm, hrun⟩ := Run.run_cons_eq_some.mp hrun
      obtain rfl : d = m := Option.some.inj ((hstop s).symm.trans hm)
      obtain ⟨heq, halong⟩ := ih hrun
      refine ⟨heq, (Run.along_cons_of_some hm).mpr ⟨?_, halong⟩⟩
      rw [restoreFollow_of_database h, List.take_nil]
      exact fun hpub => List.not_mem_nil hpub.1

/-- Runs that begin without a database leave none, or one with its TXID, unless one of them is
stopped between publishing and recording. -/
theorem run_cases {stops : List (RestoreRun × Nat)} {d' : Directory} (hfresh : Fresh outputPath d)
    (hrun : Run.run (stop format outputPath) d stops = some d') :
    (StopsRecorded format outputPath d stops ∧
        (Fresh outputPath d' ∨ ∃ s ∈ stops, Recorded format outputPath s.1 d')) ∨
      (¬ StopsRecorded format outputPath d stops ∧ Lost outputPath d') := by
  induction stops generalizing d with
  | nil =>
      obtain rfl : d = d' := Option.some.inj hrun
      exact Or.inl ⟨trivial, Or.inl hfresh⟩
  | cons s stops ih =>
      obtain ⟨m, hm, hrun⟩ := Run.run_cons_eq_some.mp hrun
      have hstep : StopsAfter format outputPath s.1 d _ :=
        restoreFollow_stopped hfresh (List.take_prefix s.2 _)
      rw [StopsAfter, Option.some.inj hm] at hstep
      have halong : StopsRecorded format outputPath d (s :: stops) ↔
          ¬ Unrecorded outputPath ((restoreFollow format outputPath s.1 d).1.take s.2) ∧
            StopsRecorded format outputPath m stops := Run.along_cons_of_some hm
      rcases hstep with ⟨hpub, hlost⟩ | ⟨hpub, hfresh' | hrecorded⟩
      · obtain ⟨rfl, -⟩ := run_of_database hlost.1 hrun
        exact Or.inr ⟨fun h => (halong.mp h).1 hpub, hlost⟩
      · refine (ih hfresh' hrun).imp (fun h => ⟨halong.mpr ⟨hpub, h.1⟩, h.2.imp_right ?_⟩)
          fun h => ⟨fun hall => h.1 (halong.mp hall).2, h.2⟩
        rintro ⟨s', hs', hrec⟩
        exact ⟨s', List.mem_cons_of_mem s hs', hrec⟩
      · have hdata : m outputPath ≠ none := by
          obtain ⟨data, txID, -, hdata, -⟩ := hrecorded
          rw [hdata]
          exact Option.some_ne_none _
        obtain ⟨rfl, hrest⟩ := run_of_database hdata hrun
        exact Or.inl ⟨halong.mpr ⟨hpub, hrest⟩, Or.inr ⟨s, List.mem_cons_self, hrecorded⟩⟩

/-- The check passes if and only if the newest snapshot, if there is one, holds the TXID. -/
theorem validateResume_eq_ok {client : ReplicaClient} {items : List FileInfo} {txID : Nat}
    (hlist : client.ltxFiles snapshotLevel 0 false = .ok ⟨items, none⟩) (hpos : txID ≠ 0) :
    validateResume client txID = .ok () ↔ ∀ latestSnapshot, items.getLast? = some latestSnapshot →
      latestSnapshot.minTXID ≤ txID ∧ txID ≤ latestSnapshot.maxTXID := by
  rw [validateResume, if_neg hpos, hlist]
  simp only
  cases hlast : items.getLast? with
  | none => simp
  | some last =>
      simp only [Option.some.injEq, forall_eq']
      split
      · next hlt => exact iff_of_false (fun h => by cases h) fun h => absurd h.1 (by omega)
      · split
        · next hlt => exact iff_of_false (fun h => by cases h) fun h => absurd h.2 (by omega)
        · exact iff_of_true rfl (by omega)

/-- A run that gets what it asks for restores if there is no database. -/
theorem RestoreRun.Succeeds.restores {next : RestoreRun} (h : next.Succeeds)
    (hfresh : Fresh outputPath d) :
    ∃ following, (restoreFollow format outputPath next d).2 = .ok following := by
  obtain ⟨infos, hplan, hopen, hdecode, hcheck⟩ := h.plan
  refine ⟨.restored (FileInfo.sliceMaxTXID infos), ?_⟩
  rw [restoreFollow, if_neg (not_not.mpr hfresh.1), hplan]
  simp only [hopen, hdecode]
  rw [publishRestored, hcheck]

/-- It resumes at a recorded TXID if and only if the newest snapshot holds that. -/
theorem RestoreRun.Succeeds.resumes_iff {next : RestoreRun} (h : next.Succeeds)
    (hrecorded : Recorded format outputPath r d) :
    (∃ following, (restoreFollow format outputPath next d).2 = .ok following) ↔
      next.Holds format outputPath d := by
  obtain ⟨data, txID, ⟨infos, hplan, -, hmax⟩, hdata, htxid⟩ := hrecorded
  obtain ⟨hpos, hlt⟩ := r.txID_bounds infos hplan
  rw [hmax] at hpos hlt
  obtain ⟨items, hlist⟩ := h.snapshots
  have hread := readTXIDFile_of_written htxid hlt
  have hsome : d outputPath ≠ none := by
    rw [hdata]
    exact Option.some_ne_none _
  have hholds : next.Holds format outputPath d ↔ ∀ latestSnapshot,
      items.getLast? = some latestSnapshot →
        latestSnapshot.minTXID ≤ txID ∧ txID ≤ latestSnapshot.maxTXID := by
    constructor
    · exact fun h => h hsome txID hread (by omega) _ hlist
    · intro h _ t ht _ itr hitr
      obtain rfl : txID = t := Except.ok.inj (hread.symm.trans ht)
      obtain rfl := Except.ok.inj (hlist.symm.trans hitr)
      exact h
  rw [hholds, ← validateResume_eq_ok hlist (by omega), restoreFollow_of_database hsome,
    resumeFollow, hread]
  simp only
  cases hvalid : validateResume next.client txID with
  | error e => exact iff_of_false (fun ⟨_, h⟩ => by cases h) fun h => by cases h
  | ok u => exact iff_of_true ⟨_, rfl⟩ rfl

/-- Publishing is safe if and only if no run is stopped between the database and its TXID, and
the newest snapshot that the next run finds holds the TXID. -/
theorem safe_iff {stops : List (RestoreRun × Nat)} {next : RestoreRun}
    (hfresh : Fresh outputPath d) (hnext : next.Succeeds) :
    Safe format outputPath d stops next ↔
      StopsRecorded format outputPath d stops ∧
        ∀ d', Run.run (stop format outputPath) d stops = some d' →
          next.Holds format outputPath d' := by
  have hpaired : ∀ before, before <+: stops → ∀ d',
      Run.run (stop format outputPath) d before = some d' → d' outputPath ≠ none →
        d' (txidPath outputPath) ≠ none → ∃ s ∈ before, Recorded format outputPath s.1 d' := by
    intro before _ d' hrun hdata htxid
    rcases run_cases hfresh hrun with ⟨-, hfresh' | hrecorded⟩ | ⟨-, hlost⟩
    · exact absurd hfresh'.1 hdata
    · exact hrecorded
    · exact absurd hlost.2 htxid
  have hfollows : ∀ d', Run.run (stop format outputPath) d stops = some d' →
      ((∃ following, (restoreFollow format outputPath next d').2 = .ok following) ↔
        StopsRecorded format outputPath d stops ∧ next.Holds format outputPath d') := by
    intro d' hrun
    rcases run_cases hfresh hrun with ⟨hstops, hfresh' | ⟨s, -, hrecorded⟩⟩ | ⟨hstops, hlost⟩
    · exact iff_of_true (hnext.restores hfresh') ⟨hstops, fun h => absurd hfresh'.1 h⟩
    · exact (hnext.resumes_iff hrecorded).trans (and_iff_right hstops).symm
    · refine iff_of_false ?_ fun h => hstops h.1
      rintro ⟨following, h⟩
      rw [hlost.refused] at h
      cases h
  obtain ⟨d', hrun⟩ := exists_run format outputPath d stops
  constructor
  · intro h
    refine ⟨((hfollows d' hrun).mp (h.follows d' hrun)).1, fun m hm => ?_⟩
    exact ((hfollows m hm).mp (h.follows m hm)).2
  · rintro ⟨hstops, hholds⟩
    exact ⟨hpaired, fun m hm => (hfollows m hm).mpr ⟨hstops, hholds m hm⟩⟩

/-! ## One snapshot -/

namespace OneSnapshot

def client : ReplicaClient where
  ltxFiles level _ _ :=
    .ok ⟨if level = snapshotLevel then [⟨snapshotLevel, 1, 1, 200, 0⟩] else [], none⟩

theorem plan_eq : calcRestorePlan client 0 0 = .ok [⟨snapshotLevel, 1, 1, 200, 0⟩] := by decide

/-- The snapshot holds a database of one byte. -/
def run : RestoreRun where
  client := client
  openErr _ := none
  decodeDatabase _ := ([7], none)
  checkIntegrity _ := .passed
  txID_bounds infos h := by
    obtain rfl := Except.ok.inj (plan_eq.symm.trans h)
    exact ⟨le_rfl, by decide⟩

theorem succeeds : run.Succeeds where
  snapshots := ⟨_, rfl⟩
  plan := ⟨_, plan_eq, rfl, rfl, rfl⟩

def empty : Directory := fun _ => none

theorem fresh : Fresh (ascii "db") empty := ⟨rfl, rfl⟩

/-- What runs that are stopped leave of an empty directory. -/
def after (stops : List (RestoreRun × Nat)) : Directory :=
  (Run.run (stop txidFormat (ascii "db")) empty stops).getD empty

theorem run_after (stops : List (RestoreRun × Nat)) :
    Run.run (stop txidFormat (ascii "db")) empty stops = some (after stops) := by
  obtain ⟨d', h⟩ := exists_run txidFormat (ascii "db") empty stops
  rw [after, h]
  rfl

end OneSnapshot

/-- A first run is stopped while it writes the database, and a second one after it has recorded
the TXID. -/
theorem safe_iff_sample :
    Safe txidFormat (ascii "db") OneSnapshot.empty [(OneSnapshot.run, 1), (OneSnapshot.run, 22)]
      OneSnapshot.run := by
  refine (safe_iff OneSnapshot.fresh OneSnapshot.succeeds).mpr ⟨by decide +kernel, ?_⟩
  have hone : readTXIDFile txidFormat (ascii "db")
      (OneSnapshot.after [(OneSnapshot.run, 1), (OneSnapshot.run, 22)]) = .ok 1 := by
    decide +kernel
  rintro d' hd' - txID hread - itr hitr latestSnapshot hlast
  obtain rfl := Option.some.inj ((OneSnapshot.run_after _).symm.trans hd')
  obtain rfl := Except.ok.inj (hone.symm.trans hread)
  obtain rfl := Except.ok.inj hitr
  obtain rfl := Option.some.inj hlast
  exact ⟨le_rfl, le_rfl⟩

/-- A run that is stopped after it has published the database leaves one that no run follows. -/
theorem publish_lost : ∃ d', Run.run (stop txidFormat (ascii "db")) OneSnapshot.empty
      [(OneSnapshot.run, 3)] = some d' ∧
    (restoreFollow txidFormat (ascii "db") OneSnapshot.run d').2 =
      .error (.resume .noTXIDFile) ∧
    ¬ Safe txidFormat (ascii "db") OneSnapshot.empty [(OneSnapshot.run, 3)] OneSnapshot.run := by
  have hrefused : (restoreFollow txidFormat (ascii "db") OneSnapshot.run
      (OneSnapshot.after [(OneSnapshot.run, 3)])).2 = .error (.resume .noTXIDFile) := by
    decide +kernel
  refine ⟨_, OneSnapshot.run_after _, hrefused, fun h => ?_⟩
  obtain ⟨following, hfollows⟩ := h.follows _ (OneSnapshot.run_after _)
  exact absurd (hrefused.symm.trans hfollows) (by simp)

end Litestream
