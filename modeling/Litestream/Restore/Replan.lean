import Litestream.Follow.Commit
import Litestream.Restore.Artifacts

/-!
# Restoring with a new plan

A planned file may be compacted away before it is read.  `Replan.restore` then stages the
database again from a new plan, at most `maxRestorePlanAttempts` times in all.  The first plan
may be for the latest state, a TXID or a timestamp.  The later ones are for the TXID that the
first one ends at.

`restore_replans` is about any replica: before each plan its listings are any, and each attempt
meets any errors.  A call that succeeds has decoded a chain of the files that were listed last,
which ends where the first plan did.  An attempt that fails leaves no file behind.
-/

namespace Litestream.Replan

open Bytes DirOp

/-! ## Staging -/

/-- An error, and what `errors.Is` finds in it. -/
structure WrappedError where
  text : String
  /-- `os.ErrNotExist` -/
  notExist : Bool := false
  /-- `io.ErrClosedPipe` -/
  closedPipe : Bool := false
deriving DecidableEq, Repr

inductive StageError where
  | noBackupFiles
  | invalidSize (info : FileInfo)
  | create (err : WrappedError)
  /-- No name that was tried is free. -/
  | nameExists
  | read (err : WrappedError)
  | compact (err : WrappedError)
  | decode (err : WrappedError)
  | sync (err : WrappedError)
  | close (err : WrappedError)
deriving DecidableEq, Repr

/-- Whether `errors.Is` finds `os.ErrNotExist`. -/
def StageError.notExist : StageError → Bool
  | noBackupFiles | invalidSize _ | nameExists => false
  | create err | read err | compact err | decode err | sync err | close err => err.notExist

/-- What one plan and the attempt to stage it meet. -/
structure StageRun where
  /-- The files of the replica when the plan is made. -/
  listings : Listings
  /-- A listing fails. -/
  listErr : Option ClientError := none
  /-- The numbers that `os.CreateTemp` tries. -/
  tries : List Nat
  createErr : Option WrappedError := none
  /-- `ResumableReader.Err` of the reader of a file, which opens and reads it. -/
  readErr : FileInfo → Option WrappedError
  compactErr : Option WrappedError := none
  /-- The bytes of the database that `DecodeDatabaseTo` writes, and its error. -/
  decodeDatabase : List FileInfo → Bytes × Option WrappedError
  syncErr : Option WrappedError := none
  closeErr : Option WrappedError := none

/-- The first name of the prefix and a number that no file has. -/
def createTemp (namePrefix : Bytes) (d : Directory) (tries : List Nat) : Option Bytes :=
  (tries.map fun n => namePrefix ++ Json.decimal n).find? fun name => d name = none

/-- Takes a staged database away. -/
def removeStaged (tmpPath : Bytes) : List DirOp :=
  [remove tmpPath, remove (shmPath tmpPath), remove (walPath tmpPath)]

/-- `CalcRestorePlan` with the replica of this attempt. -/
def StageRun.calcRestorePlan (run : StageRun) (txID timestamp : Nat) :
    Except RestoreError (List FileInfo) :=
  match run.listErr with
  | some err => .error (.client err)
  | none => Litestream.calcRestorePlan run.listings.client txID timestamp

/-- The error of an attempt after the temporary file was created.  A closed pipe is what the
compactor meets when decoding has failed. -/
def StageRun.stageErr (run : StageRun) (infos : List FileInfo) : Option StageError :=
  (infos.findSome? run.readErr).map .read <|>
    (run.compactErr.filter fun err => !err.closedPipe).map .compact <|>
    (run.decodeDatabase infos).2.map .decode <|>
    run.compactErr.map .compact <|>
    run.syncErr.map .sync <|>
    run.closeErr.map .close

/-- `stageRestorePlan`: its operations, and the name of the staged database. -/
def stageRestorePlan (outputPath : Bytes) (run : StageRun) (infos : List FileInfo)
    (d : Directory) : List DirOp × Except StageError Bytes :=
  if infos = [] then ([], .error .noBackupFiles)
  else
    match infos.find? fun info => info.size < ltxHeaderSize with
    | some info => ([], .error (.invalidSize info))
    | none =>
        match run.createErr, createTemp (stagePrefix outputPath true) d run.tries with
        | some err, _ => ([], .error (.create err))
        | none, none => ([], .error .nameExists)
        | none, some tmpPath =>
            let writes := writeFile tmpPath (run.decodeDatabase infos).1
            match run.stageErr infos with
            | some err => (writes ++ removeStaged tmpPath, .error err)
            | none => (writes, .ok tmpPath)

/-! ## The attempts -/

/-- One attempt: its plan, the directory around it, and its result. -/
structure Attempt where
  infos : List FileInfo
  before : Directory
  after : Directory
  result : Except StageError Bytes

inductive ReplanError where
  | options (text : String)
  | recover (err : FollowCommitError)
  | resume (err : ResumeError)
  | stat (err : String)
  | outputExists
  | calcRestorePlan (err : RestoreError)
  | mkdir (err : String)
  | stage (err : StageError)
  /-- There is no new plan for the TXID. -/
  | replan (targetTXID : Nat) (err : RestoreError)
  | checkIntegrity (err : String)
  | commit (err : FollowCommitError)
  /-- No name that was tried for the record of the commit is free. -/
  | recordNameExists
  | rename (err : String)
  | syncDir (err : String)
deriving DecidableEq

/-- The attempts, the directory after them, and a result. -/
structure Outcome (α : Type) where
  attempts : List Attempt
  directory : Directory
  result : Except ReplanError α

def maxRestorePlanAttempts : Nat := 4

def runAttempt (outputPath : Bytes) (run : StageRun) (infos : List FileInfo) (d : Directory) :
    Attempt :=
  let staged := stageRestorePlan outputPath run infos d
  ⟨infos, d, runAll d staged.1, staged.2⟩

/-- No attempt follows this one. -/
def Attempt.last (a : Attempt) : Outcome (Bytes × List FileInfo) :=
  ⟨[a], a.after,
    match a.result with
    | .ok tmpPath => .ok (tmpPath, a.infos)
    | .error err => .error (.stage err)⟩

/-- The loop over the attempts from number `k` on, of which `left` may follow that one.  The
result is the staged database and its plan. -/
def stageAttempts (outputPath : Bytes) (runs : Nat → StageRun) (targetTXID : Nat) :
    (left k : Nat) → List FileInfo → Directory → Outcome (Bytes × List FileInfo)
  | 0, k, infos, d => (runAttempt outputPath (runs k) infos d).last
  | left + 1, k, infos, d =>
      let a := runAttempt outputPath (runs k) infos d
      match a.result with
      | .ok _ => a.last
      | .error err =>
          if err.notExist then
            match (runs (k + 1)).calcRestorePlan targetTXID 0 with
            | .error err => ⟨[a], a.after, .error (.replan targetTXID err)⟩
            | .ok infos =>
                let rest := stageAttempts outputPath runs targetTXID left (k + 1) infos a.after
                { rest with attempts := a :: rest.attempts }
          else a.last

/-! ## One call -/

/-- What one call of `Replica.Restore` meets. -/
structure Call where
  /-- What the attempts meet, in order. -/
  runs : Nat → StageRun
  /-- The replica when follow mode resumes. -/
  client : ReplicaClient
  /-- What `os.Stat` reports of the output path, other than that it does not exist. -/
  statErr : Option String := none
  mkdirErr : Option String := none
  /-- SQLite leaves this file beside the database that it checks. -/
  createsSHM : Bool := false
  createsWAL : Bool := false
  checkIntegrity : Bytes → IntegrityCheck
  /-- The database that another restore has published meanwhile. -/
  rival : Option Bytes := none
  /-- What the second `os.Stat` reports, other than that it does not exist. -/
  statAgainErr : Option String := none
  /-- The numbers that `os.CreateTemp` tries for the record of a commit. -/
  recordTries : List Nat := []
  renameErr : Option String := none
  syncDirErr : Option String := none

section
variable (format : TXIDFormat) (sha256 : Bytes → Bytes) (opt : RestoreOptions) (call : Call)

/-- The files that SQLite creates while it checks the staged database. -/
def sideFiles (tmpPath : Bytes) : List DirOp :=
  (if call.createsSHM then [create (shmPath tmpPath)] else []) ++
    if call.createsWAL then [create (walPath tmpPath)] else []

/-- The integrity check of the staged database. -/
def checkStaged (tmpPath : Bytes) (d : Directory) : List DirOp × Option String :=
  if opt.integrityCheck = integrityCheckNone then ([], none)
  else
    match call.checkIntegrity ((d tmpPath).getD []) with
    | .passed =>
        (sideFiles call tmpPath ++ [remove (shmPath tmpPath), remove (walPath tmpPath)], none)
    | .failed err | .cancelled err => (sideFiles call tmpPath, some err)

/-- Puts the staged database in place.  In follow mode that is `commitFollowStaged`, but for the
errors of the file system in it. -/
def publish (tmpPath : Bytes) (maxTXID : Nat) (d : Directory) :
    List DirOp × Except ReplanError Restored :=
  if opt.follow then
    match prepareCommit format sha256 opt.outputPath tmpPath 0 maxTXID d,
      createTemp (recordTmpPrefix opt.outputPath) d call.recordTries with
    | .error err, _ => ([], .error (.commit err))
    | .ok _, none => ([], .error .recordNameExists)
    | .ok record, some recordTmp =>
        (commitOps format opt.outputPath tmpPath recordTmp maxTXID record,
          .ok (.following (.restored maxTXID)))
  else
    match call.renameErr, call.syncDirErr with
    | some err, _ => ([], .error (.rename err))
    | none, some err => ([rename tmpPath opt.outputPath], .error (.syncDir err))
    | none, none => ([rename tmpPath opt.outputPath], .ok .database)

/-- Another restore may publish its database. -/
def afterRival (d : Directory) : Directory :=
  match call.rival with
  | none => d
  | some database => Function.update d opt.outputPath (some database)

/-- Checks the staged database and puts it in place, unless there is a database by now. -/
def publishStaged (tmpPath : Bytes) (maxTXID : Nat) (d : Directory) :
    Directory × Except ReplanError Restored :=
  let d' := runAll d (checkStaged opt call tmpPath d).1
  match (checkStaged opt call tmpPath d).2 with
  | some err => (d', .error (.checkIntegrity err))
  | none =>
      let d' := afterRival opt call d'
      match call.statAgainErr with
      | some err => (d', .error (.stat err))
      | none =>
          if d' opt.outputPath ≠ none then (d', .error .outputExists)
          else
            let published := publish format sha256 opt call tmpPath maxTXID d'
            (runAll d' published.1, published.2)

/-- The staged database is taken away if the call fails. -/
def finish (tmpPath : Bytes) (maxTXID : Nat) (d : Directory) :
    Directory × Except ReplanError Restored :=
  let published := publishStaged format sha256 opt call tmpPath maxTXID d
  match published.2 with
  | .ok restored => (published.1, .ok restored)
  | .error err => (runAll published.1 (removeStaged tmpPath), .error err)

/-- Restores to a path where there is no database. -/
def restoreNew (d : Directory) : Outcome Restored :=
  match call.statErr with
  | some err => ⟨[], d, .error (.stat err)⟩
  | none =>
      if d opt.outputPath ≠ none then ⟨[], d, .error .outputExists⟩
      else
        match (call.runs 0).calcRestorePlan opt.txID opt.timestamp, call.mkdirErr with
        | .error err, _ => ⟨[], d, .error (.calcRestorePlan err)⟩
        | .ok _, some err => ⟨[], d, .error (.mkdir err)⟩
        | .ok infos, none =>
            let staged := stageAttempts opt.outputPath call.runs (FileInfo.sliceMaxTXID infos)
              (maxRestorePlanAttempts - 1) 0 infos d
            match staged.result with
            | .error err => ⟨staged.attempts, staged.directory, .error err⟩
            | .ok (tmpPath, infos) =>
                let finished := finish format sha256 opt call tmpPath
                  (FileInfo.sliceMaxTXID infos) staged.directory
                ⟨staged.attempts, finished.1, finished.2⟩

/-- The directory after an interrupted commit was recovered, in follow mode. -/
def recovered (d : Directory) : Directory :=
  if opt.follow then runAll d (recoverFollowCommit format sha256 opt.outputPath d).1 else d

/-- `Replica.Restore`, up to the follow loop, of a replica without v0.3.x backups. -/
def restore (d : Directory) : Outcome Restored :=
  match opt.validate with
  | some text => ⟨[], d, .error (.options text)⟩
  | none =>
      let d' := recovered format sha256 opt d
      if opt.follow then
        match (recoverFollowCommit format sha256 opt.outputPath d).2 with
        | .error err => ⟨[], d', .error (.recover err)⟩
        | .ok recoveredTXID =>
            if call.statErr = none ∧ d' opt.outputPath ≠ none then
              match validateResume call.client recoveredTXID with
              | .error err => ⟨[], d', .error (.resume err)⟩
              | .ok () => ⟨[], d', .ok (.following (.resumed recoveredTXID))⟩
            else restoreNew format sha256 opt call d'
      else restoreNew format sha256 opt call d'

end

/-! ## What a call leaves -/

/-- No file but these is new or changed. -/
def LeavesOnly (names : List Bytes) (d d' : Directory) : Prop :=
  ∀ name ∉ names, d' name = none ∨ d' name = d name

/-- The TXID of the last plan. -/
def Outcome.txID {α : Type} (o : Outcome α) : Option Nat :=
  o.attempts.getLast?.map fun a => FileInfo.sliceMaxTXID a.infos

/-- An attempt that succeeds: each file of its plan was read, and the database of the plan is in
a new file. -/
structure Staged (outputPath : Bytes) (run : StageRun) (infos : List FileInfo) (tmpPath : Bytes)
    (d d' : Directory) : Prop where
  read : ∀ info ∈ infos, run.readErr info = none
  decoded : (run.decodeDatabase infos).2 = none
  isTemp : IsTemp (stagePrefix outputPath true) tmpPath
  directory : d' = Function.update d tmpPath (some (run.decodeDatabase infos).1)

variable {outputPath tmpPath name namePrefix data : Bytes} {run : StageRun}
  {runs : Nat → StageRun} {infos : List FileInfo} {d d' d₁ : Directory} {tries : List Nat}
  {names : List Bytes} {txID timestamp targetTXID left k : Nat}

theorem LeavesOnly.refl (names : List Bytes) (d : Directory) : LeavesOnly names d d :=
  fun _ _ => .inr rfl

theorem LeavesOnly.trans (h : LeavesOnly names d d₁) (h' : LeavesOnly names d₁ d') :
    LeavesOnly names d d' := by
  intro name hname
  rcases h' name hname with hnone | heq
  · exact .inl hnone
  · rw [heq]
    exact h name hname

theorem LeavesOnly.mono {names' : List Bytes} (h : LeavesOnly names d d') (hsub : names ⊆ names') :
    LeavesOnly names' d d' :=
  fun name hname => h name fun hmem => hname (hsub hmem)

theorem createTemp_eq_some (h : createTemp namePrefix d tries = some name) :
    d name = none ∧ IsTemp namePrefix name := by
  have hnone : d name = none := by simpa using List.find?_some h
  obtain ⟨n, -, rfl⟩ := List.mem_map.mp (List.mem_of_find?_eq_some h)
  exact ⟨hnone, n, rfl⟩

/-- A staged database and the files beside it. -/
def stagedNames (tmpPath : Bytes) : List Bytes := [tmpPath, shmPath tmpPath, walPath tmpPath]

theorem runAll_removeStaged :
    runAll d (removeStaged tmpPath) name = if name ∈ stagedNames tmpPath then none else d name := by
  simp only [removeStaged, runAll_cons, runAll_nil, run, Function.update_apply, stagedNames,
    List.mem_cons, List.not_mem_nil, or_false]
  split_ifs <;> simp_all

/-- A staged database and the files beside it go together. -/
theorem LeavesOnly.removeStaged (h : LeavesOnly (stagedNames tmpPath ++ names) d d') :
    LeavesOnly names d (runAll d' (removeStaged tmpPath)) := by
  intro name hname
  rw [runAll_removeStaged]
  split
  · exact .inl rfl
  next hstaged => exact h name (by simp [hname, hstaged])

/-! ## One attempt -/

theorem stageErr_eq_none (h : run.stageErr infos = none) :
    (∀ info ∈ infos, run.readErr info = none) ∧ (run.decodeDatabase infos).2 = none := by
  simp only [StageRun.stageErr, Option.orElse_eq_orElse, Option.orElse_eq_or,
    Option.or_eq_none_iff, Option.map_eq_none_iff, List.findSome?_eq_none_iff] at h
  exact ⟨h.1, h.2.2.1⟩

/-- An attempt fails and leaves nothing, or it succeeds. -/
theorem runAttempt_spec (outputPath : Bytes) (run : StageRun) (infos : List FileInfo)
    (d : Directory) :
    (∃ err, (runAttempt outputPath run infos d).result = .error err ∧
      LeavesOnly [] d (runAttempt outputPath run infos d).after) ∨
    ∃ tmpPath, (runAttempt outputPath run infos d).result = .ok tmpPath ∧
      Staged outputPath run infos tmpPath d (runAttempt outputPath run infos d).after := by
  simp only [runAttempt, stageRestorePlan]
  split
  · exact .inl ⟨_, rfl, .refl _ d⟩
  split
  · exact .inl ⟨_, rfl, .refl _ d⟩
  split
  · exact .inl ⟨_, rfl, .refl _ d⟩
  · exact .inl ⟨_, rfl, .refl _ d⟩
  next tmpPath _ htmp =>
    have htemp := (createTemp_eq_some htmp).2
    split
    · refine .inl ⟨_, rfl, ?_⟩
      rw [runAll_append, runAll_writeFile]
      refine LeavesOnly.removeStaged fun name hname => .inr (Function.update_of_ne ?_ ..)
      rintro rfl
      exact hname (by simp [stagedNames])
    next hnone =>
      obtain ⟨hread, hdecoded⟩ := stageErr_eq_none hnone
      exact .inr ⟨tmpPath, rfl, hread, hdecoded, htemp, runAll_writeFile ..⟩

/-! ## Plans -/

theorem StageRun.calcRestorePlan_ok (h : run.calcRestorePlan txID timestamp = .ok infos) :
    Litestream.calcRestorePlan run.listings.client txID timestamp = .ok infos := by
  rw [StageRun.calcRestorePlan] at h
  split at h
  · cases h
  · exact h

/-- A plan is a chain of listed files that ends at its last TXID. -/
theorem StageRun.restoreChain (h : run.calcRestorePlan txID timestamp = .ok infos) :
    RestoreChain run.listings (FileInfo.sliceMaxTXID infos) infos := by
  have hplan := StageRun.calcRestorePlan_ok h
  have hboth : ¬ (txID ≠ 0 ∧ timestamp ≠ 0) := by
    intro hboth
    rw [Litestream.calcRestorePlan, if_pos hboth] at hplan
    cases hplan
  have hchain : infos ≠ [] ∧ FileInfo.Chain 0 infos ∧ ∀ f ∈ infos, run.listings.Listed f := by
    rcases calcRestorePlan_eq run.listings txID timestamp hboth with
      ⟨info, hmem, -, -, -, heq⟩ | ⟨s, hs, heq⟩
    · rw [heq] at hplan
      cases hplan
      have hmin := run.listings.snapshot_min info hmem
      have hlisted : run.listings.Listed info := ⟨snapshotLevel, le_refl _, hmem⟩
      have hvalid := hlisted.valid.min_le_max
      refine ⟨by simp, ⟨?_, ?_, trivial⟩, by simpa using hlisted⟩ <;> omega
    · rw [heq] at hplan
      obtain ⟨rfl, hne, -⟩ := finishPlan_eq_ok.mp hplan
      exact ⟨hne, hs.chain, fun f hf => (hs.inv.mem f hf).1⟩
  obtain ⟨hne, hchain, hlisted⟩ := hchain
  rw [FileInfo.sliceMaxTXID_eq_reach]
  exact ⟨hne, hlisted, hchain.linked, hchain.hi_le_reach, rfl⟩

theorem pos_of_restoreChain {ls : Listings} (h : RestoreChain ls targetTXID infos) :
    0 < targetTXID := by
  have hvalid := (h.listed _ (List.getLast_mem h.ne_nil)).valid
  have hreach := h.reach
  rw [FileInfo.reach, Cover.reach_eq_getLast 0 h.ne_nil] at hreach
  have := hvalid.one_le
  have := hvalid.min_le_max
  omega

/-- A later plan ends at the TXID of the first one. -/
theorem StageRun.restoreChain_txID (hpos : 0 < targetTXID)
    (h : run.calcRestorePlan targetTXID 0 = .ok infos) :
    RestoreChain run.listings targetTXID infos :=
  ((calcRestorePlan_txID run.listings hpos).2.1 infos (StageRun.calcRestorePlan_ok h)).1

/-! ## The loop -/

/-- What the attempts from number `k` on come to. -/
structure Attempted (outputPath : Bytes) (runs : Nat → StageRun) (targetTXID left k : Nat)
    (d : Directory) (o : Outcome (Bytes × List FileInfo)) : Prop where
  ne_nil : o.attempts ≠ []
  length_le : o.attempts.length ≤ left + 1
  failed : ∀ a ∈ o.attempts, ∀ err, a.result = .error err → LeavesOnly [] a.before a.after
  error : ∀ err, o.result = .error err → LeavesOnly [] d o.directory
  ok : ∀ tmpPath infos, o.result = .ok (tmpPath, infos) → ∃ j d₁,
    o.attempts.length = j + 1 ∧ o.txID = some targetTXID ∧
      RestoreChain (runs (k + j)).listings targetTXID infos ∧ LeavesOnly [] d d₁ ∧
      Staged outputPath (runs (k + j)) infos tmpPath d₁ o.directory

/-- An attempt that no other one follows. -/
theorem attempted_last (hchain : RestoreChain (runs k).listings targetTXID infos) :
    Attempted outputPath runs targetTXID left k d
      (runAttempt outputPath (runs k) infos d).last := by
  have htxID : (runAttempt outputPath (runs k) infos d).last.txID = some targetTXID := by
    rw [← hchain.reach, ← FileInfo.sliceMaxTXID_eq_reach]
    rfl
  rcases runAttempt_spec outputPath (runs k) infos d with
    ⟨err, hresult, hleaves⟩ | ⟨tmpPath, hresult, hstaged⟩
  · refine ⟨by simp [Attempt.last], by simp [Attempt.last], fun a ha _ _ => ?_,
      fun _ _ => hleaves, fun tmpPath infos hok => ?_⟩
    · rw [List.mem_singleton.mp ha]
      exact hleaves
    · rw [Attempt.last, hresult] at hok
      cases hok
  · refine ⟨by simp [Attempt.last], by simp [Attempt.last], fun a ha err herr => ?_,
      fun err herr => ?_, fun tmpPath infos hok => ?_⟩
    · rw [List.mem_singleton.mp ha, hresult] at herr
      cases herr
    · rw [Attempt.last, hresult] at herr
      cases herr
    · rw [Attempt.last, hresult] at hok
      cases hok
      exact ⟨0, d, rfl, htxID, hchain, .refl _ d, hstaged⟩

/-- An attempt whose files are gone, and the attempts that follow with a new plan. -/
theorem Attempted.cons {a : Attempt} {o : Outcome (Bytes × List FileInfo)}
    (h : Attempted outputPath runs targetTXID left (k + 1) a.after o)
    (hleaves : LeavesOnly [] d a.after) (hbefore : a.before = d) :
    Attempted outputPath runs targetTXID (left + 1) k d
      { o with attempts := a :: o.attempts } where
  ne_nil := List.cons_ne_nil a o.attempts
  length_le := Nat.succ_le_succ h.length_le
  failed b hb err herr := by
    rcases List.mem_cons.mp hb with rfl | hb
    · rw [hbefore]
      exact hleaves
    · exact h.failed b hb err herr
  error err herr := hleaves.trans (h.error err herr)
  ok tmpPath infos hok := by
    obtain ⟨j, d₁, hlength, htxID, hchain, hd, hstaged⟩ := h.ok tmpPath infos hok
    refine ⟨j + 1, d₁, congrArg Nat.succ hlength, ?_, ?_, hleaves.trans hd, ?_⟩
    · rw [← htxID, Outcome.txID, Outcome.txID, List.getLast?_cons_of_ne_nil h.ne_nil]
    · rwa [Nat.add_right_comm, Nat.add_assoc] at hchain
    · rwa [Nat.add_right_comm, Nat.add_assoc] at hstaged

/-- The step: after an attempt the loop ends, or goes on with a chain to the same TXID. -/
theorem attempted (hpos : 0 < targetTXID) :
    ∀ (left k : Nat) (infos : List FileInfo) (d : Directory),
      RestoreChain (runs k).listings targetTXID infos →
        Attempted outputPath runs targetTXID left k d
          (stageAttempts outputPath runs targetTXID left k infos d)
  | 0, k, infos, d, hchain => attempted_last hchain
  | left + 1, k, infos, d, hchain => by
      rw [stageAttempts]
      split
      · exact attempted_last hchain
      next err hresult =>
        have hleaves : LeavesOnly [] d (runAttempt outputPath (runs k) infos d).after := by
          rcases runAttempt_spec outputPath (runs k) infos d with ⟨_, -, h⟩ | ⟨_, hok, -⟩
          · exact h
          · rw [hresult] at hok
            cases hok
        split
        · split
          · refine ⟨by simp, by simp, fun a ha _ _ => ?_, fun _ _ => hleaves, fun _ _ hok => ?_⟩
            · rw [List.mem_singleton.mp ha]
              exact hleaves
            · cases hok
          next hplan =>
            exact (attempted hpos left (k + 1) _ _ (StageRun.restoreChain_txID hpos hplan)).cons
              hleaves rfl
        · exact attempted_last hchain

/-! ## Putting the database in place -/

section
variable {format : TXIDFormat} {sha256 : Bytes → Bytes} {opt : RestoreOptions} {call : Call}

/-- A staged database is none of the files beside one. -/
theorem notMem_sideNames : tmpPath ∉ [shmPath tmpPath, walPath tmpPath] := by
  simp only [List.mem_cons, List.not_mem_nil, or_false, not_or, shmPath, walPath]
  exact ⟨fun h => absurd (List.append_right_eq_self.mp h.symm) (by decide),
    fun h => absurd (List.append_right_eq_self.mp h.symm) (by decide)⟩

theorem names_of_mem_sideFiles {op : DirOp} (hop : op ∈ sideFiles call tmpPath) :
    ∀ name ∈ op.names, name ∈ [shmPath tmpPath, walPath tmpPath] := by
  rcases List.mem_append.mp hop with hop | hop <;> split at hop
  · obtain rfl := List.mem_singleton.mp hop
    simp [DirOp.names]
  · cases hop
  · obtain rfl := List.mem_singleton.mp hop
    simp [DirOp.names]
  · cases hop

/-- The check changes the files beside the database only. -/
theorem runAll_checkStaged (tmpPath : Bytes) (d : Directory)
    (hname : name ∉ [shmPath tmpPath, walPath tmpPath]) :
    runAll d (checkStaged opt call tmpPath d).1 name = d name := by
  have hside : ∀ op ∈ sideFiles call tmpPath, name ∉ op.names :=
    fun op hop hmem => hname (names_of_mem_sideFiles hop name hmem)
  refine runAll_of_notMem fun op hop => ?_
  rw [checkStaged] at hop
  split at hop
  · cases hop
  split at hop
  · rcases List.mem_append.mp hop with hop | hop
    · exact hside op hop
    · rcases List.mem_pair.mp hop with rfl | rfl <;> exact fun hmem => hname (by simp_all [DirOp.names])
  · exact hside op hop
  · exact hside op hop

/-- A check that is passed takes the files beside the database away. -/
theorem leavesOnly_checkStaged (h : (checkStaged opt call tmpPath d).2 = none) :
    LeavesOnly [] d (runAll d (checkStaged opt call tmpPath d).1) := by
  intro name _
  by_cases hname : name ∈ [shmPath tmpPath, walPath tmpPath]
  · rw [checkStaged] at h ⊢
    split at h
    next hnot =>
      rw [if_pos hnot]
      exact .inr rfl
    next hnot =>
      rw [if_neg hnot]
      split at h
      next hpassed =>
        left
        simp only [runAll_append, runAll_cons, runAll_nil, run, Function.update_apply]
        rcases List.mem_pair.mp hname with rfl | rfl <;> simp
      · cases h
      · cases h
  · exact .inr (runAll_checkStaged tmpPath d hname)

/-- A commit puts the database and its TXID in place and takes all other files away. -/
theorem runAll_commitOps {stage recordTmp : Bytes} {toTXID : Nat} {record : FollowCommitRecord}
    (hdata : d stage = some data) (hstage : stage ∉ kept outputPath)
    (hrecordTmp : recordTmp ∉ kept outputPath) (hne : stage ≠ recordTmp) :
    runAll d (commitOps format outputPath stage recordTmp toTXID record) outputPath = some data ∧
      runAll d (commitOps format outputPath stage recordTmp toTXID record) stage = none ∧
      LeavesOnly [outputPath, txidPath outputPath] d
        (runAll d (commitOps format outputPath stage recordTmp toTXID record)) := by
  simp only [kept, List.mem_cons, List.not_mem_nil, or_false, not_or] at hstage hrecordTmp
  have hprepared : Function.update (Function.update d recordTmp none) (followCommitPath outputPath)
      (some record.encodeRecord) stage = some data := by
    rw [Function.update_of_ne hstage.2.2, Function.update_of_ne hne, hdata]
  rw [commitOps, runAll_append, runAll_publish hrecordTmp.2.2, runAll_cons, run,
    if_neg (by rw [hprepared]; exact Option.some_ne_none _), hprepared, runAll_append, writeTXIDFile,
    runAll_publish txidTmpPath_ne, runAll_cons, runAll_nil, run]
  refine ⟨?_, ?_, fun name hname => ?_⟩
  · rw [Function.update_of_ne followCommitPath_ne.symm, Function.update_of_ne txidPath_ne.symm,
      Function.update_of_ne txidTmpPath_ne_self.symm, Function.update_self]
  · simp only [Function.update_apply, if_neg hstage.1, if_neg hstage.2.1, if_true, ite_self]
  ·
    simp only [List.mem_cons, List.not_mem_nil, or_false, not_or] at hname
    simp only [Function.update_apply, if_neg hname.1, if_neg hname.2]
    split_ifs <;> simp

/-- How a database is restored. -/
def restoredAs (opt : RestoreOptions) (maxTXID : Nat) : Restored :=
  if opt.follow then .following (.restored maxTXID) else .database

theorem runAll_rename (hdata : d tmpPath = some data) :
    runAll d [rename tmpPath outputPath] =
      Function.update (Function.update d tmpPath none) outputPath (some data) := by
  rw [runAll_cons, runAll_nil, run, if_neg (by rw [hdata]; exact Option.some_ne_none _), hdata]

theorem leavesOnly_rename (hdata : d tmpPath = some data) :
    LeavesOnly [outputPath] d (runAll d [rename tmpPath outputPath]) := by
  intro name hname
  rw [runAll_rename hdata, Function.update_of_ne (by simpa using hname), Function.update_apply]
  split_ifs <;> simp

variable (format sha256 call) in
/-- Putting the database in place fails and leaves all of it or nothing, or it succeeds. -/
theorem publish_spec (maxTXID : Nat) (hdata : d tmpPath = some data)
    (htemp : stagePrefix opt.outputPath true <+: tmpPath) :
    (∃ err, (publish format sha256 opt call tmpPath maxTXID d).2 = .error err ∧
      LeavesOnly [opt.outputPath] d
        (runAll d (publish format sha256 opt call tmpPath maxTXID d).1) ∧
      (runAll d (publish format sha256 opt call tmpPath maxTXID d).1 opt.outputPath =
          d opt.outputPath ∨
        runAll d (publish format sha256 opt call tmpPath maxTXID d).1 opt.outputPath =
          some data)) ∨
    (publish format sha256 opt call tmpPath maxTXID d).2 = .ok (restoredAs opt maxTXID) ∧
      runAll d (publish format sha256 opt call tmpPath maxTXID d).1 opt.outputPath = some data ∧
      runAll d (publish format sha256 opt call tmpPath maxTXID d).1 tmpPath = none ∧
      LeavesOnly [opt.outputPath, txidPath opt.outputPath] d
        (runAll d (publish format sha256 opt call tmpPath maxTXID d).1) := by
  have hkept := stagePrefix_notMem_kept htemp
  have hne : tmpPath ≠ opt.outputPath := by
    rintro heq
    exact hkept (by simp [heq, kept])
  rw [publish, restoredAs]
  split
  · split
    · exact .inl ⟨_, rfl, .refl _ d, .inl rfl⟩
    · exact .inl ⟨_, rfl, .refl _ d, .inl rfl⟩
    next recordTmp _ hrecordTmp =>
      obtain ⟨hnone, hrecordTemp⟩ := createTemp_eq_some hrecordTmp
      have hstage : tmpPath ≠ recordTmp := by
        rintro rfl
        rw [hnone] at hdata
        cases hdata
      exact .inr ⟨rfl, runAll_commitOps hdata hkept
        (recordTmpPrefix_notMem_kept hrecordTemp.isPrefix) hstage⟩
  · have hrename : LeavesOnly [opt.outputPath] d _ := leavesOnly_rename hdata
    have houtput : runAll d [rename tmpPath opt.outputPath] opt.outputPath = some data := by
      rw [runAll_rename hdata, Function.update_self]
    split
    · exact .inl ⟨_, rfl, .refl _ d, .inl rfl⟩
    · exact .inl ⟨_, rfl, hrename, .inr houtput⟩
    · refine .inr ⟨rfl, houtput, ?_, hrename.mono (by simp)⟩
      rw [runAll_rename hdata, Function.update_of_ne hne, Function.update_self]

/-- The database that is left: the one there was, the one of another restore, or all of this
one. -/
def WholeDatabase (opt : RestoreOptions) (call : Call) (data : Bytes) (d d' : Directory) : Prop :=
  d' opt.outputPath = d opt.outputPath ∨ d' opt.outputPath = call.rival ∨
    d' opt.outputPath = some data

theorem output_notMem_stagedNames (htemp : stagePrefix opt.outputPath true <+: tmpPath) :
    opt.outputPath ∉ stagedNames tmpPath := by
  have hne : ∀ suffix : Bytes, tmpPath ++ suffix ≠ opt.outputPath := by
    intro suffix heq
    have := stagePrefix_notMem_kept (htemp.trans (List.prefix_append tmpPath suffix))
    exact this (by simp [heq, kept])
  intro hmem
  simp only [stagedNames, List.mem_cons, List.not_mem_nil, or_false] at hmem
  rcases hmem with heq | heq | heq
  · exact hne [] (by rw [List.append_nil, heq])
  · exact hne _ heq.symm
  · exact hne _ heq.symm

theorem afterRival_output (call : Call) (h : d opt.outputPath = d₁ opt.outputPath) :
    WholeDatabase opt call data d₁ (afterRival opt call d) := by
  rw [WholeDatabase]
  cases hrival : call.rival with
  | none => exact .inl (by rw [afterRival, hrival]; exact h)
  | some database =>
      exact .inr (.inl (by rw [afterRival, hrival]; exact Function.update_self ..))

theorem leavesOnly_afterRival (call : Call) (d : Directory) :
    LeavesOnly [opt.outputPath] d (afterRival opt call d) := by
  intro name hname
  right
  cases hrival : call.rival with
  | none => rw [afterRival, hrival]
  | some database =>
      rw [afterRival, hrival]
      exact Function.update_of_ne (by simpa using hname) ..

variable (format sha256 call) in
theorem publishStaged_spec (maxTXID : Nat)
    (hd : d = Function.update d₁ tmpPath (some data))
    (htemp : stagePrefix opt.outputPath true <+: tmpPath) :
    (∃ err, (publishStaged format sha256 opt call tmpPath maxTXID d).2 = .error err ∧
      LeavesOnly (stagedNames tmpPath ++ [opt.outputPath]) d₁
        (publishStaged format sha256 opt call tmpPath maxTXID d).1 ∧
      WholeDatabase opt call data d₁ (publishStaged format sha256 opt call tmpPath maxTXID d).1) ∨
    (publishStaged format sha256 opt call tmpPath maxTXID d).2 = .ok (restoredAs opt maxTXID) ∧
      (publishStaged format sha256 opt call tmpPath maxTXID d).1 opt.outputPath = some data ∧
      LeavesOnly [opt.outputPath, txidPath opt.outputPath] d₁
        (publishStaged format sha256 opt call tmpPath maxTXID d).1 := by
  have hnot := output_notMem_stagedNames htemp
  set checked := runAll d (checkStaged opt call tmpPath d).1 with hchecked
  have hother : ∀ name ∉ stagedNames tmpPath, checked name = d₁ name := by
    intro name hname
    rw [hchecked, runAll_checkStaged tmpPath d (fun h => hname (List.mem_cons_of_mem _ h)), hd,
      Function.update_of_ne fun heq => hname (by simp [heq, stagedNames])]
  have hleaves : LeavesOnly (stagedNames tmpPath ++ [opt.outputPath]) d₁ checked :=
    fun name hname => .inr (hother name fun h => hname (List.mem_append_left _ h))
  have hrival : LeavesOnly (stagedNames tmpPath ++ [opt.outputPath]) d₁
      (afterRival opt call checked) :=
    hleaves.trans ((leavesOnly_afterRival call checked).mono (by simp))
  have hwhole : WholeDatabase opt call data d₁ (afterRival opt call checked) :=
    afterRival_output call (hother _ hnot)
  rw [publishStaged, ← hchecked]
  simp only
  split
  · exact .inl ⟨_, rfl, hleaves, .inl (hother _ hnot)⟩
  next hpassed =>
    split
    · exact .inl ⟨_, rfl, hrival, hwhole⟩
    split
    · exact .inl ⟨_, rfl, hrival, hwhole⟩
    next hnone =>
      rw [not_not] at hnone
      have hnorival : call.rival = none := by
        cases hrival : call.rival with
        | none => rfl
        | some database =>
            rw [afterRival, hrival] at hnone
            cases hnone.symm.trans (Function.update_self ..)
      have hsame : afterRival opt call checked = checked := by rw [afterRival, hnorival]
      have hdata : checked tmpPath = some data := by
        rw [hchecked, runAll_checkStaged tmpPath d notMem_sideNames, hd, Function.update_self]
      rw [hsame] at hnone hrival ⊢
      rcases publish_spec format sha256 call maxTXID hdata htemp with ⟨err, herr, hpub, houtput⟩ | ⟨hok, houtput, htmp, hpub⟩
      · refine .inl ⟨err, herr, hrival.trans (hpub.mono (by simp)), ?_⟩
        rw [WholeDatabase, ← hother _ hnot]
        tauto
      · refine .inr ⟨hok, houtput, fun name hname => ?_⟩
        by_cases heq : name = tmpPath
        · exact .inl (heq ▸ htmp)
        · have hd₁ : d name = d₁ name := by rw [hd, Function.update_of_ne heq]
          rw [← hd₁]
          exact (leavesOnly_checkStaged hpassed).mono (List.nil_subset _) |>.trans hpub name hname

variable (format sha256 call) in
/-- A call that fails takes the staged database away. -/
theorem finish_spec (maxTXID : Nat)
    (hd : d = Function.update d₁ tmpPath (some data))
    (htemp : stagePrefix opt.outputPath true <+: tmpPath) :
    (∃ err, (finish format sha256 opt call tmpPath maxTXID d).2 = .error err ∧
      LeavesOnly [opt.outputPath] d₁ (finish format sha256 opt call tmpPath maxTXID d).1 ∧
      WholeDatabase opt call data d₁ (finish format sha256 opt call tmpPath maxTXID d).1) ∨
    (finish format sha256 opt call tmpPath maxTXID d).2 = .ok (restoredAs opt maxTXID) ∧
      (finish format sha256 opt call tmpPath maxTXID d).1 opt.outputPath = some data ∧
      LeavesOnly [opt.outputPath, txidPath opt.outputPath] d₁
        (finish format sha256 opt call tmpPath maxTXID d).1 := by
  rcases publishStaged_spec format sha256 call maxTXID hd htemp with ⟨err, herr, hleaves, hwhole⟩ | ⟨hok, hpublished⟩
  · left
    rw [finish, herr]
    refine ⟨err, rfl, hleaves.removeStaged, ?_⟩
    simp only [WholeDatabase, runAll_removeStaged, if_neg (output_notMem_stagedNames htemp)]
    exact hwhole
  · right
    rw [finish, hok]
    exact ⟨rfl, hpublished⟩

/-! ## One call -/

/-- What a call has decoded in its last attempt: a chain of the files that were listed for it,
to the TXID of the first plan.  Each of these files was read. -/
structure Decoded (opt : RestoreOptions) (call : Call) (o : Outcome Restored)
    (first infos : List FileInfo) (data : Bytes) : Prop where
  plan : (call.runs 0).calcRestorePlan opt.txID opt.timestamp = .ok first
  chain : RestoreChain (call.runs (o.attempts.length - 1)).listings (FileInfo.sliceMaxTXID first)
    infos
  read : ∀ info ∈ infos, (call.runs (o.attempts.length - 1)).readErr info = none
  decoded : (call.runs (o.attempts.length - 1)).decodeDatabase infos = (data, none)
  txID : o.txID = some (FileInfo.sliceMaxTXID first)

/-- The directory in which the attempts of a call begin. -/
def start (format : TXIDFormat) (sha256 : Bytes → Bytes) (opt : RestoreOptions) (d : Directory) :
    Directory :=
  match opt.validate with
  | some _ => d
  | none => recovered format sha256 opt d

/-- What is asked of a call that begins in the directory `d`. -/
structure Bounded (opt : RestoreOptions) (call : Call) (d : Directory) (o : Outcome Restored) :
    Prop where
  length_le : o.attempts.length ≤ maxRestorePlanAttempts
  /-- An attempt that fails leaves nothing. -/
  failed : ∀ a ∈ o.attempts, ∀ err, a.result = .error err → LeavesOnly [] a.before a.after
  /-- A call that fails leaves nothing, or all of the database. -/
  error : ∀ err, o.result = .error err → LeavesOnly [opt.outputPath] d o.directory ∧
    (o.directory opt.outputPath = d opt.outputPath ∨ o.directory opt.outputPath = call.rival ∨
      ∃ first infos data, Decoded opt call o first infos data ∧
        o.directory opt.outputPath = some data)
  /-- A call that succeeds has restored the TXID of the first plan. -/
  ok : ∀ restored, o.result = .ok restored → d opt.outputPath = none →
    ∃ first infos data, Decoded opt call o first infos data ∧
      o.directory opt.outputPath = some data ∧
      restored = restoredAs opt (FileInfo.sliceMaxTXID first) ∧
      LeavesOnly [opt.outputPath, txidPath opt.outputPath] d o.directory

/-- A call that ends before its first attempt. -/
theorem bounded_of_error {err : ReplanError} : Bounded opt call d ⟨[], d, .error err⟩ where
  length_le := Nat.zero_le _
  failed _ ha := absurd ha List.not_mem_nil
  error _ _ := ⟨.refl _ d, .inl rfl⟩
  ok _ hok := by cases hok

variable (format sha256 call) in
theorem bounded_restoreNew (d : Directory) :
    Bounded opt call d (restoreNew format sha256 opt call d) := by
  rw [restoreNew]
  split
  · exact bounded_of_error
  split
  · exact bounded_of_error
  next hnone =>
  rw [not_not] at hnone
  split
  · exact bounded_of_error
  · exact bounded_of_error
  next first hfirst _ =>
    have hchain := StageRun.restoreChain hfirst
    have hstaged : Attempted opt.outputPath call.runs (FileInfo.sliceMaxTXID first)
      (maxRestorePlanAttempts - 1) 0 d _ := attempted (pos_of_restoreChain hchain) _ 0 first d hchain
    simp only
    split
    next err herr =>
      have hleaves := hstaged.error err herr
      refine ⟨hstaged.length_le, hstaged.failed, fun _ _ => ⟨hleaves.mono (List.nil_subset _), ?_⟩,
        fun _ hok => by cases hok⟩
      rcases hleaves opt.outputPath List.not_mem_nil with heq | heq
      · exact .inl (heq.trans hnone.symm)
      · exact .inl heq
    next tmpPath infos hok =>
      obtain ⟨j, d₁, hlength, htxID, hlast, hd₁, hdone⟩ := hstaged.ok tmpPath infos hok
      rw [Nat.zero_add] at hlast hdone
      have hj : (stageAttempts opt.outputPath call.runs (FileInfo.sliceMaxTXID first)
        (maxRestorePlanAttempts - 1) 0 first d).attempts.length - 1 = j := by omega
      have hmax : FileInfo.sliceMaxTXID infos = FileInfo.sliceMaxTXID first := by
        rw [FileInfo.sliceMaxTXID_eq_reach, hlast.reach]
      have hdecoded : ∀ directory result, Decoded opt call
          ⟨(stageAttempts opt.outputPath call.runs (FileInfo.sliceMaxTXID first)
            (maxRestorePlanAttempts - 1) 0 first d).attempts, directory, result⟩ first infos
          ((call.runs j).decodeDatabase infos).1 := fun _ _ =>
        ⟨hfirst, hj.symm ▸ hlast, hj.symm ▸ hdone.read,
          hj.symm ▸ Prod.ext rfl hdone.decoded, htxID⟩
      rw [hmax]
      rcases finish_spec format sha256 call (FileInfo.sliceMaxTXID first) hdone.directory
        hdone.isTemp.isPrefix with ⟨err, herr, hleaves, hwhole⟩ | ⟨hresult, houtput, hleaves⟩
      · refine ⟨hstaged.length_le, hstaged.failed, fun _ _ =>
          ⟨(hd₁.mono (List.nil_subset _)).trans hleaves, ?_⟩, fun _ hok => ?_⟩
        · have houtput : d₁ opt.outputPath = d opt.outputPath := by
            rcases hd₁ opt.outputPath List.not_mem_nil with heq | heq
            · exact heq.trans hnone.symm
            · exact heq
          rw [WholeDatabase, houtput] at hwhole
          exact hwhole.imp_right (Or.imp_right fun h => ⟨first, infos, _, hdecoded _ _, h⟩)
        · rw [herr] at hok
          cases hok
      · refine ⟨hstaged.length_le, hstaged.failed, fun _ herr => ?_, fun restored hok _ => ?_⟩
        · rw [hresult] at herr
          cases herr
        · rw [hresult] at hok
          cases hok
          exact ⟨first, infos, _, hdecoded _ _, houtput, rfl,
            (hd₁.mono (List.nil_subset _)).trans hleaves⟩

variable (format sha256 opt call) in
/-- Whatever becomes of the files between the attempts, a call makes at most
`maxRestorePlanAttempts` of them, and it restores the TXID of the first plan or nothing. -/
theorem restore_bounded (d : Directory) :
    Bounded opt call (start format sha256 opt d) (restore format sha256 opt call d) := by
  rw [restore, start]
  split
  · exact bounded_of_error
  simp only
  split
  · split
    · exact bounded_of_error
    · split
      next hexists =>
        split
        · exact bounded_of_error
        · refine ⟨Nat.zero_le _, fun _ ha => absurd ha List.not_mem_nil, fun _ herr => ?_,
            fun _ _ hnone => absurd hnone hexists.2⟩
          cases herr
      · exact bounded_restoreNew format sha256 call _
  · exact bounded_restoreNew format sha256 call _

end

/-- Calls that see the same files at first restore the same TXID, whatever is uploaded or
compacted away later. -/
theorem restore_replans (format : TXIDFormat) (sha256 : Bytes → Bytes) (opt : RestoreOptions)
    (call : Call) (d : Directory) :
    Bounded opt call (start format sha256 opt d) (restore format sha256 opt call d) ∧
      ∀ call' d' restored restored',
        (call'.runs 0).listings = (call.runs 0).listings →
        (restore format sha256 opt call d).result = .ok restored →
        (restore format sha256 opt call' d').result = .ok restored' →
        start format sha256 opt d opt.outputPath = none →
        start format sha256 opt d' opt.outputPath = none →
          (restore format sha256 opt call' d').txID = (restore format sha256 opt call d).txID := by
  refine ⟨restore_bounded format sha256 opt call d, ?_⟩
  intro call' d' restored restored' hsame hok hok' hnone hnone'
  obtain ⟨first, _, _, hdecoded, -⟩ :=
    (restore_bounded format sha256 opt call d).ok restored hok hnone
  obtain ⟨first', _, _, hdecoded', -⟩ :=
    (restore_bounded format sha256 opt call' d').ok restored' hok' hnone'
  have hplan' := StageRun.calcRestorePlan_ok hdecoded'.plan
  rw [hsame, StageRun.calcRestorePlan_ok hdecoded.plan] at hplan'
  cases hplan'
  rw [hdecoded.txID, hdecoded'.txID]

/-! ## A compacted file -/

namespace Compacted

/-- The files of each level before and after two transactions are compacted and a third one is
uploaded. -/
def beforeFiles (n : Nat) : List FileInfo :=
  if n = 0 then [⟨0, 1, 1, 100, 1⟩, ⟨0, 2, 2, 100, 2⟩] else []

def afterFiles (n : Nat) : List FileInfo :=
  if n = 0 then [⟨0, 3, 3, 100, 3⟩] else if n = 1 then [⟨1, 1, 2, 100, 2⟩] else []

theorem beforeFiles_sorted (n : Nat) : (beforeFiles n).Pairwise FileInfo.KeyLE := by
  rw [beforeFiles]
  split <;> decide

theorem beforeFiles_valid (n : Nat) : ∀ f ∈ beforeFiles n, f.Valid := by
  rw [beforeFiles]
  split <;> decide

theorem beforeFiles_snapshot : ∀ f ∈ beforeFiles snapshotLevel, f.minTXID = 1 := by decide

theorem afterFiles_sorted (n : Nat) : (afterFiles n).Pairwise FileInfo.KeyLE := by
  rw [afterFiles]
  split
  · decide
  · split <;> decide

theorem afterFiles_valid (n : Nat) : ∀ f ∈ afterFiles n, f.Valid := by
  rw [afterFiles]
  split
  · decide
  · split <;> decide

theorem afterFiles_snapshot : ∀ f ∈ afterFiles snapshotLevel, f.minTXID = 1 := by decide

/-- The listings before the compaction. -/
def before : Listings where
  level n := ⟨beforeFiles n, beforeFiles_sorted n, beforeFiles_valid n⟩
  snapshot_min := beforeFiles_snapshot

/-- The listings after the compaction. -/
def after : Listings where
  level n := ⟨afterFiles n, afterFiles_sorted n, afterFiles_valid n⟩
  snapshot_min := afterFiles_snapshot

def attempt (k : Nat) : StageRun where
  listings := if k = 0 then before else after
  tries := [7]
  readErr info := if k = 0 ∧ info.minTXID = 2 then some ⟨"not found", true, false⟩ else none
  decodeDatabase infos := ([UInt8.ofNat (FileInfo.sliceMaxTXID infos)], none)

def call : Call where
  runs := attempt
  client := before.client
  checkIntegrity _ := .passed

end Compacted

example :
    let o := restore txidFormat id { outputPath := ascii "db" } Compacted.call fun _ => none
    o.attempts.map (fun a => a.infos.length) = [2, 1] ∧ o.result = .ok .database ∧
      o.directory (ascii "db") = some [2] := by
  decide +kernel

end Litestream.Replan
