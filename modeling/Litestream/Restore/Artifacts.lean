import Litestream.Follow.Publish

/-!
# What a restore leaves behind

`Replica.Restore` writes the database to a temporary file, renames it into place, checks it if
that is asked for, and writes its TXID file in follow mode.  `restore` are the steps of one call
to a replica without v0.3.x backups, whatever of them fails, up to the follow loop.

A call should leave none of its files when it fails, and no database should be in place before
it is decoded, synced and checked.  Neither holds.  Nothing removes the temporary file, and the
database is checked where it is visible already.  `restore_safe_iff` gives the calls for which
both do hold.
-/

namespace Litestream

open Bytes DirOp

/-! ## Options -/

def integrityCheckNone : Int := 0
def integrityCheckQuick : Int := 1
def integrityCheckFull : Int := 2

structure RestoreOptions where
  outputPath : Bytes
  txID : Nat := 0
  timestamp : Nat := 0
  follow : Bool := false
  integrityCheck : Int := integrityCheckNone

/-- The first check that the options do not pass. -/
def RestoreOptions.validate (opt : RestoreOptions) : Option String :=
  if opt.outputPath = [] then some "output path required"
  else if opt.txID ≠ 0 ∧ opt.timestamp ≠ 0 then
    some "cannot specify index & timestamp to restore"
  else if opt.follow ∧ opt.txID ≠ 0 then some "cannot use follow mode with -txid"
  else if opt.follow ∧ opt.timestamp ≠ 0 then some "cannot use follow mode with -timestamp"
  else if opt.integrityCheck ≠ integrityCheckNone ∧ opt.integrityCheck ≠ integrityCheckQuick ∧
      opt.integrityCheck ≠ integrityCheckFull then
    some ("unsupported integrity check mode: " ++ toString opt.integrityCheck)
  else none

/-! ## One call -/

/-- The step at which `WriteTXIDFile` fails. -/
inductive TXIDFileStep where
  | create
  /-- After some of the bytes. -/
  | write (written : Nat)
  | sync
  | close
  | rename
  /-- The directory is opened, synced or closed. -/
  | syncDir
deriving DecidableEq, Repr

/-- What one call of `Replica.Restore` meets. -/
structure RestoreCall extends RestoreRun where
  /-- What `os.Stat` reports of the output path, other than that it does not exist. -/
  statErr : Option String := none
  mkdirErr : Option String := none
  createErr : Option String := none
  syncErr : Option String := none
  closeErr : Option String := none
  renameErr : Option String := none
  /-- SQLite leaves this file beside the database that it checks. -/
  createsSHM : Bool := false
  createsWAL : Bool := false
  txidErr : Option (TXIDFileStep × String) := none

inductive RestoreCallError where
  | options (text : String)
  | stat (err : String)
  | outputExists
  | resume (err : RestoreFollowError)
  | calcRestorePlan (err : RestoreError)
  | openLTXFile (err : RestoreFollowError)
  | noBackupFiles
  | mkdir (err : String)
  | create (err : String)
  | decodeDatabase (err : String)
  | sync (err : String)
  | close (err : String)
  | rename (err : String)
  | checkIntegrity (err : String)
  | writeTXIDFile (err : String)
deriving DecidableEq

inductive Restored where
  | database
  | following (f : Following)
deriving DecidableEq, Repr

/-- A step that changes the directory, or that succeeds. -/
inductive RestoreStep where
  | file (op : DirOp)
  | decoded
  | synced
  | checked
deriving DecidableEq, Repr

namespace RestoreStep

def run (d : Directory) : RestoreStep → Directory
  | file op => DirOp.run d op
  | decoded | synced | checked => d

/-- The directory after steps in order. -/
def runAll (d : Directory) (steps : List RestoreStep) : Directory := steps.foldl run d

/-- The names whose files a step may change. -/
def names : RestoreStep → List Bytes
  | file op => op.names
  | decoded | synced | checked => []

end RestoreStep

section
variable (format : TXIDFormat) (opt : RestoreOptions) (call : RestoreCall)

/-- The operations of `WriteTXIDFile` when it fails at a step. -/
def writeTXIDFileUntil (outputPath : Bytes) (txID : Nat) : TXIDFileStep → List DirOp
  | .create => []
  | .write written =>
      writeFile (txidTmpPath outputPath) ((txidFile format txID).take written) ++
        [remove (txidTmpPath outputPath)]
  | .sync | .close | .rename =>
      writeFile (txidTmpPath outputPath) (txidFile format txID) ++
        [remove (txidTmpPath outputPath)]
  | .syncDir => writeTXIDFile format outputPath txID

def shmPath (outputPath : Bytes) : Bytes := outputPath ++ ascii "-shm"

def walPath (outputPath : Bytes) : Bytes := outputPath ++ ascii "-wal"

/-- The files that SQLite creates while it checks the database. -/
def sideFiles : List RestoreStep :=
  (if call.createsSHM then [.file (create (shmPath opt.outputPath))] else []) ++
    if call.createsWAL then [.file (create (walPath opt.outputPath))] else []

def removeSideFiles : List RestoreStep :=
  [.file (remove (shmPath opt.outputPath)), .file (remove (walPath opt.outputPath))]

/-- The integrity check of the database in place. -/
def checkRestored (data : Bytes) : List RestoreStep × Option String :=
  if opt.integrityCheck = integrityCheckNone then ([], none)
  else
    match call.checkIntegrity data with
    | .passed => (sideFiles opt call ++ removeSideFiles opt ++ [.checked], none)
    | .failed err =>
        (sideFiles opt call ++ .file (remove opt.outputPath) :: removeSideFiles opt, some err)
    | .cancelled err => (sideFiles opt call, some err)

/-- Follow mode begins when its TXID file is written. -/
def beginFollow (txID : Nat) : List RestoreStep × Except RestoreCallError Restored :=
  if opt.follow then
    match call.txidErr with
    | none =>
        ((writeTXIDFile format opt.outputPath txID).map .file, .ok (.following (.restored txID)))
    | some (step, err) =>
        ((writeTXIDFileUntil format opt.outputPath txID step).map .file,
          .error (.writeTXIDFile err))
  else ([], .ok .database)

/-- What follows the rename. -/
def finishRestore (data : Bytes) (txID : Nat) :
    List RestoreStep × Except RestoreCallError Restored :=
  match checkRestored opt call data with
  | (steps, some err) => (steps, .error (.checkIntegrity err))
  | (steps, none) =>
      (steps ++ (beginFollow format opt call txID).1, (beginFollow format opt call txID).2)

/-- The first error between decoding and the rename, and the steps before it. -/
def syncRestored : List RestoreStep × Option RestoreCallError :=
  match call.syncErr, call.closeErr, call.renameErr with
  | some err, _, _ => ([], some (.sync err))
  | none, some err, _ => ([.synced], some (.close err))
  | none, none, some err => ([.synced], some (.rename err))
  | none, none, none =>
      ([.synced, .file (rename (tmpOutputPath opt.outputPath) opt.outputPath)], none)

/-- What follows the creation of the temporary file. -/
def decodeRestored (infos : List FileInfo) : List RestoreStep × Except RestoreCallError Restored :=
  let data := (call.decodeDatabase infos).1
  let writes := (writeFile (tmpOutputPath opt.outputPath) data).map RestoreStep.file
  match (call.decodeDatabase infos).2 with
  | some err => (writes, .error (.decodeDatabase err))
  | none =>
      match syncRestored opt call with
      | (steps, some err) => (writes ++ .decoded :: steps, .error err)
      | (steps, none) =>
          let finish := finishRestore format opt call data (FileInfo.sliceMaxTXID infos)
          (writes ++ .decoded :: steps ++ finish.1, finish.2)

/-- Follow mode resumes if there is a database.  Any other call fails then. -/
def restoreOver (d : Directory) : Except RestoreCallError Restored :=
  if opt.follow then
    match resumeFollow format opt.outputPath call.toRestoreRun d with
    | .error err => .error (.resume err)
    | .ok following => .ok (.following following)
  else .error .outputExists

/-- `Replica.Restore`: its steps in the directory of the database, and its result. -/
def restore (d : Directory) : List RestoreStep × Except RestoreCallError Restored :=
  match opt.validate, call.statErr with
  | some text, _ => ([], .error (.options text))
  | none, some err => ([], .error (.stat err))
  | none, none =>
      if d opt.outputPath ≠ none then ([], restoreOver format opt call d)
      else
        match calcRestorePlan call.client opt.txID opt.timestamp with
        | .error err => ([], .error (.calcRestorePlan err))
        | .ok infos =>
            match call.openLTXFiles infos with
            | some err => ([], .error (.openLTXFile err))
            | none =>
                if infos = [] then ([], .error .noBackupFiles)
                else
                  match call.mkdirErr, call.createErr with
                  | some err, _ => ([], .error (.mkdir err))
                  | none, some err => ([], .error (.create err))
                  | none, none => decodeRestored format opt call infos

/-! ## Safe calls -/

/-- The files of a restore. -/
def restoreFiles (outputPath : Bytes) : List Bytes :=
  [outputPath, tmpOutputPath outputPath, walPath outputPath, shmPath outputPath,
    txidPath outputPath, txidTmpPath outputPath]

/-- A call that fails leaves no file that was not there. -/
def NothingLeft (d : Directory) : Prop :=
  ∀ err, (restore format opt call d).2 = .error err → ∀ name ∈ restoreFiles opt.outputPath,
    d name = none → RestoreStep.runAll d (restore format opt call d).1 name = none

/-- What a call has done when its database is in place. -/
def Verified (done : List RestoreStep) : Prop :=
  .decoded ∈ done ∧ .synced ∈ done ∧
    (opt.integrityCheck ≠ integrityCheckNone → .checked ∈ done)

/-- There is no database at any moment before it is verified. -/
def HiddenUntilVerified (d : Directory) : Prop :=
  d opt.outputPath = none → ∀ done, done <+: (restore format opt call d).1 →
    RestoreStep.runAll d done opt.outputPath ≠ none → Verified opt done

/-- What is asked of a restore. -/
structure RestoreSafe (d : Directory) : Prop where
  nothingLeft : NothingLeft format opt call d
  hidden : HiddenUntilVerified format opt call d

/-- The call gets as far as its temporary file. -/
structure Starts (d : Directory) (infos : List FileInfo) : Prop where
  validate : opt.validate = none
  stat : call.statErr = none
  output : d opt.outputPath = none
  plan : calcRestorePlan call.client opt.txID opt.timestamp = .ok infos
  opens : call.openLTXFiles infos = none
  nonempty : infos ≠ []
  mkdir : call.mkdirErr = none
  create : call.createErr = none

/-- Nothing fails between the temporary file and the rename. -/
structure Renames (infos : List FileInfo) : Prop where
  decode : (call.decodeDatabase infos).2 = none
  sync : call.syncErr = none
  close : call.closeErr = none
  rename : call.renameErr = none

/-- The check is not asked for, or the database passes it. -/
def Passes (infos : List FileInfo) : Prop :=
  opt.integrityCheck = integrityCheckNone ∨
    call.checkIntegrity (call.decodeDatabase infos).1 = .passed

/-- No step fails after the check. -/
def Begins : Prop := opt.follow = true → call.txidErr = none

/-- The database fails the check that is asked for. -/
def Fails (infos : List FileInfo) : Prop :=
  opt.integrityCheck ≠ integrityCheckNone ∧
    ∃ err, call.checkIntegrity (call.decodeDatabase infos).1 = .failed err

end

variable {format : TXIDFormat} {opt : RestoreOptions} {call : RestoreCall} {d : Directory}
  {infos : List FileInfo} {steps done : List RestoreStep} {step : RestoreStep}
  {name outputPath data : Bytes} {txID : Nat}

namespace RestoreStep

theorem runAll_append (d : Directory) (steps done : List RestoreStep) :
    runAll d (steps ++ done) = runAll (runAll d steps) done := List.foldl_append

theorem runAll_map_file (d : Directory) (ops : List DirOp) :
    runAll d (ops.map file) = DirOp.runAll d ops := List.foldl_map

theorem run_of_notMem (h : name ∉ step.names) : run d step name = d name := by
  cases step with
  | file op => exact DirOp.run_of_notMem h
  | decoded | synced | checked => rfl

/-- Steps on other files leave a file as it is. -/
theorem runAll_of_notMem (h : ∀ s ∈ steps, name ∉ s.names) : runAll d steps name = d name := by
  induction steps generalizing d with
  | nil => rfl
  | cons s steps ih =>
      have hrest : runAll (run d s) steps name = run d s name :=
        ih fun s' hs' => h s' (List.mem_cons_of_mem s hs')
      exact hrest.trans (run_of_notMem (h s List.mem_cons_self))

/-- A file that is removed and not touched any more is gone. -/
theorem runAll_removed (h : ∀ s ∈ done, name ∉ s.names) :
    runAll d (steps ++ .file (remove name) :: done) name = none := by
  rw [runAll_append]
  exact (runAll_of_notMem h).trans (run_remove_same ..)

end RestoreStep

/-! ## The steps of a call -/

theorem Starts.restore_eq (h : Starts opt call d infos) :
    restore format opt call d = decodeRestored format opt call infos := by
  rw [restore, h.validate, h.stat]
  simp only
  rw [if_neg (not_not.mpr h.output), h.plan]
  simp only
  rw [h.opens]
  simp only
  rw [if_neg h.nonempty, h.mkdir, h.create]

/-- A call that gets less far changes nothing. -/
theorem restore_of_not_starts (h : ∀ infos, ¬ Starts opt call d infos) :
    (restore format opt call d).1 = [] := by
  rw [restore]
  cases hvalidate : opt.validate with
  | some text => rfl
  | none =>
  cases hstat : call.statErr with
  | some err => rfl
  | none =>
  by_cases houtput : d opt.outputPath ≠ none
  · simp only
    rw [if_pos houtput]
  · simp only
    rw [if_neg houtput]
    cases hplan : calcRestorePlan call.client opt.txID opt.timestamp with
    | error err => rfl
    | ok infos =>
    simp only
    cases hopens : call.openLTXFiles infos with
    | some err => rfl
    | none =>
    by_cases hempty : infos = []
    · simp only
      rw [if_pos hempty]
    · simp only
      rw [if_neg hempty]
      cases hmkdir : call.mkdirErr with
      | some err => rfl
      | none =>
      cases hcreate : call.createErr with
      | some err => rfl
      | none =>
      exact absurd ⟨hvalidate, hstat, not_not.mp houtput, hplan, hopens, hempty, hmkdir, hcreate⟩
        (h infos)

/-- The bytes that are decoded, in the temporary file. -/
def writeRestored (opt : RestoreOptions) (data : Bytes) : List RestoreStep :=
  (writeFile (tmpOutputPath opt.outputPath) data).map .file

/-- The steps up to the rename. -/
def verifyRestored (opt : RestoreOptions) (data : Bytes) : List RestoreStep :=
  writeRestored opt data ++ [.decoded, .synced]

theorem Renames.decodeRestored_eq (h : Renames call infos) :
    decodeRestored format opt call infos =
      (verifyRestored opt (call.decodeDatabase infos).1 ++
          .file (DirOp.rename (tmpOutputPath opt.outputPath) opt.outputPath) ::
            (finishRestore format opt call (call.decodeDatabase infos).1
              (FileInfo.sliceMaxTXID infos)).1,
        (finishRestore format opt call (call.decodeDatabase infos).1
          (FileInfo.sliceMaxTXID infos)).2) := by
  have hsync : syncRestored opt call =
      ([.synced, .file (DirOp.rename (tmpOutputPath opt.outputPath) opt.outputPath)], none) := by
    rw [syncRestored, h.sync, h.close, h.rename]
  rw [decodeRestored, h.decode, hsync, verifyRestored, writeRestored]
  simp

/-- Without the rename, there is an error and the temporary file. -/
theorem decodeRestored_of_not_renames (h : ¬ Renames call infos) : ∃ err marks,
    decodeRestored format opt call infos =
      (writeRestored opt (call.decodeDatabase infos).1 ++ marks, .error err) ∧
    ∀ s ∈ marks, s.names = [] := by
  rw [decodeRestored]
  cases hdecode : (call.decodeDatabase infos).2 with
  | some err => exact ⟨.decodeDatabase err, [], by rw [List.append_nil]; rfl, by simp⟩
  | none =>
  cases hsync : call.syncErr with
  | some err =>
      refine ⟨.sync err, [.decoded], ?_, by simp [RestoreStep.names]⟩
      simp only [syncRestored, hsync]
      rfl
  | none =>
  cases hclose : call.closeErr with
  | some err =>
      refine ⟨.close err, [.decoded, .synced], ?_, by simp [RestoreStep.names]⟩
      simp only [syncRestored, hsync, hclose]
      rfl
  | none =>
  cases hrename : call.renameErr with
  | some err =>
      refine ⟨.rename err, [.decoded, .synced], ?_, by simp [RestoreStep.names]⟩
      simp only [syncRestored, hsync, hclose, hrename]
      rfl
  | none => exact absurd ⟨hdecode, hsync, hclose, hrename⟩ h

/-! ## The files that steps touch -/

theorem restoreFiles_nodup (outputPath : Bytes) : (restoreFiles outputPath).Nodup := by
  have hmap : restoreFiles outputPath =
      (["", ".tmp", "-wal", "-shm", "-txid", "-txid.tmp"].map ascii).map (outputPath ++ ·) := by
    simp [restoreFiles, tmpOutputPath, walPath, shmPath, txidPath, txidTmpPath, ascii]
  have hsuffixes : (["", ".tmp", "-wal", "-shm", "-txid", "-txid.tmp"].map ascii).Nodup := by
    decide
  rw [hmap]
  exact hsuffixes.map fun _ _ h => List.append_cancel_left h

theorem names_writeRestored (h : step ∈ writeRestored opt data) :
    step.names = [tmpOutputPath opt.outputPath] := by
  obtain ⟨op, hop, rfl⟩ := List.mem_map.mp h
  exact names_of_mem_writeFile hop

/-- Only the temporary file is touched before the rename. -/
theorem names_verifyRestored (h : step ∈ verifyRestored opt data) (hname : name ∈ step.names) :
    name = tmpOutputPath opt.outputPath := by
  rcases List.mem_append.mp h with h | h
  · rw [names_writeRestored h, List.mem_singleton] at hname
    exact hname
  · simp only [List.mem_cons, List.not_mem_nil, or_false] at h
    rcases h with rfl | rfl <;> cases hname

theorem names_sideFiles (h : step ∈ sideFiles opt call) (hname : name ∈ step.names) :
    name = shmPath opt.outputPath ∨ name = walPath opt.outputPath := by
  rcases List.mem_append.mp h with h | h <;> split at h <;> simp only [List.mem_singleton,
    List.not_mem_nil] at h <;> subst h <;> rw [RestoreStep.names, names, List.mem_singleton] at hname
  · exact Or.inl hname
  · exact Or.inr hname

theorem names_removeSideFiles (h : step ∈ removeSideFiles opt) (hname : name ∈ step.names) :
    name = shmPath opt.outputPath ∨ name = walPath opt.outputPath := by
  rcases List.mem_pair.mp h with rfl | rfl <;>
    rw [RestoreStep.names, names, List.mem_singleton] at hname
  · exact Or.inl hname
  · exact Or.inr hname

theorem names_writeTXIDFileUntil {txidStep : TXIDFileStep} {op : DirOp}
    (h : op ∈ writeTXIDFileUntil format outputPath txID txidStep) (hname : name ∈ op.names) :
    name = txidTmpPath outputPath ∨ name = txidPath outputPath := by
  have hwrite : ∀ data, op ∈ writeFile (txidTmpPath outputPath) data ++
      [remove (txidTmpPath outputPath)] → name = txidTmpPath outputPath := by
    intro data h
    rcases List.mem_append.mp h with h | h
    · rw [names_of_mem_writeFile h, List.mem_singleton] at hname
      exact hname
    · obtain rfl := List.mem_singleton.mp h
      exact List.mem_singleton.mp hname
  cases txidStep with
  | create => cases h
  | write written => exact Or.inl (hwrite _ h)
  | sync | close | rename => exact Or.inl (hwrite _ h)
  | syncDir => exact names_of_mem_publish h hname

theorem names_beginFollow (h : step ∈ (beginFollow format opt call txID).1)
    (hname : name ∈ step.names) :
    name = txidTmpPath opt.outputPath ∨ name = txidPath opt.outputPath := by
  rw [beginFollow] at h
  split at h
  · split at h <;> obtain ⟨op, hop, rfl⟩ := List.mem_map.mp h
    · exact names_of_mem_publish hop hname
    · exact names_writeTXIDFileUntil hop hname
  · cases h

/-! ## After the rename -/

theorem runAll_renamed (d : Directory) (opt : RestoreOptions) (data : Bytes) :
    RestoreStep.runAll d (verifyRestored opt data ++
        [.file (rename (tmpOutputPath opt.outputPath) opt.outputPath)]) =
      Function.update (Function.update d (tmpOutputPath opt.outputPath) none) opt.outputPath
        (some data) := by
  have hwrites : RestoreStep.runAll d (verifyRestored opt data) =
      Function.update d (tmpOutputPath opt.outputPath) (some data) := by
    rw [verifyRestored, RestoreStep.runAll_append, writeRestored, RestoreStep.runAll_map_file,
      runAll_writeFile]
    rfl
  rw [RestoreStep.runAll_append, hwrites]
  change DirOp.run _ (rename _ _) = _
  rw [DirOp.run, if_neg (by simp), Function.update_self, Function.update_idem]

/-- The database stays in place if nothing touches it any more. -/
theorem output_kept (h : ∀ s ∈ steps, opt.outputPath ∉ s.names) :
    RestoreStep.runAll d (verifyRestored opt data ++
        .file (rename (tmpOutputPath opt.outputPath) opt.outputPath) :: steps) opt.outputPath =
      some data := by
  rw [List.append_cons, RestoreStep.runAll_append, runAll_renamed,
    RestoreStep.runAll_of_notMem h, Function.update_self]

theorem checkRestored_of_passes (h : Passes opt call infos) : ∃ steps,
    checkRestored opt call (call.decodeDatabase infos).1 = (steps, none) ∧
      ∀ s ∈ steps, opt.outputPath ∉ s.names := by
  rw [checkRestored]
  have hnodup := restoreFiles_nodup opt.outputPath
  simp only [restoreFiles, List.nodup_cons, List.mem_cons, not_or] at hnodup
  obtain ⟨⟨-, hwal, hshm, -⟩, -⟩ := hnodup
  by_cases hnone : opt.integrityCheck = integrityCheckNone
  · rw [if_pos hnone]
    exact ⟨[], rfl, by simp⟩
  · rw [if_neg hnone, h.resolve_left hnone]
    refine ⟨_, rfl, fun s hs hname => ?_⟩
    rcases List.mem_append.mp hs with hs | hs
    · have := (List.mem_append.mp hs).elim (fun h => names_sideFiles h hname)
        fun h => names_removeSideFiles h hname
      exact this.elim hshm hwal
    · obtain rfl := List.mem_singleton.mp hs
      cases hname

/-- A call whose database passes fails if and only if the TXID file does, and then the database
is there. -/
theorem finishRestore_of_passes (h : Passes opt call infos) :
    let finish := finishRestore format opt call (call.decodeDatabase infos).1 txID
    ((∃ err, finish.2 = .error err) ↔ ¬ Begins opt call) ∧
      ∀ s ∈ finish.1, opt.outputPath ∉ s.names := by
  intro finish
  obtain ⟨steps, hcheck, hsteps⟩ := checkRestored_of_passes h
  have hfinish : finish = (steps ++ (beginFollow format opt call txID).1,
      (beginFollow format opt call txID).2) := by
    change finishRestore format opt call (call.decodeDatabase infos).1 txID = _
    rw [finishRestore, hcheck]
  rw [hfinish]
  constructor
  · rw [beginFollow, Begins]
    cases hfollow : opt.follow with
    | false => simp
    | true => cases htxid : call.txidErr <;> simp
  · intro s hs hname
    rcases List.mem_append.mp hs with hs | hs
    · exact hsteps s hs hname
    · exact (names_beginFollow hs hname).elim txidTmpPath_ne_self.symm txidPath_ne.symm

theorem finishRestore_of_fails (h : Fails opt call infos) : ∃ err,
    finishRestore format opt call (call.decodeDatabase infos).1 txID =
      (sideFiles opt call ++ .file (remove opt.outputPath) :: removeSideFiles opt,
        .error (.checkIntegrity err)) := by
  obtain ⟨hcheck, err, herr⟩ := h
  refine ⟨err, ?_⟩
  rw [finishRestore, checkRestored, if_neg hcheck, herr]

/-- A check that is neither passed nor failed was cancelled, and leaves the database there. -/
theorem finishRestore_of_cancelled (hpasses : ¬ Passes opt call infos)
    (hfails : ¬ Fails opt call infos) : ∃ err,
    finishRestore format opt call (call.decodeDatabase infos).1 txID =
      (sideFiles opt call, .error (.checkIntegrity err)) := by
  obtain ⟨hcheck, hpassed⟩ := not_or.mp hpasses
  cases herr : call.checkIntegrity (call.decodeDatabase infos).1 with
  | passed => exact absurd herr hpassed
  | failed err => exact absurd ⟨hcheck, err, herr⟩ hfails
  | cancelled err =>
      refine ⟨err, ?_⟩
      rw [finishRestore, checkRestored, if_neg hcheck, herr]

/-! ## What is left -/

theorem mem_restoreFiles_self : outputPath ∈ restoreFiles outputPath := List.mem_cons_self

theorem output_notMem_sideFiles (h : step ∈ sideFiles opt call) : opt.outputPath ∉ step.names := by
  intro hname
  have hnodup := restoreFiles_nodup opt.outputPath
  simp only [restoreFiles, List.nodup_cons, List.mem_cons, not_or] at hnodup
  obtain ⟨⟨-, hwal, hshm, -⟩, -⟩ := hnodup
  exact (names_sideFiles h hname).elim hshm hwal

/-- A call that fails with its database in place leaves it. -/
theorem not_nothingLeft_of_kept (h : Starts opt call d infos) (hr : Renames call infos)
    {err : RestoreCallError}
    (herr : (finishRestore format opt call (call.decodeDatabase infos).1
      (FileInfo.sliceMaxTXID infos)).2 = .error err)
    (hkept : ∀ s ∈ (finishRestore format opt call (call.decodeDatabase infos).1
      (FileInfo.sliceMaxTXID infos)).1, opt.outputPath ∉ s.names) :
    ¬ NothingLeft format opt call d := by
  intro hleft
  have hnone := hleft err (by rw [h.restore_eq, hr.decodeRestored_eq, herr]) opt.outputPath
    mem_restoreFiles_self h.output
  rw [h.restore_eq, hr.decodeRestored_eq, output_kept hkept] at hnone
  cases hnone

/-- A failed check touches the database and the files beside it only. -/
theorem names_failed (h : step ∈ sideFiles opt call ++
    .file (remove opt.outputPath) :: removeSideFiles opt) (hname : name ∈ step.names) :
    name = opt.outputPath ∨ name = shmPath opt.outputPath ∨ name = walPath opt.outputPath := by
  rcases List.mem_append.mp h with h | h
  · exact Or.inr (names_sideFiles h hname)
  · rcases List.mem_cons.mp h with rfl | h
    · exact Or.inl (List.mem_singleton.mp hname)
    · exact Or.inr (names_removeSideFiles h hname)

/-- A database that fails its check is removed, and so are the files beside it. -/
theorem nothingLeft_of_fails (h : Starts opt call d infos) (hr : Renames call infos)
    (hf : Fails opt call infos) : NothingLeft format opt call d := by
  have hfinish : ∃ err, finishRestore format opt call (call.decodeDatabase infos).1
      (FileInfo.sliceMaxTXID infos) = _ := finishRestore_of_fails hf
  obtain ⟨err, hfinish⟩ := hfinish
  have hnodup := restoreFiles_nodup opt.outputPath
  simp only [restoreFiles, List.nodup_cons, List.mem_cons, List.not_mem_nil, or_false,
    not_or] at hnodup
  obtain ⟨⟨hot, how, hos, hox, hoy⟩, ⟨htw, hts, -, -⟩, ⟨hws, hwx, hwy⟩, ⟨hsx, hsy⟩, -, -⟩ := hnodup
  intro _ _ name hname hnone
  rw [h.restore_eq, hr.decodeRestored_eq, hfinish, List.append_cons, RestoreStep.runAll_append,
    runAll_renamed]
  simp only [restoreFiles, List.mem_cons, List.not_mem_nil, or_false] at hname
  have huntouched : name ≠ opt.outputPath → name ≠ shmPath opt.outputPath →
      name ≠ walPath opt.outputPath → ∀ s ∈ sideFiles opt call ++
        .file (remove opt.outputPath) :: removeSideFiles opt, name ∉ s.names := by
    intro ho hs hw s hmem hin
    rcases names_failed hmem hin with heq | heq | heq
    · exact ho heq
    · exact hs heq
    · exact hw heq
  rcases hname with rfl | rfl | rfl | rfl | rfl | rfl
  · exact RestoreStep.runAll_removed fun s hs hin =>
      (names_removeSideFiles hs hin).elim hos how
  · rw [RestoreStep.runAll_of_notMem (huntouched (Ne.symm hot) hts htw),
      Function.update_of_ne (Ne.symm hot), Function.update_self]
  · have hlast : sideFiles opt call ++ .file (remove opt.outputPath) :: removeSideFiles opt =
        (sideFiles opt call ++ [.file (remove opt.outputPath),
          .file (remove (shmPath opt.outputPath))]) ++
            .file (remove (walPath opt.outputPath)) :: [] := by
      simp [removeSideFiles]
    rw [hlast]
    exact RestoreStep.runAll_removed fun s hs => absurd hs List.not_mem_nil
  · have hlast : sideFiles opt call ++ .file (remove opt.outputPath) :: removeSideFiles opt =
        (sideFiles opt call ++ [.file (remove opt.outputPath)]) ++
          .file (remove (shmPath opt.outputPath)) ::
            [.file (remove (walPath opt.outputPath))] := by
      simp [removeSideFiles]
    rw [hlast]
    refine RestoreStep.runAll_removed fun s hs hin => ?_
    obtain rfl := List.mem_singleton.mp hs
    exact hws (List.mem_singleton.mp hin).symm
  · rw [RestoreStep.runAll_of_notMem (huntouched (Ne.symm hox) (Ne.symm hsx) (Ne.symm hwx)),
      Function.update_of_ne (Ne.symm hox), Function.update_of_ne tmpOutputPath_ne_txidPath.symm,
      hnone]
  · rw [RestoreStep.runAll_of_notMem (huntouched (Ne.symm hoy) (Ne.symm hsy) (Ne.symm hwy)),
      Function.update_of_ne (Ne.symm hoy), Function.update_of_ne tmpOutputPath_ne_txidTmpPath.symm,
      hnone]

/-- Without the rename, the temporary file is left. -/
theorem nothingLeft_of_not_renames (h : Starts opt call d infos) (hr : ¬ Renames call infos) :
    NothingLeft format opt call d ↔ d (tmpOutputPath opt.outputPath) ≠ none := by
  have hdecode : ∃ err marks, decodeRestored format opt call infos = _ ∧ _ :=
    decodeRestored_of_not_renames hr
  obtain ⟨err, marks, hdecode, hmarks⟩ := hdecode
  have hafter : RestoreStep.runAll d (restore format opt call d).1 =
      Function.update d (tmpOutputPath opt.outputPath) (some (call.decodeDatabase infos).1) := by
    funext name
    rw [h.restore_eq, hdecode, RestoreStep.runAll_append, RestoreStep.runAll_of_notMem,
      writeRestored, RestoreStep.runAll_map_file, runAll_writeFile]
    intro s hs
    rw [hmarks s hs]
    exact List.not_mem_nil
  have htmp : tmpOutputPath opt.outputPath ∈ restoreFiles opt.outputPath :=
    List.mem_cons_of_mem _ List.mem_cons_self
  constructor
  · intro hleft hnone
    have hgone := hleft err (by rw [h.restore_eq, hdecode]) _ htmp hnone
    rw [hafter, Function.update_self] at hgone
    cases hgone
  · intro htmp _ _ name _ hnone
    rw [hafter, Function.update_of_ne _, hnone]
    rintro rfl
    exact htmp hnone

/-- A call leaves nothing if and only if it fails before it creates the temporary file, fails
over one that was there, fails the check, or succeeds. -/
theorem nothingLeft_iff : NothingLeft format opt call d ↔ ∀ infos, Starts opt call d infos →
    (Renames call infos ∧ (Passes opt call infos ∧ Begins opt call ∨ Fails opt call infos)) ∨
      (¬ Renames call infos ∧ d (tmpOutputPath opt.outputPath) ≠ none) := by
  constructor
  · intro hleft infos h
    by_cases hr : Renames call infos
    · refine Or.inl ⟨hr, ?_⟩
      by_cases hpasses : Passes opt call infos
      · have hfinish : _ ∧ ∀ s ∈ (finishRestore format opt call (call.decodeDatabase infos).1
            (FileInfo.sliceMaxTXID infos)).1, opt.outputPath ∉ s.names :=
          finishRestore_of_passes hpasses
        refine Or.inl ⟨hpasses, not_not.mp fun hbegins => ?_⟩
        obtain ⟨err, herr⟩ := hfinish.1.mpr hbegins
        exact not_nothingLeft_of_kept h hr herr hfinish.2 hleft
      · refine Or.inr (not_not.mp fun hfails => ?_)
        have hfinish : ∃ err, finishRestore format opt call (call.decodeDatabase infos).1
            (FileInfo.sliceMaxTXID infos) = _ := finishRestore_of_cancelled hpasses hfails
        obtain ⟨err, hfinish⟩ := hfinish
        refine not_nothingLeft_of_kept h hr (by rw [hfinish]) ?_ hleft
        rw [hfinish]
        exact fun s hs => output_notMem_sideFiles hs
    · exact Or.inr ⟨hr, (nothingLeft_of_not_renames h hr).mp hleft⟩
  · intro hcond
    by_cases hstarts : ∃ infos, Starts opt call d infos
    · obtain ⟨infos, h⟩ := hstarts
      rcases hcond infos h with ⟨hr, ⟨hpasses, hbegins⟩ | hfails⟩ | ⟨hr, htmp⟩
      · intro err herr
        have hfinish : (_ ↔ ¬ Begins opt call) ∧ ∀ s ∈ (finishRestore format opt call
            (call.decodeDatabase infos).1 (FileInfo.sliceMaxTXID infos)).1,
              opt.outputPath ∉ s.names := finishRestore_of_passes hpasses
        rw [h.restore_eq, hr.decodeRestored_eq] at herr
        exact absurd hbegins (hfinish.1.mp ⟨err, herr⟩)
      · exact nothingLeft_of_fails h hr hfails
      · exact (nothingLeft_of_not_renames h hr).mpr htmp
    · intro _ _ name _ hnone
      rw [restore_of_not_starts fun infos h => hstarts ⟨infos, h⟩]
      exact hnone

/-! ## When the database is in place -/

/-- A database that is in place before it is checked is visible too early. -/
theorem not_hidden_of_checked (h : Starts opt call d infos) (hr : Renames call infos)
    (hcheck : opt.integrityCheck ≠ integrityCheckNone) :
    ¬ HiddenUntilVerified format opt call d := by
  intro hhidden
  let renamed := verifyRestored opt (call.decodeDatabase infos).1 ++
    [.file (rename (tmpOutputPath opt.outputPath) opt.outputPath)]
  have hprefix : renamed <+: (restore format opt call d).1 := by
    rw [h.restore_eq, hr.decodeRestored_eq]
    exact (List.prefix_append_right_inj _).mpr (List.prefix_append [_] _)
  have hthere : RestoreStep.runAll d renamed opt.outputPath ≠ none := by
    rw [runAll_renamed, Function.update_self]
    exact Option.some_ne_none _
  have hchecked := (hhidden h.output renamed hprefix hthere).2.2 hcheck
  simp [renamed, verifyRestored, writeRestored] at hchecked

theorem hidden_of_unchecked (h : Starts opt call d infos)
    (hcheck : Renames call infos → opt.integrityCheck = integrityCheckNone) :
    HiddenUntilVerified format opt call d := by
  intro _ done hdone hthere
  have huntouched : (∀ s ∈ done, opt.outputPath ∉ s.names) → Verified opt done := by
    intro hnames
    rw [RestoreStep.runAll_of_notMem hnames] at hthere
    exact absurd h.output hthere
  by_cases hr : Renames call infos
  · rw [h.restore_eq, hr.decodeRestored_eq] at hdone
    rcases List.prefix_or_prefix_of_prefix hdone (List.prefix_append _ _) with hbefore | hafter
    · exact huntouched fun s hs hin =>
        tmpOutputPath_ne (names_verifyRestored (hbefore.subset hs) hin).symm
    · refine ⟨hafter.subset ?_, hafter.subset ?_, fun hne => absurd (hcheck hr) hne⟩ <;>
        simp [verifyRestored]
  · have hdecode : ∃ err marks, decodeRestored format opt call infos = _ ∧ _ :=
      decodeRestored_of_not_renames hr
    obtain ⟨err, marks, hdecode, hmarks⟩ := hdecode
    rw [h.restore_eq, hdecode] at hdone
    refine huntouched fun s hs hin => ?_
    rcases List.mem_append.mp (hdone.subset hs) with hmem | hmem
    · rw [names_writeRestored hmem, List.mem_singleton] at hin
      exact tmpOutputPath_ne hin.symm
    · rw [hmarks s hmem] at hin
      exact List.not_mem_nil hin

/-- The database is hidden until it is verified if and only if no check is asked for, or the
call fails before the rename. -/
theorem hidden_iff : HiddenUntilVerified format opt call d ↔
    ∀ infos, Starts opt call d infos → Renames call infos →
      opt.integrityCheck = integrityCheckNone := by
  constructor
  · intro hhidden infos h hr
    exact not_not.mp fun hcheck => not_hidden_of_checked h hr hcheck hhidden
  · intro hcond
    by_cases hstarts : ∃ infos, Starts opt call d infos
    · obtain ⟨infos, h⟩ := hstarts
      exact hidden_of_unchecked h (hcond infos h)
    · intro houtput done hdone hthere
      rw [restore_of_not_starts fun infos h => hstarts ⟨infos, h⟩] at hdone
      rw [List.prefix_nil.mp hdone] at hthere
      exact absurd houtput hthere

/-- A restore is safe if and only if it fails before it creates the temporary file, or fails
over one that was there before the rename, or is asked for no check and then succeeds. -/
theorem restore_safe_iff (format : TXIDFormat) (opt : RestoreOptions) (call : RestoreCall)
    (d : Directory) : RestoreSafe format opt call d ↔ ∀ infos, Starts opt call d infos →
      (Renames call infos ∧ opt.integrityCheck = integrityCheckNone ∧ Begins opt call) ∨
        (¬ Renames call infos ∧ d (tmpOutputPath opt.outputPath) ≠ none) := by
  constructor
  · rintro ⟨hleft, hhidden⟩ infos h
    rcases nothingLeft_iff.mp hleft infos h with ⟨hr, hcond⟩ | hnot
    · have hcheck := hidden_iff.mp hhidden infos h hr
      rcases hcond with ⟨-, hbegins⟩ | hfails
      · exact Or.inl ⟨hr, hcheck, hbegins⟩
      · exact absurd hcheck hfails.1
    · exact Or.inr hnot
  · intro hcond
    refine ⟨nothingLeft_iff.mpr fun infos h => ?_, hidden_iff.mpr fun infos h hr => ?_⟩
    · rcases hcond infos h with ⟨hr, hcheck, hbegins⟩ | hnot
      · exact Or.inl ⟨hr, Or.inl ⟨Or.inl hcheck, hbegins⟩⟩
      · exact Or.inr hnot
    · rcases hcond infos h with ⟨-, hcheck, -⟩ | ⟨hnot, -⟩
      · exact hcheck
      · exact absurd hr hnot

/-! ## A check that is cancelled -/

namespace OneSnapshot

def checkedRestore : RestoreOptions where
  outputPath := ascii "db"
  integrityCheck := integrityCheckQuick

/-- The context is cancelled while the database is checked. -/
def cancelledCall : RestoreCall where
  toRestoreRun := { run with checkIntegrity := fun _ => .cancelled "context canceled" }

end OneSnapshot

/-- The call fails, and the database that was not checked is in place. -/
theorem restore_unchecked_left :
    (restore txidFormat OneSnapshot.checkedRestore OneSnapshot.cancelledCall
      OneSnapshot.empty).2 = .error (.checkIntegrity "context canceled") ∧
    RestoreStep.runAll OneSnapshot.empty (restore txidFormat OneSnapshot.checkedRestore
      OneSnapshot.cancelledCall OneSnapshot.empty).1 (ascii "db") = some [7] ∧
    ¬ RestoreSafe txidFormat OneSnapshot.checkedRestore OneSnapshot.cancelledCall
      OneSnapshot.empty := by
  have herr : (restore txidFormat OneSnapshot.checkedRestore OneSnapshot.cancelledCall
      OneSnapshot.empty).2 = .error (.checkIntegrity "context canceled") := by
    decide +kernel
  have hleft : RestoreStep.runAll OneSnapshot.empty (restore txidFormat
      OneSnapshot.checkedRestore OneSnapshot.cancelledCall OneSnapshot.empty).1 (ascii "db") =
        some [7] := by
    decide +kernel
  refine ⟨herr, hleft, fun hsafe => ?_⟩
  have hnone := hsafe.nothingLeft _ herr (ascii "db") List.mem_cons_self rfl
  exact absurd (hnone.symm.trans hleft) (by simp)

end Litestream
