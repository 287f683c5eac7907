import Litestream.Follow.Record

/-!
# Committing a generation of a follower

The database of a follower and its TXID file are one generation, but no single operation
replaces both.  `commitFollowStaged` writes a record of both generations, renames the staged
database into place, writes the TXID file, and removes the record.  `recoverFollowCommit`
finds a record that a crash has left, and compares the database with the two generations.

`commit_atomic` says what any number of crashes come to: the old generation or the new one.
`sha256` is a parameter, which is assumed to tell the two databases apart.
-/

namespace Litestream

open Bytes DirOp

/-! ## Names -/

/-- The digits of bytes, two for each. -/
def encodeHex (b : Bytes) : Bytes :=
  b.flatMap fun c =>
    [(Nat.digitChar (c.toNat / 16)).toUInt8, (Nat.digitChar (c.toNat % 16)).toUInt8]

/-- `filepath.Base`. -/
def fileBase (p : Bytes) : Bytes :=
  if p = [] then ascii "."
  else
    let p := p.rdropWhile fun c => c = 0x2F
    if p = [] then ascii "/" else p.rtakeWhile fun c => c ≠ 0x2F

section
variable (outputPath : Bytes)

/-- The path of the record. -/
def followCommitPath : Bytes := outputPath ++ ascii "-follow"

/-- Names of staged databases begin like this. -/
def stagePrefix (initial : Bool) : Bytes :=
  ascii "." ++ outputPath ++ ascii (if initial then "-restore-" else "-follow-")

/-- Names of temporary files of records begin like this. -/
def recordTmpPrefix : Bytes := ascii "." ++ outputPath ++ ascii "-follow-record-"

/-- The path of a staged database in the directory of the database. -/
def followStagePath (name : Bytes) (initial : Bool) : Option Bytes :=
  if name = [] ∨ fileBase name ≠ name ∨ ¬ stagePrefix outputPath initial <+: name then none
  else some name

end

/-! ## Committing -/

inductive FollowCommitError where
  | readTXIDFile (err : TXIDFileError)
  | readRecord (err : RecordError)
  | invalidRange (fromTXID toTXID : Nat)
  /-- There is no staged database. -/
  | identifyStaged
  /-- There is no database to commit to. -/
  | currentMissing (fromTXID : Nat)
  | staleCommit (currentTXID fromTXID : Nat)
  | parseFromTXID
  | parseToTXID
  /-- The TXIDs are not 16 lowercase digits each. -/
  | notCanonical
  | initialOldIdentity
  | oldIdentity
  | stagingName (name : Bytes)
  /-- The database is the new one, but its TXID is neither of the two. -/
  | newSidecar (currentTXID : Nat)
  /-- The database is the old one, but its TXID is not. -/
  | oldSidecar (currentTXID : Nat)
  /-- The database is neither of the two. -/
  | cannotReconcile
deriving DecidableEq, Repr

section
variable (format : TXIDFormat) (sha256 : Bytes → Bytes) (outputPath : Bytes)

/-- `fileIdentity`: the size and the digest of a file. -/
def fileIdentity (content : Bytes) : Int × Bytes := (content.length, encodeHex (sha256 content))

/-- The record of a commit, with the identity of the database there is. -/
def commitRecord (stage staged : Bytes) (old : Option Bytes) (fromTXID toTXID : Nat) :
    FollowCommitRecord where
  version := FollowCommitRecord.currentVersion
  fromTXID := format.string fromTXID
  toTXID := format.string toTXID
  stage := fileBase stage
  oldSize := (old.map fun b => (fileIdentity sha256 b).1).getD (-1)
  oldSHA256 := (old.map fun b => (fileIdentity sha256 b).2).getD []
  newSize := (fileIdentity sha256 staged).1
  newSHA256 := (fileIdentity sha256 staged).2

/-- The checks of a commit, and its record. -/
def prepareCommit (stage : Bytes) (fromTXID toTXID : Nat) (d : Directory) :
    Except FollowCommitError FollowCommitRecord :=
  if toTXID ≤ fromTXID then .error (.invalidRange fromTXID toTXID)
  else
    match d stage with
    | none => .error .identifyStaged
    | some staged =>
        if d outputPath = none ∧ fromTXID ≠ 0 then .error (.currentMissing fromTXID)
        else
          let record := commitRecord format sha256 stage staged (d outputPath) fromTXID toTXID
          if fromTXID = 0 then .ok record
          else
            match readTXIDFile format outputPath d with
            | .error err => .error (.readTXIDFile err)
            | .ok currentTXID =>
                if currentTXID ≠ fromTXID then .error (.staleCommit currentTXID fromTXID)
                else .ok record

/-- The operations of a commit after its checks. -/
def commitOps (stage recordTmp : Bytes) (toTXID : Nat) (record : FollowCommitRecord) :
    List DirOp :=
  publish recordTmp (followCommitPath outputPath) record.encodeRecord ++
    rename stage outputPath ::
      (writeTXIDFile format outputPath toTXID ++ [remove (followCommitPath outputPath)])

/-- `commitFollowStaged`.  The names of the staged database and of the temporary file of the
record were chosen by `os.CreateTemp`. -/
def commitFollowStaged (stage recordTmp : Bytes) (fromTXID toTXID : Nat) (d : Directory) :
    List DirOp × Except FollowCommitError Unit :=
  match prepareCommit format sha256 outputPath stage fromTXID toTXID d with
  | .error err => ([], .error err)
  | .ok record => (commitOps format outputPath stage recordTmp toTXID record, .ok ())

/-! ## Recovering -/

/-- What recovery needs of a record. -/
structure CheckedRecord where
  fromTXID : Nat
  toTXID : Nat
  stage : Bytes
deriving DecidableEq, Repr

/-- The checks that recovery makes of the fields of a record. -/
def checkRecord (record : FollowCommitRecord) : Except FollowCommitError CheckedRecord :=
  match format.parseTXID record.fromTXID, format.parseTXID record.toTXID with
  | none, _ => .error .parseFromTXID
  | some _, none => .error .parseToTXID
  | some fromTXID, some toTXID =>
      if format.string fromTXID ≠ record.fromTXID ∨ format.string toTXID ≠ record.toTXID then
        .error .notCanonical
      else if toTXID ≤ fromTXID then .error (.invalidRange fromTXID toTXID)
      else if fromTXID = 0 ∧ (record.oldSize ≠ -1 ∨ record.oldSHA256 ≠ []) then
        .error .initialOldIdentity
      else if fromTXID ≠ 0 ∧ (record.oldSize < 0 ∨ validFollowSHA256 record.oldSHA256 = false) then
        .error .oldIdentity
      else
        match followStagePath outputPath record.stage (fromTXID = 0) with
        | none => .error (.stagingName record.stage)
        | some stage => .ok ⟨fromTXID, toTXID, stage⟩

/-- The file at the path of the database has this identity. -/
def Visible (d : Directory) (size : Int) (digest : Bytes) : Prop :=
  (d outputPath).map (fileIdentity sha256) = some (size, digest)

instance (d : Directory) (size : Int) (digest : Bytes) :
    Decidable (Visible sha256 outputPath d size digest) :=
  inferInstanceAs (Decidable ((d outputPath).map (fileIdentity sha256) = some (size, digest)))

/-- The staged database and the record go last. -/
def discard (stage : Bytes) : List DirOp := [remove stage, remove (followCommitPath outputPath)]

/-- Rolls forward if the database is the new one, and back if it is the old one or an initial one
that was not published. -/
def reconcile (record : FollowCommitRecord) (c : CheckedRecord) (currentTXID : Nat)
    (d : Directory) : List DirOp × Except FollowCommitError Nat :=
  if Visible sha256 outputPath d record.newSize record.newSHA256 then
    if currentTXID ≠ c.fromTXID ∧ currentTXID ≠ c.toTXID then
      ([], .error (.newSidecar currentTXID))
    else
      ((if currentTXID ≠ c.toTXID then writeTXIDFile format outputPath c.toTXID else []) ++
        discard outputPath c.stage, .ok c.toTXID)
  else if (0 ≤ record.oldSize ∧ Visible sha256 outputPath d record.oldSize record.oldSHA256) ∨
      (d outputPath = none ∧ c.fromTXID = 0 ∧ currentTXID = 0) then
    if currentTXID ≠ c.fromTXID then ([], .error (.oldSidecar currentTXID))
    else (discard outputPath c.stage, .ok c.fromTXID)
  else ([], .error .cannotReconcile)

/-- `recoverFollowCommit`. -/
def recoverFollowCommit (d : Directory) : List DirOp × Except FollowCommitError Nat :=
  match d (followCommitPath outputPath) with
  | none => ([], (readTXIDFile format outputPath d).mapError .readTXIDFile)
  | some data =>
      match readFollowCommitRecord data with
      | .error err => ([], .error (.readRecord err))
      | .ok record =>
          match checkRecord format outputPath record with
          | .error err => ([], .error err)
          | .ok c =>
              match readTXIDFile format outputPath d with
              | .error err => ([], .error (.readTXIDFile err))
              | .ok currentTXID => reconcile format sha256 outputPath record c currentTXID d

end

/-! ## The names differ -/

variable {format : TXIDFormat} {sha256 : Bytes → Bytes} {outputPath name : Bytes}
  {d : Directory} {done : List DirOp}

theorem followCommitPath_ne : followCommitPath outputPath ≠ outputPath := fun h =>
  absurd (List.append_right_eq_self.mp h) (by decide)

theorem followCommitPath_ne_txidPath : followCommitPath outputPath ≠ txidPath outputPath := fun h =>
  absurd (List.append_cancel_left h) (by decide)

theorem followCommitPath_ne_txidTmpPath :
    followCommitPath outputPath ≠ txidTmpPath outputPath := by
  rw [txidTmpPath, txidPath, List.append_assoc]
  exact fun h => absurd (List.append_cancel_left h) (by decide)

/-- The files of a follower that are not temporary. -/
def kept (outputPath : Bytes) : List Bytes :=
  [outputPath, txidPath outputPath, followCommitPath outputPath]

/-- A name after a dot and the name of the database is longer than the other ones. -/
theorem notMem_kept {suffix : Bytes} (hlen : 8 ≤ suffix.length)
    (h : ascii "." ++ outputPath ++ suffix <+: name) : name ∉ kept outputPath := by
  have hle := h.length_le
  have htxid : (ascii "-txid").length = 5 := rfl
  have hfollow : (ascii "-follow").length = 7 := rfl
  have hdot : (ascii ".").length = 1 := rfl
  intro hmem
  simp only [kept, List.mem_cons, List.not_mem_nil, or_false] at hmem
  rcases hmem with rfl | rfl | rfl <;>
    simp only [txidPath, followCommitPath, List.length_append, htxid, hfollow, hdot] at hle <;> omega

theorem stagePrefix_notMem_kept {initial : Bool} (h : stagePrefix outputPath initial <+: name) :
    name ∉ kept outputPath := by
  refine notMem_kept ?_ h
  cases initial <;> decide

theorem recordTmpPrefix_notMem_kept (h : recordTmpPrefix outputPath <+: name) :
    name ∉ kept outputPath := notMem_kept (by decide) h

/-- A name that `os.CreateTemp` makes of a prefix. -/
def IsTemp (namePrefix name : Bytes) : Prop := ∃ n : Nat, name = namePrefix ++ Json.decimal n

theorem IsTemp.isPrefix {namePrefix : Bytes} (h : IsTemp namePrefix name) :
    namePrefix <+: name := by
  obtain ⟨n, rfl⟩ := h
  exact List.prefix_append _ _

/-! ## Generations -/

/-- The database of a follower and its TXID, or neither. -/
inductive FollowGeneration (format : TXIDFormat) (outputPath : Bytes) (d : Directory) :
    Option Bytes → Nat → Prop
  | absent (hdatabase : d outputPath = none) (htxid : d (txidPath outputPath) = none) :
      FollowGeneration format outputPath d none 0
  | present {database : Bytes} {txID : Nat} (hdatabase : d outputPath = some database)
      (htxid : readTXIDFile format outputPath d = .ok txID) (hpos : txID ≠ 0) :
      FollowGeneration format outputPath d (some database) txID

theorem FollowGeneration.database {old : Option Bytes} {txID : Nat}
    (h : FollowGeneration format outputPath d old txID) : d outputPath = old := by
  cases h with
  | absent hdatabase _ => exact hdatabase
  | present hdatabase _ _ => exact hdatabase

theorem FollowGeneration.database_ne_none {old : Option Bytes} {txID : Nat}
    (h : FollowGeneration format outputPath d old txID) (hpos : txID ≠ 0) : d outputPath ≠ none := by
  cases h with
  | absent _ _ => exact absurd rfl hpos
  | present hdatabase _ _ =>
      rw [hdatabase]
      exact Option.some_ne_none _

theorem FollowGeneration.readTXIDFile {old : Option Bytes} {txID : Nat}
    (h : FollowGeneration format outputPath d old txID) :
    readTXIDFile format outputPath d = .ok txID := by
  cases h with
  | absent _ htxid => exact readTXIDFile_of_none htxid
  | present _ htxid _ => exact htxid

/-! ## Operations on the three files -/

/-- The record, the database and the TXID file. -/
def seen (outputPath : Bytes) (d : Directory) : Option Bytes × Option Bytes × Option Bytes :=
  (d (followCommitPath outputPath), d outputPath, d (txidPath outputPath))

section
variable {record database txid : Option Bytes}

theorem seen_congr {d' : Directory} (h : ∀ name ∈ kept outputPath, d' name = d name) :
    seen outputPath d' = seen outputPath d := by
  rw [seen, seen, h outputPath (by simp [kept]), h (txidPath outputPath) (by simp [kept]),
    h (followCommitPath outputPath) (by simp [kept])]

/-- Temporary files do not matter. -/
theorem seen_update (h : name ∉ kept outputPath) (content : Option Bytes) :
    seen outputPath (Function.update d name content) = seen outputPath d := by
  refine seen_congr fun n hn => Function.update_of_ne ?_ ..
  rintro rfl
  exact h hn

theorem txidTmpPath_notMem_kept : txidTmpPath outputPath ∉ kept outputPath := by
  simp only [kept, List.mem_cons, List.not_mem_nil, or_false, not_or]
  exact ⟨txidTmpPath_ne_self, txidTmpPath_ne, followCommitPath_ne_txidTmpPath.symm⟩

/-- The record is put in place at once. -/
theorem seen_publish_record {tmp data : Bytes} (hd : seen outputPath d = (record, database, txid))
    (htmp : tmp ∉ kept outputPath)
    (h : done <+: publish tmp (followCommitPath outputPath) data) :
    seen outputPath (runAll d done) = (record, database, txid) ∨
      seen outputPath (runAll d done) = (some data, database, txid) := by
  have hne : tmp ≠ followCommitPath outputPath := by
    rintro rfl
    simp [kept] at htmp
  rcases runAll_publish_prefix hne h d with ⟨-, hsame⟩ | ⟨-, hall⟩
  · left
    rw [seen_congr fun n hn => hsame n ?_, hd]
    rintro rfl
    exact htmp hn
  · right
    rw [← seen_update htmp none] at hd
    simp only [seen, Prod.mk.injEq] at hd
    rw [hall, seen, Function.update_self, Function.update_of_ne followCommitPath_ne.symm,
      Function.update_of_ne followCommitPath_ne_txidPath.symm, hd.2.1, hd.2.2]

theorem seen_published {tmp data : Bytes} (hd : seen outputPath d = (record, database, txid))
    (htmp : tmp ∉ kept outputPath) :
    seen outputPath (runAll d (publish tmp (followCommitPath outputPath) data)) =
      (some data, database, txid) := by
  have hne : tmp ≠ followCommitPath outputPath := by
    rintro rfl
    simp [kept] at htmp
  rw [← seen_update htmp none] at hd
  simp only [seen, Prod.mk.injEq] at hd
  rw [runAll_publish hne, seen, Function.update_self, Function.update_of_ne followCommitPath_ne.symm,
    Function.update_of_ne followCommitPath_ne_txidPath.symm, hd.2.1, hd.2.2]

/-- The TXID file is put in place at once. -/
theorem seen_writeTXIDFile {txID : Nat} (hd : seen outputPath d = (record, database, txid))
    (h : done <+: writeTXIDFile format outputPath txID) :
    seen outputPath (runAll d done) = (record, database, txid) ∨
      seen outputPath (runAll d done) = (record, database, some (txidFile format txID)) := by
  rcases runAll_publish_prefix txidTmpPath_ne h d with ⟨-, hsame⟩ | ⟨-, hall⟩
  · left
    rw [seen_congr fun n hn => hsame n ?_, hd]
    rintro rfl
    exact txidTmpPath_notMem_kept hn
  · right
    rw [← seen_update txidTmpPath_notMem_kept none] at hd
    simp only [seen, Prod.mk.injEq] at hd
    rw [hall, seen, Function.update_self, Function.update_of_ne followCommitPath_ne_txidPath,
      Function.update_of_ne txidPath_ne.symm, hd.1, hd.2.1]

theorem seen_written {txID : Nat} (hd : seen outputPath d = (record, database, txid)) :
    seen outputPath (runAll d (writeTXIDFile format outputPath txID)) =
      (record, database, some (txidFile format txID)) := by
  rw [← seen_update txidTmpPath_notMem_kept none] at hd
  simp only [seen, Prod.mk.injEq] at hd
  rw [writeTXIDFile, runAll_publish txidTmpPath_ne, seen, Function.update_self,
    Function.update_of_ne followCommitPath_ne_txidPath, Function.update_of_ne txidPath_ne.symm,
    hd.1, hd.2.1]

theorem seen_remove_record (hd : seen outputPath d = (record, database, txid)) :
    seen outputPath (run d (remove (followCommitPath outputPath))) = (none, database, txid) := by
  simp only [seen, Prod.mk.injEq] at hd
  rw [run, seen, Function.update_self, Function.update_of_ne followCommitPath_ne.symm,
    Function.update_of_ne followCommitPath_ne_txidPath.symm, hd.2.1, hd.2.2]

/-- A staged database replaces the one there was. -/
theorem seen_rename {stage new : Bytes} (hd : seen outputPath d = (record, database, txid))
    (hstage : stage ∉ kept outputPath) (hnew : d stage = some new) :
    seen outputPath (run d (rename stage outputPath)) = (record, some new, txid) := by
  rw [← seen_update hstage none] at hd
  simp only [seen, Prod.mk.injEq] at hd
  rw [run, if_neg (by rw [hnew]; exact Option.some_ne_none _), seen, Function.update_self,
    Function.update_of_ne followCommitPath_ne, Function.update_of_ne txidPath_ne, hd.1, hd.2.2,
    hnew]

/-- Discarding takes the stage away first. -/
theorem seen_discard {stage : Bytes} (hd : seen outputPath d = (record, database, txid))
    (hstage : stage ∉ kept outputPath) (h : done <+: discard outputPath stage) :
    seen outputPath (runAll d done) = (record, database, txid) ∨
      seen outputPath (runAll d done) = (none, database, txid) := by
  have hremoved : seen outputPath (run d (remove stage)) = (record, database, txid) := by
    rw [run, seen_update hstage, hd]
  rcases List.prefix_cons_iff.mp h with rfl | ⟨rest, rfl, hrest⟩
  · exact Or.inl hd
  · rcases List.prefix_cons_iff.mp hrest with rfl | ⟨last, rfl, hlast⟩
    · exact Or.inl hremoved
    · obtain rfl := List.prefix_nil.mp hlast
      exact Or.inr (seen_remove_record hremoved)

theorem seen_discarded {stage : Bytes} (hd : seen outputPath d = (record, database, txid))
    (hstage : stage ∉ kept outputPath) :
    seen outputPath (runAll d (discard outputPath stage)) = (none, database, txid) := by
  have hremoved : seen outputPath (run d (remove stage)) = (record, database, txid) := by
    rw [run, seen_update hstage, hd]
  exact seen_remove_record hremoved

end

/-- What one commit is about. -/
structure FollowCommit where
  start : Directory
  stage : Bytes
  recordTmp : Bytes
  old : Option Bytes
  new : Bytes
  fromTXID : Nat
  toTXID : Nat

namespace FollowCommit

/-- The record of the commit. -/
def record (c : FollowCommit) (format : TXIDFormat) (sha256 : Bytes → Bytes) : FollowCommitRecord :=
  commitRecord format sha256 c.stage c.new c.old c.fromTXID c.toTXID

/-- A staged database of a later TXID is to replace a generation.  The names of the temporary
files are new, there is no record, and digests tell the two databases apart. -/
structure Staged (c : FollowCommit) (format : TXIDFormat) (sha256 : Bytes → Bytes)
    (outputPath : Bytes) : Prop where
  generation : FollowGeneration format outputPath c.start c.old c.fromTXID
  staged : c.start c.stage = some c.new
  noRecord : c.start (followCommitPath outputPath) = none
  noRecordTmp : c.start c.recordTmp = none
  lt : c.fromTXID < c.toTXID
  toTXID_lt : c.toTXID < txidLimit
  stage_isTemp : IsTemp (stagePrefix outputPath (c.fromTXID = 0)) c.stage
  recordTmp_isTemp : IsTemp (recordTmpPrefix outputPath) c.recordTmp
  distinguished : ∀ database, c.old = some database → database.length = c.new.length →
    sha256 database = sha256 c.new → database = c.new

/-- How far the commit or its recovery has got. -/
inductive Phase (c : FollowCommit) (format : TXIDFormat) (sha256 : Bytes → Bytes) (outputPath : Bytes)
    (d : Directory) : Prop
  | before (h : seen outputPath d = (none, c.old, c.start (txidPath outputPath)))
  | prepared (h : seen outputPath d =
      (some (c.record format sha256).encodeRecord, c.old, c.start (txidPath outputPath)))
  | published (h : seen outputPath d =
      (some (c.record format sha256).encodeRecord, some c.new, c.start (txidPath outputPath)))
  | recorded (h : seen outputPath d =
      (some (c.record format sha256).encodeRecord, some c.new, some (txidFile format c.toTXID)))
  | after (h : seen outputPath d = (none, some c.new, some (txidFile format c.toTXID)))

variable {c : FollowCommit}

/-! ## The commit -/

theorem Staged.seen_start (h : c.Staged format sha256 outputPath) :
    seen outputPath c.start = (none, c.old, c.start (txidPath outputPath)) := by
  rw [seen, h.noRecord, h.generation.database]

theorem Staged.prepare (h : c.Staged format sha256 outputPath) :
    prepareCommit format sha256 outputPath c.stage c.fromTXID c.toTXID c.start =
      .ok (c.record format sha256) := by
  have hmissing : ¬ (c.start outputPath = none ∧ c.fromTXID ≠ 0) := fun hmissing =>
    h.generation.database_ne_none hmissing.2 hmissing.1
  rw [prepareCommit, if_neg (Nat.not_le.mpr h.lt), h.staged]
  simp only [if_neg hmissing, h.generation.readTXIDFile, ne_eq, not_true_eq_false, if_false,
    ite_self]
  rw [h.generation.database]
  rfl

/-- The names of the temporary files differ from the others. -/
theorem Staged.stage_notMem (h : c.Staged format sha256 outputPath) : c.stage ∉ kept outputPath :=
  stagePrefix_notMem_kept h.stage_isTemp.isPrefix

theorem Staged.recordTmp_notMem (h : c.Staged format sha256 outputPath) :
    c.recordTmp ∉ kept outputPath := recordTmpPrefix_notMem_kept h.recordTmp_isTemp.isPrefix

theorem Staged.stage_ne (h : c.Staged format sha256 outputPath) : c.stage ≠ c.recordTmp := by
  intro heq
  have := h.staged
  rw [heq, h.noRecordTmp] at this
  cases this

/-- The staged database is published, then its TXID, and the record goes. -/
theorem Staged.phase_of_prepared (h : c.Staged format sha256 outputPath)
    (hd : seen outputPath d =
      (some (c.record format sha256).encodeRecord, c.old, c.start (txidPath outputPath)))
    (hstaged : d c.stage = some c.new)
    (hdone : done <+: rename c.stage outputPath ::
      (writeTXIDFile format outputPath c.toTXID ++ [remove (followCommitPath outputPath)])) :
    c.Phase format sha256 outputPath (runAll d done) := by
  rcases List.prefix_cons_iff.mp hdone with rfl | ⟨rest, rfl, hrest⟩
  · exact .prepared hd
  have hpublished := seen_rename hd h.stage_notMem hstaged
  rw [runAll_cons]
  rcases prefix_append_cases hrest with hrest | ⟨last, hlast, rfl⟩
  · exact (seen_writeTXIDFile hpublished hrest).elim .published .recorded
  have hrecorded : seen outputPath (runAll _ (writeTXIDFile format outputPath c.toTXID)) = _ :=
    seen_written hpublished
  rw [runAll_append]
  rcases List.prefix_cons_iff.mp hlast with rfl | ⟨rest, rfl, hnil⟩
  · exact .recorded hrecorded
  · obtain rfl := List.prefix_nil.mp hnil
    exact .after (seen_remove_record hrecorded)

/-- A crash of the commit leaves one of the phases. -/
theorem Staged.phase_of_commit (h : c.Staged format sha256 outputPath)
    (hdone : done <+: (commitFollowStaged format sha256 outputPath c.stage c.recordTmp
      c.fromTXID c.toTXID c.start).1) :
    c.Phase format sha256 outputPath (runAll c.start done) := by
  have hops : done <+: commitOps format outputPath c.stage c.recordTmp c.toTXID
      (c.record format sha256) := by
    rw [commitFollowStaged, h.prepare] at hdone
    exact hdone
  have hstart := h.seen_start
  rcases prefix_append_cases hops with hops | ⟨more, hmore, rfl⟩
  · exact (seen_publish_record hstart h.recordTmp_notMem hops).elim .before .prepared
  have hne : c.stage ≠ followCommitPath outputPath := by
    rintro heq
    have := h.stage_notMem
    simp [kept, heq] at this
  rw [runAll_append]
  refine h.phase_of_prepared (seen_published hstart h.recordTmp_notMem) ?_ hmore
  rw [← h.staged]
  refine runAll_of_notMem fun op hop hmem => ?_
  exact (names_of_mem_publish hop hmem).elim h.stage_ne hne

end FollowCommit

/-! ## The record is checked -/

theorem hexDigits_ascii : ∀ c ∈ hexDigits, c < 0x80 := by decide +kernel

theorem coerce_hex16 (txID : Nat) : Utf8.coerce (hex16 txID) = hex16 txID :=
  Utf8.coerce_ascii fun _ hc => hexDigits_ascii _ (mem_hexDigits hc)

theorem hexValue_digits : ∀ c : UInt8,
    Json.hexValue (Nat.digitChar (c.toNat / 16)).toUInt8 = some (c.toNat / 16) ∧
      Json.hexValue (Nat.digitChar (c.toNat % 16)).toUInt8 = some (c.toNat % 16) ∧
      (Nat.digitChar (c.toNat / 16)).toUInt8 < 0x80 ∧
      (Nat.digitChar (c.toNat % 16)).toUInt8 < 0x80 := by
  decide +kernel

theorem coerce_encodeHex (b : Bytes) : Utf8.coerce (encodeHex b) = encodeHex b := by
  refine Utf8.coerce_ascii fun c hc => ?_
  obtain ⟨x, -, hx⟩ := List.mem_flatMap.mp hc
  obtain ⟨-, -, hhigh, hlow⟩ := hexValue_digits x
  rcases List.mem_pair.mp hx with rfl | rfl
  · exact hhigh
  · exact hlow

theorem encodeHex_inj {a b : Bytes} (h : encodeHex a = encodeHex b) : a = b := by
  induction a generalizing b with
  | nil =>
      cases b with
      | nil => rfl
      | cons y b => cases h
  | cons x a ih =>
      cases b with
      | nil => cases h
      | cons y b =>
          simp only [encodeHex, List.flatMap_cons, List.cons_append, List.nil_append,
            List.cons.injEq] at h
          obtain ⟨hhigh, hlow, hrest⟩ := h
          obtain ⟨hx, hx', -, -⟩ := hexValue_digits x
          obtain ⟨hy, hy', -, -⟩ := hexValue_digits y
          rw [hhigh, hy, Option.some.injEq] at hx
          rw [hlow, hy', Option.some.injEq] at hx'
          have hxy : x.toNat = y.toNat := by omega
          rw [ih hrest, UInt8.toNat_inj.mp hxy]

/-- A database has the identity of another one if they have one size and one digest. -/
theorem visible_iff {content : Bytes} :
    Visible sha256 outputPath d (fileIdentity sha256 content).1 (fileIdentity sha256 content).2 ↔
      ∃ b, d outputPath = some b ∧ b.length = content.length ∧ sha256 b = sha256 content := by
  rw [Visible, Option.map_eq_some_iff]
  refine exists_congr fun b => and_congr_right fun _ => ?_
  simp only [fileIdentity, Prod.mk.injEq, Int.natCast_inj]
  exact and_congr_right fun _ => ⟨encodeHex_inj, congrArg encodeHex⟩

theorem checkRecord_eq_ok {record : FollowCommitRecord} {k : CheckedRecord} :
    checkRecord format outputPath record = .ok k ↔
      format.parseTXID record.fromTXID = some k.fromTXID ∧
        format.parseTXID record.toTXID = some k.toTXID ∧
        format.string k.fromTXID = record.fromTXID ∧ format.string k.toTXID = record.toTXID ∧
        k.fromTXID < k.toTXID ∧
        (k.fromTXID = 0 → record.oldSize = -1 ∧ record.oldSHA256 = []) ∧
        (k.fromTXID ≠ 0 → 0 ≤ record.oldSize ∧ validFollowSHA256 record.oldSHA256 = true) ∧
        followStagePath outputPath record.stage (k.fromTXID = 0) = some k.stage := by
  unfold checkRecord
  cases hfrom : format.parseTXID record.fromTXID with
  | none => simp
  | some fromTXID =>
      cases hto : format.parseTXID record.toTXID with
      | none => simp
      | some toTXID =>
          simp only [Option.some.injEq]
          constructor
          · intro h
            split_ifs at h with hcanonical hrange hinitial hold
            cases hstage : followStagePath outputPath record.stage (fromTXID = 0) with
            | none =>
                rw [hstage] at h
                cases h
            | some stage =>
                rw [hstage] at h
                obtain rfl := Except.ok.inj h
                obtain ⟨hf, ht⟩ := not_or.mp hcanonical
                refine ⟨rfl, rfl, not_not.mp hf, not_not.mp ht, Nat.not_le.mp hrange, ?_, ?_,
                  hstage⟩
                · intro h0
                  obtain ⟨hsize, hdigest⟩ := not_or.mp fun h => hinitial ⟨h0, h⟩
                  exact ⟨not_not.mp hsize, not_not.mp hdigest⟩
                · intro hpos
                  obtain ⟨hsize, hdigest⟩ := not_or.mp fun h => hold ⟨hpos, h⟩
                  exact ⟨Int.not_lt.mp hsize, by simpa using hdigest⟩
          · obtain ⟨kf, kt, ks⟩ := k
            rintro ⟨rfl, rfl, hf, ht, hlt, hinitial, hold, hstage⟩
            rw [if_neg (not_or.mpr ⟨not_not.mpr hf, not_not.mpr ht⟩), if_neg (Nat.not_le.mpr hlt),
              if_neg, if_neg, hstage]
            · rintro ⟨hpos, hbad⟩
              obtain ⟨hsize, hdigest⟩ := hold hpos
              rcases hbad with hbad | hbad
              · omega
              · rw [hdigest] at hbad
                cases hbad
            · rintro ⟨h0, hbad⟩
              obtain ⟨hsize, hdigest⟩ := hinitial h0
              exact hbad.elim (absurd hsize) (absurd hdigest)

/-- A staging name begins as the names of its kind do. -/
theorem followStagePath_eq_some {stage : Bytes} {initial : Bool} :
    followStagePath outputPath name initial = some stage ↔
      name ≠ [] ∧ fileBase name = name ∧ stagePrefix outputPath initial <+: name ∧
        name = stage := by
  rw [followStagePath]
  split
  · next h =>
      refine iff_of_false (by simp) ?_
      rintro ⟨hne, hbase, hpre, -⟩
      rcases h with h | h | h
      · exact hne h
      · exact h hbase
      · exact h hpre
  · next h =>
      obtain ⟨hne, h⟩ := not_or.mp h
      obtain ⟨hbase, hpre⟩ := not_or.mp h
      rw [Option.some.injEq]
      exact ⟨fun h => ⟨hne, not_not.mp hbase, not_not.mp hpre, h⟩, fun h => h.2.2.2⟩

/-! ## The recovery -/

/-- A recovery that finds a record fails, or compares the database with it. -/
theorem recover_cases (format : TXIDFormat) (sha256 : Bytes → Bytes) {data : Bytes}
    (hd : d (followCommitPath outputPath) = some data) :
    (∃ e, recoverFollowCommit format sha256 outputPath d = ([], .error e)) ∨
      ∃ record k currentTXID, readFollowCommitRecord data = .ok record ∧
        checkRecord format outputPath record = .ok k ∧
        readTXIDFile format outputPath d = .ok currentTXID ∧
        recoverFollowCommit format sha256 outputPath d =
          reconcile format sha256 outputPath record k currentTXID d := by
  unfold recoverFollowCommit
  rw [hd]
  simp only
  cases hread : readFollowCommitRecord data with
  | error e => exact Or.inl ⟨_, rfl⟩
  | ok record =>
      simp only
      cases hcheck : checkRecord format outputPath record with
      | error e => exact Or.inl ⟨_, rfl⟩
      | ok k =>
          simp only
          cases htxid : readTXIDFile format outputPath d with
          | error e => exact Or.inl ⟨_, rfl⟩
          | ok currentTXID => exact Or.inr ⟨record, k, currentTXID, rfl, hcheck, rfl, rfl⟩

theorem recover_of_none (hd : d (followCommitPath outputPath) = none) :
    recoverFollowCommit format sha256 outputPath d =
      ([], (readTXIDFile format outputPath d).mapError .readTXIDFile) := by
  rw [recoverFollowCommit, hd]

theorem seen_txid {record database txid : Option Bytes} {d' : Directory}
    (hd : seen outputPath d = (record, database, txid)) (htxid : d' (txidPath outputPath) = txid) :
    readTXIDFile format outputPath d = readTXIDFile format outputPath d' := by
  simp only [seen, Prod.mk.injEq] at hd
  exact readTXIDFile_congr (hd.2.2.trans htxid.symm)

namespace FollowCommit

variable {c : FollowCommit}

/-- The record of the commit, as it is read back and checked. -/
theorem Staged.checked (h : c.Staged format sha256 outputPath) {record : FollowCommitRecord}
    {k : CheckedRecord}
    (hread : readFollowCommitRecord (c.record format sha256).encodeRecord = .ok record)
    (hcheck : checkRecord format outputPath record = .ok k) :
    record.newSize = (fileIdentity sha256 c.new).1 ∧
      record.newSHA256 = (fileIdentity sha256 c.new).2 ∧
      k.fromTXID = c.fromTXID ∧ k.toTXID = c.toTXID ∧
      k.stage = Utf8.coerce (fileBase c.stage) ∧
      stagePrefix outputPath (c.fromTXID = 0) <+: k.stage := by
  obtain rfl := readFollowCommitRecord_encode hread
  obtain ⟨hfrom, hto, -, -, -, -, -, hstage⟩ := checkRecord_eq_ok.mp hcheck
  have hstring : ∀ txID, Utf8.coerce (format.string txID) = format.string txID := fun txID => by
    rw [format.string_eq, coerce_hex16]
  have hfrom' : (c.record format sha256).coerced.fromTXID = format.string c.fromTXID := hstring _
  have hto' : (c.record format sha256).coerced.toTXID = format.string c.toTXID := hstring _
  rw [hfrom', format.parseTXID_string (h.lt.trans h.toTXID_lt)] at hfrom
  rw [hto', format.parseTXID_string h.toTXID_lt] at hto
  have hk : k.fromTXID = c.fromTXID := (Option.some.inj hfrom).symm
  have hk' : k.toTXID = c.toTXID := (Option.some.inj hto).symm
  obtain ⟨-, -, hpre, hname⟩ := followStagePath_eq_some.mp hstage
  rw [hname, hk] at hpre
  exact ⟨rfl, coerce_encodeHex _, hk, hk', hname.symm, hpre⟩

/-- What a recovery does: it fails, it finds no record, it rolls back, or it rolls forward. -/
inductive Recovery (c : FollowCommit) (format : TXIDFormat) (sha256 : Bytes → Bytes)
    (outputPath : Bytes) (d : Directory) : Prop
  | failed {e : FollowCommitError} (hphase : c.Phase format sha256 outputPath d)
      (h : recoverFollowCommit format sha256 outputPath d = ([], .error e))
  | before (hd : seen outputPath d = (none, c.old, c.start (txidPath outputPath)))
      (h : recoverFollowCommit format sha256 outputPath d = ([], .ok c.fromTXID))
  | back {stage : Bytes}
      (hd : seen outputPath d =
        (some (c.record format sha256).encodeRecord, c.old, c.start (txidPath outputPath)))
      (hstage : stage = Utf8.coerce (fileBase c.stage) ∧
        stagePrefix outputPath (c.fromTXID = 0) <+: stage)
      (h : recoverFollowCommit format sha256 outputPath d =
        (discard outputPath stage, .ok c.fromTXID))
  | forward {stage : Bytes}
      (hd : seen outputPath d =
        (some (c.record format sha256).encodeRecord, some c.new, c.start (txidPath outputPath)))
      (hstage : stage = Utf8.coerce (fileBase c.stage) ∧
        stagePrefix outputPath (c.fromTXID = 0) <+: stage)
      (h : recoverFollowCommit format sha256 outputPath d =
        (writeTXIDFile format outputPath c.toTXID ++ discard outputPath stage, .ok c.toTXID))
  | recorded {stage : Bytes}
      (hd : seen outputPath d =
        (some (c.record format sha256).encodeRecord, some c.new, some (txidFile format c.toTXID)))
      (hstage : stage = Utf8.coerce (fileBase c.stage) ∧
        stagePrefix outputPath (c.fromTXID = 0) <+: stage)
      (h : recoverFollowCommit format sha256 outputPath d =
        (discard outputPath stage, .ok c.toTXID))
  | after (hd : seen outputPath d = (none, some c.new, some (txidFile format c.toTXID)))
      (h : recoverFollowCommit format sha256 outputPath d = ([], .ok c.toTXID))

/-- The new database is visible. -/
theorem reconcile_new {record : FollowCommitRecord} {k : CheckedRecord} {currentTXID : Nat}
    (hdatabase : d outputPath = some c.new) (hsize : record.newSize = (fileIdentity sha256 c.new).1)
    (hdigest : record.newSHA256 = (fileIdentity sha256 c.new).2)
    (hcurrent : currentTXID = k.fromTXID ∨ currentTXID = k.toTXID) :
    reconcile format sha256 outputPath record k currentTXID d =
      ((if currentTXID ≠ k.toTXID then writeTXIDFile format outputPath k.toTXID else []) ++
        discard outputPath k.stage, .ok k.toTXID) := by
  have hvisible : Visible sha256 outputPath d record.newSize record.newSHA256 := by
    rw [hsize, hdigest]
    exact visible_iff.mpr ⟨c.new, hdatabase, rfl, rfl⟩
  rw [reconcile, if_pos hvisible, if_neg]
  exact fun hne => hcurrent.elim hne.1 hne.2

/-- The new database is visible, so a recovery rolls forward unless it fails. -/
theorem Staged.recover_new (h : c.Staged format sha256 outputPath)
    (hd : seen outputPath d =
      (some (c.record format sha256).encodeRecord, some c.new, c.start (txidPath outputPath))) :
    (∃ e, recoverFollowCommit format sha256 outputPath d = ([], .error e)) ∨
      ∃ stage, (stage = Utf8.coerce (fileBase c.stage) ∧
          stagePrefix outputPath (c.fromTXID = 0) <+: stage) ∧
        recoverFollowCommit format sha256 outputPath d =
          (writeTXIDFile format outputPath c.toTXID ++ discard outputPath stage, .ok c.toTXID) := by
  have hseen := hd
  simp only [seen, Prod.mk.injEq] at hseen
  rcases recover_cases format sha256 hseen.1 with
    he | ⟨record, k, currentTXID, hread, hcheck, htxid, hrec⟩
  · exact Or.inl he
  obtain ⟨hsize, hdigest, hfrom, hto, hstage, hpre⟩ := h.checked hread hcheck
  obtain rfl : c.fromTXID = currentTXID := by
    rw [seen_txid hd rfl, h.generation.readTXIDFile] at htxid
    exact Except.ok.inj htxid
  refine Or.inr ⟨k.stage, ⟨hstage, hpre⟩, ?_⟩
  rw [hrec, reconcile_new hseen.2.1 hsize hdigest (Or.inl hfrom.symm), hto,
    if_pos (Nat.ne_of_lt h.lt)]

theorem Staged.recovery_of_new (h : c.Staged format sha256 outputPath)
    (hd : seen outputPath d =
      (some (c.record format sha256).encodeRecord, some c.new, c.start (txidPath outputPath))) :
    c.Recovery format sha256 outputPath d := by
  rcases h.recover_new hd with ⟨e, he⟩ | ⟨stage, hstage, hrec⟩
  · exact .failed (.published hd) he
  · exact .forward hd hstage hrec

/-- Every phase determines what a recovery does. -/
theorem Staged.recovery (h : c.Staged format sha256 outputPath)
    (hphase : c.Phase format sha256 outputPath d) : c.Recovery format sha256 outputPath d := by
  cases hphase with
  | before hd =>
      refine .before hd ?_
      have hseen := hd
      simp only [seen, Prod.mk.injEq] at hseen
      rw [recover_of_none hseen.1, seen_txid hd rfl, h.generation.readTXIDFile]
      rfl
  | prepared hd =>
      have hseen := hd
      simp only [seen, Prod.mk.injEq] at hseen
      rcases recover_cases format sha256 hseen.1 with
        ⟨e, he⟩ | ⟨record, k, currentTXID, hread, hcheck, htxid, hrec⟩
      · exact .failed (.prepared hd) he
      obtain ⟨hsize, hdigest, hfrom, hto, hstage, hpre⟩ := h.checked hread hcheck
      by_cases hvisible : Visible sha256 outputPath d record.newSize record.newSHA256
      · -- the two databases are equal, so the new one is published
        rw [hsize, hdigest] at hvisible
        obtain ⟨b, hb, hlen, hsha⟩ := visible_iff.mp hvisible
        rw [hseen.2.1] at hb
        obtain rfl := h.distinguished b hb hlen hsha
        exact h.recovery_of_new (hd.trans (by rw [hb]))
      · rw [reconcile, if_neg hvisible] at hrec
        split_ifs at hrec with hold hcurrent
        · exact .failed (.prepared hd) hrec
        · exact .back hd ⟨hstage, hpre⟩ (by rw [hrec, hfrom])
        · exact .failed (.prepared hd) hrec
  | published hd => exact h.recovery_of_new hd
  | recorded hd =>
      have hseen := hd
      simp only [seen, Prod.mk.injEq] at hseen
      rcases recover_cases format sha256 hseen.1 with
        ⟨e, he⟩ | ⟨record, k, currentTXID, hread, hcheck, htxid, hrec⟩
      · exact .failed (.recorded hd) he
      obtain ⟨hsize, hdigest, hfrom, hto, hstage, hpre⟩ := h.checked hread hcheck
      obtain rfl : c.toTXID = currentTXID := by
        rw [readTXIDFile_of_written hseen.2.2 h.toTXID_lt] at htxid
        exact Except.ok.inj htxid
      refine .recorded hd ⟨hstage, hpre⟩ ?_
      rw [hrec, reconcile_new hseen.2.1 hsize hdigest (Or.inr hto.symm), hto,
        if_neg (not_not.mpr rfl), List.nil_append]
  | after hd =>
      refine .after hd ?_
      have hseen := hd
      simp only [seen, Prod.mk.injEq] at hseen
      rw [recover_of_none hseen.1, readTXIDFile_of_written hseen.2.2 h.toTXID_lt]
      rfl

/-- A crash of a recovery leaves one of the phases. -/
theorem Staged.phase_of_recover (h : c.Staged format sha256 outputPath)
    (hphase : c.Phase format sha256 outputPath d)
    (hdone : done <+: (recoverFollowCommit format sha256 outputPath d).1) :
    c.Phase format sha256 outputPath (runAll d done) := by
  have hnil : done <+: [] → c.Phase format sha256 outputPath (runAll d done) := fun hdone => by
    obtain rfl := List.prefix_nil.mp hdone
    exact hphase
  cases h.recovery hphase with
  | failed _ hrec | before _ hrec | after _ hrec =>
      rw [hrec] at hdone
      exact hnil hdone
  | back hd hstage hrec =>
      rw [hrec] at hdone
      exact (seen_discard hd (stagePrefix_notMem_kept hstage.2) hdone).elim .prepared .before
  | forward hd hstage hrec =>
      rw [hrec] at hdone
      rcases prefix_append_cases hdone with hdone | ⟨more, hmore, rfl⟩
      · exact (seen_writeTXIDFile hd hdone).elim .published .recorded
      · rw [runAll_append]
        exact (seen_discard (seen_written hd) (stagePrefix_notMem_kept hstage.2) hmore).elim
          .recorded .after
  | recorded hd hstage hrec =>
      rw [hrec] at hdone
      exact (seen_discard hd (stagePrefix_notMem_kept hstage.2) hdone).elim .recorded .after

/-- What a recovery that succeeds leaves. -/
def Settled (c : FollowCommit) (format : TXIDFormat) (outputPath : Bytes) (d : Directory) (txID : Nat) :
    Prop :=
  seen outputPath d = (none, c.old, c.start (txidPath outputPath)) ∧ txID = c.fromTXID ∨
    seen outputPath d = (none, some c.new, some (txidFile format c.toTXID)) ∧ txID = c.toTXID

theorem Staged.settled_of_recover (h : c.Staged format sha256 outputPath)
    (hphase : c.Phase format sha256 outputPath d) {txID : Nat}
    (hok : (recoverFollowCommit format sha256 outputPath d).2 = .ok txID) :
    c.Settled format outputPath
      (runAll d (recoverFollowCommit format sha256 outputPath d).1) txID := by
  cases h.recovery hphase with
  | failed _ hrec =>
      rw [hrec] at hok
      cases hok
  | before hd hrec =>
      rw [hrec] at hok ⊢
      exact Or.inl ⟨hd, (Except.ok.inj hok).symm⟩
  | back hd hstage hrec =>
      rw [hrec] at hok ⊢
      exact Or.inl ⟨seen_discarded hd (stagePrefix_notMem_kept hstage.2), (Except.ok.inj hok).symm⟩
  | forward hd hstage hrec =>
      rw [hrec] at hok ⊢
      rw [runAll_append]
      exact Or.inr ⟨seen_discarded (seen_written hd) (stagePrefix_notMem_kept hstage.2),
        (Except.ok.inj hok).symm⟩
  | recorded hd hstage hrec =>
      rw [hrec] at hok ⊢
      exact Or.inr ⟨seen_discarded hd (stagePrefix_notMem_kept hstage.2), (Except.ok.inj hok).symm⟩
  | after hd hrec =>
      rw [hrec] at hok ⊢
      exact Or.inr ⟨hd, (Except.ok.inj hok).symm⟩

end FollowCommit

/-- After a crash of a commit and any number of crashes of its recovery, a recovery that succeeds
leaves the old generation or the new one, and no record. -/
theorem commit_atomic {c : FollowCommit} (h : c.Staged format sha256 outputPath)
    (hcrash : done <+: (commitFollowStaged format sha256 outputPath c.stage c.recordTmp
      c.fromTXID c.toTXID c.start).1) {d' : Directory} {txID : Nat}
    (hrec : Crash.Recovered DirOp.run (recoverFollowCommit format sha256 outputPath)
      (runAll c.start done) d' txID) :
    d' (followCommitPath outputPath) = none ∧
      (d' outputPath = c.old ∧ d' (txidPath outputPath) = c.start (txidPath outputPath) ∧
          txID = c.fromTXID ∨
        d' outputPath = some c.new ∧ d' (txidPath outputPath) = some (txidFile format c.toTXID) ∧
          txID = c.toTXID) := by
  have hsettled : c.Settled format outputPath d' txID :=
    hrec.rule (I := c.Phase format sha256 outputPath)
      (fun hphase hdone => h.phase_of_recover hphase hdone)
      (fun hphase hok => h.settled_of_recover hphase hok) (h.phase_of_commit hcrash)
  rcases hsettled with ⟨hseen, rfl⟩ | ⟨hseen, rfl⟩ <;> simp only [seen, Prod.mk.injEq] at hseen
  · exact ⟨hseen.1, Or.inl ⟨hseen.2.1, hseen.2.2, rfl⟩⟩
  · exact ⟨hseen.1, Or.inr ⟨hseen.2.1, hseen.2.2, rfl⟩⟩

/-! ## Databases of one byte -/

namespace OneByte

/-- The digests of the two databases. -/
def digest (b : Bytes) : Bytes :=
  if b = [7] then
    [202, 53, 135, 88, 246, 210, 126, 108, 244, 82, 114, 147, 121, 119, 167, 72, 253, 136, 57, 29,
      182, 121, 206, 218, 125, 199, 191, 31, 0, 94, 232, 121]
  else
    [190, 234, 215, 121, 148, 207, 87, 51, 65, 236, 23, 181, 139, 191, 126, 179, 77, 39, 17, 201,
      147, 193, 217, 118, 177, 40, 179, 24, 141, 193, 130, 154]

/-- A database of one byte at TXID 1 and a staged one at TXID 2. -/
def commit : FollowCommit where
  start := fun name =>
    if name = ascii "db" then some [7]
    else if name = ascii "db-txid" then some (txidFile txidFormat 1)
    else if name = ascii ".db-follow-5" then some [8]
    else none
  stage := ascii ".db-follow-5"
  recordTmp := ascii ".db-follow-record-6"
  old := some [7]
  new := [8]
  fromTXID := 1
  toTXID := 2

theorem staged : commit.Staged txidFormat digest (ascii "db") where
  generation := .present rfl (by decide +kernel) (by decide)
  staged := by decide +kernel
  noRecord := by decide +kernel
  noRecordTmp := by decide +kernel
  lt := by decide
  toTXID_lt := by decide
  stage_isTemp := ⟨5, by decide +kernel⟩
  recordTmp_isTemp := ⟨6, by decide +kernel⟩
  distinguished := by
    rintro database ⟨⟩ -
    decide +kernel

/-- The operations of the commit up to the rename of the database. -/
def renamed : List DirOp :=
  (commitFollowStaged txidFormat digest (ascii "db") commit.stage commit.recordTmp 1 2
    commit.start).1.take 287

end OneByte

/-- A commit that crashes after the rename is rolled forward. -/
theorem commit_atomic_sample : ∃ d txID,
    Crash.Recovered DirOp.run (recoverFollowCommit txidFormat OneByte.digest (ascii "db"))
      (runAll OneByte.commit.start OneByte.renamed) d txID ∧
    d (followCommitPath (ascii "db")) = none ∧
      (d (ascii "db") = some [7] ∧
          d (txidPath (ascii "db")) = OneByte.commit.start (txidPath (ascii "db")) ∧ txID = 1 ∨
        d (ascii "db") = some [8] ∧ d (txidPath (ascii "db")) = some (txidFile txidFormat 2) ∧
          txID = 2) := by
  have hok : (recoverFollowCommit txidFormat OneByte.digest (ascii "db")
      (runAll OneByte.commit.start OneByte.renamed)).2 = .ok 2 := by
    decide +kernel
  have hrec : Crash.Recovered DirOp.run (recoverFollowCommit txidFormat OneByte.digest (ascii "db"))
      (runAll OneByte.commit.start OneByte.renamed) _ 2 := .done hok
  exact ⟨_, 2, hrec, commit_atomic OneByte.staged (List.take_prefix _ _) hrec⟩

end Litestream
