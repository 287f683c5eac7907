import Litestream.Follow.Commit

/-!
# The files that a crash of a batch leaves

A poll stages its batch in a copy of the database, each LTX file through a journal, and commits the
stage.  A crash leaves temporary files behind, and a recovery that succeeds is to remove them.

Recovery finds the stage through the record.  `clean_iff` says that a recovery after a crash leaves
no temporary file exactly when the crash came before the stage was created or after the record was
put in place.
-/

namespace Litestream

open Bytes DirOp

/-! ## Batches -/

/-- An LTX file of a batch: its journal, and the operations on the stage that it leads to. -/
structure JournaledFile where
  journal : Bytes
  data : Bytes
  writes : List FileOp

/-- Writes the journal, applies it to the stage and removes it. -/
def JournaledFile.apply (stage : Bytes) (f : JournaledFile) : List DirOp :=
  writeFile f.journal f.data ++ f.writes.map (modify stage) ++ [remove f.journal]

/-- A batch that is staged and committed.  The stage begins as a copy of the database, or as the
restored one. -/
structure FollowBatch where
  start : Directory
  stage : Bytes
  recordTmp : Bytes
  content : Bytes
  files : List JournaledFile
  old : Option Bytes
  new : Bytes
  fromTXID : Nat
  toTXID : Nat

namespace FollowBatch

variable (b : FollowBatch)

/-- The operations up to the commit. -/
def staging : List DirOp := writeFile b.stage b.content ++ b.files.flatMap (·.apply b.stage)

/-- The commit of the stage. -/
def commit : FollowCommit :=
  ⟨runAll b.start b.staging, b.stage, b.recordTmp, b.old, b.new, b.fromTXID, b.toTXID⟩

variable (format : TXIDFormat) (sha256 : Bytes → Bytes) (outputPath : Bytes)

/-- The operations of the batch. -/
def ops : List DirOp :=
  b.staging ++ (commitFollowStaged format sha256 outputPath b.stage b.recordTmp b.fromTXID b.toTXID
    b.commit.start).1

/-- The temporary files of the batch. -/
def artifacts : List Bytes :=
  b.stage :: b.recordTmp :: txidTmpPath outputPath :: followCommitPath outputPath ::
    b.files.map (·.journal)

/-- There is no temporary file of the batch. -/
def Clean (d : Directory) : Prop := ∀ name ∈ b.artifacts outputPath, d name = none

/-- The batch begins in a clean directory, its names are new ones, and what it has staged can be
committed. -/
structure Staged : Prop where
  clean : b.Clean outputPath b.start
  commit : b.commit.Staged format sha256 outputPath
  journals : ∀ f ∈ b.files, f.journal ≠ b.stage ∧ f.journal ≠ b.recordTmp ∧
    f.journal ≠ txidTmpPath outputPath ∧ f.journal ∉ kept outputPath
  /-- The path is the name of a file in the directory. -/
  name : (0x2F : UInt8) ∉ outputPath

end FollowBatch

variable {format : TXIDFormat} {sha256 : Bytes → Bytes} {outputPath name : Bytes}
  {d : Directory} {done : List DirOp}

/-! ## The name of the stage -/

theorem ascii_of_isDigit : ∀ c : UInt8, Json.isDigit c = true → c < 0x80 ∧ c ≠ 0x2F := by
  decide +kernel

/-- The end of the prefix of a stage is ASCII without a slash. -/
theorem stagePrefix_eq (outputPath : Bytes) (initial : Bool) : ∃ p x y,
    stagePrefix outputPath initial = p ++ [x, y] ∧ x < 0x80 ∧ y < 0x80 ∧
      ((0x2F : UInt8) ∉ outputPath → (0x2F : UInt8) ∉ p ++ [x, y]) := by
  have hmem : ∀ suffix : Bytes, (0x2F : UInt8) ∉ suffix → (0x2F : UInt8) ∉ outputPath →
      (0x2F : UInt8) ∉ ascii "." ++ outputPath ++ suffix := by
    intro suffix hsuffix hpath
    rw [List.mem_append, List.mem_append, not_or, not_or]
    exact ⟨⟨by decide, hpath⟩, hsuffix⟩
  cases initial with
  | false =>
      refine ⟨ascii "." ++ outputPath ++ ascii "-follo", 0x77, 0x2D, ?_, by decide, by decide, ?_⟩
      · rw [List.append_assoc _ _ [0x77, 0x2D]]
        rfl
      · rw [List.append_assoc _ _ [0x77, 0x2D]]
        exact hmem _ (by decide)
  | true =>
      refine ⟨ascii "." ++ outputPath ++ ascii "-restor", 0x65, 0x2D, ?_, by decide, by decide, ?_⟩
      · rw [List.append_assoc _ _ [0x65, 0x2D]]
        rfl
      · rw [List.append_assoc _ _ [0x65, 0x2D]]
        exact hmem _ (by decide)

/-- A name of the directory is its own base. -/
theorem fileBase_eq_self (hne : name ≠ []) (h : (0x2F : UInt8) ∉ name) : fileBase name = name := by
  have hdrop : name.rdropWhile (fun c => c = 0x2F) = name := by
    rw [List.rdropWhile_eq_self_iff]
    intro hne' hlast
    exact h ((of_decide_eq_true hlast) ▸ List.getLast_mem hne')
  rw [fileBase, if_neg hne]
  simp only [hdrop, if_neg hne]
  rw [List.rtakeWhile_eq_self_iff]
  intro c hc
  rw [decide_eq_true_eq]
  rintro rfl
  exact h hc

/-- A recorded stage that recovery accepts is the one that was staged. -/
theorem FollowCommit.Staged.stage_eq {c : FollowCommit} (h : c.Staged format sha256 outputPath)
    (hname : (0x2F : UInt8) ∉ outputPath) {stage : Bytes}
    (hstage : stage = Utf8.coerce (fileBase c.stage) ∧
      stagePrefix outputPath (c.fromTXID = 0) <+: stage) : stage = c.stage := by
  obtain ⟨rfl, hpre⟩ := hstage
  obtain ⟨n, hn⟩ := h.stage_isTemp
  obtain ⟨p, x, y, hsplit, hx, hy, hslash⟩ := stagePrefix_eq outputPath (c.fromTXID = 0)
  rw [hsplit, List.append_assoc] at hn
  have hdigits : ∀ b ∈ Json.decimal n, b < 0x80 ∧ b ≠ 0x2F := fun b hb =>
    ascii_of_isDigit b (Json.isDigit_of_mem_decimal hb)
  have hbase : fileBase c.stage = c.stage := by
    refine fileBase_eq_self (by simp [hn]) ?_
    rw [hn, ← List.append_assoc, List.mem_append]
    exact fun hmem => hmem.elim (hslash hname) fun hmem => (hdigits _ hmem).2 rfl
  rw [hbase, hsplit, hn] at hpre
  rw [hbase, hn]
  exact Utf8.coerce_eq_self_of_prefix hx hy (fun b hb => (hdigits b hb).1) p hpre

namespace FollowBatch

variable {b : FollowBatch}

/-! ## Staging -/

/-- A file of the batch changes the stage and its journal. -/
theorem names_of_mem_apply {stage : Bytes} {f : JournaledFile} {op : DirOp}
    (h : op ∈ f.apply stage) (hname : name ∈ op.names) : name = stage ∨ name = f.journal := by
  rcases List.mem_append.mp h with h | h
  · rcases List.mem_append.mp h with h | h
    · rw [names_of_mem_writeFile h, List.mem_singleton] at hname
      exact Or.inr hname
    · obtain ⟨w, -, rfl⟩ := List.mem_map.mp h
      exact Or.inl (List.mem_singleton.mp hname)
  · obtain rfl := List.mem_singleton.mp h
    exact Or.inr (List.mem_singleton.mp hname)

theorem names_of_mem_staging {op : DirOp} (h : op ∈ b.staging) (hname : name ∈ op.names) :
    name = b.stage ∨ ∃ f ∈ b.files, name = f.journal := by
  rcases List.mem_append.mp h with h | h
  · rw [names_of_mem_writeFile h, List.mem_singleton] at hname
    exact Or.inl hname
  · obtain ⟨f, hf, hop⟩ := List.mem_flatMap.mp h
    exact (names_of_mem_apply hop hname).imp_right fun h => ⟨f, hf, h⟩

/-- The stage is there from its creation on. -/
theorem stage_ne_none (hstage : ∀ f ∈ b.files, f.journal ≠ b.stage) (hdone : done <+: b.staging)
    (hne : done ≠ []) (d : Directory) : runAll d done b.stage ≠ none := by
  rcases List.prefix_cons_iff.mp hdone with rfl | ⟨rest, rfl, hrest⟩
  · exact absurd rfl hne
  have hkept : ∀ op ∈ rest, ∀ d : Directory, d b.stage ≠ none → run d op b.stage ≠ none := by
    intro op hop d hd
    rcases List.mem_append.mp (hrest.subset hop) with hop | hop
    · obtain ⟨byte, -, rfl⟩ := List.mem_map.mp hop
      rw [run, Function.update_self]
      simpa using hd
    · obtain ⟨f, hf, hop⟩ := List.mem_flatMap.mp hop
      have hjournal : op.names = [f.journal] → run d op b.stage ≠ none := fun hnames => by
        rwa [run_of_notMem]
        rw [hnames, List.mem_singleton]
        exact (hstage f hf).symm
      rcases List.mem_append.mp hop with hop | hop
      · rcases List.mem_append.mp hop with hop | hop
        · exact hjournal (names_of_mem_writeFile hop)
        · obtain ⟨w, -, rfl⟩ := List.mem_map.mp hop
          rw [run, Function.update_self]
          simpa using hd
      · obtain rfl := List.mem_singleton.mp hop
        exact hjournal rfl
  have hcreated : run d (create b.stage) b.stage ≠ none := by
    rw [run, Function.update_self]
    exact Option.some_ne_none _
  clear hdone hne hrest
  rw [runAll_cons]
  generalize run d (create b.stage) = d at hcreated
  induction rest generalizing d with
  | nil => exact hcreated
  | cons op rest ih =>
      exact ih (fun o ho => hkept o (List.mem_cons_of_mem op ho)) _
        (hkept op List.mem_cons_self d hcreated)

/-- A journal is gone when the files have been applied. -/
theorem journal_removed {stage : Bytes} {files : List JournaledFile}
    (hname : name ∈ files.map (·.journal)) (hstage : name ≠ stage) (d : Directory) :
    runAll d (files.flatMap (·.apply stage)) name = none := by
  induction files generalizing d with
  | nil => cases hname
  | cons f files ih =>
      rw [List.flatMap_cons, runAll_append]
      by_cases hmem : name ∈ files.map (·.journal)
      · exact ih hmem _
      · obtain rfl : name = f.journal := (List.mem_cons.mp hname).resolve_right hmem
        rw [runAll_of_notMem]
        · rw [JournaledFile.apply, runAll_append]
          exact run_remove_same _ _
        · intro op hop hin
          obtain ⟨g, hg, hop⟩ := List.mem_flatMap.mp hop
          rcases names_of_mem_apply hop hin with h | h
          · exact hstage h
          · exact hmem (h ▸ List.mem_map_of_mem hg)

/-- What the staging leaves: the stage, and no other temporary file. -/
theorem Staged.clean_staged (h : b.Staged format sha256 outputPath)
    (hname : name ∈ b.artifacts outputPath) (hne : name ≠ b.stage) :
    b.commit.start name = none := by
  have hstart := h.clean name hname
  by_cases hjournal : name ∈ b.files.map (·.journal)
  · rw [show b.commit.start = runAll b.start b.staging from rfl, staging, runAll_append]
    exact journal_removed hjournal hne _
  · rw [← hstart]
    refine runAll_of_notMem fun op hop hin => ?_
    rcases names_of_mem_staging hop hin with h | ⟨f, hf, h⟩
    · exact hne h
    · exact hjournal (h ▸ List.mem_map_of_mem hf)

/-! ## The commit and its recovery -/

/-- The temporary files that a recovery does not look for are gone. -/
def Tidy (b : FollowBatch) (d : Directory) : Prop :=
  d b.recordTmp = none ∧ ∀ f ∈ b.files, d f.journal = none

/-- The database and its record are in place, but not the TXID. -/
def Published (b : FollowBatch) (format : TXIDFormat) (sha256 : Bytes → Bytes)
    (outputPath : Bytes) (d : Directory) : Prop :=
  seen outputPath d = (some (b.commit.record format sha256).encodeRecord, some b.commit.new,
    b.commit.start (txidPath outputPath))

/-- How far the batch or its recovery has got when the record has been put in place. -/
inductive Committing (b : FollowBatch) (format : TXIDFormat) (sha256 : Bytes → Bytes)
    (outputPath : Bytes) (d : Directory) : Prop
  /-- The TXID file may be half written. -/
  | published (htidy : b.Tidy d) (hd : b.Published format sha256 outputPath d)
  | recorded (htidy : b.Tidy d) (hphase : b.commit.Phase format sha256 outputPath d)
      (hrecord : d (followCommitPath outputPath) ≠ none) (htmp : d (txidTmpPath outputPath) = none)
  | settled (hphase : b.commit.Phase format sha256 outputPath d) (hclean : b.Clean outputPath d)

theorem Committing.phase (h : b.Committing format sha256 outputPath d) :
    b.commit.Phase format sha256 outputPath d := by
  cases h with
  | published _ hd => exact .published hd
  | recorded _ hphase _ _ => exact hphase
  | settled hphase _ => exact hphase

/-- Names that begin as a stage does are longer than those of the TXID file. -/
theorem ne_txidTmpPath {suffix : Bytes} (hlen : 8 ≤ suffix.length)
    (h : ascii "." ++ outputPath ++ suffix <+: name)
    (hne : name ≠ ascii "." ++ outputPath ++ suffix) : name ≠ txidTmpPath outputPath := by
  rintro rfl
  have hle := h.length_le
  have hlt : (ascii "." ++ outputPath ++ suffix).length ≠ (txidTmpPath outputPath).length :=
    fun heq => hne (h.eq_of_length heq).symm
  have htxid : (ascii "-txid").length = 5 := rfl
  have htmp : (ascii ".tmp").length = 4 := rfl
  have hdot : (ascii ".").length = 1 := rfl
  simp only [txidTmpPath, txidPath, List.length_append, htxid, htmp, hdot] at hle hlt
  omega

theorem Staged.recordTmp_ne (h : b.Staged format sha256 outputPath) :
    b.recordTmp ≠ txidTmpPath outputPath := by
  obtain ⟨n, hn⟩ := h.commit.recordTmp_isTemp
  have hlen : 8 ≤ (ascii "-follow-record-").length := by decide
  refine ne_txidTmpPath hlen h.commit.recordTmp_isTemp.isPrefix fun heq => ?_
  exact Json.decimal_ne_nil n (List.append_right_eq_self.mp (hn.symm.trans heq))

theorem Staged.stage_ne_txidTmpPath (h : b.Staged format sha256 outputPath) :
    b.stage ≠ txidTmpPath outputPath := by
  obtain ⟨n, hn⟩ := h.commit.stage_isTemp
  have hlen : 8 ≤ (ascii (if decide (b.fromTXID = 0) then "-restore-" else "-follow-")).length := by
    split <;> decide
  refine ne_txidTmpPath hlen h.commit.stage_isTemp.isPrefix fun heq => ?_
  exact Json.decimal_ne_nil n (List.append_right_eq_self.mp (hn.symm.trans heq))

theorem Staged.stage_ne_followCommitPath (h : b.Staged format sha256 outputPath) :
    b.stage ≠ followCommitPath outputPath := by
  intro heq
  have hmem : b.stage ∉ kept outputPath := h.commit.stage_notMem
  simp [kept, heq] at hmem

/-- The stage, the TXID file and the record are neither the temporary record nor a journal. -/
theorem Staged.ne_of_mem (h : b.Staged format sha256 outputPath)
    (hname : name ∈ b.stage :: txidTmpPath outputPath :: kept outputPath) :
    name ≠ b.recordTmp ∧ ∀ f ∈ b.files, name ≠ f.journal := by
  rcases List.mem_cons.mp hname with rfl | hname
  · exact ⟨h.commit.stage_ne, fun f hf => (h.journals f hf).1.symm⟩
  rcases List.mem_cons.mp hname with rfl | hname
  · exact ⟨h.recordTmp_ne.symm, fun f hf => (h.journals f hf).2.2.1.symm⟩
  · refine ⟨?_, fun f hf => ?_⟩
    · rintro rfl
      exact h.commit.recordTmp_notMem hname
    · rintro rfl
      exact (h.journals f hf).2.2.2 hname

/-- An operation on other files keeps the tidy ones. -/
theorem Staged.tidy_runAll (h : b.Staged format sha256 outputPath) (hd : b.Tidy d)
    {ops : List DirOp} (hnames : ∀ op ∈ ops, ∀ name ∈ op.names,
      name ∈ b.stage :: txidTmpPath outputPath :: kept outputPath) :
    b.Tidy (runAll d ops) := by
  have hother : ∀ op ∈ ops, ∀ name ∈ op.names,
      name ≠ b.recordTmp ∧ ∀ f ∈ b.files, name ≠ f.journal := fun op hop name hin => h.ne_of_mem (hnames op hop name hin)
  refine ⟨?_, fun f hf => ?_⟩
  · rw [runAll_of_notMem fun op hop hin => (hother op hop _ hin).1 rfl, hd.1]
  · rw [runAll_of_notMem fun op hop hin => (hother op hop _ hin).2 f hf rfl, hd.2 f hf]

/-- The record is the last temporary file that goes. -/
theorem Staged.clean_removed (h : b.Staged format sha256 outputPath) (hd : b.Tidy d)
    (hstage : d b.stage = none) (htmp : d (txidTmpPath outputPath) = none) :
    b.Clean outputPath (runAll d [remove (followCommitPath outputPath)]) := by
  have htidy : b.Tidy (runAll d [remove (followCommitPath outputPath)]) :=
    h.tidy_runAll hd fun op hop name hin => by
      obtain rfl := List.mem_singleton.mp hop
      obtain rfl := List.mem_singleton.mp hin
      simp [kept]
  have hother : ∀ name ≠ followCommitPath outputPath, d name = none →
      run d (remove (followCommitPath outputPath)) name = none := fun name hne hnone => by
    rw [run_of_notMem fun hin => hne (List.mem_singleton.mp hin), hnone]
  intro name hname
  rcases List.mem_cons.mp hname with rfl | hname
  · exact hother _ h.stage_ne_followCommitPath hstage
  rcases List.mem_cons.mp hname with rfl | hname
  · exact htidy.1
  rcases List.mem_cons.mp hname with rfl | hname
  · exact hother _ followCommitPath_ne_txidTmpPath.symm htmp
  rcases List.mem_cons.mp hname with rfl | hname
  · exact run_remove_same d (followCommitPath outputPath)
  · obtain ⟨f, hf, rfl⟩ := List.mem_map.mp hname
    exact htidy.2 f hf

theorem Staged.tidy_remove_stage (h : b.Staged format sha256 outputPath) (hd : b.Tidy d) :
    b.Tidy (run d (remove b.stage)) := by
  have htidy : b.Tidy (runAll d [remove b.stage]) :=
    h.tidy_runAll hd fun op hop name hin => by
      obtain rfl := List.mem_singleton.mp hop
      obtain rfl := List.mem_singleton.mp hin
      exact List.mem_cons_self
  exact htidy

theorem run_remove_stage (hne : name ≠ b.stage) : run d (remove b.stage) name = d name :=
  run_of_notMem fun hin => hne (List.mem_singleton.mp hin)

/-- Discarding the stage leaves nothing when the other temporary files are gone. -/
theorem Staged.clean_discarded (h : b.Staged format sha256 outputPath) (hd : b.Tidy d)
    (htmp : d (txidTmpPath outputPath) = none) :
    b.Clean outputPath (runAll d (discard outputPath b.stage)) := by
  refine h.clean_removed (h.tidy_remove_stage hd) (run_remove_same d b.stage) ?_
  rw [run_remove_stage h.stage_ne_txidTmpPath.symm, htmp]

/-- A recovery that discards the stage can be stopped. -/
theorem Staged.committing_of_discard (h : b.Staged format sha256 outputPath) (hd : b.Tidy d)
    (hrecord : d (followCommitPath outputPath) ≠ none) (htmp : d (txidTmpPath outputPath) = none)
    (hdone : done <+: discard outputPath b.stage)
    (hphase : b.commit.Phase format sha256 outputPath (runAll d done)) :
    b.Committing format sha256 outputPath (runAll d done) := by
  rcases List.prefix_cons_iff.mp hdone with rfl | ⟨rest, rfl, hrest⟩
  · exact .recorded hd hphase hrecord htmp
  rcases List.prefix_cons_iff.mp hrest with rfl | ⟨last, rfl, hlast⟩
  · refine .recorded (h.tidy_remove_stage hd) hphase ?_ ?_
    · exact (run_remove_stage h.stage_ne_followCommitPath.symm).trans_ne hrecord
    · exact (run_remove_stage h.stage_ne_txidTmpPath.symm).trans htmp
  · obtain rfl := List.prefix_nil.mp hlast
    exact .settled hphase (h.clean_discarded hd htmp)

/-- Writing the TXID file replaces its temporary file, and puts it in place. -/
theorem Staged.committing_of_write (h : b.Staged format sha256 outputPath) (hd : b.Tidy d)
    (hpublished : b.Published format sha256 outputPath d)
    (hdone : done <+: writeTXIDFile format outputPath b.toTXID)
    (hphase : b.commit.Phase format sha256 outputPath (runAll d done)) :
    b.Committing format sha256 outputPath (runAll d done) := by
  have htidy : b.Tidy (runAll d done) := h.tidy_runAll hd fun op hop name hin => by
    rcases names_of_mem_publish (hdone.subset hop) hin with rfl | rfl <;> simp [kept]
  have hseen := hpublished
  simp only [Published, seen, Prod.mk.injEq] at hseen
  rcases runAll_publish_prefix txidTmpPath_ne hdone d with ⟨-, hsame⟩ | ⟨-, hall⟩
  · refine .published htidy ((seen_congr fun n hn => hsame n ?_).trans hpublished)
    rintro rfl
    exact txidTmpPath_notMem_kept hn
  · refine .recorded htidy hphase ?_ ?_
    · rw [hall, Function.update_of_ne followCommitPath_ne_txidPath,
        Function.update_of_ne followCommitPath_ne_txidTmpPath, hseen.1]
      exact Option.some_ne_none _
    · rw [hall, Function.update_of_ne txidTmpPath_ne, Function.update_self]

/-- The TXID file has been written, and the record is still there. -/
theorem Staged.written (h : b.Staged format sha256 outputPath) (hd : b.Tidy d)
    (hrecord : d (followCommitPath outputPath) ≠ none) :
    b.Tidy (runAll d (writeTXIDFile format outputPath b.toTXID)) ∧
      runAll d (writeTXIDFile format outputPath b.toTXID) (followCommitPath outputPath) ≠ none ∧
      runAll d (writeTXIDFile format outputPath b.toTXID) (txidTmpPath outputPath) = none := by
  refine ⟨h.tidy_runAll hd fun op hop name hin => ?_, ?_, ?_⟩
  · rcases names_of_mem_publish hop hin with rfl | rfl <;> simp [kept]
  · rw [writeTXIDFile, runAll_publish txidTmpPath_ne,
      Function.update_of_ne followCommitPath_ne_txidPath,
      Function.update_of_ne followCommitPath_ne_txidTmpPath]
    exact hrecord
  · rw [writeTXIDFile, runAll_publish txidTmpPath_ne, Function.update_of_ne txidTmpPath_ne,
      Function.update_self]

theorem Published.record (h : b.Published format sha256 outputPath d) :
    d (followCommitPath outputPath) ≠ none := by
  simp only [Published, seen, Prod.mk.injEq] at h
  rw [h.1]
  exact Option.some_ne_none _

/-- The record that recovery reads is the one of the batch, and so is its stage. -/
theorem Staged.stage_eq (h : b.Staged format sha256 outputPath) {stage : Bytes}
    (hstage : stage = Utf8.coerce (fileBase b.stage) ∧
      stagePrefix outputPath (b.fromTXID = 0) <+: stage) : stage = b.stage :=
  h.commit.stage_eq h.name hstage

/-- A crash of a recovery leaves the commit or its recovery somewhere. -/
theorem Staged.committing_of_recover (h : b.Staged format sha256 outputPath)
    (hd : b.Committing format sha256 outputPath d)
    (hdone : done <+: (recoverFollowCommit format sha256 outputPath d).1) :
    b.Committing format sha256 outputPath (runAll d done) := by
  have hphase := h.commit.phase_of_recover hd.phase hdone
  have hnil : done <+: [] → b.Committing format sha256 outputPath (runAll d done) := fun hdone => by
    obtain rfl := List.prefix_nil.mp hdone
    exact hd
  have hforward : b.Tidy d → b.Published format sha256 outputPath d →
      done <+: writeTXIDFile format outputPath b.toTXID ++ discard outputPath b.stage →
      b.Committing format sha256 outputPath (runAll d done) := fun htidy hpublished hdone => by
    rcases prefix_append_cases hdone with hdone | ⟨more, hmore, rfl⟩
    · exact h.committing_of_write htidy hpublished hdone hphase
    · obtain ⟨htidy, hrecord, htmp⟩ := h.written htidy hpublished.record
      rw [runAll_append] at hphase ⊢
      exact h.committing_of_discard htidy hrecord htmp hmore hphase
  cases hd with
  | published htidy hpublished =>
      rcases h.commit.recover_new hpublished with ⟨e, hrec⟩ | ⟨stage, hstage, hrec⟩
      · rw [hrec] at hdone
        exact hnil hdone
      · obtain rfl := h.stage_eq hstage
        rw [hrec] at hdone
        exact hforward htidy hpublished hdone
  | recorded htidy hd hrecord htmp =>
      cases h.commit.recovery hd with
      | failed _ hrec | before _ hrec | after _ hrec =>
          rw [hrec] at hdone
          exact hnil hdone
      | back _ hstage hrec | recorded _ hstage hrec =>
          obtain rfl := h.stage_eq hstage
          rw [hrec] at hdone
          exact h.committing_of_discard htidy hrecord htmp hdone hphase
      | forward hpublished hstage hrec =>
          obtain rfl := h.stage_eq hstage
          rw [hrec] at hdone
          exact hforward htidy hpublished hdone
  | settled _ hclean =>
      rw [recover_of_none (hclean _ (by simp [artifacts]))] at hdone
      exact hnil hdone

/-- A recovery that succeeds leaves no temporary file. -/
theorem Staged.clean_of_recover (h : b.Staged format sha256 outputPath)
    (hd : b.Committing format sha256 outputPath d) {txID : Nat}
    (hok : (recoverFollowCommit format sha256 outputPath d).2 = .ok txID) :
    b.Clean outputPath (runAll d (recoverFollowCommit format sha256 outputPath d).1) := by
  have hforward : b.Tidy d → b.Published format sha256 outputPath d →
      b.Clean outputPath (runAll d
        (writeTXIDFile format outputPath b.toTXID ++ discard outputPath b.stage)) :=
    fun htidy hpublished => by
      obtain ⟨htidy, -, htmp⟩ := h.written htidy hpublished.record
      rw [runAll_append]
      exact h.clean_discarded htidy htmp
  cases hd with
  | published htidy hpublished =>
      rcases h.commit.recover_new hpublished with ⟨e, hrec⟩ | ⟨stage, hstage, hrec⟩
      · rw [hrec] at hok
        cases hok
      · obtain rfl := h.stage_eq hstage
        rw [hrec]
        exact hforward htidy hpublished
  | recorded htidy hd hrecord htmp =>
      cases h.commit.recovery hd with
      | failed _ hrec =>
          rw [hrec] at hok
          cases hok
      | before hd hrec | after hd hrec =>
          simp only [seen, Prod.mk.injEq] at hd
          exact absurd hd.1 hrecord
      | back _ hstage hrec | recorded _ hstage hrec =>
          obtain rfl := h.stage_eq hstage
          rw [hrec]
          exact h.clean_discarded htidy htmp
      | forward hpublished hstage hrec =>
          obtain rfl := h.stage_eq hstage
          rw [hrec]
          exact hforward htidy hpublished
  | settled _ hclean =>
      rw [recover_of_none (hclean _ (by simp [artifacts]))]
      exact hclean

/-! ## The crash of a batch -/

theorem Staged.ops_eq (h : b.Staged format sha256 outputPath) :
    b.ops format sha256 outputPath = b.staging ++ commitOps format outputPath b.stage b.recordTmp
      b.toTXID (b.commit.record format sha256) := by
  have hprepare : prepareCommit format sha256 outputPath b.stage b.fromTXID b.toTXID
      b.commit.start = .ok (b.commit.record format sha256) := h.commit.prepare
  rw [ops, commitFollowStaged, hprepare]

theorem Staged.commitOps_prefix (h : b.Staged format sha256 outputPath)
    (hdone : done <+: commitOps format outputPath b.stage b.recordTmp b.toTXID
      (b.commit.record format sha256)) :
    done <+: (commitFollowStaged format sha256 outputPath b.commit.stage b.commit.recordTmp
      b.commit.fromTXID b.commit.toTXID b.commit.start).1 := by
  rw [commitFollowStaged, h.commit.prepare]
  exact hdone

/-- The staging does not touch the record. -/
theorem Staged.notMem_staging (h : b.Staged format sha256 outputPath) {op : DirOp}
    (hop : op ∈ b.staging) : followCommitPath outputPath ∉ op.names := by
  intro hin
  rcases names_of_mem_staging hop hin with heq | ⟨f, hf, heq⟩
  · exact h.stage_ne_followCommitPath heq.symm
  · exact (h.journals f hf).2.2.2 (by simp [kept, ← heq])

/-- The record is in place. -/
theorem Staged.prepared (h : b.Staged format sha256 outputPath) {data : Bytes}
    (hd : d = Function.update (Function.update b.commit.start b.recordTmp none)
      (followCommitPath outputPath) (some data)) :
    b.Tidy d ∧ d (followCommitPath outputPath) ≠ none ∧ d (txidTmpPath outputPath) = none ∧
      d b.stage = some b.new := by
  have hmem : followCommitPath outputPath ∈ b.stage :: txidTmpPath outputPath :: kept outputPath :=
    by simp [kept]
  obtain ⟨hrecordTmp, hjournals⟩ := h.ne_of_mem hmem
  subst hd
  refine ⟨⟨?_, fun f hf => ?_⟩, ?_, ?_, ?_⟩
  · rw [Function.update_of_ne hrecordTmp.symm, Function.update_self]
  · rw [Function.update_of_ne (hjournals f hf).symm,
      Function.update_of_ne (h.journals f hf).2.1]
    refine h.clean_staged ?_ (h.journals f hf).1
    simp only [artifacts, List.mem_cons]
    exact Or.inr (Or.inr (Or.inr (Or.inr (List.mem_map_of_mem hf))))
  · rw [Function.update_self]
    exact Option.some_ne_none _
  · rw [Function.update_of_ne followCommitPath_ne_txidTmpPath.symm,
      Function.update_of_ne h.recordTmp_ne.symm]
    exact h.clean_staged (by simp [artifacts]) h.stage_ne_txidTmpPath.symm
  · rw [Function.update_of_ne h.stage_ne_followCommitPath,
      show Function.update b.commit.start b.recordTmp none b.stage = b.commit.start b.stage from
        Function.update_of_ne h.commit.stage_ne ..]
    exact h.commit.staged

theorem Staged.tidy_rename (h : b.Staged format sha256 outputPath) (hd : b.Tidy d) :
    b.Tidy (run d (rename b.stage outputPath)) := by
  have htidy : b.Tidy (runAll d [rename b.stage outputPath]) :=
    h.tidy_runAll hd fun op hop name hin => by
      obtain rfl := List.mem_singleton.mp hop
      rcases List.mem_pair.mp hin with rfl | rfl <;> simp [kept]
  exact htidy

/-- A crash after the rename of the database. -/
theorem Staged.committing_of_rename (h : b.Staged format sha256 outputPath) (hd : b.Tidy d)
    (hstage : d b.stage = none) (hpublished : b.Published format sha256 outputPath d)
    (hdone : done <+: writeTXIDFile format outputPath b.toTXID ++
      [remove (followCommitPath outputPath)])
    (hphase : b.commit.Phase format sha256 outputPath (runAll d done)) :
    b.Committing format sha256 outputPath (runAll d done) := by
  rcases prefix_append_cases hdone with hdone | ⟨last, hlast, rfl⟩
  · exact h.committing_of_write hd hpublished hdone hphase
  obtain ⟨htidy, hrecord, htmp⟩ := h.written hd hpublished.record
  rw [runAll_append] at hphase ⊢
  rcases List.prefix_cons_iff.mp hlast with rfl | ⟨rest, rfl, hnil⟩
  · exact .recorded htidy hphase hrecord htmp
  · obtain rfl := List.prefix_nil.mp hnil
    refine .settled hphase (h.clean_removed htidy ?_ htmp)
    rw [runAll_of_notMem, hstage]
    intro op hop hin
    have hmem : b.stage ∉ kept outputPath := h.commit.stage_notMem
    rcases names_of_mem_publish hop hin with heq | heq
    · exact h.stage_ne_txidTmpPath heq
    · exact hmem (by simp [kept, heq])

/-- A crash after the record was put in place. -/
theorem Staged.committing_of_commit (h : b.Staged format sha256 outputPath)
    (hdone : done <+: b.ops format sha256 outputPath)
    (hrename : rename b.recordTmp (followCommitPath outputPath) ∈ done) :
    b.Committing format sha256 outputPath (runAll b.start done) := by
  rw [h.ops_eq] at hdone
  rcases prefix_append_cases hdone with hdone | ⟨more, hmore, rfl⟩
  · exact absurd (by simp [names]) (h.notMem_staging (hdone.subset hrename))
  have hrename : rename b.recordTmp (followCommitPath outputPath) ∈ more :=
    (List.mem_append.mp hrename).resolve_left fun hin =>
      h.notMem_staging hin (by simp [names])
  have hphase : b.commit.Phase format sha256 outputPath (runAll b.commit.start more) :=
    h.commit.phase_of_commit (h.commitOps_prefix hmore)
  have hne : b.recordTmp ≠ followCommitPath outputPath := by
    intro heq
    have hmem : b.recordTmp ∉ kept outputPath := h.commit.recordTmp_notMem
    simp [kept, heq] at hmem
  rw [runAll_append]
  change b.Committing format sha256 outputPath (runAll b.commit.start more)
  rcases prefix_append_cases hmore with hmore | ⟨last, hlast, rfl⟩
  · rcases runAll_publish_prefix hne hmore b.commit.start with ⟨hnot, -⟩ | ⟨-, hall⟩
    · exact absurd hrename hnot
    · obtain ⟨htidy, hrecord, htmp, -⟩ := h.prepared hall
      exact .recorded htidy hphase hrecord htmp
  obtain ⟨htidy, hrecord, htmp, hstaged⟩ := h.prepared (runAll_publish hne b.commit.start
    (b.commit.record format sha256).encodeRecord)
  rw [runAll_append] at hphase ⊢
  rcases List.prefix_cons_iff.mp hlast with rfl | ⟨rest, rfl, hrest⟩
  · rw [runAll_nil] at hphase ⊢
    exact .recorded htidy hphase hrecord htmp
  rw [runAll_cons] at hphase ⊢
  have hstage : b.stage ∉ kept outputPath := h.commit.stage_notMem
  have hrecordTmp : b.recordTmp ∉ kept outputPath := h.commit.recordTmp_notMem
  have hseen : seen outputPath (runAll b.commit.start (publish b.recordTmp
      (followCommitPath outputPath) (b.commit.record format sha256).encodeRecord)) =
      (some (b.commit.record format sha256).encodeRecord, b.commit.old,
        b.commit.start (txidPath outputPath)) :=
    seen_published h.commit.seen_start hrecordTmp
  refine h.committing_of_rename (h.tidy_rename htidy) (run_rename_old ?_) ?_ hrest hphase
  · rintro heq
    simp [kept, heq] at hstage
  · rw [Published, seen_rename hseen hstage hstaged]
    rfl

/-- Before that, the stage is there without a record. -/
theorem Staged.stage_left (h : b.Staged format sha256 outputPath)
    (hdone : done <+: b.ops format sha256 outputPath) (hne : done ≠ [])
    (hrename : rename b.recordTmp (followCommitPath outputPath) ∉ done) :
    runAll b.start done b.stage ≠ none ∧
      runAll b.start done (followCommitPath outputPath) = none := by
  rw [h.ops_eq] at hdone
  have hclean : b.start (followCommitPath outputPath) = none := h.clean _ (by simp [artifacts])
  have hstart : b.commit.start (followCommitPath outputPath) = none := h.commit.noRecord
  have hkept : ∀ done, done <+: b.staging →
      runAll b.start done (followCommitPath outputPath) = none := fun done hdone => by
    rw [runAll_of_notMem fun op hop => h.notMem_staging (hdone.subset hop), hclean]
  have hjournals : ∀ f ∈ b.files, f.journal ≠ b.stage := fun f hf => (h.journals f hf).1
  rcases prefix_append_cases hdone with hdone | ⟨more, hmore, rfl⟩
  · exact ⟨stage_ne_none hjournals hdone hne b.start, hkept done hdone⟩
  have hnot : rename b.recordTmp (followCommitPath outputPath) ∉ more := fun hin =>
    hrename (List.mem_append_right _ hin)
  have hpublish : more <+: publish b.recordTmp (followCommitPath outputPath)
      (b.commit.record format sha256).encodeRecord := by
    rcases prefix_append_cases hmore with hmore | ⟨last, -, rfl⟩
    · exact hmore
    · exact absurd (List.mem_append_left _ (List.mem_append_right _ List.mem_cons_self)) hnot
  have hne : b.recordTmp ≠ followCommitPath outputPath := by
    intro heq
    have hmem : b.recordTmp ∉ kept outputPath := h.commit.recordTmp_notMem
    simp [kept, heq] at hmem
  rcases runAll_publish_prefix hne hpublish b.commit.start with ⟨-, hsame⟩ | ⟨hin, -⟩
  · have hstaged : b.commit.start b.stage = some b.new := h.commit.staged
    rw [runAll_append]
    change runAll b.commit.start more b.stage ≠ none ∧
      runAll b.commit.start more (followCommitPath outputPath) = none
    rw [hsame b.stage h.commit.stage_ne, hstaged, hsame _ hne.symm]
    exact ⟨Option.some_ne_none _, hstart⟩
  · exact absurd hin hnot

/-- Recovery finds no record, and does nothing. -/
theorem recovered_of_none {d' : Directory} {txID : Nat}
    (hd : d (followCommitPath outputPath) = none)
    (hrec : Crash.Recovered DirOp.run (recoverFollowCommit format sha256 outputPath) d d' txID) :
    d' = d := by
  refine hrec.rule (I := fun d' => d' = d) (Q := fun d' _ => d' = d) ?_ ?_ rfl
  · rintro d' done rfl hdone
    rw [recover_of_none hd] at hdone
    obtain rfl := List.prefix_nil.mp hdone
    rfl
  · rintro d' txID rfl -
    rw [recover_of_none hd]
    rfl

end FollowBatch

/-- A recovery that succeeds leaves no temporary file of a batch exactly if the crash came before
the stage was created or after the record was put in place. -/
theorem clean_iff {b : FollowBatch} (h : b.Staged format sha256 outputPath)
    (hcrash : done <+: b.ops format sha256 outputPath) {d' : Directory} {txID : Nat}
    (hrec : Crash.Recovered DirOp.run (recoverFollowCommit format sha256 outputPath)
      (runAll b.start done) d' txID) :
    b.Clean outputPath d' ↔
      done = [] ∨ rename b.recordTmp (followCommitPath outputPath) ∈ done := by
  constructor
  · intro hclean
    by_contra hnot
    obtain ⟨hne, hrename⟩ := not_or.mp hnot
    obtain ⟨hstage, hrecord⟩ := h.stage_left hcrash hne hrename
    rw [FollowBatch.recovered_of_none hrecord hrec] at hclean
    exact hstage (hclean _ List.mem_cons_self)
  · rintro (rfl | hrename)
    · rw [FollowBatch.recovered_of_none (h.clean _ (by simp [FollowBatch.artifacts])) hrec]
      exact h.clean
    · exact hrec.rule (I := b.Committing format sha256 outputPath) (Q := fun d' _ =>
          b.Clean outputPath d')
        (fun hd hdone => h.committing_of_recover hd hdone) (fun hd hok => h.clean_of_recover hd hok)
        (h.committing_of_commit hcrash hrename)

namespace OneByte

/-- A batch of one LTX file for the database of one byte. -/
def batch : FollowBatch where
  start := fun name =>
    if name = ascii "db" then some [7]
    else if name = ascii "db-txid" then some (txidFile txidFormat 1)
    else none
  stage := ascii ".db-follow-5"
  recordTmp := ascii ".db-follow-record-6"
  content := [7]
  files := [⟨ascii ".litestream-follow-9", [0, 0, 0, 1, 8], [.writeAt 0 [8]]⟩]
  old := some [7]
  new := [8]
  fromTXID := 1
  toTXID := 2

theorem batch_staged : batch.Staged txidFormat digest (ascii "db") where
  clean := by
    rw [FollowBatch.Clean]
    decide +kernel
  commit :=
    { generation := .present (by decide +kernel) (by decide +kernel) (by decide)
      staged := by decide +kernel
      noRecord := by decide +kernel
      noRecordTmp := by decide +kernel
      lt := by decide
      toTXID_lt := by decide
      stage_isTemp := ⟨5, by decide +kernel⟩
      recordTmp_isTemp := ⟨6, by decide +kernel⟩
      distinguished := by
        rintro database ⟨⟩ -
        decide +kernel }
  journals := by decide +kernel
  name := by decide

/-- A crash right after the stage was created. -/
def created : List DirOp := [create batch.stage]

theorem created_prefix : created <+: batch.ops txidFormat digest (ascii "db") := ⟨_, rfl⟩

theorem created_recovered :
    Crash.Recovered DirOp.run (recoverFollowCommit txidFormat digest (ascii "db"))
      (runAll batch.start created) (runAll batch.start created) 1 := by
  have hnone : runAll batch.start created (followCommitPath (ascii "db")) = none := by
    decide +kernel
  have hok : (recoverFollowCommit txidFormat digest (ascii "db")
      (runAll batch.start created)).2 = .ok 1 := by
    decide +kernel
  have hrec : Crash.Recovered DirOp.run (recoverFollowCommit txidFormat digest (ascii "db"))
      (runAll batch.start created) _ 1 := .done hok
  rwa [recover_of_none hnone] at hrec

end OneByte

theorem clean_iff_created :
    OneByte.batch.Clean (ascii "db") (runAll OneByte.batch.start OneByte.created) ↔
      OneByte.created = [] ∨
        rename OneByte.batch.recordTmp (followCommitPath (ascii "db")) ∈ OneByte.created :=
  clean_iff OneByte.batch_staged OneByte.created_prefix OneByte.created_recovered

/-- The stage stays. -/
theorem not_clean : ¬ ∀ (b : FollowBatch) (done : List DirOp) (d : Directory) (txID : Nat),
    b.Staged txidFormat OneByte.digest (ascii "db") →
    done <+: b.ops txidFormat OneByte.digest (ascii "db") →
    Crash.Recovered DirOp.run (recoverFollowCommit txidFormat OneByte.digest (ascii "db"))
      (runAll b.start done) d txID →
    ∀ name ∈ [b.stage, b.recordTmp, txidTmpPath (ascii "db"), followCommitPath (ascii "db")],
      d name = none := by
  intro h
  have hstage := h OneByte.batch OneByte.created _ 1 OneByte.batch_staged OneByte.created_prefix
    OneByte.created_recovered OneByte.batch.stage List.mem_cons_self
  exact absurd hstage (by decide +kernel)

end Litestream
