import Mathlib
import Litestream.Lib.Run
import Litestream.Lib.Bytes
import Litestream.Compaction.Retention

/-!
# The cached position of a database

`DB.Pos` computes the position of a database from the newest level 0 file and keeps it until level 0
changes.  A sync sets the cached position, and what deletes or fetches level 0 files has to drop it.

`Coherent` says that a cached position is the one of the files on disk.  `coherent_iff` says that a
run of these operations, each of which may fail at any point, stays coherent exactly when no
`RemoveAll` fails after it has changed the position of the level 0 directory.

The LTX package is a parameter (`Codec`).
-/

namespace Litestream

namespace Position

/-! ## LTX files -/

/-- A replication position. -/
structure Pos where
  txID : Nat
  postApplyChecksum : Nat
deriving DecidableEq, Repr

/-- What the LTX package makes of a transaction, and of the content of a file. -/
structure Codec (Body : Type) where
  /-- The file of a transaction and its position, unless the header is invalid. -/
  encode : Nat → Body → Option (Bytes × Pos)
  /-- The position of a file that passes verification. -/
  decode : Bytes → Option Pos
  decode_encode : ∀ {txID body data pos}, encode txID body = some (data, pos) →
    decode data = some pos
  encode_txID : ∀ {txID body data pos}, encode txID body = some (data, pos) →
    1 ≤ txID ∧ txID < txidLimit ∧ pos.txID = txID

open Run

variable {Body : Type} {codec : Codec Body}

/-- A file under the name of its transactions.  Its content may be corrupt. -/
structure LTXFile (codec : Codec Body) where
  minTXID : Nat
  maxTXID : Nat
  data : Bytes
  one_le : 1 ≤ minTXID
  min_le_max : minTXID ≤ maxTXID
  max_lt : maxTXID < txidLimit
  named : ∀ pos, codec.decode data = some pos → pos.txID = maxTXID

namespace LTXFile

/-- The order of file names. -/
def NameLT (f g : LTXFile codec) : Prop :=
  f.minTXID < g.minTXID ∨ f.minTXID = g.minTXID ∧ f.maxTXID < g.maxTXID

instance : DecidableRel (@NameLT Body codec) := fun f g =>
  inferInstanceAs (Decidable (f.minTXID < g.minTXID ∨ _))

theorem named_of_encode {txID : Nat} {body : Body} {data : Bytes} {pos : Pos}
    (h : codec.encode txID body = some (data, pos)) (pos' : Pos)
    (h' : codec.decode data = some pos') : pos'.txID = txID := by
  rw [codec.decode_encode h] at h'
  cases h'
  exact (codec.encode_txID h).2.2

/-- The file that a sync writes. -/
def ofEncode {txID : Nat} {body : Body} {data : Bytes} {pos : Pos}
    (h : codec.encode txID body = some (data, pos)) : LTXFile codec :=
  ⟨txID, txID, data, (codec.encode_txID h).1, Nat.le_refl txID, (codec.encode_txID h).2.1,
    named_of_encode h⟩

/-- Puts a file in its place in a directory.  It replaces a file of its name. -/
def insert (f : LTXFile codec) : List (LTXFile codec) → List (LTXFile codec)
  | [] => [f]
  | g :: gs =>
      if f.NameLT g then f :: g :: gs else if g.NameLT f then g :: insert f gs else f :: gs

variable {f g h : LTXFile codec} {files : List (LTXFile codec)}

theorem NameLT.trans (hfg : f.NameLT g) (hgh : g.NameLT h) : f.NameLT h := by
  simp only [NameLT] at *
  omega

theorem mem_of_mem_insert (hg : g ∈ insert f files) : g = f ∨ g ∈ files := by
  induction files with
  | nil => exact Or.inl (List.mem_singleton.mp hg)
  | cons h files ih =>
      rw [insert] at hg
      split at hg
      · exact List.mem_cons.mp hg
      split at hg
      · rcases List.mem_cons.mp hg with rfl | hg
        · exact Or.inr List.mem_cons_self
        · exact (ih hg).imp_right (List.mem_cons_of_mem h)
      · exact (List.mem_cons.mp hg).imp_right (List.mem_cons_of_mem h)

theorem mem_insert_self (f : LTXFile codec) (files : List (LTXFile codec)) :
    f ∈ insert f files := by
  induction files with
  | nil => exact List.mem_singleton_self f
  | cons h files ih =>
      rw [insert]
      split
      · exact List.mem_cons_self
      split
      · exact List.mem_cons_of_mem h ih
      · exact List.mem_cons_self

theorem pairwise_insert (f : LTXFile codec) (hfiles : files.Pairwise NameLT) :
    (insert f files).Pairwise NameLT := by
  induction files with
  | nil => exact List.pairwise_singleton NameLT f
  | cons h files ih =>
      obtain ⟨hlt, hrest⟩ := List.pairwise_cons.mp hfiles
      rw [insert]
      split
      · next hfh =>
          refine List.pairwise_cons.mpr ⟨fun g hg => ?_, hfiles⟩
          rcases List.mem_cons.mp hg with rfl | hg
          · exact hfh
          · exact hfh.trans (hlt g hg)
      split
      · next hhf =>
          refine List.pairwise_cons.mpr ⟨fun g hg => ?_, ih hrest⟩
          rcases mem_of_mem_insert hg with rfl | hg
          · exact hhf
          · exact hlt g hg
      · next hfh hhf =>
          -- the two have the same name
          refine List.pairwise_cons.mpr ⟨fun g hg => ?_, hrest⟩
          have hhg := hlt g hg
          simp only [NameLT] at *
          omega

end LTXFile

/-! ## Level directories -/

/-- The LTX files in the directory of a level, in the order of `os.ReadDir`.  Names that are not
those of LTX files do not count. -/
structure LevelDir (codec : Codec Body) where
  files : List (LTXFile codec)
  sorted : files.Pairwise LTXFile.NameLT

inductive PosError where
  | readDir
  | openFile
  | verify
deriving DecidableEq, Repr

namespace LevelDir

def empty : LevelDir codec := ⟨[], List.Pairwise.nil⟩

def insert (dir : LevelDir codec) (f : LTXFile codec) : LevelDir codec :=
  ⟨LTXFile.insert f dir.files, LTXFile.pairwise_insert f dir.sorted⟩

/-- The directory with some of its files. -/
def filter (dir : LevelDir codec) (left : LTXFile codec → Bool) : LevelDir codec :=
  ⟨dir.files.filter left, dir.sorted.filter left⟩

/-- The file of a name. -/
def file (dir : LevelDir codec) (minTXID maxTXID : Nat) : Option (LTXFile codec) :=
  dir.files.find? fun f => f.minTXID = minTXID ∧ f.maxTXID = maxTXID

/-- Removes the file of a name. -/
def remove (dir : LevelDir codec) (minTXID maxTXID : Nat) : LevelDir codec :=
  dir.filter fun f => ¬ (f.minTXID = minTXID ∧ f.maxTXID = maxTXID)

/-- One step of `maxLTX`. -/
def nextMax (m : Nat × Nat) (f : LTXFile codec) : Nat × Nat :=
  if m.2 < f.maxTXID then (f.minTXID, f.maxTXID) else m

/-- The name of the file with the highest TXID. -/
def maxLTX (dir : LevelDir codec) : Nat × Nat := dir.files.foldl nextMax (0, 0)

/-- The position of the file with the highest TXID. -/
def position (dir : LevelDir codec) : Except PosError Pos :=
  let (minTXID, maxTXID) := dir.maxLTX
  if minTXID = 0 then .ok ⟨0, 0⟩
  else
    match dir.file minTXID maxTXID with
    | none => .error .openFile
    | some f =>
        match codec.decode f.data with
        | none => .error .verify
        | some pos => .ok pos

variable {dir : LevelDir codec} {f : LTXFile codec} {pos : Pos}

/-- A scan from a name with a higher TXID ends there or where the other ends. -/
theorem foldl_maxLTX_of_le (files : List (LTXFile codec)) {m n : Nat × Nat} (h : m.2 ≤ n.2) :
    files.foldl nextMax n = n ∨ files.foldl nextMax n = files.foldl nextMax m := by
  induction files generalizing m n with
  | nil => exact Or.inl rfl
  | cons f files ih =>
      rw [List.foldl_cons, List.foldl_cons, nextMax, nextMax]
      by_cases hlt : n.2 < f.maxTXID
      · rw [if_pos hlt, if_pos (Nat.lt_of_le_of_lt h hlt)]
        exact Or.inr rfl
      · rw [if_neg hlt]
        refine ih ?_
        split
        · exact Nat.not_lt.mp hlt
        · exact h

/-- A scan ends at the same name without other files. -/
theorem foldl_maxLTX_filter (left : LTXFile codec → Bool) (files : List (LTXFile codec))
    (m : Nat × Nat)
    (h : ∀ f ∈ files, files.foldl nextMax m = (f.minTXID, f.maxTXID) → left f = true) :
    (files.filter left).foldl nextMax m = files.foldl nextMax m := by
  induction files generalizing m with
  | nil => rfl
  | cons f files ih =>
      have hrest := ih (nextMax m f) fun g hg => h g (List.mem_cons_of_mem f hg)
      by_cases hf : left f = true
      · rw [List.filter_cons_of_pos hf]
        exact hrest
      · rw [List.filter_cons_of_neg hf, List.foldl_cons]
        -- the scan does not end at the file that is left out
        have hne : files.foldl nextMax (nextMax m f) ≠ (f.minTXID, f.maxTXID) :=
          fun heq => hf (h f List.mem_cons_self heq)
        rw [nextMax] at hne ⊢
        by_cases hlt : m.2 < f.maxTXID
        · rw [if_pos hlt] at hne ⊢
          have heq := (foldl_maxLTX_of_le files (n := (f.minTXID, f.maxTXID))
            (Nat.le_of_lt hlt)).resolve_left hne
          rw [heq]
          refine ih m fun g hg hend => h g (List.mem_cons_of_mem f hg) ?_
          rw [List.foldl_cons, nextMax, if_pos hlt, heq, hend]
        · rw [if_neg hlt]
          refine ih m fun g hg hend => h g (List.mem_cons_of_mem f hg) ?_
          rw [List.foldl_cons, nextMax, if_neg hlt, hend]

theorem foldl_maxLTX (files : List (LTXFile codec)) (m : Nat × Nat) :
    let r := files.foldl nextMax m
    m.2 ≤ r.2 ∧ (∀ g ∈ files, g.maxTXID ≤ r.2) ∧
      (r = m ∨ ∃ f ∈ files, r = (f.minTXID, f.maxTXID)) := by
  induction files generalizing m with
  | nil => simp
  | cons h files ih =>
      obtain ⟨hle, hall, hr⟩ := ih (nextMax m h)
      rw [List.foldl_cons]
      dsimp only
      generalize files.foldl nextMax (nextMax m h) = r at *
      rw [nextMax] at hle hr
      split at hle
      · next hlt =>
          rw [if_pos hlt] at hr
          refine ⟨Nat.le_trans (Nat.le_of_lt hlt) hle, fun g hg => ?_, Or.inr ?_⟩
          · rcases List.mem_cons.mp hg with rfl | hg
            · exact hle
            · exact hall g hg
          · rcases hr with rfl | ⟨f, hf, rfl⟩
            · exact ⟨h, List.mem_cons_self, rfl⟩
            · exact ⟨f, List.mem_cons_of_mem h hf, rfl⟩
      · next hge =>
          rw [if_neg hge] at hr
          refine ⟨hle, fun g hg => ?_, hr.imp_right ?_⟩
          · rcases List.mem_cons.mp hg with rfl | hg
            · omega
            · exact hall g hg
          · rintro ⟨f, hf, rfl⟩
            exact ⟨f, List.mem_cons_of_mem h hf, rfl⟩

/-- `maxLTX` finds the file with the highest TXID. -/
theorem maxLTX_cases (dir : LevelDir codec) :
    dir.files = [] ∧ dir.maxLTX = (0, 0) ∨
      ∃ f ∈ dir.files, dir.maxLTX = (f.minTXID, f.maxTXID) ∧
        ∀ g ∈ dir.files, g.maxTXID ≤ f.maxTXID := by
  obtain ⟨-, hall, hr⟩ := foldl_maxLTX dir.files (0, 0)
  rcases hr with hr | ⟨f, hf, hr⟩
  · refine Or.inl ⟨List.eq_nil_iff_forall_not_mem.mpr fun g hg => ?_, hr⟩
    have hle := hall g hg
    rw [hr] at hle
    have := g.one_le
    have := g.min_le_max
    omega
  · refine Or.inr ⟨f, hf, hr, fun g hg => ?_⟩
    have hle := hall g hg
    rwa [hr] at hle

/-- Names are unique. -/
theorem file_of_mem (hf : f ∈ dir.files) : dir.file f.minTXID f.maxTXID = some f := by
  have hsorted := dir.sorted
  rw [file]
  generalize dir.files = files at *
  induction files with
  | nil => cases hf
  | cons h files ih =>
      obtain ⟨hlt, hrest⟩ := List.pairwise_cons.mp hsorted
      rcases List.mem_cons.mp hf with rfl | hf
      · exact List.find?_cons_of_pos (by simp)
      · rw [List.find?_cons_of_neg, ih hf hrest]
        have hhf := hlt f hf
        simp only [LTXFile.NameLT] at hhf
        simp only [decide_eq_true_eq]
        omega

/-- The position of a directory is that of a file with its highest TXID. -/
theorem position_cases (dir : LevelDir codec) :
    dir.files = [] ∧ dir.maxLTX = (0, 0) ∧ dir.position = .ok ⟨0, 0⟩ ∨
      ∃ f ∈ dir.files, dir.maxLTX = (f.minTXID, f.maxTXID) ∧
        (∀ g ∈ dir.files, g.maxTXID ≤ f.maxTXID) ∧
        dir.position = (codec.decode f.data).elim (.error .verify) .ok := by
  rcases dir.maxLTX_cases with ⟨hnil, hmax⟩ | ⟨f, hf, hmax, hall⟩
  · refine Or.inl ⟨hnil, hmax, ?_⟩
    rw [position, hmax]
    rfl
  · refine Or.inr ⟨f, hf, hmax, hall, ?_⟩
    have hne : f.minTXID ≠ 0 := Nat.one_le_iff_ne_zero.mp f.one_le
    rw [position, hmax]
    dsimp only
    rw [if_neg hne, file_of_mem hf]
    cases hdecode : codec.decode f.data with
    | none => simp only [hdecode, Option.elim_none]
    | some pos => simp only [hdecode, Option.elim_some]

theorem le_of_position (h : dir.position = .ok pos) (hf : f ∈ dir.files) :
    f.maxTXID ≤ pos.txID := by
  rcases dir.position_cases with ⟨hnil, -⟩ | ⟨g, -, -, hall, hpos⟩
  · rw [hnil] at hf
    cases hf
  · rw [hpos] at h
    cases hdecode : codec.decode g.data with
    | none =>
        rw [hdecode] at h
        cases h
    | some pos' =>
        rw [hdecode] at h
        cases h
        rw [g.named pos hdecode]
        exact hall f hf

theorem lt_of_position (h : dir.position = .ok pos) : pos.txID < txidLimit := by
  rcases dir.position_cases with ⟨-, -, hpos⟩ | ⟨g, -, -, -, hpos⟩
  · rw [hpos] at h
    cases h
    decide
  · rw [hpos] at h
    cases hdecode : codec.decode g.data with
    | none =>
        rw [hdecode] at h
        cases h
    | some pos' =>
        rw [hdecode] at h
        cases h
        rw [g.named pos hdecode]
        exact g.max_lt

/-- A file of a higher TXID than all others gives a directory its position. -/
theorem position_insert {txID : Nat} {body : Body} {data : Bytes}
    (h : codec.encode txID body = some (data, pos)) (hlt : ∀ g ∈ dir.files, g.maxTXID < txID) :
    (dir.insert (LTXFile.ofEncode h)).position = .ok pos := by
  have hmem : LTXFile.ofEncode h ∈ (dir.insert (LTXFile.ofEncode h)).files :=
    LTXFile.mem_insert_self _ _
  rcases (dir.insert (LTXFile.ofEncode h)).position_cases with ⟨hnil, -⟩ | ⟨g, hg, -, hall, hpos⟩
  · rw [hnil] at hmem
    cases hmem
  · rcases LTXFile.mem_of_mem_insert hg with rfl | hg
    · rw [hpos, show (LTXFile.ofEncode h).data = data from rfl, codec.decode_encode h]
      rfl
    · have hle : txID ≤ g.maxTXID := hall _ hmem
      exact absurd (hlt g hg) (Nat.not_lt.mpr hle)

/-- A directory keeps its position if its newest file is left. -/
theorem position_filter {left : LTXFile codec → Bool}
    (h : ∀ f ∈ dir.files, dir.maxLTX = (f.minTXID, f.maxTXID) → left f = true) :
    (dir.filter left).position = dir.position := by
  have hmax : (dir.filter left).maxLTX = dir.maxLTX := foldl_maxLTX_filter left dir.files (0, 0) h
  rw [position, position, hmax]
  rcases dir.maxLTX_cases with ⟨-, hname⟩ | ⟨f, hf, hname, -⟩
  · rw [hname]
    rfl
  · have hfile : (dir.filter left).file f.minTXID f.maxTXID = some f :=
      file_of_mem (List.mem_filter.mpr ⟨hf, h f hf hname⟩)
    rw [hname]
    dsimp only
    rw [hfile, file_of_mem hf]

end LevelDir

/-! ## The database -/

/-- The local LTX files of each level, and the cached position. -/
structure DB (codec : Codec Body) where
  levels : Nat → LevelDir codec
  pos : Option Pos

/-- Where a call of `Pos` fails before it looks at the file. -/
inductive PosFault where
  | readDir
  | openFile
deriving DecidableEq, Repr

/-- Where an operation fails. -/
inductive OpError where
  | pos (err : PosError)
  /-- A step before the rename of the file fails. -/
  | write
  | encode
  | rename
  | removeAll
  | replicaPosition
  | mkdirAll
  | fetch
  | list
  | deleteRemote
  | remove
deriving DecidableEq, Repr

/-- What the rename of a file does.  One that fails may have moved the file. -/
inductive Rename where
  | done
  | failed (moved : Bool)
deriving DecidableEq, Repr

namespace DB

/-- The position of the level 0 files on disk. -/
def position (db : DB codec) : Except PosError Pos := (db.levels 0).position

def invalidatePosCache (db : DB codec) : DB codec := { db with pos := none }

def setLevel (db : DB codec) (level : Nat) (dir : LevelDir codec) : DB codec :=
  { db with levels := Function.update db.levels level dir }

/-- The position of the database, from the cache if it is there. -/
def Pos (db : DB codec) (fault : Option PosFault) : Except PosError Position.Pos × DB codec :=
  match db.pos with
  | some pos => (.ok pos, db)
  | none =>
      if fault = some .readDir then (.error .readDir, db)
      else
        let (minTXID, maxTXID) := (db.levels 0).maxLTX
        if minTXID = 0 then (.ok ⟨0, 0⟩, db)
        else if fault = some .openFile then (.error .openFile, db)
        else
          match (db.levels 0).file minTXID maxTXID with
          | none => (.error .openFile, db)
          | some f =>
              match codec.decode f.data with
              | none => (.error .verify, db)
              | some pos => (.ok pos, { db with pos := some pos })

/-- What happens when a sync goes on from the position.  Before the rename it has written no more
than a temporary file. -/
inductive SyncOutcome (Body : Type) where
  | fails
  /-- There are no new pages. -/
  | skips
  | writes (body : Body) (rename : Rename)

/-- Writes the next level 0 file. -/
def sync (db : DB codec) (fault : Option PosFault) (outcome : SyncOutcome Body) :
    Except OpError Bool × DB codec :=
  match db.Pos fault with
  | (.error err, db) => (.error (.pos err), db)
  | (.ok pos, db) =>
      let txID := nextTXID pos.txID
      match outcome with
      | .fails => (.error .write, db)
      | .skips => (.ok false, db)
      | .writes body rename =>
          match h : codec.encode txID body with
          | none => (.error .encode, db)
          | some (_, encPos) =>
              let written := db.setLevel 0 ((db.levels 0).insert (LTXFile.ofEncode h))
              match rename with
              | .failed moved =>
                  (.error .rename, (if moved then written else db).invalidatePosCache)
              | .done => (.ok true, { written with pos := some encPos })

/-- Deletes a local file.  A file that cannot be removed stays. -/
def deleteLocalLTXFile (db : DB codec) (level minTXID maxTXID : Nat) (removeErr : Bool) :
    Except OpError Unit × DB codec :=
  if removeErr then (.error .remove, db)
  else
    let db := db.setLevel level ((db.levels level).remove minTXID maxTXID)
    (.ok (), if level = 0 then db.invalidatePosCache else db)

/-- What level 0 retention depends on. -/
structure RetentionEnv where
  l0Retention : Int
  now : Nat
  localModTime : FileInfo → Option Nat
  l1 : Option (List FileInfo)
  l0 : Option (List FileInfo)
  retentionEnabled : Bool
  deleteErr : Bool
  /-- The local files that cannot be removed. -/
  removeErr : FileInfo → Bool

/-- Deletes compacted level 0 files that are old enough, from the replica and on disk. -/
def EnforceL0RetentionByTime (db : DB codec) (env : RetentionEnv) :
    Except OpError Unit × DB codec :=
  if env.l0Retention ≤ 0 then (.ok (), db)
  else
    match env.l1 with
    | none => (.error .list, db)
    | some l1 =>
        if maxTXIDOf l1 = 0 then (.ok (), db)
        else
          match env.l0 with
          | none => (.error .list, db)
          | some l0 =>
              let deleted := Litestream.DB.enforceL0RetentionByTime env.l0Retention env.now
                env.localModTime l1 l0
              if deleted = [] then (.ok (), db)
              else if env.retentionEnabled = true ∧ env.deleteErr = true then
                (.error .deleteRemote, db)
              else
                let dir := deleted.foldl (fun (dir : LevelDir codec) info =>
                  if env.removeErr info then dir else dir.remove info.minTXID info.maxTXID)
                  (db.levels 0)
                (.ok (), (db.setLevel 0 dir).invalidatePosCache)

/-- Removes all local LTX files.  A `RemoveAll` that fails leaves any of them. -/
def ResetLocalState (db : DB codec) (removeAllErr : Option (Nat → LTXFile codec → Bool)) :
    Except OpError Unit × DB codec :=
  match removeAllErr with
  | some left => (.error .removeAll, { db with levels := fun n => (db.levels n).filter (left n) })
  | none => (.ok (), ({ db with levels := fun _ => .empty } : DB codec).invalidatePosCache)

/-- What the check against the replica depends on. -/
structure ReplicaEnv (codec : Codec Body) where
  posFault : Option PosFault
  /-- The newest level 0 file of the replica, if there is one. -/
  newest : Option (Option (LTXFile codec))
  /-- The files that are left if `RemoveAll` fails. -/
  removeAllErr : Option (LTXFile codec → Bool)
  mkdirErr : Bool
  /-- Whether the file cannot be read or written to its temporary file. -/
  fetchErr : Bool
  rename : Rename

/-- Replaces the local level 0 files by the newest one of the replica if that is ahead. -/
def checkDatabaseBehindReplica (db : DB codec) (env : ReplicaEnv codec) :
    Except OpError Unit × DB codec :=
  match db.Pos env.posFault with
  | (.error err, db) => (.error (.pos err), db)
  | (.ok dbPos, db) =>
      match env.newest with
      | none => (.error .replicaPosition, db)
      | some none => (.ok (), db)
      | some (some f) =>
          if f.maxTXID ≤ dbPos.txID then (.ok (), db)
          else
            match env.removeAllErr with
            | some left => (.error .removeAll, db.setLevel 0 ((db.levels 0).filter left))
            | none =>
                let db := (db.setLevel 0 .empty).invalidatePosCache
                if env.mkdirErr then (.error .mkdirAll, db)
                else if env.fetchErr then (.error .fetch, db)
                else
                  let fetched := db.setLevel 0 ((db.levels 0).insert f)
                  match env.rename with
                  | .failed moved => (.error .rename, if moved then fetched else db)
                  | .done => (.ok (), fetched.invalidatePosCache)

end DB

/-! ## Runs -/

/-- The operations on local level 0 files, and calls of `Pos` by others. -/
inductive Action (codec : Codec Body) where
  | pos (fault : Option PosFault)
  | sync (fault : Option PosFault) (outcome : DB.SyncOutcome Body)
  | deleteLocalLTXFile (level minTXID maxTXID : Nat) (removeErr : Bool)
  | enforceL0RetentionByTime (env : DB.RetentionEnv)
  | resetLocalState (removeAllErr : Option (Nat → LTXFile codec → Bool))
  | checkDatabaseBehindReplica (env : DB.ReplicaEnv codec)

def next (db : DB codec) : Action codec → DB codec
  | .pos fault => (db.Pos fault).2
  | .sync fault outcome => (db.sync fault outcome).2
  | .deleteLocalLTXFile level minTXID maxTXID removeErr =>
      (db.deleteLocalLTXFile level minTXID maxTXID removeErr).2
  | .enforceL0RetentionByTime env => (db.EnforceL0RetentionByTime env).2
  | .resetLocalState removeAllErr => (db.ResetLocalState removeAllErr).2
  | .checkDatabaseBehindReplica env => (db.checkDatabaseBehindReplica env).2

def step (db : DB codec) (a : Action codec) : Option (DB codec) := some (next db a)

/-! ## What is to be shown -/

/-- The cached position is the one of the files on disk, and `Pos` returns no other. -/
structure Coherent (db : DB codec) : Prop where
  cache : ∀ pos, db.pos = some pos → db.position = .ok pos
  reads : ∀ fault pos db', db.Pos fault = (.ok pos, db') → db.position = .ok pos

/-- The check finds the database behind the replica, and `RemoveAll` fails and leaves some files. -/
def FailsToRemove (db : DB codec) (env : DB.ReplicaEnv codec) (left : LTXFile codec → Bool) :
    Prop :=
  ∃ pos db' f, db.Pos env.posFault = (.ok pos, db') ∧ env.newest = some (some f) ∧
    pos.txID < f.maxTXID ∧ env.removeAllErr = some left

/-- No `RemoveAll` fails after it has changed the position of the level 0 directory. -/
def KeepsPosition (db : DB codec) : Action codec → Prop
  | .resetLocalState (some left) =>
      db.pos ≠ none → ((db.levels 0).filter (left 0)).position = (db.levels 0).position
  | .checkDatabaseBehindReplica env =>
      ∀ left, FailsToRemove db env left →
        ((db.levels 0).filter left).position = (db.levels 0).position
  | _ => True

variable {db db' : DB codec} {fault : Option PosFault} {pos : Position.Pos}

/-! ## The position -/

/-- A cached position is that of the files on disk. -/
def Cached (db : DB codec) : Prop := ∀ pos, db.pos = some pos → db.position = .ok pos

/-- `Pos` leaves the files as they are.  It returns their position, which is cached from then on
unless there are no files. -/
theorem pos_ok (hdb : Cached db) (h : db.Pos fault = (.ok pos, db')) :
    db'.levels = db.levels ∧ db.position = .ok pos ∧ Cached db' ∧
      (db'.pos = none → (db.levels 0).files = []) := by
  rw [DB.Pos] at h
  cases hpos : db.pos with
  | some pos' =>
      rw [hpos] at h
      cases h
      exact ⟨rfl, hdb pos hpos, hdb, fun hnone => by rw [hpos] at hnone; cases hnone⟩
  | none =>
      rw [hpos] at h
      dsimp only at h
      split at h
      · cases h
      rcases (db.levels 0).position_cases with ⟨hnil, hmax, hposition⟩ | ⟨f, hf, hmax, -, hposition⟩
      · rw [hmax] at h
        cases h
        exact ⟨rfl, hposition, hdb, fun _ => hnil⟩
      · have hne : f.minTXID ≠ 0 := Nat.one_le_iff_ne_zero.mp f.one_le
        rw [hmax] at h
        dsimp only at h
        rw [if_neg hne] at h
        split at h
        · cases h
        rw [LevelDir.file_of_mem hf] at h
        dsimp only at h
        cases hdecode : codec.decode f.data with
        | none =>
            rw [hdecode] at h
            cases h
        | some pos' =>
            rw [hdecode] at h hposition
            cases h
            refine ⟨rfl, hposition, fun pos' h' => ?_, fun hnone => by cases hnone⟩
            cases h'
            exact hposition

theorem pos_error {err : PosError} (h : db.Pos fault = (.error err, db')) : db' = db := by
  rw [DB.Pos] at h
  split at h
  · cases h
  split at h
  · cases h
    rfl
  dsimp only at h
  split at h
  · cases h
  split at h
  · cases h
    rfl
  split at h
  · cases h
    rfl
  split at h
  · cases h
    rfl
  · cases h

theorem coherent_iff_cached : Coherent db ↔ Cached db :=
  ⟨Coherent.cache, fun h => ⟨h, fun _ _ _ hpos => (pos_ok h hpos).2.1⟩⟩

theorem cached_of_none (h : db.pos = none) : Cached db := by
  intro pos hpos
  rw [h] at hpos
  cases hpos

/-- A cached position stays that of the files on disk when these keep their position. -/
theorem Cached.of_position (h : Cached db) (hpos : db'.pos = db.pos)
    (hposition : db'.position = db.position) : Cached db' := by
  intro pos hcached
  rw [hposition]
  exact h pos (hpos ▸ hcached)

/-! ## Operations -/

theorem cached_pos (h : Cached db) (fault : Option PosFault) : Cached (db.Pos fault).2 := by
  cases hpos : db.Pos fault with
  | mk result db' =>
      cases result with
      | error err => exact pos_error hpos ▸ h
      | ok pos => exact (pos_ok h hpos).2.2.1

/-- The next TXID is past those of all files. -/
theorem lt_nextTXID {dir : LevelDir codec} (h : dir.position = .ok pos)
    (hnext : 1 ≤ nextTXID pos.txID) {f : LTXFile codec} (hf : f ∈ dir.files) :
    f.maxTXID < nextTXID pos.txID := by
  have hle := LevelDir.le_of_position h hf
  have hlt := LevelDir.lt_of_position h
  rw [nextTXID, txidLimit] at *
  omega

theorem cached_sync (h : Cached db) (fault : Option PosFault) (outcome : DB.SyncOutcome Body) :
    Cached (db.sync fault outcome).2 := by
  rw [DB.sync]
  cases hpos : db.Pos fault with
  | mk result db' =>
      cases result with
      | error err => exact pos_error hpos ▸ h
      | ok pos =>
          obtain ⟨hlevels, hposition, hcached, -⟩ := pos_ok h hpos
          cases outcome with
          | fails => exact hcached
          | skips => exact hcached
          | writes body rename =>
              dsimp only
              split
              · exact hcached
              next data encPos hencode =>
                cases rename with
                | failed moved => exact cached_of_none rfl
                | done =>
                    have hinsert : ((db'.levels 0).insert (LTXFile.ofEncode hencode)).position =
                        .ok encPos := LevelDir.position_insert hencode fun g hg =>
                      lt_nextTXID hposition (codec.encode_txID hencode).1 (hlevels ▸ hg)
                    intro pos' h'
                    cases h'
                    rw [← hinsert]
                    exact congrArg LevelDir.position (Function.update_self 0 _ db'.levels)

theorem cached_deleteLocalLTXFile (h : Cached db) (level minTXID maxTXID : Nat)
    (removeErr : Bool) : Cached (db.deleteLocalLTXFile level minTXID maxTXID removeErr).2 := by
  rw [DB.deleteLocalLTXFile]
  split
  · exact h
  dsimp only
  split
  · exact cached_of_none rfl
  · next hlevel =>
      exact h.of_position rfl (congrArg LevelDir.position (Function.update_of_ne (Ne.symm hlevel) ..))

theorem cached_enforceL0RetentionByTime (h : Cached db) (env : DB.RetentionEnv) :
    Cached (db.EnforceL0RetentionByTime env).2 := by
  rw [DB.EnforceL0RetentionByTime]
  split
  · exact h
  cases env.l1 with
  | none => exact h
  | some l1 =>
      dsimp only
      split
      · exact h
      cases env.l0 with
      | none => exact h
      | some l0 =>
          dsimp only
          split
          · exact h
          split
          · exact h
          · exact cached_of_none rfl

/-- A reset keeps a cached position only if it fails. -/
theorem cached_resetLocalState_iff (h : Cached db)
    (removeAllErr : Option (Nat → LTXFile codec → Bool)) :
    Cached (db.ResetLocalState removeAllErr).2 ↔
      KeepsPosition db (.resetLocalState removeAllErr) := by
  cases removeAllErr with
  | none => exact iff_of_true (cached_of_none rfl) trivial
  | some left =>
      constructor
      · intro hcached hne
        obtain ⟨pos, hpos⟩ := Option.ne_none_iff_exists'.mp hne
        exact (hcached pos hpos).trans (h pos hpos).symm
      · intro hkeeps pos hpos
        have hposition := hkeeps (by rw [show db.pos = some pos from hpos]; simp)
        exact hposition.trans (h pos hpos)

/-- A `RemoveAll` of the check that fails leaves the cache with the position it found. -/
theorem checkDatabaseBehindReplica_fails {env : DB.ReplicaEnv codec} {left : LTXFile codec → Bool}
    (hfails : FailsToRemove db env left) : ∃ pos db', db.Pos env.posFault = (.ok pos, db') ∧
      (db.checkDatabaseBehindReplica env).2 = db'.setLevel 0 ((db'.levels 0).filter left) := by
  obtain ⟨pos, db', f, hpos, hnewest, hbehind, hremove⟩ := hfails
  refine ⟨pos, db', hpos, ?_⟩
  rw [DB.checkDatabaseBehindReplica, hpos]
  dsimp only
  rw [hnewest]
  dsimp only
  rw [if_neg (Nat.not_le.mpr hbehind), hremove]

/-- Without that the check keeps a cached position or drops it. -/
theorem cached_checkDatabaseBehindReplica (h : Cached db) {env : DB.ReplicaEnv codec}
    (hremove : ∀ left, ¬ FailsToRemove db env left) :
    Cached (db.checkDatabaseBehindReplica env).2 := by
  rw [DB.checkDatabaseBehindReplica]
  cases hpos : db.Pos env.posFault with
  | mk result db' =>
      cases result with
      | error err => exact pos_error hpos ▸ h
      | ok pos =>
          have hcached := (pos_ok h hpos).2.2.1
          dsimp only
          cases hnewest : env.newest with
          | none => exact hcached
          | some newest =>
              cases newest with
              | none => exact hcached
              | some f =>
                  dsimp only
                  split
                  · exact hcached
                  next hbehind =>
                    cases hleft : env.removeAllErr with
                    | some left =>
                        exact absurd ⟨pos, db', f, hpos, hnewest, Nat.not_le.mp hbehind, hleft⟩
                          (hremove left)
                    | none =>
                        dsimp only
                        split
                        · exact cached_of_none rfl
                        split
                        · exact cached_of_none rfl
                        cases env.rename with
                        | done => exact cached_of_none rfl
                        | failed moved => cases moved <;> exact cached_of_none rfl

theorem cached_checkDatabaseBehindReplica_iff (h : Cached db) (env : DB.ReplicaEnv codec) :
    Cached (db.checkDatabaseBehindReplica env).2 ↔
      KeepsPosition db (.checkDatabaseBehindReplica env) := by
  by_cases hfails : ∃ left, FailsToRemove db env left
  · obtain ⟨left, hfails⟩ := hfails
    obtain ⟨pos, db', hpos, hresult⟩ := checkDatabaseBehindReplica_fails hfails
    obtain ⟨hlevels, hposition, hcached, hnone⟩ := pos_ok h hpos
    have hleft : ∀ left', FailsToRemove db env left' → left' = left := by
      rintro left' ⟨-, -, -, -, -, -, hleft'⟩
      obtain ⟨-, -, -, -, -, -, hleft⟩ := hfails
      exact Option.some.inj (hleft'.symm.trans hleft)
    have hfiltered : (db'.setLevel 0 ((db'.levels 0).filter left)).position =
        ((db.levels 0).filter left).position := by
      rw [hlevels]
      exact congrArg LevelDir.position (Function.update_self 0 _ db'.levels)
    rw [hresult]
    constructor
    · rintro hafter left' hfails'
      obtain rfl := hleft left' hfails'
      cases hcache : db'.pos with
      | none =>
          -- there are no files
          have hnil := hnone hcache
          rw [LevelDir.position_filter]
          intro f hf
          rw [hnil] at hf
          cases hf
      | some pos' =>
          have hposition' : db.position = .ok pos' := by
            rw [← hcached pos' hcache, DB.position, DB.position, hlevels]
          rw [← hfiltered, hafter pos' hcache]
          exact hposition'.symm
    · intro hkeeps pos' hcache
      rw [hfiltered, hkeeps left hfails]
      have := hcached pos' hcache
      rwa [DB.position, hlevels] at this
  · exact iff_of_true (cached_checkDatabaseBehindReplica h (not_exists.mp hfails))
      fun left hleft => absurd ⟨left, hleft⟩ hfails

/-! ## Runs of operations -/

theorem cached_next_iff (h : Cached db) (a : Action codec) :
    Cached (next db a) ↔ KeepsPosition db a := by
  cases a with
  | pos fault => exact iff_of_true (cached_pos h fault) trivial
  | sync fault outcome => exact iff_of_true (cached_sync h fault outcome) trivial
  | deleteLocalLTXFile level minTXID maxTXID removeErr =>
      exact iff_of_true (cached_deleteLocalLTXFile h level minTXID maxTXID removeErr) trivial
  | enforceL0RetentionByTime env =>
      exact iff_of_true (cached_enforceL0RetentionByTime h env) trivial
  | resetLocalState removeAllErr => exact cached_resetLocalState_iff h removeAllErr
  | checkDatabaseBehindReplica env => exact cached_checkDatabaseBehindReplica_iff h env

/-- From an empty cache on, every operation of a run leaves a coherent position exactly when no
`RemoveAll` of the run fails after it has changed the position of the level 0 directory. -/
theorem coherent_iff (db : DB codec) (as : List (Action codec)) (hdb : db.pos = none) :
    Along step (fun db a => Coherent (next db a)) db as ↔ Along step KeepsPosition db as := by
  refine along_congr (I := Cached) (fun {s a s'} _ hcoherent hstep => ?_) (fun {s a} hs => ?_)
    (cached_of_none hdb)
  · obtain rfl := Option.some.inj hstep
    exact hcoherent.cache
  · rw [coherent_iff_cached, cached_next_iff hs]

/-- Files that have the bytes of their TXID. -/
def unaryEncode (txID : Nat) (_ : Unit) : Option (Bytes × Pos) :=
  if 1 ≤ txID ∧ txID < txidLimit then some (List.replicate txID 0, ⟨txID, 0⟩) else none

def unaryDecode (data : Bytes) : Option Pos := some ⟨data.length, 0⟩

theorem unary_roundtrip {txID : Nat} {body : Unit} {data : Bytes} {pos : Pos}
    (h : unaryEncode txID body = some (data, pos)) : unaryDecode data = some pos := by
  rw [unaryEncode] at h
  split at h
  · cases h
    rw [unaryDecode, List.length_replicate]
  · cases h

theorem unary_txID {txID : Nat} {body : Unit} {data : Bytes} {pos : Pos}
    (h : unaryEncode txID body = some (data, pos)) :
    1 ≤ txID ∧ txID < txidLimit ∧ pos.txID = txID := by
  rw [unaryEncode] at h
  split at h
  · next hrange =>
      cases h
      exact ⟨hrange.1, hrange.2, rfl⟩
  · cases h

def unary : Codec Unit := ⟨unaryEncode, unaryDecode, unary_roundtrip, unary_txID⟩

/-- A database without local files. -/
def fresh : DB unary := ⟨fun _ => .empty, none⟩

/-- A reset fails behind all but the newest of two files. -/
def newestLeft : List (Action unary) :=
  [.sync none (.writes () .done), .sync none (.writes () .done),
    .resetLocalState (some fun _ f => f.maxTXID = 2)]

theorem coherent_iff_newestLeft :
    Along step (fun db a => Coherent (next db a)) fresh newestLeft := by
  refine (coherent_iff fresh newestLeft rfl).mpr ⟨trivial, fun s hs => ⟨trivial, fun s' hs' => ?_⟩⟩
  obtain rfl := Option.some.inj hs
  obtain rfl := Option.some.inj hs'
  exact ⟨fun _ => by decide, fun _ _ => trivial⟩

/-- A reset fails when the only file is gone already. -/
def newestLost : List (Action unary) :=
  [.sync none (.writes () .done), .resetLocalState (some fun _ _ => false)]

/-- The cache keeps the position of a file that was removed. -/
theorem not_coherent : ¬ ∀ (codec : Codec Unit) (db : DB codec) (as : List (Action codec)),
    db.pos = none → Along step (fun db a => Coherent (next db a)) db as := by
  intro h
  have hrun := (h unary fresh newestLost rfl).2 _ rfl
  have hposition := hrun.1.cache ⟨1, 0⟩ rfl
  cases hposition

end Position

end Litestream
