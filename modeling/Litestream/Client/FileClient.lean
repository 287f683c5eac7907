import Mathlib
import Litestream.Client.Backends
import Litestream.Lib.Bytes

/-!
# The file client and the files that it stands for

The file client writes an LTX file next to its place, renames it and then sets its
modification time.  It deletes files one by one, and opens them at an offset.

A call may fail or the process may stop after any of these operations.  In every run the
directories stand for `Stored`: the files of a replica level by level, as the planner and
maintenance know them, with their bytes (`fileClient_refines`).  A file that was not written
to its end is not among them.
-/

namespace Litestream

namespace FileClient

/-! ## Directories -/

/-- A file of a level directory. -/
structure Entry where
  name : List Char
  data : Bytes
  modTime : Nat
deriving DecidableEq

/-- The files of a level directory in some order, `none` if it does not exist. -/
abbrev LevelDir := Option (List Entry)

/-- The level directories. -/
abbrev FileSystem := Nat → LevelDir

/-- What reading the directories shows. -/
def FileSystem.dirs (fs : FileSystem) : Dirs := fun level =>
  (fs level).map fun entries => entries.map fun e => ⟨e.name, e.data.length, e.modTime⟩

inductive Op where
  | mkdirAll
  /-- Creates a file, or empties it. -/
  | createFile (name : List Char) (now : Nat)
  | write (name : List Char) (data : Bytes) (now : Nat)
  | rename (old new : List Char)
  | chtimes (name : List Char) (time : Nat)
  | remove (name : List Char)

/-- Changes the file of a name. -/
def change (name : List Char) (f : Entry → Entry) (entries : List Entry) : List Entry :=
  entries.map fun e => if e.name = name then f e else e

/-- The other files. -/
def without (name : List Char) (entries : List Entry) : List Entry :=
  entries.filter fun e => e.name ≠ name

def Op.onEntries (entries : List Entry) : Op → List Entry
  | mkdirAll => entries
  | createFile name now => ⟨name, [], now⟩ :: without name entries
  | write name data now =>
      change name (fun e => { e with data := e.data ++ data, modTime := now }) entries
  | rename old new =>
      match entries.find? fun e => e.name = old with
      | none => entries
      | some e => { e with name := new } :: without new (without old entries)
  | chtimes name time => change name (fun e => { e with modTime := time }) entries
  | remove name => without name entries

def Op.run (dir : LevelDir) (op : Op) : LevelDir :=
  match dir, op with
  | none, .mkdirAll => some []
  | none, _ => none
  | some entries, op => some (op.onEntries entries)

/-! ## The calls -/

/-- A call of `WriteLTXFile`, with the timestamp in the LTX header. -/
structure WriteCall where
  level : Nat
  minTXID : Nat
  maxTXID : Nat
  timestamp : Nat
  /-- When the temporary file is created. -/
  now : Nat
  /-- What is copied, and when. -/
  chunks : List (Bytes × Nat)

/-- How a call ends. -/
inductive Ending where
  | returned
  /-- The operation after so many fails. -/
  | failed (n : Nat)
  /-- The process stops after so many operations. -/
  | stopped (n : Nat)

section
variable (ltx : LtxPackage)

def tmpName (minTXID maxTXID : Nat) : List Char :=
  ltx.formatFilename minTXID maxTXID ++ ".tmp".toList

/-- The operations of `WriteLTXFile` in the directory of its level. -/
def WriteCall.ops (c : WriteCall) : List Op :=
  let filename := ltx.formatFilename c.minTXID c.maxTXID
  let tmpFilename := tmpName ltx c.minTXID c.maxTXID
  .mkdirAll :: .createFile tmpFilename c.now ::
    (c.chunks.map (fun chunk => .write tmpFilename chunk.1 chunk.2) ++
      [.rename tmpFilename filename, .chtimes filename c.timestamp])

/-- `WriteLTXFile`.  On an error after the temporary file is created, it is removed. -/
def WriteCall.run (c : WriteCall) (fs : FileSystem) (ending : Ending) : FileSystem :=
  let performed := fun n => ((c.ops ltx).take n).foldl Op.run (fs c.level)
  Function.update fs c.level <|
    match ending with
    | .returned => performed (c.ops ltx).length
    | .stopped n => performed n
    | .failed n =>
        if n < 2 then performed n
        else (Op.remove (tmpName ltx c.minTXID c.maxTXID)).run (performed n)

/-- `DeleteLTXFiles`, up to the file whose removal fails. -/
def deleteLTXFiles (fs : FileSystem) (infos : List FileInfo) : FileSystem :=
  infos.foldl (fun fs info => Function.update fs info.level
    ((Op.remove (ltx.formatFilename info.minTXID info.maxTXID)).run (fs info.level))) fs

/-- `OpenLTXFile` at the start of a file. -/
def openFile (fs : FileSystem) (level minTXID maxTXID : Nat) : Option Bytes :=
  ((fs level).getD []).find? (fun e => e.name = ltx.formatFilename minTXID maxTXID)
    |>.map Entry.data

/-- The bytes from an offset on, up to a size if it is positive. -/
def readRange (data : Bytes) (offset size : Int) : Bytes :=
  let rest := if 0 < offset then data.drop offset.toNat else data
  if 0 < size then rest.take size.toNat else rest

/-- `OpenLTXFile`. -/
def openLTXFile (fs : FileSystem) (level minTXID maxTXID : Nat) (offset size : Int) :
    Option Bytes :=
  (openFile ltx fs level minTXID maxTXID).map fun data => readRange data offset size

inductive Call where
  | writeLTXFile (c : WriteCall) (ending : Ending)
  /-- Deletes the first files of a list, or all of them. -/
  | deleteLTXFiles (infos : List FileInfo) (n : Nat)

def Call.run (fs : FileSystem) : Call → FileSystem
  | writeLTXFile c ending => c.run ltx fs ending
  | deleteLTXFiles infos n => FileClient.deleteLTXFiles ltx fs (infos.take n)

end

/-! ## What the directories stand for -/

/-- The files of a replica and their bytes. -/
structure Stored where
  files : Files
  data : Nat → Nat → Nat → Bytes

namespace Stored

def empty : Stored := ⟨fun _ => [], fun _ _ _ => []⟩

def put (s : Stored) (info : FileInfo) (bytes : Bytes) : Stored where
  files := s.files.writeLTXFile info
  data level minTXID maxTXID :=
    if level = info.level ∧ minTXID = info.minTXID ∧ maxTXID = info.maxTXID then bytes
    else s.data level minTXID maxTXID

def delete (s : Stored) (info : FileInfo) : Stored :=
  { s with files := s.files.deleteLTXFiles info.level [info] }

end Stored

/-- All that is copied. -/
def WriteCall.data (c : WriteCall) : Bytes := c.chunks.flatMap Prod.fst

/-- The modification time before it is set. -/
def WriteCall.written (c : WriteCall) : Nat := (c.chunks.getLast?.map Prod.snd).getD c.now

/-- The file that the call returns. -/
def WriteCall.info (c : WriteCall) : FileInfo :=
  ⟨c.level, c.minTXID, c.maxTXID, c.data.length, c.timestamp⟩

/-- The number of operations that end with the rename. -/
def WriteCall.renamed (c : WriteCall) : Nat := c.chunks.length + 3

/-- The file is there as soon as it is renamed, and has its timestamp one operation later. -/
def Stored.performed (s : Stored) (c : WriteCall) (n : Nat) : Stored :=
  if n < c.renamed then s
  else if n = c.renamed then s.put { c.info with createdAt := c.written } c.data
  else s.put c.info c.data

def Stored.write (s : Stored) (c : WriteCall) : Ending → Stored
  | .returned => s.put c.info c.data
  | .failed n | .stopped n => s.performed c n

def Call.onStored (s : Stored) : Call → Stored
  | .writeLTXFile c ending => s.write c ending
  | .deleteLTXFiles infos n => (infos.take n).foldl Stored.delete s

/-- TXIDs are words of 64 bits, and levels are those of the replica. -/
def Call.Bounded : Call → Prop
  | .writeLTXFile c _ => c.minTXID < txidLimit ∧ c.maxTXID < txidLimit
  | .deleteLTXFiles infos _ => ∀ info ∈ infos, info.minTXID < txidLimit ∧ info.maxTXID < txidLimit

instance : DecidablePred Call.Bounded
  | .writeLTXFile _ _ => inferInstanceAs (Decidable (_ ∧ _))
  | .deleteLTXFiles infos _ => inferInstanceAs (Decidable (∀ info ∈ infos, _))

/-! ## The items of a directory -/

/-- `ParseFilename` accepts the names that are formatted, and no others. -/
def Parses (ltx : LtxPackage) : Prop := ∀ name minTXID maxTXID,
  ltx.parseFilename name = some (minTXID, maxTXID) →
    name = ltx.formatFilename minTXID maxTXID ∧ minTXID < txidLimit ∧ maxTXID < txidLimit

/-- The LTX file that a directory entry is. -/
def item (ltx : LtxPackage) (level : Nat) (e : Entry) : Option (FileInfo × Bytes) :=
  (ltx.parseFilename e.name).map fun p =>
    (⟨level, p.1, p.2, e.data.length, e.modTime⟩, e.data)

/-- The entries are the files, with these bytes. -/
structure Holds (ltx : LtxPackage) (level : Nat) (entries : List Entry) (files : List FileInfo)
    (data : Nat → Nat → Bytes) : Prop where
  names : entries.Pairwise fun d e => d.name ≠ e.name
  items : (entries.filterMap (item ltx level)).Perm
    (files.map fun f => (f, data f.minTXID f.maxTXID))
  sorted : files.Pairwise FileInfo.KeyLT

def Represents (ltx : LtxPackage) (fs : FileSystem) (s : Stored) : Prop :=
  ∀ level, Holds ltx level ((fs level).getD []) (s.files level) (s.data level)

variable {ltx : LtxPackage} {level : Nat} {entries rest : List Entry} {files : List FileInfo}
  {data : Nat → Nat → Bytes} {name tmp : List Char} {minTXID maxTXID : Nat}

theorem length_formatFilename (minTXID maxTXID : Nat) :
    (ltx.formatFilename minTXID maxTXID).length = 37 := by
  rw [ltx.formatFilename_eq, List.length_append, List.length_cons, List.length_append,
    length_txidString, length_txidString]
  rfl

/-- A temporary file is not an LTX file. -/
theorem parseFilename_tmpName (h : Parses ltx) :
    ltx.parseFilename (tmpName ltx minTXID maxTXID) = none := by
  cases hp : ltx.parseFilename (tmpName ltx minTXID maxTXID) with
  | none => rfl
  | some p =>
      have hlen := congrArg List.length (h _ p.1 p.2 hp).1
      rw [tmpName, List.length_append, length_formatFilename, length_formatFilename] at hlen
      exact absurd hlen (by decide)

theorem tmpName_ne : tmpName ltx minTXID maxTXID ≠ ltx.formatFilename minTXID maxTXID := fun h =>
  absurd (List.append_right_eq_self.mp h) (by decide)

theorem without_of_notMem (h : ∀ e ∈ entries, e.name ≠ name) : without name entries = entries :=
  List.filter_eq_self.mpr fun e he => decide_eq_true (h e he)

theorem notMem_without : ∀ e ∈ without name entries, e.name ≠ name := fun _ he =>
  of_decide_eq_true (List.mem_filter.mp he).2

theorem without_cons_self {e : Entry} (h : e.name = name) (hrest : ∀ e ∈ rest, e.name ≠ name) :
    without name (e :: rest) = rest := by
  rw [without, List.filter_cons_of_neg (by simp [h])]
  exact without_of_notMem hrest

theorem change_of_notMem {f : Entry → Entry} (h : ∀ e ∈ entries, e.name ≠ name) :
    change name f entries = entries :=
  (List.map_congr_left fun e he => if_neg (h e he)).trans (List.map_id entries)

/-- Removing a file that is not an LTX file changes no item. -/
theorem filterMap_without_of_none (h : ltx.parseFilename name = none) :
    (without name entries).filterMap (item ltx level) = entries.filterMap (item ltx level) := by
  rw [without, List.filterMap_filter]
  refine List.filterMap_congr fun e _ => ?_
  by_cases he : e.name = name
  · have hitem : item ltx level e = none := by rw [item, he, h, Option.map_none]
    simp [he, hitem]
  · simp [he]

/-- Removing an LTX file removes the item with its TXIDs. -/
theorem filterMap_without (hparse : Parses ltx) (hmin : minTXID < txidLimit)
    (hmax : maxTXID < txidLimit) :
    (without (ltx.formatFilename minTXID maxTXID) entries).filterMap (item ltx level) =
      (entries.filterMap (item ltx level)).filter fun x =>
        !decide (x.1.minTXID = minTXID ∧ x.1.maxTXID = maxTXID) := by
  rw [without, List.filterMap_filter, List.filter_filterMap]
  refine List.filterMap_congr fun e _ => ?_
  cases hp : ltx.parseFilename e.name with
  | none =>
      have hitem : item ltx level e = none := by rw [item, hp, Option.map_none]
      simp [hitem]
  | some p =>
      have hitem : item ltx level e =
          some (⟨level, p.1, p.2, e.data.length, e.modTime⟩, e.data) := by
        rw [item, hp, Option.map_some]
      have hiff : e.name = ltx.formatFilename minTXID maxTXID ↔
          p.1 = minTXID ∧ p.2 = maxTXID := by
        constructor
        · intro he
          rw [he, ltx.parseFilename_formatFilename hmin hmax, Option.some.injEq] at hp
          exact Prod.mk.inj (hp.symm)
        · rintro ⟨rfl, rfl⟩
          exact (hparse _ _ _ hp).1
      rw [hitem]
      by_cases he : e.name = ltx.formatFilename minTXID maxTXID
      · simp [he, Option.filter, hiff.mp he]
      · have hne := mt hiff.mpr he
        simp [he, Option.filter, hne]

/-! ## Inserting a file in a listing -/

/-- Inserting a file replaces one of the same name. -/
theorem insertFile_perm (info : FileInfo) : ∀ {fs : List FileInfo}, fs.Pairwise FileInfo.KeyLT →
    (insertFile info fs).Perm (info :: fs.filter fun f => !decide (f.SameName info))
  | [], _ => .refl _
  | f :: fs, h => by
      obtain ⟨hf, hfs⟩ := List.pairwise_cons.mp h
      -- what follows a file that is not before the new one has other names
      have hlater : info.KeyLE f → fs.filter (fun g => !decide (g.SameName info)) = fs := by
        refine fun hle => List.filter_eq_self.mpr fun g hg => ?_
        have hlt := hf g hg
        simp only [Bool.not_eq_true', decide_eq_false_iff_not]
        rintro ⟨hmin, hmax⟩
        simp only [FileInfo.KeyLE, FileInfo.KeyLT] at hle hlt
        omega
      rw [insertFile]
      split
      · next hsame =>
          have hf : f.SameName info := ⟨hsame.1.symm, hsame.2.symm⟩
          rw [List.filter_cons_of_neg (by simp [hf]), hlater (Or.inr ⟨hsame.1, hsame.2.le⟩)]
      · next hsame =>
          have hf : ¬ f.SameName info := fun h => hsame ⟨h.1.symm, h.2.symm⟩
          rw [List.filter_cons_of_pos (by simp [hf])]
          split
          · next hle => rw [hlater hle]
          · exact ((insertFile_perm info hfs).cons f).trans (.swap info f _)

/-! ## What a directory holds after an operation -/

namespace Holds

/-- Only the items matter. -/
theorem of_items (h : Holds ltx level entries files data)
    (hnames : rest.Pairwise fun d e => d.name ≠ e.name)
    (hitems : rest.filterMap (item ltx level) = entries.filterMap (item ltx level)) :
    Holds ltx level rest files data :=
  ⟨hnames, hitems ▸ h.items, h.sorted⟩

/-- A file that is not an LTX file is replaced. -/
theorem replace (h : Holds ltx level entries files data) {e : Entry}
    (he : ltx.parseFilename e.name = none) :
    Holds ltx level (e :: without e.name entries) files data := by
  have hitem : item ltx level e = none := by rw [item, he, Option.map_none]
  refine h.of_items (List.pairwise_cons.mpr ⟨fun d hd => (notMem_without d hd).symm,
    h.names.filter _⟩) ?_
  rw [List.filterMap_cons_none hitem, filterMap_without_of_none he]

/-- A file that is not an LTX file is removed. -/
theorem without (h : Holds ltx level entries files data) (hname : ltx.parseFilename name = none) :
    Holds ltx level (without name entries) files data :=
  h.of_items (h.names.filter _) (filterMap_without_of_none hname)

/-- An LTX file is deleted. -/
theorem delete (hparse : Parses ltx) (h : Holds ltx level entries files data)
    (hmin : minTXID < txidLimit) (hmax : maxTXID < txidLimit) :
    Holds ltx level (FileClient.without (ltx.formatFilename minTXID maxTXID) entries)
      (files.filter fun f => !decide (f.minTXID = minTXID ∧ f.maxTXID = maxTXID)) data := by
  refine ⟨h.names.filter _, ?_, h.sorted.filter _⟩
  rw [filterMap_without hparse hmin hmax]
  refine (h.items.filter _).trans (.of_eq ?_)
  rw [List.filter_map]
  rfl

/-- An LTX file is put in place. -/
theorem put (hparse : Parses ltx) (h : Holds ltx level entries files data)
    (hmin : minTXID < txidLimit) (hmax : maxTXID < txidLimit) (bytes : Bytes) (time : Nat) :
    Holds ltx level
      (⟨ltx.formatFilename minTXID maxTXID, bytes, time⟩ ::
        FileClient.without (ltx.formatFilename minTXID maxTXID) entries)
      (insertFile ⟨level, minTXID, maxTXID, bytes.length, time⟩ files)
      (fun m n => if m = minTXID ∧ n = maxTXID then bytes else data m n) := by
  have hdeleted := h.delete hparse hmin hmax
  have hitem : item ltx level ⟨ltx.formatFilename minTXID maxTXID, bytes, time⟩ =
      some (⟨level, minTXID, maxTXID, bytes.length, time⟩, bytes) := by
    rw [item, ltx.parseFilename_formatFilename hmin hmax, Option.map_some]
  refine ⟨List.pairwise_cons.mpr ⟨fun d hd => (notMem_without d hd).symm, hdeleted.names⟩, ?_,
    insertFile_sorted h.sorted⟩
  rw [List.filterMap_cons_some hitem]
  refine List.Perm.trans ?_ ((insertFile_perm _ h.sorted).map _).symm
  rw [List.map_cons]
  simp only [and_self, if_true]
  refine List.Perm.cons _ (hdeleted.items.trans (.of_eq (List.map_congr_left fun f hf => ?_)))
  have hkept := (List.mem_filter.mp hf).2
  simp only [Bool.not_eq_true', decide_eq_false_iff_not] at hkept
  rw [if_neg hkept]

end Holds

/-! ## Writing a file -/

/-- What is copied is appended to the temporary file. -/
theorem run_chunks (htmp : ∀ e ∈ rest, e.name ≠ tmp) (chunks : List (Bytes × Nat)) (bytes : Bytes)
    (time : Nat) :
    (chunks.map fun chunk => Op.write tmp chunk.1 chunk.2).foldl Op.run
        (some (⟨tmp, bytes, time⟩ :: rest)) =
      some (⟨tmp, bytes ++ chunks.flatMap Prod.fst,
        (chunks.getLast?.map Prod.snd).getD time⟩ :: rest) := by
  induction chunks generalizing bytes time with
  | nil => rw [List.flatMap_nil, List.append_nil]; rfl
  | cons chunk chunks ih =>
      have hwrite : Op.run (some (⟨tmp, bytes, time⟩ :: rest)) (.write tmp chunk.1 chunk.2) =
          some (⟨tmp, bytes ++ chunk.1, chunk.2⟩ :: rest) := by
        rw [Op.run, Op.onEntries, change, List.map_cons, if_pos rfl]
        exact congrArg (fun rest => some (_ :: rest)) (change_of_notMem htmp)
      rw [List.map_cons, List.foldl_cons, hwrite, ih, List.flatMap_cons, List.append_assoc,
        List.getLast?_cons, Option.map_some]
      cases chunks.getLast? <;> rfl

/-- The temporary file takes the place of the file. -/
theorem run_rename (htmp : ∀ e ∈ rest, e.name ≠ tmp) (bytes : Bytes)
    (time : Nat) :
    Op.run (some (⟨tmp, bytes, time⟩ :: rest)) (.rename tmp name) =
      some (⟨name, bytes, time⟩ :: without name rest) := by
  rw [Op.run, Op.onEntries, List.find?_cons_of_pos (by simp)]
  simp only
  rw [without_cons_self (e := ⟨tmp, bytes, time⟩) rfl htmp]

theorem run_chtimes (bytes : Bytes) (time timestamp : Nat) :
    Op.run (some (⟨name, bytes, time⟩ :: without name rest)) (.chtimes name timestamp) =
      some (⟨name, bytes, timestamp⟩ :: without name rest) := by
  rw [Op.run, Op.onEntries, change, List.map_cons, if_pos rfl]
  exact congrArg (fun rest => some (_ :: rest)) (change_of_notMem notMem_without)

/-- The directory after the first operations of a write: the temporary file is as long as it
was written, or it is in its place. -/
inductive Performed (ltx : LtxPackage) (c : WriteCall) (entries : List Entry) :
    Nat → LevelDir → Prop
  | created (n : Nat) (bytes : Bytes) (time : Nat) (lt : n < c.renamed) :
      Performed ltx c entries n (some
        (⟨tmpName ltx c.minTXID c.maxTXID, bytes, time⟩ ::
          without (tmpName ltx c.minTXID c.maxTXID) entries))
  | placed (n time : Nat) (le : c.renamed ≤ n)
      (time_eq : time = if n = c.renamed then c.written else c.timestamp) :
      Performed ltx c entries n (some
        (⟨ltx.formatFilename c.minTXID c.maxTXID, c.data, time⟩ ::
          without (ltx.formatFilename c.minTXID c.maxTXID)
            (without (tmpName ltx c.minTXID c.maxTXID) entries)))

theorem performed_ops (c : WriteCall) (dir : LevelDir) {n : Nat} (hn : 2 ≤ n) :
    Performed ltx c (dir.getD []) n (((c.ops ltx).take n).foldl Op.run dir) := by
  obtain ⟨n, rfl⟩ : ∃ m, n = m + 2 := ⟨n - 2, by omega⟩
  set tmp := tmpName ltx c.minTXID c.maxTXID with htmp
  set rest := without tmp (dir.getD []) with hrest
  have hmem : ∀ e ∈ rest, e.name ≠ tmp := notMem_without
  have hcreate : Op.run (Op.run dir .mkdirAll) (.createFile tmp c.now) =
      some (⟨tmp, [], c.now⟩ :: rest) := by
    cases dir <;> rfl
  rw [WriteCall.ops, List.take_succ_cons, List.take_succ_cons, List.foldl_cons, List.foldl_cons,
    hcreate, List.take_append, List.foldl_append, ← List.map_take, run_chunks hmem, List.nil_append,
    List.length_map]
  rcases Nat.lt_trichotomy n (c.chunks.length + 1) with hlt | rfl | hgt
  · -- not renamed yet
    rw [show n - c.chunks.length = 0 by omega, List.take_zero, List.foldl_nil]
    exact .created _ _ _ (by rw [WriteCall.renamed]; omega)
  · rw [Nat.add_sub_cancel_left, List.take_of_length_le (by omega), List.take_succ_cons,
      List.take_zero, List.foldl_cons, List.foldl_nil, run_rename hmem]
    exact .placed _ _ le_rfl (if_pos rfl).symm
  · rw [List.take_of_length_le (by omega), List.take_of_length_le (by simp; omega), List.foldl_cons,
      List.foldl_cons, List.foldl_nil, run_rename hmem, run_chtimes]
    exact .placed _ _ (by rw [WriteCall.renamed]; omega)
      (if_neg (by rw [WriteCall.renamed]; omega)).symm

/-- The temporary file is nothing that the directory stands for, whether it is left or not. -/
theorem Performed.holds {c : WriteCall} {n : Nat} {dir : LevelDir} {s : Stored}
    (hparse : Parses ltx) (hmin : c.minTXID < txidLimit) (hmax : c.maxTXID < txidLimit)
    (h : Holds ltx c.level entries (s.files c.level) (s.data c.level))
    (hp : Performed ltx c entries n dir) :
    ∃ entries', dir = some entries' ∧ ∀ kept, kept = entries' ∨
        kept = without (tmpName ltx c.minTXID c.maxTXID) entries' →
      Holds ltx c.level kept ((s.performed c n).files c.level)
        ((s.performed c n).data c.level) := by
  have htmp : ltx.parseFilename (tmpName ltx c.minTXID c.maxTXID) = none :=
    parseFilename_tmpName hparse
  cases hp with
  | created bytes time lt =>
      refine ⟨_, rfl, fun kept hkept => ?_⟩
      rw [Stored.performed, if_pos lt]
      rcases hkept with rfl | rfl
      · exact h.replace (e := ⟨tmpName ltx c.minTXID c.maxTXID, bytes, time⟩) htmp
      · have hrest : ∀ e ∈ without (tmpName ltx c.minTXID c.maxTXID) entries,
            e.name ≠ tmpName ltx c.minTXID c.maxTXID := notMem_without
        have hremoved := without_cons_self (e := ⟨tmpName ltx c.minTXID c.maxTXID, bytes, time⟩)
          rfl hrest
        exact hremoved.symm ▸ h.without htmp
  | placed time le time_eq =>
      refine ⟨_, rfl, fun kept hkept => ?_⟩
      -- no temporary file is left to remove
      have hkept : kept = ⟨ltx.formatFilename c.minTXID c.maxTXID, c.data, time⟩ ::
          without (ltx.formatFilename c.minTXID c.maxTXID)
            (without (tmpName ltx c.minTXID c.maxTXID) entries) := by
        rcases hkept with rfl | rfl
        · rfl
        · refine without_of_notMem fun e he => ?_
          rcases List.mem_cons.mp he with rfl | he
          · exact tmpName_ne.symm
          · exact notMem_without e (List.mem_filter.mp he).1
      have hput := (h.without htmp).put hparse hmin hmax c.data time
      have hperformed : s.performed c n = s.put { c.info with createdAt := time } c.data := by
        rw [Stored.performed, if_neg (Nat.not_lt.mpr le), time_eq]
        split <;> rfl
      have hfiles : (s.put { c.info with createdAt := time } c.data).files c.level =
          insertFile ⟨c.level, c.minTXID, c.maxTXID, c.data.length, time⟩ (s.files c.level) :=
        Files.writeLTXFile_same rfl
      have hdata : (s.put { c.info with createdAt := time } c.data).data c.level =
          fun m n => if m = c.minTXID ∧ n = c.maxTXID then c.data else s.data c.level m n := by
        funext m n
        simp [Stored.put, WriteCall.info]
      rw [hkept, hperformed, hfiles, hdata]
      exact hput

/-! ## Runs -/

namespace Represents

variable {fs : FileSystem} {s : Stored}

theorem empty : Represents ltx (fun _ => none) .empty := fun _ =>
  ⟨.nil, .refl _, .nil⟩

/-- The directory of one level changes. -/
theorem update (h : Represents ltx fs s) {s' : Stored} {dir : LevelDir}
    (hlevel : Holds ltx level (dir.getD []) (s'.files level) (s'.data level))
    (hfiles : ∀ l, l ≠ level → s'.files l = s.files l)
    (hdata : ∀ l, l ≠ level → s'.data l = s.data l) :
    Represents ltx (Function.update fs level dir) s' := by
  intro l
  by_cases hl : l = level
  · subst hl
    rw [Function.update_self]
    exact hlevel
  · rw [Function.update_of_ne hl, hfiles l hl, hdata l hl]
    exact h l

theorem performed_other {c : WriteCall} {n l : Nat} (hl : l ≠ c.level) :
    (s.performed c n).files l = s.files l ∧ (s.performed c n).data l = s.data l := by
  have hput : ∀ time, (s.put { c.info with createdAt := time } c.data).files l = s.files l ∧
      (s.put { c.info with createdAt := time } c.data).data l = s.data l := fun time => by
    refine ⟨Files.writeLTXFile_other (Ne.symm hl), ?_⟩
    funext m n
    simp [Stored.put, WriteCall.info, hl]
  rw [Stored.performed]
  split
  · exact ⟨rfl, rfl⟩
  · split
    · exact hput _
    · exact hput c.timestamp

theorem write (hparse : Parses ltx) (h : Represents ltx fs s) {c : WriteCall}
    (hmin : c.minTXID < txidLimit) (hmax : c.maxTXID < txidLimit) (ending : Ending) :
    Represents ltx (c.run ltx fs ending) (s.write c ending) := by
  -- after at least two operations, with the temporary file left or removed
  have hdone : ∀ n, 2 ≤ n → ∀ dir, dir = ((c.ops ltx).take n).foldl Op.run (fs c.level) ∨
      dir = (Op.remove (tmpName ltx c.minTXID c.maxTXID)).run
        (((c.ops ltx).take n).foldl Op.run (fs c.level)) →
      Represents ltx (Function.update fs c.level dir) (s.performed c n) := by
    intro n hn dir hdir
    obtain ⟨entries', hperformed, hholds⟩ :=
      (performed_ops c (fs c.level) hn).holds hparse hmin hmax (h c.level)
    rw [hperformed] at hdir
    refine h.update ?_ (fun l hl => (performed_other hl).1) fun l hl => (performed_other hl).2
    rcases hdir with rfl | rfl
    · exact hholds _ (.inl rfl)
    · exact hholds _ (.inr rfl)
  -- before that, at most the directory is made
  have hfirst : ∀ n, n < 2 → Represents ltx
      (Function.update fs c.level (((c.ops ltx).take n).foldl Op.run (fs c.level)))
      (s.performed c n) := by
    intro n hn
    rw [Stored.performed, if_pos (by rw [WriteCall.renamed]; omega)]
    refine h.update ?_ (fun _ _ => rfl) fun _ _ => rfl
    have hlevel := h c.level
    obtain rfl | rfl : n = 0 ∨ n = 1 := by omega
    · exact hlevel
    · have hmkdir : (((c.ops ltx).take 1).foldl Op.run (fs c.level)).getD [] =
          (fs c.level).getD [] := by
        rw [WriteCall.ops, List.take_succ_cons, List.take_zero]
        cases fs c.level <;> rfl
      rw [hmkdir]
      exact hlevel
  cases ending with
  | returned =>
      have hlen : (c.ops ltx).length = c.renamed + 1 := by
        simp [WriteCall.ops, WriteCall.renamed]
      have hput : s.performed c (c.ops ltx).length = s.put c.info c.data := by
        rw [Stored.performed, if_neg (by omega), if_neg (by omega)]
      rw [Stored.write, ← hput]
      exact hdone _ (by rw [hlen, WriteCall.renamed]; omega) _ (.inl rfl)
  | stopped n =>
      by_cases hn : n < 2
      · exact hfirst n hn
      · exact hdone n (by omega) _ (.inl rfl)
  | failed n =>
      rw [WriteCall.run]
      by_cases hn : n < 2
      · simp only [if_pos hn]
        exact hfirst n hn
      · simp only [if_neg hn]
        exact hdone n (by omega) _ (.inr rfl)

theorem delete (hparse : Parses ltx) (h : Represents ltx fs s) {infos : List FileInfo}
    (hbounds : ∀ info ∈ infos, info.minTXID < txidLimit ∧ info.maxTXID < txidLimit) :
    Represents ltx (deleteLTXFiles ltx fs infos) (infos.foldl Stored.delete s) := by
  induction infos generalizing fs s with
  | nil => exact h
  | cons info infos ih =>
      obtain ⟨hmin, hmax⟩ := hbounds info List.mem_cons_self
      have hdir : ((Op.remove (ltx.formatFilename info.minTXID info.maxTXID)).run
          (fs info.level)).getD [] =
            without (ltx.formatFilename info.minTXID info.maxTXID) ((fs info.level).getD []) := by
        cases fs info.level <;> rfl
      have hfiles : (s.delete info).files info.level = (s.files info.level).filter fun f =>
          !decide (f.minTXID = info.minTXID ∧ f.maxTXID = info.maxTXID) := by
        show s.files.deleteLTXFiles info.level [info] info.level = _
        rw [Files.deleteLTXFiles_same]
        simp only [List.any_cons, List.any_nil, Bool.or_false]
        rfl
      have hstep : Represents ltx (Function.update fs info.level
          ((Op.remove (ltx.formatFilename info.minTXID info.maxTXID)).run (fs info.level)))
          (s.delete info) := by
        refine h.update ?_ (fun l hl => Files.deleteLTXFiles_other (Ne.symm hl)) fun _ _ => rfl
        rw [hdir, hfiles]
        exact (h info.level).delete hparse hmin hmax
      exact ih hstep fun i hi => hbounds i (List.mem_cons_of_mem _ hi)

theorem step (hparse : Parses ltx) (h : Represents ltx fs s) {c : Call} (hc : c.Bounded) :
    Represents ltx (c.run ltx fs) (c.onStored s) := by
  cases c with
  | writeLTXFile c ending => exact h.write hparse hc.1 hc.2 ending
  | deleteLTXFiles infos n =>
      exact h.delete hparse fun info hinfo => hc info (List.mem_of_mem_take hinfo)

end Represents

/-! ## Listing and opening -/

namespace Represents

variable {fs : FileSystem} {s : Stored}

/-- The files of a level carry it, and their TXIDs are words. -/
theorem bounded (hparse : Parses ltx) (h : Represents ltx fs s) {f : FileInfo}
    (hf : f ∈ s.files level) :
    f.level = level ∧ f.minTXID < txidLimit ∧ f.maxTXID < txidLimit := by
  have hmem := (h level).items.mem_iff.mpr (List.mem_map_of_mem hf)
  obtain ⟨e, -, hitem⟩ := List.mem_filterMap.mp hmem
  rw [item, Option.map_eq_some_iff] at hitem
  obtain ⟨⟨minTXID, maxTXID⟩, hp, heq⟩ := hitem
  obtain ⟨rfl, -⟩ := Prod.mk.inj heq
  exact ⟨rfl, (hparse _ _ _ hp).2⟩

/-- A listing has the files that start at the seek TXID or later, as a client over the files
lists them. -/
theorem lists (hparse : Parses ltx) (h : Represents ltx fs s) (level seek : Nat) :
    fileLTXFiles ltx fs.dirs level seek =
      (s.files level).filter fun f => seek ≤ f.minTXID := by
  have hitems : ∀ entries : List Entry,
      (entries.map fun e => (⟨e.name, e.data.length, e.modTime⟩ : DirEntry)).filterMap
        (dirEntryItem ltx level seek) =
      ((entries.filterMap (item ltx level)).map Prod.fst).filter
        fun f => decide (seek ≤ f.minTXID) := by
    intro entries
    rw [List.filterMap_map, List.map_filterMap, List.filter_filterMap]
    refine List.filterMap_congr fun e _ => ?_
    rw [Function.comp_apply, dirEntryItem, item]
    cases ltx.parseFilename e.name with
    | none => rfl
    | some p =>
        simp only [Option.map_some, Option.filter]
        by_cases hseek : p.1 < seek
        · simp [hseek]
        · simp [hseek, Nat.not_lt.mp hseek]
  have hperm : ((((fs level).getD []).map
      fun e => (⟨e.name, e.data.length, e.modTime⟩ : DirEntry)).filterMap
        (dirEntryItem ltx level seek)).Perm
      ((s.files level).filter fun f => decide (seek ≤ f.minTXID)) := by
    rw [hitems]
    refine List.Perm.filter _ (((h level).items.map Prod.fst).trans (.of_eq ?_))
    rw [List.map_map]
    exact List.map_id _
  -- an order in which no two files have the same place
  have hsorted := ((h level).sorted.filter fun f => decide (seek ≤ f.minTXID)).imp_of_mem
    (S := fun f g => f.level < g.level ∨ f.level = g.level ∧ f.KeyLE g) fun {f g} hf hg hlt => by
      have hf := (h.bounded hparse (List.mem_filter.mp hf).1).1
      have hg := (h.bounded hparse (List.mem_filter.mp hg).1).1
      exact .inr ⟨hf.trans hg.symm, hlt.le⟩
  have heq : fileLTXFiles ltx fs.dirs level seek = ltx.newFileInfoSliceIterator
      ((((fs level).getD []).map
        fun e => (⟨e.name, e.data.length, e.modTime⟩ : DirEntry)).filterMap
          (dirEntryItem ltx level seek)) := by
    rw [fileLTXFiles, FileSystem.dirs]
    cases fs level <;> rfl
  rw [heq]
  refine List.Perm.eq_of_pairwise (fun f g hf hg hfg hgf => ?_) (ltx.iterator_sorted _) hsorted
    ((ltx.iterator_perm _).trans hperm)
  have hmem : ∀ i ∈ (s.files level).filter (fun f => decide (seek ≤ f.minTXID)),
      i ∈ s.files level := fun i hi => (List.mem_filter.mp hi).1
  have hf := hmem f (((ltx.iterator_perm _).trans hperm).mem_iff.mp hf)
  have hg := hmem g hg
  by_contra hne
  have hsymm : Std.Symm fun f g : FileInfo => ¬ f.SameName g :=
    ⟨fun f g hfg hgf => hfg ⟨hgf.1.symm, hgf.2.symm⟩⟩
  have hdistinct : ¬ f.SameName g :=
    ((h level).sorted.imp fun h => h.not_sameName).forall hf hg hne
  have hflevel := (h.bounded hparse hf).1
  have hglevel := (h.bounded hparse hg).1
  refine hdistinct ?_
  simp only [FileInfo.SameName, FileInfo.KeyLE] at hfg hgf ⊢
  omega

/-- Opening a file gives its bytes. -/
theorem opens (hparse : Parses ltx) (h : Represents ltx fs s) {level minTXID maxTXID : Nat}
    (hmin : minTXID < txidLimit) (hmax : maxTXID < txidLimit) :
    openFile ltx fs level minTXID maxTXID =
      if ∃ f ∈ s.files level, f.minTXID = minTXID ∧ f.maxTXID = maxTXID then
        some (s.data level minTXID maxTXID)
      else none := by
  rw [openFile]
  cases hfind : ((fs level).getD []).find? fun e =>
      e.name = ltx.formatFilename minTXID maxTXID with
  | none =>
      rw [if_neg, Option.map_none]
      rintro ⟨f, hf, rfl, rfl⟩
      have hmem := (h level).items.mem_iff.mpr (List.mem_map_of_mem hf)
      obtain ⟨e, he, hitem⟩ := List.mem_filterMap.mp hmem
      rw [item, Option.map_eq_some_iff] at hitem
      obtain ⟨⟨minTXID, maxTXID⟩, hp, heq⟩ := hitem
      obtain ⟨rfl, -⟩ := Prod.mk.inj heq
      exact absurd (decide_eq_true (hparse _ _ _ hp).1) (List.find?_eq_none.mp hfind e he)
  | some e =>
      have hname : e.name = ltx.formatFilename minTXID maxTXID := by
        have hfound := List.find?_some hfind
        exact of_decide_eq_true hfound
      have hitem : item ltx level e =
          some (⟨level, minTXID, maxTXID, e.data.length, e.modTime⟩, e.data) := by
        rw [item, hname, ltx.parseFilename_formatFilename hmin hmax, Option.map_some]
      have hmem := (h level).items.mem_iff.mp
        (List.mem_filterMap.mpr ⟨e, List.mem_of_find?_eq_some hfind, hitem⟩)
      obtain ⟨f, hf, heq⟩ := List.mem_map.mp hmem
      obtain ⟨rfl, hdata⟩ := Prod.mk.inj heq
      rw [if_pos ⟨_, hf, rfl, rfl⟩, Option.map_some, ← hdata]

end Represents

/-- In every run of writes and deletions, each of which may fail or be cut off after any of its
operations, the file client lists exactly the files that were put in place and not deleted since,
and opening one gives all that was written to it. -/
theorem fileClient_refines (hparse : Parses ltx) {calls : List Call}
    (hcalls : ∀ c ∈ calls, c.Bounded) :
    (∀ level seek, fileLTXFiles ltx
        (calls.foldl (Call.run ltx) fun _ => none : FileSystem).dirs level seek =
      ((calls.foldl Call.onStored .empty).files level).filter fun f => seek ≤ f.minTXID) ∧
    ∀ level minTXID maxTXID offset size, minTXID < txidLimit → maxTXID < txidLimit →
      openLTXFile ltx (calls.foldl (Call.run ltx) fun _ => none) level minTXID maxTXID offset size =
        if ∃ f ∈ (calls.foldl Call.onStored .empty).files level,
          f.minTXID = minTXID ∧ f.maxTXID = maxTXID then
          some (readRange ((calls.foldl Call.onStored .empty).data level minTXID maxTXID)
            offset size)
        else none := by
  have hrun : ∀ {calls : List Call} {fs : FileSystem} {s : Stored}, Represents ltx fs s →
      (∀ c ∈ calls, c.Bounded) →
        Represents ltx (calls.foldl (Call.run ltx) fs) (calls.foldl Call.onStored s) := by
    intro calls
    induction calls with
    | nil => exact fun h _ => h
    | cons c calls ih =>
        intro fs s h hcalls
        exact ih (h.step hparse (hcalls c List.mem_cons_self))
          fun c hc => hcalls c (List.mem_cons_of_mem _ hc)
  have h := hrun Represents.empty hcalls
  refine ⟨fun level seek => h.lists hparse level seek, ?_⟩
  intro level minTXID maxTXID offset size hmin hmax
  rw [openLTXFile, h.opens hparse hmin hmax]
  split
  · rfl
  · rfl

/-! ## A package and a run -/

/-- The parsed numerals are those of the name, so they fit. -/
theorem ltxPackage_parses : Parses ltxPackage := by
  intro name minTXID maxTXID h
  have h : parseName name = some (minTXID, maxTXID) := h
  simp only [parseName, Option.ite_none_right_eq_some, Option.some.injEq, Prod.mk.injEq] at h
  obtain ⟨hname, hmin, hmax⟩ := h
  rw [hmin, hmax] at hname
  have hlen : (Digits.fixed 16 16 minTXID ++ ['-']).length = 17 := by simp
  have htake : name.take 16 = Digits.fixed 16 16 minTXID := by
    rw [hname]
    exact List.take_left' (Digits.length_fixed _ _)
  have hdrop : (name.drop 17).take 16 = Digits.fixed 16 16 maxTXID := by
    rw [hname, List.append_cons, List.drop_left' hlen]
    exact List.take_left' (Digits.length_fixed _ _)
  rw [htake, Digits.value_fixed (by decide) (by decide)] at hmin
  rw [hdrop, Digits.value_fixed (by decide) (by decide)] at hmax
  refine ⟨hname, ?_, ?_⟩
  · rw [← hmin]
    exact Nat.mod_lt _ (by decide)
  · rw [← hmax]
    exact Nat.mod_lt _ (by decide)

/-- The process stops while the second file is written.  It is written again, and the first file
is deleted. -/
def sampleCalls : List Call :=
  [.writeLTXFile ⟨0, 1, 1, 100, 5, [([1, 2], 5), ([3], 6)]⟩ .returned,
    .writeLTXFile ⟨0, 2, 2, 200, 7, [([4], 7), ([5], 8)]⟩ (.stopped 3),
    .writeLTXFile ⟨0, 2, 2, 200, 9, [([4], 9), ([5], 9)]⟩ .returned,
    .deleteLTXFiles [⟨0, 1, 1, 3, 100⟩] 1]

theorem fileClient_refines_sample :
    fileLTXFiles ltxPackage
        (sampleCalls.foldl (Call.run ltxPackage) fun _ => none : FileSystem).dirs 0 1 =
      [⟨0, 2, 2, 2, 200⟩] ∧
    openLTXFile ltxPackage (sampleCalls.foldl (Call.run ltxPackage) fun _ => none) 0 2 2 1 0 =
      some [5] := by
  obtain ⟨hlists, hopens⟩ := fileClient_refines ltxPackage_parses
    (show ∀ c ∈ sampleCalls, c.Bounded by decide)
  rw [hlists, hopens 0 2 2 1 0 (by decide) (by decide)]
  decide

end FileClient

end Litestream
