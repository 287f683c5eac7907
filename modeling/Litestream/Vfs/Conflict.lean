import Litestream.Lib.Run
import Litestream.Vfs.Connections

/-!
# Writers of different processes

Write-enabled files of different processes share a replica and nothing else.  A sync lists
level 0 (`checkForConflict`) and then uploads the next TXID, and an upload replaces a file of
the same name.  Other writers take their steps between the two.

`synced_once` says that each TXID is synced at most once and that its file stays in place, if
no writer uploads while another that expects the same TXID is past its check.  Two writers
that both pass the check both succeed, and the second replaces the file of the first
(`winner_replaced_by_writer`).
-/

namespace Litestream

namespace Vfs

open Overlay Run

variable {ps : PageSize}

structure Writer where
  file : VFSFile
  /-- The conflict check has passed, and the upload is to come. -/
  checked : Bool

structure Writers (ι : Type) (ps : PageSize) where
  writer : ι → Writer
  replica : Replica ps
  /-- The files of the syncs that reported success, with their writers. -/
  won : List (ι × LTXFile ps)

/-- What a file does besides syncing. -/
inductive FileOperation (ps : PageSize) where
  | lock (elock : LockType)
  | unlock (elock : LockType)
  | writeAt (b : Bytes) (off : Nat)
  | truncate (size : Nat)
  | readAt (random : Bytes) (off len : Nat)
  | poll

inductive WriterAction (ι : Type) (ps : PageSize) where
  /-- A process starts, perhaps in the place of one that crashed. -/
  | start (c : ι) (file : VFSFile)
  | operate (c : ι) (op : FileOperation ps)
  | check (c : ι)
  /-- The file is stored.  The call may fail after that, and then the sync reports an error. -/
  | upload (c : ι) (file : LTXFile ps) (reported : Bool)
  | fail (c : ι)
  /-- A compaction or a snapshot stores a file of another level. -/
  | compact (file : LTXFile ps)
  /-- Retention deletes a level 0 file.  It keeps the last one of the listing. -/
  | delete (file : LTXFile ps)

def FileOperation.apply (replica : Replica ps) (f : VFSFile) : FileOperation ps → VFSFile
  | lock elock => State.orSame f (f.Lock elock)
  | unlock elock => State.orSame f (f.Unlock elock)
  | writeAt b off => (f.WriteAt replica b off).1
  | truncate size => State.orSame f (f.Truncate size)
  | readAt random off len => (f.ReadAt replica random off len).1
  | poll =>
    match f.pollReplicaClient replica with
    | .ok f => f
    | .error _ => f

/-- Deletes a file. -/
def Replica.delete (replica : Replica ps) (file : LTXFile ps) : Replica ps where
  level n := (replica.level n).filter fun g => ¬ g.Named file.info.level file.minTXID file.maxTXID
  level_eq n g hg := replica.level_eq n g (List.mem_filter.mp hg).1
  names_nodup n := (replica.names_nodup n).sublist (List.filter_sublist.map _)

namespace Writers

variable {ι : Type}

def file (s : Writers ι ps) (c : ι) : VFSFile := (s.writer c).file

def set [DecidableEq ι] (s : Writers ι ps) (c : ι) (writer : Writer) : Writers ι ps :=
  { s with writer := Function.update s.writer c writer }

/-- A file that is open for writing expects the TXID after its own. -/
def Starts (f : VFSFile) : Prop := f.pendingTXID = f.expectedTXID + 1

/-- A later level 0 file is kept. -/
def Deletable (s : Writers ι ps) (file : LTXFile ps) : Prop :=
  file.info.level = 0 ∧ ∃ g ∈ s.replica.level 0, file.minTXID < g.minTXID

instance (f : VFSFile) : Decidable (Starts f) := inferInstanceAs (Decidable (_ = _))

instance (s : Writers ι ps) (file : LTXFile ps) : Decidable (s.Deletable file) :=
  inferInstanceAs (Decidable (_ ∧ _))

def step [DecidableEq ι] (s : Writers ι ps) : WriterAction ι ps → Option (Writers ι ps)
  | .start c file => if Starts file then some (s.set c ⟨file, false⟩) else none
  | .operate c op =>
    if (s.writer c).checked = false then some (s.set c ⟨op.apply s.replica (s.file c), false⟩)
    else none
  | .check c =>
    if (s.writer c).checked = false ∧ (s.file c).dirty ≠ [] then
      match (s.file c).checkForConflict s.replica with
      | .ok () => some (s.set c ⟨s.file c, true⟩)
      | .error _ => some s
    else none
  | .upload c file reported =>
    if (s.writer c).checked = true ∧ (s.file c).Creates file then
      if reported then
        some { s.set c ⟨(s.file c).uploaded, false⟩ with
          replica := s.replica.write file
          won := s.won ++ [(c, file)] }
      else some { s.set c ⟨s.file c, false⟩ with replica := s.replica.write file }
    else none
  | .fail c => some (s.set c ⟨s.file c, false⟩)
  | .compact file =>
    if file.info.level ≠ 0 then some { s with replica := s.replica.write file } else none
  | .delete file =>
    if s.Deletable file then some { s with replica := s.replica.delete file } else none

/-- The writers have started, and none has synced. -/
structure Opened (s : Writers ι ps) : Prop where
  starts : ∀ c, Starts (s.file c)
  checked : ∀ c, (s.writer c).checked = false
  won : s.won = []

/-- No other writer is past its check and expects the TXID of the upload. -/
def Alone (s : Writers ι ps) : WriterAction ι ps → Prop
  | .upload c _ _ => ∀ c', c' ≠ c → (s.writer c').checked = true →
    (s.file c').pendingTXID ≠ (s.file c).pendingTXID
  | _ => True

instance decidableAlone [DecidableEq ι] [Fintype ι] (s : Writers ι ps) :
    ∀ a : WriterAction ι ps, Decidable (s.Alone a)
  | .upload c _ _ => inferInstanceAs (Decidable (∀ c', c' ≠ c → (s.writer c').checked = true →
      (s.file c').pendingTXID ≠ (s.file c).pendingTXID))
  | .start _ _ => .isTrue trivial
  | .operate _ _ => .isTrue trivial
  | .check _ => .isTrue trivial
  | .fail _ => .isTrue trivial
  | .compact _ => .isTrue trivial
  | .delete _ => .isTrue trivial

/-- The TXIDs that have been synced. -/
def wonTXIDs (s : Writers ι ps) : List Nat := s.won.map fun win => win.2.minTXID

/-- Each TXID is synced once, its file is that of the writer that synced it as long as there
is one, and another writer that expects it gets a conflict. -/
structure SyncedOnce (s : Writers ι ps) : Prop where
  once : s.wonTXIDs.Nodup
  stored : ∀ win ∈ s.won, ∀ g ∈ s.replica.level 0,
    g.minTXID = win.2.minTXID → g.maxTXID = win.2.minTXID → g = win.2
  conflict : ∀ c, (s.file c).pendingTXID ∈ s.wonTXIDs →
    (s.writer c).checked = false ∧
      ∃ remote, (s.file c).checkForConflict s.replica =
        .error (.conflict (s.file c).expectedTXID remote)

/-- Level 0 has a file at or behind each TXID that was synced, and a writer past its check
expects a TXID that was not. -/
structure Inv (s : Writers ι ps) : Prop where
  starts : ∀ c, Starts (s.file c)
  once : s.wonTXIDs.Nodup
  single : ∀ win ∈ s.won, win.2.maxTXID = win.2.minTXID
  kept : ∀ win ∈ s.won, ∃ g ∈ s.replica.level 0, win.2.minTXID ≤ g.minTXID
  stored : ∀ win ∈ s.won, ∀ g ∈ s.replica.level 0,
    g.minTXID = win.2.minTXID → g.maxTXID = win.2.minTXID → g = win.2
  fresh : ∀ c, (s.writer c).checked = true → (s.file c).pendingTXID ∉ s.wonTXIDs

variable {s s' : Writers ι ps} {c : ι} {f : VFSFile} {replica : Replica ps} {file g : LTXFile ps}

theorem Opened.inv (h : s.Opened) : s.Inv := by
  refine ⟨h.starts, ?_, ?_, ?_, ?_, fun c hc => ?_⟩
  · rw [wonTXIDs, h.won]
    exact List.nodup_nil
  · rw [h.won]
    rintro win ⟨⟩
  · rw [h.won]
    rintro win ⟨⟩
  · rw [h.won]
    rintro win ⟨⟩
  · rw [h.checked] at hc
    cases hc

/-! ## Stored files -/

/-- What is stored after an upload. -/
theorem mem_write (hlevel : file.info.level = 0) :
    g ∈ (replica.write file).level 0 ↔
      g = file ∨ g ∈ replica.level 0 ∧ (g.minTXID, g.maxTXID) ≠ (file.minTXID, file.maxTXID) := by
  rw [Replica.write]
  dsimp only
  rw [if_pos hlevel.symm]
  split
  · next hfresh =>
      rw [Replica.Fresh, hlevel] at hfresh
      rw [List.mem_append, List.mem_singleton, or_comm]
      refine or_congr_right (and_iff_left_of_imp fun hmem hname => hfresh ?_).symm
      exact List.mem_map.mpr ⟨g, hmem, hname⟩
  · next hstale =>
      rw [Replica.Fresh, hlevel, not_not, List.mem_map] at hstale
      obtain ⟨old, hold, hname⟩ := hstale
      rw [List.mem_map]
      constructor
      · rintro ⟨a, ha, rfl⟩
        split
        · exact Or.inl rfl
        · next hne => exact Or.inr ⟨ha, hne⟩
      · rintro (rfl | ⟨hmem, hne⟩)
        · exact ⟨old, hold, if_pos hname⟩
        · exact ⟨g, hmem, if_neg hne⟩

theorem level_write_other (hlevel : file.info.level ≠ 0) :
    (replica.write file).level 0 = replica.level 0 := by
  rw [Replica.write]
  dsimp only
  rw [if_neg (Ne.symm hlevel)]

/-! ## The check -/

theorem le_foldl_max (files : List (LTXFile ps)) (init : Nat) :
    init ≤ files.foldl (fun remoteTXID file => max remoteTXID file.maxTXID) init ∧
      ∀ file ∈ files,
        file.maxTXID ≤ files.foldl (fun remoteTXID file => max remoteTXID file.maxTXID) init := by
  induction files generalizing init with
  | nil => exact ⟨le_rfl, fun file hfile => by cases hfile⟩
  | cons first files ih =>
      obtain ⟨hinit, hfiles⟩ := ih (max init first.maxTXID)
      rw [List.foldl_cons]
      refine ⟨(Nat.le_max_left _ _).trans hinit, fun file hfile => ?_⟩
      rcases List.mem_cons.mp hfile with rfl | hfile
      · exact (Nat.le_max_right _ _).trans hinit
      · exact hfiles file hfile

/-- A level 0 file past the expected TXID is a conflict. -/
theorem conflict_of_mem (hmem : g ∈ replica.level 0) (hpast : f.expectedTXID < g.minTXID) :
    ∃ remote, f.checkForConflict replica = .error (.conflict f.expectedTXID remote) := by
  have hlisted : g ∈ (replica.level 0).filter fun file => f.expectedTXID ≤ file.minTXID :=
    List.mem_filter.mpr ⟨hmem, decide_eq_true hpast.le⟩
  have hle := (le_foldl_max ((replica.level 0).filter
    fun file => f.expectedTXID ≤ file.minTXID) 0).2 g hlisted
  have hmin := g.minTXID_le
  rw [VFSFile.checkForConflict, if_pos (by omega)]
  exact ⟨_, rfl⟩

/-- A writer that expects a TXID that was synced gets a conflict. -/
theorem Inv.conflict (h : s.Inv) (hwon : (s.file c).pendingTXID ∈ s.wonTXIDs) :
    ∃ remote, (s.file c).checkForConflict s.replica =
      .error (.conflict (s.file c).expectedTXID remote) := by
  obtain ⟨win, hwin, heq⟩ := List.mem_map.mp hwon
  obtain ⟨g, hg, hle⟩ := h.kept win hwin
  have hnext := h.starts c
  rw [Starts] at hnext
  exact conflict_of_mem hg (by omega)

theorem Inv.syncedOnce (h : s.Inv) : s.SyncedOnce := by
  refine ⟨h.once, h.stored, fun c hwon => ⟨?_, h.conflict hwon⟩⟩
  cases hchecked : (s.writer c).checked with
  | false => rfl
  | true => exact absurd hwon (h.fresh c hchecked)

/-! ## The counters -/

/-- A file with the same sync counters. -/
def SameCounters (f f' : VFSFile) : Prop :=
  f'.expectedTXID = f.expectedTXID ∧ f'.pendingTXID = f.pendingTXID

/-- Only syncs change the counters of a file. -/
theorem sameCounters_apply (op : FileOperation ps) (f : VFSFile) :
    SameCounters f (op.apply replica f) := by
  cases op with
  | lock elock =>
      rw [FileOperation.apply, VFSFile.Lock]
      split_ifs <;> exact ⟨rfl, rfl⟩
  | unlock elock =>
      rw [FileOperation.apply, VFSFile.Unlock]
      split_ifs <;> exact ⟨rfl, rfl⟩
  | writeAt b off =>
      obtain ⟨cache, commit, dirty, bufferFile, bufferNextOff, heq⟩ := writeAt_eq replica b off f
      rw [FileOperation.apply, heq]
      exact ⟨rfl, rfl⟩
  | truncate size =>
      rw [FileOperation.apply, VFSFile.Truncate]
      split_ifs <;> exact ⟨rfl, rfl⟩
  | readAt random off len =>
      obtain ⟨cache, heq⟩ := readAt_eq replica random off len f
      rw [FileOperation.apply, heq]
      exact ⟨rfl, rfl⟩
  | poll =>
      rw [FileOperation.apply]
      split
      · next f' hpoll =>
          obtain ⟨p0, p1, rfl⟩ := pollReplicaClient_eq hpoll
          obtain ⟨_, _, _, _, _, _, _, heq⟩ := applyPoll_eq p0 p1 f
          rw [heq]
          exact ⟨rfl, rfl⟩
      · exact ⟨rfl, rfl⟩

/-! ## Steps -/

/-- A writer that passed the check expects a TXID that was not synced. -/
theorem Inv.check (h : s.Inv) (hcheck : (s.file c).checkForConflict s.replica = .ok ()) :
    (s.file c).pendingTXID ∉ s.wonTXIDs := by
  intro hwon
  obtain ⟨remote, hconflict⟩ := h.conflict hwon
  rw [hcheck] at hconflict
  cases hconflict

/-- An upload of a TXID that was not synced leaves the files of those that were. -/
theorem Inv.write (h : s.Inv) (hlevel : file.info.level = 0)
    (hfresh : file.minTXID ∉ s.wonTXIDs) : Inv { s with replica := s.replica.write file } := by
  have hne : ∀ win ∈ s.won, win.2.minTXID ≠ file.minTXID := fun win hwin heq =>
    hfresh (List.mem_map.mpr ⟨win, hwin, heq⟩)
  refine ⟨h.starts, h.once, h.single, fun win hwin => ?_, fun win hwin g hg hmin hmax => ?_, h.fresh⟩
  · obtain ⟨g, hg, hle⟩ := h.kept win hwin
    by_cases hname : (g.minTXID, g.maxTXID) = (file.minTXID, file.maxTXID)
    · refine ⟨file, (mem_write hlevel).mpr (Or.inl rfl), ?_⟩
      rw [← (Prod.mk.inj hname).1]
      exact hle
    · exact ⟨g, (mem_write hlevel).mpr (Or.inr ⟨hg, hname⟩), hle⟩
  · rcases (mem_write hlevel).mp hg with rfl | ⟨hg, -⟩
    · exact absurd hmin.symm (hne win hwin)
    · exact h.stored win hwin g hg hmin hmax

theorem Inv.compact (h : s.Inv) (hlevel : file.info.level ≠ 0) :
    Inv { s with replica := s.replica.write file } := by
  have hzero : (s.replica.write file).level 0 = s.replica.level 0 := level_write_other hlevel
  refine ⟨h.starts, h.once, h.single, fun win hwin => ?_, fun win hwin => ?_, h.fresh⟩
  · dsimp only
    rw [hzero]
    exact h.kept win hwin
  · dsimp only
    rw [hzero]
    exact h.stored win hwin

theorem Inv.delete (h : s.Inv) (hdelete : s.Deletable file) :
    Inv { s with replica := s.replica.delete file } := by
  obtain ⟨-, later, hlater, hlt⟩ := hdelete
  have hmem : ∀ g, g ∈ (s.replica.delete file).level 0 ↔
      g ∈ s.replica.level 0 ∧ ¬ g.Named file.info.level file.minTXID file.maxTXID := fun g => by
    rw [Replica.delete]
    dsimp only
    rw [List.mem_filter, decide_eq_true_eq]
  refine ⟨h.starts, h.once, h.single, fun win hwin => ?_, fun win hwin g hg => ?_, h.fresh⟩
  · obtain ⟨g, hg, hle⟩ := h.kept win hwin
    by_cases hnamed : g.Named file.info.level file.minTXID file.maxTXID
    · -- then the later file takes its place
      have hmin : g.minTXID = file.minTXID := hnamed.2.1
      refine ⟨later, (hmem later).mpr ⟨hlater, fun hsame => ?_⟩, by omega⟩
      have hmin' : later.minTXID = file.minTXID := hsame.2.1
      omega
    · exact ⟨g, (hmem g).mpr ⟨hg, hnamed⟩, hle⟩
  · exact h.stored win hwin g ((hmem g).mp hg).1

section

variable [DecidableEq ι]

@[simp] theorem writer_set (s : Writers ι ps) (c c' : ι) (writer : Writer) :
    (s.set c writer).writer c' = if c' = c then writer else s.writer c' := by
  rw [set]
  dsimp only
  rw [Function.update_apply]

theorem Inv.set {writer : Writer} (h : s.Inv) (hstarts : Starts writer.file)
    (hfresh : writer.checked = true → writer.file.pendingTXID ∉ s.wonTXIDs) :
    (s.set c writer).Inv := by
  refine ⟨fun c' => ?_, h.once, h.single, h.kept, h.stored, fun c' hc' => ?_⟩
  · rw [file, writer_set]
    split
    · exact hstarts
    · exact h.starts c'
  · rw [writer_set] at hc'
    rw [file, writer_set]
    split
    · next heq => exact hfresh (by rwa [if_pos heq] at hc')
    · next hne => exact h.fresh c' (by rwa [if_neg hne] at hc')

/-- A sync that reports success. -/
theorem Inv.win (h : s.Inv) (hcreates : (s.file c).Creates file)
    (hfresh : file.minTXID ∉ s.wonTXIDs) (halone : ∀ c', c' ≠ c → (s.writer c').checked = true →
      (s.file c').pendingTXID ≠ (s.file c).pendingTXID) :
    Inv { s.set c ⟨(s.file c).uploaded, false⟩ with
      replica := s.replica.write file
      won := s.won ++ [(c, file)] } := by
  obtain ⟨hlevel, hmin, hmax, -, -⟩ := hcreates
  have hwrite := h.write hlevel hfresh
  have hwon : wonTXIDs { s.set c ⟨(s.file c).uploaded, false⟩ with
      replica := s.replica.write file
      won := s.won ++ [(c, file)] } = s.wonTXIDs ++ [file.minTXID] := by
    rw [wonTXIDs, wonTXIDs, List.map_append, List.map_singleton]
  refine ⟨fun c' => ?_, ?_, fun win hwin => ?_, fun win hwin => ?_, fun win hwin => ?_,
    fun c' hc' => ?_⟩
  · change Starts ((s.set c _).writer c').file
    rw [writer_set]
    split
    · rfl
    · exact h.starts c'
  · rw [hwon]
    refine List.nodup_append.mpr ⟨h.once, List.nodup_singleton _, fun a ha b hb hab => hfresh ?_⟩
    rw [List.mem_singleton] at hb
    rw [← hb, ← hab]
    exact ha
  · rcases List.mem_append.mp hwin with hwin | hwin
    · exact h.single win hwin
    · rw [List.mem_singleton.mp hwin, hmax, hmin]
  · rcases List.mem_append.mp hwin with hwin | hwin
    · exact hwrite.kept win hwin
    · rw [List.mem_singleton.mp hwin]
      exact ⟨file, (mem_write hlevel).mpr (Or.inl rfl), le_rfl⟩
  · rcases List.mem_append.mp hwin with hwin | hwin
    · exact hwrite.stored win hwin
    · rw [List.mem_singleton.mp hwin]
      intro g hg hgmin hgmax
      rcases (mem_write hlevel).mp hg with rfl | ⟨-, hname⟩
      · rfl
      · refine absurd ?_ hname
        rw [hgmin, hgmax, hmax, hmin]
  · have hc' : ((s.set c ⟨(s.file c).uploaded, false⟩).writer c').checked = true := hc'
    change ((s.set c _).writer c').file.pendingTXID ∉ _
    rw [hwon]
    rw [writer_set] at hc' ⊢
    split at hc'
    · cases hc'
    · next hne =>
        rw [if_neg hne, List.mem_append, List.mem_singleton, not_or]
        refine ⟨h.fresh c' hc', fun heq => halone c' hne hc' ?_⟩
        exact heq.trans hmin

theorem Inv.step {a : WriterAction ι ps} (h : s.Inv) (halone : s.Alone a)
    (hstep : Writers.step s a = some s') : s'.Inv := by
  cases a with
  | start c file =>
      rw [Writers.step] at hstep
      split at hstep
      · next hstarts =>
          obtain rfl := Option.some.inj hstep
          exact h.set hstarts fun hc => by cases hc
      · cases hstep
  | operate c op =>
      rw [Writers.step] at hstep
      split at hstep
      · obtain rfl := Option.some.inj hstep
        obtain ⟨hexpected, hpending⟩ : SameCounters (s.file c) (op.apply s.replica (s.file c)) :=
          sameCounters_apply op _
        refine h.set ?_ fun hc => by cases hc
        rw [Starts, hexpected, hpending]
        exact h.starts c
      · cases hstep
  | check c =>
      rw [Writers.step] at hstep
      split at hstep
      · split at hstep
        · next hcheck =>
            obtain rfl := Option.some.inj hstep
            exact h.set (h.starts c) fun _ => h.check hcheck
        · obtain rfl := Option.some.inj hstep
          exact h
      · cases hstep
  | upload c file reported =>
      rw [Writers.step] at hstep
      split at hstep
      · next hready =>
          obtain ⟨hchecked, hcreates⟩ := hready
          have hfresh : file.minTXID ∉ s.wonTXIDs := hcreates.2.1.symm ▸ h.fresh c hchecked
          split at hstep
          · obtain rfl := Option.some.inj hstep
            exact h.win hcreates hfresh halone
          · obtain rfl := Option.some.inj hstep
            have hset : (s.set c ⟨s.file c, false⟩).Inv := h.set (h.starts c) fun hc => by cases hc
            exact hset.write hcreates.1 hfresh
      · cases hstep
  | fail c =>
      obtain rfl := Option.some.inj hstep
      exact h.set (h.starts c) fun hc => by cases hc
  | compact file =>
      rw [Writers.step] at hstep
      split at hstep
      · next hlevel =>
          obtain rfl := Option.some.inj hstep
          exact h.compact hlevel
      · cases hstep
  | delete file =>
      rw [Writers.step] at hstep
      split at hstep
      · next hdelete =>
          obtain rfl := Option.some.inj hstep
          exact h.delete hdelete
      · cases hstep

/-- In a run in which no writer uploads while another that expects the same TXID is past its
check, each TXID is synced once and its file stays. -/
theorem synced_once {actions : List (WriterAction ι ps)} (h : s.Opened)
    (halone : Along Writers.step Alone s actions) (hrun : run Writers.step s actions = some s') :
    s'.SyncedOnce :=
  (run_induction (I := Inv) (fun hs hG hstep => hs.step hG hstep) h.inv halone hrun).syncedOnce

end

end Writers

/-! ## Two writers of a page -/

namespace TwoWriters

open TwoConnections

/-- The other writer's second transaction. -/
def rival : LTXFile PageSize.min where
  info := ⟨0, 2, 2, 100, 2⟩
  commit := 1
  frames := [⟨1, 0, 1, OnePage.page 3⟩]
  valid := OnePage.update.valid
  pgnos_nodup := OnePage.update.pgnos_nodup
  offsets_nodup := OnePage.update.offsets_nodup
  bounds := by simp

def writers : Writers Bool PageSize.min := ⟨fun _ => ⟨writer, false⟩, replica, []⟩

theorem opened : writers.Opened := ⟨fun _ => rfl, fun _ => rfl, rfl⟩

/-- Both write the first page. -/
def writes : List (WriterAction Bool PageSize.min) :=
  [.operate false (.writeAt (OnePage.page 2).data 0), .operate true (.writeAt (OnePage.page 3).data 0)]

/-- The second writer checks once the first has uploaded. -/
def inTurn : List (WriterAction Bool PageSize.min) :=
  writes ++ [.check false, .upload false OnePage.update true, .check true]

/-- Both check before either uploads. -/
def together : List (WriterAction Bool PageSize.min) :=
  writes ++ [.check false, .check true, .upload false OnePage.update true, .upload true rival true]

end TwoWriters

open TwoWriters in
theorem synced_once_sample : ∃ s, run Writers.step writers inTurn = some s ∧ s.SyncedOnce ∧
    s.wonTXIDs = [2] := by
  have hrun : (run Writers.step writers inTurn).map Writers.wonTXIDs = some [2] := by
    decide +kernel
  obtain ⟨s, hs, hwon⟩ := Option.map_eq_some_iff.mp hrun
  exact ⟨s, hs, Writers.synced_once opened (by decide +kernel) hs, hwon⟩

open TwoWriters in
/-- Both writers succeed with the second transaction, and the file of the first is gone. -/
theorem winner_replaced_by_writer : ∃ s, run Writers.step writers together = some s ∧
    s.wonTXIDs = [2, 2] ∧ ¬ s.SyncedOnce ∧
      (s.replica.level 0).map LTXFile.pages = [[(1, (OnePage.page 3).data)]] := by
  have hrun : (run Writers.step writers together).map (fun s => (s.wonTXIDs,
      (s.replica.level 0).map LTXFile.pages)) = some ([2, 2], [[(1, (OnePage.page 3).data)]]) := by
    decide +kernel
  obtain ⟨s, hs, heq⟩ := Option.map_eq_some_iff.mp hrun
  obtain ⟨hwon, hlevel⟩ := Prod.mk.inj heq
  refine ⟨s, hs, hwon, fun honce => ?_, hlevel⟩
  have hnodup := honce.once
  rw [hwon] at hnodup
  exact absurd hnodup (by decide)

end Vfs

end Litestream
