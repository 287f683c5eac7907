import Mathlib
import Litestream.Lib.Run
import Litestream.Vfs.Hydrator
import Litestream.Vfs.Open
import Litestream.Vfs.Replication
import Litestream.Vfs.Shrink

/-!
# Hydration next to polls

`runHydration` restores the plan that a `VFSFile` was opened with into a local file, catches up
to the position that it has seen when it began, and marks the file complete.  A poll moves the
position at any time, and writes its pages into the local file only once that is complete.  So
the pages of a poll in between are lost.

`hydrated_run_iff` says when the local file is the database at the position in every state of a
run: if the files that the catch-up applied lead exactly to the position there is when the file is
marked complete, and the files of each later poll from one position to the next.
-/

namespace Litestream

namespace Vfs

open Overlay PageArray Run Resize

variable {ps : PageSize}

/-! ## The code -/

/-- How far `runHydration` has come. -/
inductive HydrationPhase (ps : PageSize) where
  | started
  | sampled (currentTXID : Nat)
  | restored (currentTXID : Nat)
  /-- The files of the listing that are not applied yet. -/
  | catchingUp (currentTXID : Nat) (files : List (LTXFile ps))
  | caughtUp
  | complete
  /-- `SetErr` was called. -/
  | failed

namespace HydrationPhase

def isCaughtUp : HydrationPhase ps → Bool
  | caughtUp => true
  | _ => false

def isComplete : HydrationPhase ps → Bool
  | complete => true
  | _ => false

end HydrationPhase

/-- What a step of `runHydration` meets. -/
structure HydrationFaults where
  /-- The local file cannot be cut, or the plan cannot be read. -/
  restoreErr : Bool := false
  listErr : Bool := false
  /-- The number of files after which the iterator stops with an error. -/
  iterErr : Option Nat := none
  fault : Option Fault := none

/-- Decodes the files of a plan, if none of their pages is missing. -/
def restoreDatabase (plan : List (LTXFile ps)) : Option (List Bytes) :=
  if plan = [] then none
  else
    decodePages
      (fun pgno =>
        if pgno = lockPgno ps then some (List.replicate ps.size 0)
        else lastWrite (mergePages plan) pgno)
      (List.range' 1 (VFSFile.lastCommit plan))

namespace Hydrator

/-- Writes the pages of updates, and stops at a page that cannot be fetched.  The last entry of
a page counts. -/
def ApplyUpdates (replica : Replica ps) : Index → Bytes → Bytes
  | [], file => file
  | (pgno, e) :: updates, file =>
    match replica.fetch e with
    | none => file
    | some data => ApplyUpdates replica updates (file.writeAt ((pgno - 1) * ps.size) data)

def Restore (plan : List (LTXFile ps)) (h : Hydrator) : Option Hydrator :=
  (restoreDatabase plan).map fun pages =>
    ⟨h.file.writeAt 0 pages.flatten, (plan.getLast?.map LTXFile.maxTXID).getD 0⟩

def Truncate (size : Nat) (h : Hydrator) : Hydrator := { h with file := h.file.take size }

end Hydrator

structure Hydration (ps : PageSize) where
  replica : Replica ps
  file : VFSFile
  hydrator : Hydrator
  /-- The plan that the file was opened with. -/
  plan : List (LTXFile ps)
  phase : HydrationPhase ps
  /-- The variable of `runHydration`, from which the catch-up begins. -/
  hydrationTXID : Nat
  /-- The transaction whose database the local file was before the catch-up. -/
  base : Nat
  /-- The files that the catch-up has applied. -/
  applied : List (LTXFile ps)

inductive HydrationAction (ps : PageSize) where
  /-- Files are uploaded, compacted or deleted. -/
  | remote (replica : Replica ps)
  | poll
  | lock (elock : LockType)
  | unlock (elock : LockType)
  /-- `runHydration` goes on. -/
  | hydrate (faults : HydrationFaults)

namespace Hydration

variable (s : Hydration ps)

/-- `runHydration` after it has compared the TXIDs. -/
def restore (currentTXID : Nat) (faults : HydrationFaults) : Hydration ps :=
  if s.hydrator.txid > 0 ∧ currentTXID ≥ s.hydrator.txid then
    { s with phase := .restored currentTXID, hydrationTXID := s.hydrator.txid }
  else
    let h := if s.hydrator.txid > 0 then s.hydrator.Truncate 0 else s.hydrator
    match h.Restore s.plan with
    | none => { s with phase := .failed }
    | some h =>
      if faults.restoreErr then { s with phase := .failed }
      else
        { s with
          hydrator := h
          phase := .restored currentTXID
          hydrationTXID := h.txid
          base := h.txid }

/-- `CatchUp` lists its files, if there is anything to catch up. -/
def list (currentTXID : Nat) (faults : HydrationFaults) : Hydration ps :=
  if currentTXID > s.hydrationTXID then
    if faults.listErr then { s with phase := .failed }
    else
      { s with
        phase := .catchingUp currentTXID
          (CatchUpRun.listed ⟨s.replica, none, faults.iterErr, fun _ => none⟩ s.hydrationTXID) }
  else { s with phase := .caughtUp }

/-- `CatchUp` applies its next file. -/
def apply (currentTXID : Nat) (faults : HydrationFaults) : List (LTXFile ps) → Hydration ps
  | [] => { s with phase := .caughtUp }
  | file :: files =>
    if file.maxTXID > currentTXID then { s with phase := .caughtUp }
    else
      match s.hydrator.ApplyLTX faults.fault file with
      | (h, .error _) => { s with hydrator := h, phase := .failed }
      | (h, .ok ()) =>
        { s with
          hydrator := { h with txid := file.maxTXID }
          phase := .catchingUp currentTXID files
          applied := s.applied ++ [file] }

/-- The next step of `runHydration`. -/
def hydrate (faults : HydrationFaults) : Option (Hydration ps) :=
  match s.phase with
  | .started => some { s with phase := .sampled s.file.pos }
  | .sampled currentTXID => some (s.restore currentTXID faults)
  | .restored currentTXID => some (s.list currentTXID faults)
  | .catchingUp currentTXID files => some (s.apply currentTXID faults files)
  | .caughtUp => some { s with phase := .complete, file := { s.file with cache := fun _ => none } }
  | .complete => none
  | .failed => none

/-- A poll, with the update of the local file. -/
def poll : Hydration ps :=
  match VFSFile.pollLevel s.replica 0 s.file.pos s.file.commit with
  | .error _ => s
  | .ok p0 =>
    match VFSFile.pollLevel s.replica 1 s.file.maxTXID1 (VFSFile.baseCommit s.file.commit p0) with
    | .error _ => s
    | .ok p1 =>
      { s with
        file := s.file.applyPoll p0 p1
        hydrator :=
          if s.file.targetTime = none ∧ s.phase.isComplete ∧ VFSFile.combined p0 p1 ≠ [] then
            { s.hydrator with
              file := Hydrator.ApplyUpdates s.replica (VFSFile.combined p0 p1) s.hydrator.file }
          else s.hydrator }

def step (s : Hydration ps) : HydrationAction ps → Option (Hydration ps)
  | .remote replica => some { s with replica := replica }
  | .poll => some s.poll
  | .lock elock => some { s with file := State.orSame s.file (s.file.Lock elock) }
  | .unlock elock => some { s with file := State.orSame s.file (s.file.Unlock elock) }
  | .hydrate faults => s.hydrate faults

end Hydration

/-! ## What hydration is for -/

/-- A file has the pages that its transactions changed, but for the lock page, as of its last
one, and the page count there. -/
structure Recorded (S : Nat → List (Page ps)) (file : LTXFile ps) : Prop where
  commit : file.commit = (S file.maxTXID).length
  sound : Sound S file
  complete : ∀ t j, file.minTXID ≤ t → t ≤ file.maxTXID →
    Delta.Changed (fun t j => (S t)[j]?) id t j → j < (S file.maxTXID).length →
      j + 1 ≠ lockPgno ps → ∃ frame ∈ file.frames, frame.pgno = j + 1

/-- A database, whose lock page holds zeros. -/
structure Database (S : Nat → List (Page ps)) : Prop where
  empty : S 0 = []
  lockPage : ∀ t, lockPgno ps ≤ (S t).length → (S t)[lockPgno ps - 1]? = some (zeroPage ps)

/-- The files that are uploaded record the database. -/
def HydrationAction.Records (S : Nat → List (Page ps)) : HydrationAction ps → Prop
  | remote replica => ∀ level, ∀ file ∈ replica.level level, Recorded S file
  | poll => True
  | lock _ => True
  | unlock _ => True
  | hydrate _ => True

/-- The files whose entries a poll adds up. -/
def VFSFile.updatedFiles (replica : Replica ps) (f : VFSFile) : List (LTXFile ps) :=
  if Replaces f.commit (levelFiles replica 0 f.pos) (levelFiles replica 1 f.maxTXID1) then
    sinceShrink LTXFile.commit (f.polledFiles replica)
  else f.polledFiles replica

namespace Hydration

/-- A file was just opened on a plan.  The local file is new, or it was kept from before. -/
structure Opened (S : Nat → List (Page ps)) (s : Hydration ps) : Prop where
  database : Database S
  remote : ∀ level, ∀ file ∈ s.replica.level level, Recorded S file
  plan : ∀ file ∈ s.plan, Recorded S file
  chain : Cover.Chain LTXFile.minTXID LTXFile.maxTXID 0 s.plan
  targetTime : s.file.targetTime = none
  phase : s.phase = .started
  base : s.base = s.hydrator.txid
  applied : s.applied = []
  file : s.hydrator.file = image (S s.hydrator.txid)

/-- A complete local file is the database at the position. -/
def Hydrated (S : Nat → List (Page ps)) (s : Hydration ps) : Prop :=
  s.phase.isComplete → s.hydrator.file = image (S s.file.pos)

/-- The local file is the database at the position after the step, if it is complete. -/
def HydratedAfter (S : Nat → List (Page ps)) (s : Hydration ps) (a : HydrationAction ps) : Prop :=
  ∀ s', s.step a = some s' → s'.Hydrated S

/-- The files that the catch-up applied lead to the position when the local file is to be marked
complete, and the files of a poll of a complete one to the position after the poll. -/
def LeadsAt (S : Nat → List (Page ps)) (s : Hydration ps) : HydrationAction ps → Prop
  | .remote _ => True
  | .poll => s.phase.isComplete → ∀ f, s.file.pollReplicaClient s.replica = .ok f →
      Leads S (s.file.updatedFiles s.replica) s.file.pos f.pos
  | .lock _ => True
  | .unlock _ => True
  | .hydrate _ => s.phase.isCaughtUp → Leads S s.applied s.base s.file.pos

end Hydration

/-! ## The restored file -/

section

variable {S : Nat → List (Page ps)} {files plan : List (LTXFile ps)} {file : LTXFile ps}
  {replica : Replica ps} {t j : Nat} {a : List (Page ps)} {f f' : VFSFile}

theorem Recorded.still (h : Recorded S file) (hmin : file.minTXID ≤ t + 1)
    (hmax : t ≤ file.maxTXID) (hj : j < (S file.maxTXID).length) (hlock : j + 1 ≠ lockPgno ps)
    (hheld : ¬ ∃ frame ∈ file.frames, frame.pgno = j + 1) : (S t)[j]? = (S file.maxTXID)[j]? := by
  have hstill : Delta.Still (fun t j => (S t)[j]?) id t file.maxTXID j :=
    fun u htu hu hchanged => hheld (h.complete u j (by omega) hu hchanged hj hlock)
  refine hstill.eq hmax ?_
  rw [List.getElem?_eq_getElem hj]
  exact Option.some_ne_none _

/-- A file has a page as of its last transaction, or the page did not change. -/
theorem Recorded.lastWrite (h : Recorded S file) (hmin : file.minTXID ≤ t + 1)
    (hmax : t ≤ file.maxTXID) (hj : j < (S file.maxTXID).length) (hlock : j + 1 ≠ lockPgno ps) :
    (Overlay.lastWrite (file.frames.map fun frame => (frame.pgno - 1, frame.page)) j).or (S t)[j]? =
      (S file.maxTXID)[j]? := by
  cases hlast : Overlay.lastWrite (file.frames.map fun frame => (frame.pgno - 1, frame.page)) j with
  | some page =>
      obtain ⟨frame, hframe, heq⟩ := List.mem_map.mp (mem_of_lastWrite hlast)
      obtain ⟨rfl, rfl⟩ := Prod.mk.inj heq
      exact (h.sound frame hframe).symm
  | none =>
      refine h.still hmin hmax hj hlock ?_
      rintro ⟨frame, hframe, hpgno⟩
      have hkey := lastWrite_eq_none_iff.mp hlast
      refine hkey (List.mem_map.mpr ⟨_, List.mem_map.mpr ⟨frame, hframe, rfl⟩, ?_⟩)
      exact (congrArg (· - 1) hpgno).trans (Nat.add_sub_cancel j 1)

/-- A chain of files has each page of the database where it ends, or the page did not change. -/
theorem lastWrite_chain (hrecorded : ∀ file ∈ files, Recorded S file)
    (hchain : Cover.Chain LTXFile.minTXID LTXFile.maxTXID t files)
    (hj : j < (S (Cover.reach LTXFile.maxTXID t files)).length) (hlock : j + 1 ≠ lockPgno ps) :
    (lastWrite (fileWrites files) j).or (S t)[j]? =
      (S (Cover.reach LTXFile.maxTXID t files))[j]? := by
  induction files generalizing t with
  | nil => rfl
  | cons file files ih =>
      obtain ⟨hfile, hfiles⟩ := List.forall_mem_cons.mp hrecorded
      obtain ⟨hmin, hmax, hrest⟩ := hchain
      rw [Cover.reach_cons] at hj ⊢
      have hlater := ih hfiles hrest hj
      rw [fileWrites_cons, lastWrite_append]
      cases hlast : lastWrite (fileWrites files) j with
      | some page =>
          rw [hlast, Option.some_or] at hlater
          rw [Option.some_or, Option.some_or, hlater]
      | none =>
          rw [hlast, Option.none_or] at hlater
          have hlt : j < (S file.maxTXID).length := by
            by_contra hge
            rw [List.getElem?_eq_none (Nat.le_of_not_lt hge), List.getElem?_eq_getElem hj] at hlater
            cases hlater
          rw [Option.none_or, hfile.lastWrite hmin hmax.le hlt hlock, hlater]

/-- Pages count from one in a file and from zero in a database. -/
theorem lastWrite_frames {frames : List (PageFrame ps)} (hpos : ∀ frame ∈ frames, 1 ≤ frame.pgno)
    (j : Nat) : lastWrite (frames.map fun frame => (frame.pgno, frame.page.data)) (j + 1) =
      (lastWrite (frames.map fun frame => (frame.pgno - 1, frame.page)) j).map Page.data := by
  induction frames with
  | nil => rfl
  | cons frame frames ih =>
      obtain ⟨hone, hrest⟩ := List.forall_mem_cons.mp hpos
      have hiff : frame.pgno = j + 1 ↔ frame.pgno - 1 = j := by omega
      rw [List.map_cons, List.map_cons, lastWrite_cons, lastWrite_cons, ih hrest]
      simp only [hiff]
      cases lastWrite (frames.map fun frame => (frame.pgno - 1, frame.page)) j with
      | some page => rfl
      | none =>
          by_cases h : frame.pgno - 1 = j
          · simp [h]
          · simp [h]

theorem lastWrite_mergePages (files : List (LTXFile ps)) (j : Nat) :
    lastWrite (mergePages files) (j + 1) = (lastWrite (fileWrites files) j).map Page.data := by
  have hpages : mergePages files = (files.flatMap LTXFile.frames).map
      fun frame => (frame.pgno, frame.page.data) := by
    rw [List.map_flatMap]
    rfl
  have hwrites : fileWrites files = (files.flatMap LTXFile.frames).map
      fun frame => (frame.pgno - 1, frame.page) := by
    rw [List.map_flatMap]
    rfl
  rw [hpages, hwrites]
  refine lastWrite_frames (fun frame hframe => ?_) j
  obtain ⟨file, -, hmem⟩ := List.mem_flatMap.mp hframe
  exact (file.bounds frame hmem).1

theorem lastCommit_eq (hrecorded : ∀ file ∈ plan, Recorded S file) (hne : plan ≠ []) :
    VFSFile.lastCommit plan = (S (Cover.reach LTXFile.maxTXID 0 plan)).length := by
  rw [VFSFile.lastCommit, List.getLast?_eq_some_getLast hne, Option.map_some, Option.getD_some,
    Cover.reach_eq_getLast 0 hne]
  exact (hrecorded _ (List.getLast_mem hne)).commit

/-- A plan that can be restored is the database where it ends. -/
theorem restoreDatabase_eq (hdatabase : Database S) (hrecorded : ∀ file ∈ plan, Recorded S file)
    (hchain : Cover.Chain LTXFile.minTXID LTXFile.maxTXID 0 plan) {pages : List Bytes}
    (h : restoreDatabase plan = some pages) :
    pages = (S (Cover.reach LTXFile.maxTXID 0 plan)).map Page.data := by
  rw [restoreDatabase] at h
  split at h
  · cases h
  next hne =>
    rw [lastCommit_eq hrecorded hne] at h
    have hmap := decodePages_eq_some h
    have hlength : pages.length = (S (Cover.reach LTXFile.maxTXID 0 plan)).length := by
      simpa using congrArg List.length hmap
    refine List.ext_getElem? fun j => ?_
    rcases Nat.lt_or_ge j pages.length with hj | hj
    · have hget := congrArg (·[j]?) hmap
      simp only [List.getElem?_map] at hget
      rw [List.getElem?_eq_getElem hj, List.getElem?_range' (by omega)] at hget
      simp only [Option.map_some, Nat.one_mul] at hget
      have hread := Option.some.inj hget
      rw [Nat.add_comm 1 j] at hread
      rw [List.getElem?_eq_getElem hj, hread, List.getElem?_map]
      by_cases hlock : j + 1 = lockPgno ps
      · rw [if_pos hlock]
        have hzero := hdatabase.lockPage (Cover.reach LTXFile.maxTXID 0 plan) (by omega)
        rw [← hlock, Nat.add_sub_cancel] at hzero
        rw [hzero]
        rfl
      · have hpage := lastWrite_chain hrecorded hchain (by omega) hlock
        rw [hdatabase.empty, List.getElem?_nil, Option.or_none] at hpage
        rw [if_neg hlock, lastWrite_mergePages, hpage]
    · rw [List.getElem?_eq_none hj, List.getElem?_map, List.getElem?_eq_none (hlength ▸ hj)]
      rfl

theorem image_empty (hdatabase : Database S) : image (S 0) = [] := by
  rw [hdatabase.empty]
  rfl

/-! ## The pages of a poll -/

/-- Writes pages, which count from zero, into a file. -/
def writePagesAt (ps : PageSize) (ws : List (Nat × Page ps)) (b : Bytes) : Bytes :=
  ws.foldl (fun b w => b.writeAt (w.1 * ps.size) w.2.data) b

theorem applyUpdates_frames (hstored : replica.Stored file) {frames : List (PageFrame ps)}
    (hframes : ∀ frame ∈ frames, frame ∈ file.frames) (updates : Index) (b : Bytes) :
    Hydrator.ApplyUpdates replica
        ((frames.map fun frame => (frame.pgno, file.elem frame)) ++ updates) b =
      Hydrator.ApplyUpdates replica updates
        (writePagesAt ps (frames.map fun frame => (frame.pgno - 1, frame.page)) b) := by
  induction frames generalizing b with
  | nil => rfl
  | cons frame frames ih =>
      obtain ⟨hframe, hrest⟩ := List.forall_mem_cons.mp hframes
      rw [List.map_cons, List.cons_append, Hydrator.ApplyUpdates, hstored.fetch_elem hframe]
      exact ih hrest _

/-- Updates from stored files write the pages of the files. -/
theorem applyUpdates_eq (hstored : ∀ file ∈ files, replica.Stored file) (b : Bytes) :
    Hydrator.ApplyUpdates replica (mergeIndex files) b = writePagesAt ps (fileWrites files) b := by
  induction files generalizing b with
  | nil => rfl
  | cons file files ih =>
      obtain ⟨hfile, hfiles⟩ := List.forall_mem_cons.mp hstored
      rw [mergeIndex, List.flatMap_cons, FetchPageIndex,
        applyUpdates_frames hfile fun _ hframe => hframe, fileWrites_cons, writePagesAt,
        writePagesAt, List.foldl_append]
      exact ih hfiles _

theorem writePagesAt_image (ws : List (Nat × Page ps)) (a : List (Page ps)) :
    writePagesAt ps ws (image a) = image (putAll (zeroPage ps) a ws) := by
  induction ws generalizing a with
  | nil => rfl
  | cons w ws ih =>
      rw [writePagesAt, List.foldl_cons, image,
        @writeAt_flatMap _ (zeroPage ps) _ _ Page.length_data size_pos rfl]
      exact ih _

theorem contiguous_sublist (maxTXID : Nat) (files : List (LTXFile ps)) :
    (VFSFile.contiguous maxTXID files).Sublist files := by
  induction files generalizing maxTXID with
  | nil => exact .slnil
  | cons file files ih =>
      rw [VFSFile.contiguous]
      split
      · exact List.nil_sublist _
      · exact (ih file.maxTXID).cons_cons file

theorem mem_level_of_levelFiles {level prevMaxTXID : Nat}
    (h : file ∈ VFSFile.levelFiles replica level prevMaxTXID) : file ∈ replica.level level :=
  (List.mem_filter.mp ((contiguous_sublist _ _).mem h)).1

theorem mem_level_of_updatedFiles (h : file ∈ f.updatedFiles replica) :
    file ∈ replica.level file.info.level := by
  have hpolled : file ∈ f.polledFiles replica := by
    rw [VFSFile.updatedFiles] at h
    split at h
    · exact (sinceShrink_suffix _ _).mem h
    · exact h
  rcases List.mem_append.mp hpolled with h | h
  · have hmem := mem_level_of_levelFiles h
    rwa [replica.level_eq 0 file hmem]
  · have hmem := mem_level_of_levelFiles h
    rwa [replica.level_eq 1 file hmem]

theorem combined_eq_mergeIndex {p0 p1 : VFSFile.LevelPoll}
    (h0 : VFSFile.pollLevel replica 0 f.pos f.commit = .ok p0)
    (h1 : VFSFile.pollLevel replica 1 f.maxTXID1 (VFSFile.baseCommit f.commit p0) = .ok p1) :
    VFSFile.combined p0 p1 = mergeIndex (f.updatedFiles replica) := by
  obtain ⟨hindex0, -, hreplace0⟩ := pollLevel_eq_ok h0
  obtain ⟨hindex1, -, -⟩ := pollLevel_eq_ok h1
  have hcombined := combined_eq [] hreplace0 (replaceIndex_iff h0 h1)
  rw [ite_self, List.nil_append, List.nil_append] at hcombined
  rw [VFSFile.combined, hindex0, hindex1, hcombined, VFSFile.updatedFiles, VFSFile.polledFiles]
  split <;> rfl

end

/-! ## The phases -/

namespace Hydration

variable {S : Nat → List (Page ps)} {s s' : Hydration ps}

/-- What each phase knows of the local file. -/
def AtPhase (S : Nat → List (Page ps)) (s : Hydration ps) : HydrationPhase ps → Prop
  | .started => s.base = s.hydrator.txid ∧ s.applied = [] ∧ s.hydrator.file = image (S s.base)
  | .sampled _ => s.base = s.hydrator.txid ∧ s.applied = [] ∧ s.hydrator.file = image (S s.base)
  | .restored _ => s.applied = [] ∧ s.hydrator.file = image (S s.base)
  | .catchingUp _ files => (∀ file ∈ files, Recorded S file) ∧
      s.hydrator.file = image (putAll (zeroPage ps) (S s.base) (fileWrites s.applied))
  | .caughtUp => s.hydrator.file = image (putAll (zeroPage ps) (S s.base) (fileWrites s.applied))
  | .complete => s.hydrator.file = image (S s.file.pos)
  | .failed => True

structure Inv (S : Nat → List (Page ps)) (s : Hydration ps) : Prop where
  database : Database S
  remote : ∀ level, ∀ file ∈ s.replica.level level, Recorded S file
  plan : ∀ file ∈ s.plan, Recorded S file
  chain : Cover.Chain LTXFile.minTXID LTXFile.maxTXID 0 s.plan
  targetTime : s.file.targetTime = none
  applied : ∀ file ∈ s.applied, Recorded S file
  phase : s.AtPhase S s.phase

theorem Opened.inv (h : s.Opened S) : s.Inv S where
  database := h.database
  remote := h.remote
  plan := h.plan
  chain := h.chain
  targetTime := h.targetTime
  applied := by simp [h.applied]
  phase := by
    rw [h.phase]
    exact ⟨h.base, h.applied, h.base ▸ h.file⟩

theorem Inv.hydrated (h : s.Inv S) : s.Hydrated S := by
  intro hcomplete
  have hphase := h.phase
  cases hs : s.phase with
  | complete =>
      rw [hs] at hphase
      exact hphase
  | started | sampled _ | restored _ | catchingUp _ _ | caughtUp | failed =>
      rw [hs] at hcomplete
      cases hcomplete

/-- Steps that change neither the local file nor the position keep what is known. -/
theorem Inv.of_eq (h : s.Inv S) {replica : Replica ps} {file : VFSFile}
    (hreplica : ∀ level, ∀ file ∈ replica.level level, Recorded S file)
    (hpos : s.phase.isComplete → file.pos = s.file.pos)
    (htarget : file.targetTime = s.file.targetTime) :
    Inv S { s with replica := replica, file := file } where
  database := h.database
  remote := hreplica
  plan := h.plan
  chain := h.chain
  targetTime := htarget.trans h.targetTime
  applied := h.applied
  phase := by
    have hphase := h.phase
    dsimp only
    cases hs : s.phase with
    | complete =>
        rw [hs] at hphase
        exact hphase.trans (by rw [hpos (by rw [hs]; rfl)])
    | started | sampled _ | restored _ | catchingUp _ _ | caughtUp | failed =>
        rw [hs] at hphase
        exact hphase

theorem pos_lock (f : VFSFile) (elock : LockType) :
    (State.orSame f (f.Lock elock)).pos = f.pos ∧
      (State.orSame f (f.Lock elock)).targetTime = f.targetTime := by
  rw [VFSFile.Lock]
  split_ifs <;> exact ⟨rfl, rfl⟩

theorem pos_unlock (f : VFSFile) (elock : LockType) :
    (State.orSame f (f.Unlock elock)).pos = f.pos ∧
      (State.orSame f (f.Unlock elock)).targetTime = f.targetTime := by
  rw [VFSFile.Unlock]
  split_ifs <;> exact ⟨rfl, rfl⟩

/-! ## Polls -/

/-- A poll fails, or it writes the pages of the updated files if the local file is complete. -/
theorem poll_cases (h : s.file.targetTime = none) :
    (∀ f, s.file.pollReplicaClient s.replica ≠ .ok f) ∧ s.poll = s ∨
    ∃ f, s.file.pollReplicaClient s.replica = .ok f ∧ f.targetTime = none ∧ s.poll =
      { s with
        file := f
        hydrator :=
          if s.phase.isComplete then
            { s.hydrator with
              file := Hydrator.ApplyUpdates s.replica
                (mergeIndex (s.file.updatedFiles s.replica)) s.hydrator.file }
          else s.hydrator } := by
  rw [poll]
  cases h0 : VFSFile.pollLevel s.replica 0 s.file.pos s.file.commit with
  | error err =>
      refine Or.inl ⟨fun f hpoll => ?_, rfl⟩
      rw [VFSFile.pollReplicaClient, h0] at hpoll
      cases hpoll
  | ok p0 =>
      dsimp only
      cases h1 : VFSFile.pollLevel s.replica 1 s.file.maxTXID1
          (VFSFile.baseCommit s.file.commit p0) with
      | error err =>
          refine Or.inl ⟨fun f hpoll => ?_, rfl⟩
          rw [VFSFile.pollReplicaClient, h0] at hpoll
          simp only [bind, Except.bind, h1] at hpoll
          cases hpoll
      | ok p1 =>
          have hpoll : s.file.pollReplicaClient s.replica = .ok (s.file.applyPoll p0 p1) := by
            rw [VFSFile.pollReplicaClient, h0]
            simp only [bind, Except.bind, h1]
            rfl
          refine Or.inr ⟨_, hpoll, (applyPoll_counters h p0 p1).2.2, ?_⟩
          dsimp only
          rw [combined_eq_mergeIndex h0 h1]
          by_cases hcomplete : s.phase.isComplete = true
          · by_cases hnil : mergeIndex (s.file.updatedFiles s.replica) = []
            · rw [hnil, if_neg fun hand => hand.2.2 rfl, if_pos hcomplete]
              rfl
            · rw [if_pos ⟨h, hcomplete, hnil⟩, if_pos hcomplete]
          · rw [if_neg fun hand => hcomplete hand.2.1, if_neg hcomplete]

/-- The local file after a poll is the database with the pages of the updated files. -/
theorem Inv.applyUpdates (h : s.Inv S) (hcomplete : s.phase = .complete) :
    Hydrator.ApplyUpdates s.replica (mergeIndex (s.file.updatedFiles s.replica))
        s.hydrator.file =
      image (putAll (zeroPage ps) (S s.file.pos)
        (fileWrites (s.file.updatedFiles s.replica))) := by
  have hphase := h.phase
  rw [hcomplete] at hphase
  rw [show s.hydrator.file = image (S s.file.pos) from hphase]
  rw [applyUpdates_eq fun file hfile => mem_level_of_updatedFiles hfile, writePagesAt_image]

theorem Inv.leads_updated (h : s.Inv S) {toTXID : Nat} :
    Leads S (s.file.updatedFiles s.replica) s.file.pos toTXID ↔
      putAll (zeroPage ps) (S s.file.pos) (fileWrites (s.file.updatedFiles s.replica)) =
        S toTXID :=
  leads_iff fun file hfile => (h.remote _ file (mem_level_of_updatedFiles hfile)).sound

/-! ## The steps of `runHydration` -/

/-- Another phase, in which the same is known of the rest. -/
theorem Inv.of_phase (h : s.Inv S) {s' : Hydration ps} (hreplica : s'.replica = s.replica)
    (hfile : s'.file = s.file) (hplan : s'.plan = s.plan)
    (happlied : ∀ file ∈ s'.applied, Recorded S file) (hphase : s'.AtPhase S s'.phase) :
    s'.Inv S where
  database := h.database
  remote := hreplica ▸ h.remote
  plan := hplan ▸ h.plan
  chain := hplan ▸ h.chain
  targetTime := hfile ▸ h.targetTime
  applied := happlied
  phase := hphase

theorem writeAt_empty (data : Bytes) : Bytes.writeAt [] 0 data = data := by
  by_cases hdata : data = []
  · rw [hdata, Bytes.writeAt_nil]
  · rw [Bytes.writeAt_of_ne hdata]
    simp [Bytes.truncate]

/-- A plan is restored into an empty file. -/
theorem restore_eq {h h' : Hydrator} {plan : List (LTXFile ps)} (hdatabase : Database S)
    (hrecorded : ∀ file ∈ plan, Recorded S file)
    (hchain : Cover.Chain LTXFile.minTXID LTXFile.maxTXID 0 plan) (hempty : h.file = [])
    (hrestore : h.Restore plan = some h') : h'.file = image (S h'.txid) := by
  rw [Hydrator.Restore, Option.map_eq_some_iff] at hrestore
  obtain ⟨pages, hpages, rfl⟩ := hrestore
  have hne : plan ≠ [] := by
    rintro rfl
    cases hpages
  rw [restoreDatabase_eq hdatabase hrecorded hchain hpages, hempty, writeAt_empty]
  rw [List.getLast?_eq_some_getLast hne, Option.map_some, Option.getD_some,
    Cover.reach_eq_getLast 0 hne, image, List.flatMap_def]

theorem Inv.restore (h : s.Inv S) {currentTXID : Nat} (hphase : s.phase = .sampled currentTXID)
    (faults : HydrationFaults) : (s.restore currentTXID faults).Inv S := by
  have hknown := h.phase
  rw [hphase] at hknown
  obtain ⟨hbase, happlied, hfile⟩ := hknown
  rw [Hydration.restore]
  split
  · exact h.of_phase rfl rfl rfl h.applied ⟨happlied, hfile⟩
  dsimp only
  split
  · exact h.of_phase rfl rfl rfl h.applied trivial
  next h' hrestore =>
    split
    · exact h.of_phase rfl rfl rfl h.applied trivial
    · refine h.of_phase rfl rfl rfl h.applied ⟨happlied, ?_⟩
      refine restore_eq h.database h.plan h.chain ?_ hrestore
      split
      · rw [Hydrator.Truncate, List.take_zero]
      next hzero =>
        rw [hfile, hbase, Nat.eq_zero_of_not_pos hzero]
        exact image_empty h.database

theorem mem_level_of_listed {run : CatchUpRun ps} {fromTXID : Nat} {file : LTXFile ps}
    (hfile : file ∈ run.listed fromTXID) : file ∈ run.replica.level 0 := by
  have hfilter : file ∈ (run.replica.level 0).filter fun file => fromTXID + 1 ≤ file.minTXID := by
    rw [CatchUpRun.listed] at hfile
    split at hfile
    · exact hfile
    · exact List.mem_of_mem_take hfile
  exact (List.mem_filter.mp hfilter).1

theorem Inv.list (h : s.Inv S) {currentTXID : Nat} (hphase : s.phase = .restored currentTXID)
    (faults : HydrationFaults) : (s.list currentTXID faults).Inv S := by
  have hknown := h.phase
  rw [hphase] at hknown
  obtain ⟨happlied, hfile⟩ := hknown
  have hwritten : s.hydrator.file =
      image (putAll (zeroPage ps) (S s.base) (fileWrites s.applied)) := by
    rw [happlied, hfile]
    rfl
  rw [Hydration.list]
  split
  · split
    · exact h.of_phase rfl rfl rfl h.applied trivial
    · refine h.of_phase rfl rfl rfl h.applied ⟨fun file hmem => ?_, hwritten⟩
      exact h.remote 0 file (mem_level_of_listed hmem)
  · exact h.of_phase rfl rfl rfl h.applied hwritten

theorem fileWrites_concat (files : List (LTXFile ps)) (file : LTXFile ps) :
    fileWrites (files ++ [file]) =
      fileWrites files ++ file.frames.map fun frame => (frame.pgno - 1, frame.page) := by
  rw [fileWrites, List.flatMap_append, List.flatMap_singleton]
  rfl

theorem Inv.apply (h : s.Inv S) {currentTXID : Nat} {files : List (LTXFile ps)}
    (hphase : s.phase = .catchingUp currentTXID files) (faults : HydrationFaults) :
    (s.apply currentTXID faults files).Inv S := by
  have hknown := h.phase
  rw [hphase] at hknown
  obtain ⟨hfiles, hwritten⟩ := hknown
  cases files with
  | nil => exact h.of_phase rfl rfl rfl h.applied hwritten
  | cons file files =>
      obtain ⟨hfile, hrest⟩ := List.forall_mem_cons.mp hfiles
      rw [Hydration.apply]
      split
      · exact h.of_phase rfl rfl rfl h.applied hwritten
      · cases hfault : faults.fault with
        | some fault => exact h.of_phase rfl rfl rfl h.applied trivial
        | none =>
            have hhydrator : s.hydrator = ⟨image (putAll (zeroPage ps) (S s.base)
                (fileWrites s.applied)), s.hydrator.txid⟩ := by
              rw [← hwritten]
            rw [hhydrator, applyLTX_ok rfl, writePages_image]
            refine h.of_phase rfl rfl rfl (fun g hg => ?_) ⟨hrest, ?_⟩
            · rcases List.mem_append.mp hg with hg | hg
              · exact h.applied g hg
              · rw [List.mem_singleton.mp hg]
                exact hfile
            · dsimp only
              rw [fileWrites_concat, putAll_append]

/-- A step of `runHydration` leaves the file as it is, until it marks the local file complete. -/
theorem hydrate_cases {faults : HydrationFaults} (hstep : s.hydrate faults = some s') :
    (s.phase.isCaughtUp = false ∧ s.phase.isComplete = false ∧ s'.phase.isComplete = false ∧
      s'.replica = s.replica ∧ s'.file = s.file) ∨
      s.phase = .caughtUp ∧
        s' = { s with phase := .complete, file := { s.file with cache := fun _ => none } } := by
  rw [Hydration.hydrate] at hstep
  cases hs : s.phase with
  | started =>
      rw [hs] at hstep
      obtain rfl := Option.some.inj hstep
      exact Or.inl ⟨rfl, rfl, rfl, rfl, rfl⟩
  | sampled currentTXID =>
      rw [hs] at hstep
      obtain rfl := Option.some.inj hstep
      refine Or.inl ⟨rfl, rfl, ?_⟩
      rw [Hydration.restore]
      split
      · exact ⟨rfl, rfl, rfl⟩
      dsimp only
      split
      · exact ⟨rfl, rfl, rfl⟩
      · split <;> exact ⟨rfl, rfl, rfl⟩
  | restored currentTXID =>
      rw [hs] at hstep
      obtain rfl := Option.some.inj hstep
      refine Or.inl ⟨rfl, rfl, ?_⟩
      rw [Hydration.list]
      split
      · split <;> exact ⟨rfl, rfl, rfl⟩
      · exact ⟨rfl, rfl, rfl⟩
  | catchingUp currentTXID files =>
      rw [hs] at hstep
      obtain rfl := Option.some.inj hstep
      refine Or.inl ⟨rfl, rfl, ?_⟩
      cases files with
      | nil => exact ⟨rfl, rfl, rfl⟩
      | cons file files =>
          rw [Hydration.apply]
          split
          · exact ⟨rfl, rfl, rfl⟩
          · cases faults.fault with
            | some fault => exact ⟨rfl, rfl, rfl⟩
            | none => exact ⟨rfl, rfl, rfl⟩
  | caughtUp =>
      rw [hs] at hstep
      exact Or.inr ⟨rfl, (Option.some.inj hstep).symm⟩
  | complete | failed =>
      rw [hs] at hstep
      cases hstep

/-- Before that it keeps what is known. -/
theorem Inv.hydrate (h : s.Inv S) {faults : HydrationFaults} (hstep : s.hydrate faults = some s')
    (hcaught : s.phase.isCaughtUp = false) : s'.Inv S := by
  rw [Hydration.hydrate] at hstep
  cases hs : s.phase with
  | started =>
      rw [hs] at hstep
      obtain rfl := Option.some.inj hstep
      have hknown := h.phase
      rw [hs] at hknown
      exact h.of_phase rfl rfl rfl h.applied hknown
  | sampled currentTXID =>
      rw [hs] at hstep
      obtain rfl := Option.some.inj hstep
      exact h.restore hs faults
  | restored currentTXID =>
      rw [hs] at hstep
      obtain rfl := Option.some.inj hstep
      exact h.list hs faults
  | catchingUp currentTXID files =>
      rw [hs] at hstep
      obtain rfl := Option.some.inj hstep
      exact h.apply hs faults
  | caughtUp =>
      rw [hs] at hcaught
      cases hcaught
  | complete | failed =>
      rw [hs] at hstep
      cases hstep

theorem Inv.leads_applied (h : s.Inv S) {toTXID : Nat} :
    Leads S s.applied s.base toTXID ↔
      putAll (zeroPage ps) (S s.base) (fileWrites s.applied) = S toTXID :=
  leads_iff fun file hfile => (h.applied file hfile).sound

/-! ## Runs -/

/-- A poll leaves the database at the position in a complete local file if and only if the
updated files lead there. -/
theorem Inv.hydrated_poll_iff (h : s.Inv S) : s.poll.Hydrated S ↔ s.LeadsAt S .poll := by
  rcases poll_cases h.targetTime with ⟨herr, hsame⟩ | ⟨f, hpoll, -, heq⟩
  · rw [hsame]
    exact iff_of_true h.hydrated fun _ f hpoll => absurd hpoll (herr f)
  · rw [heq]
    refine forall_congr' fun hcomplete => ?_
    have hphase : s.phase = .complete := by
      cases hs : s.phase with
      | complete => rfl
      | started | sampled _ | restored _ | catchingUp _ _ | caughtUp | failed =>
          simp only [hs] at hcomplete
          cases hcomplete
    have hyes : s.phase.isComplete = true := hcomplete
    dsimp only
    rw [if_pos hyes]
    dsimp only
    rw [h.applyUpdates hphase]
    constructor
    · intro himage g hg
      obtain rfl := Except.ok.inj (hpoll.symm.trans hg)
      exact h.leads_updated.mpr (image_inj himage)
    · intro hleads
      exact congrArg image (h.leads_updated.mp (hleads f hpoll))

/-- A step leaves the database at the position in a complete local file if and only if the files
lead there. -/
theorem Inv.hydratedAfter_iff (h : s.Inv S) {a : HydrationAction ps} (hrecords : a.Records S) :
    s.HydratedAfter S a ↔ s.LeadsAt S a := by
  cases a with
  | remote replica =>
      refine iff_of_true (fun s' hstep => ?_) trivial
      obtain rfl := Option.some.inj hstep
      exact (h.of_eq hrecords (fun _ => rfl) rfl).hydrated
  | lock elock =>
      refine iff_of_true (fun s' hstep => ?_) trivial
      obtain rfl := Option.some.inj hstep
      obtain ⟨hpos, htarget⟩ := pos_lock s.file elock
      exact (h.of_eq h.remote (fun _ => hpos) htarget).hydrated
  | unlock elock =>
      refine iff_of_true (fun s' hstep => ?_) trivial
      obtain rfl := Option.some.inj hstep
      obtain ⟨hpos, htarget⟩ := pos_unlock s.file elock
      exact (h.of_eq h.remote (fun _ => hpos) htarget).hydrated
  | poll =>
      rw [← h.hydrated_poll_iff]
      exact ⟨fun hafter => hafter _ rfl, fun hpoll s' hstep => Option.some.inj hstep ▸ hpoll⟩
  | hydrate faults =>
      cases hstep : s.hydrate faults with
      | none =>
          have hnot : ∀ s', s.hydrate faults ≠ some s' := fun s' hs' =>
            absurd (hstep.symm.trans hs') (by simp)
          refine iff_of_true (fun s' hs' => absurd hs' (hnot s')) fun hcaught => ?_
          rw [Hydration.hydrate] at hstep
          cases hs : s.phase with
          | caughtUp =>
              rw [hs] at hstep
              cases hstep
          | started | sampled _ | restored _ | catchingUp _ _ | complete | failed =>
              rw [hs] at hcaught
              cases hcaught
      | some m =>
          rcases hydrate_cases hstep with ⟨hcaught, -, hcomplete, -⟩ | ⟨hphase, rfl⟩
          · refine iff_of_true (fun s' hs' hyes => ?_) fun hyes => ?_
            · obtain rfl := Option.some.inj (hstep.symm.trans hs')
              rw [hcomplete] at hyes
              cases hyes
            · rw [hcaught] at hyes
              cases hyes
          · have hwritten := h.phase
            rw [hphase] at hwritten
            have hfile : s.hydrator.file =
                image (putAll (zeroPage ps) (S s.base) (fileWrites s.applied)) := hwritten
            constructor
            · intro hafter _
              refine h.leads_applied.mpr (image_inj ?_)
              have hnow : s.step (.hydrate faults) = some _ := hstep
              have hhydrated := hafter _ hnow
              rw [← hfile]
              exact hhydrated rfl
            · intro hleads s' hs' _
              obtain rfl := Option.some.inj (hstep.symm.trans hs')
              refine hfile.trans (congrArg image (h.leads_applied.mp (hleads ?_)))
              rw [hphase]
              rfl

theorem Inv.poll (h : s.Inv S) (hafter : s.poll.Hydrated S) : s.poll.Inv S := by
  rcases poll_cases h.targetTime with ⟨-, hsame⟩ | ⟨f, hpoll, htarget, heq⟩
  · rwa [hsame]
  · by_cases hcomplete : s.phase.isComplete = true
    · rw [heq, if_pos hcomplete] at hafter ⊢
      refine ⟨h.database, h.remote, h.plan, h.chain, htarget, h.applied, ?_⟩
      dsimp only
      cases hs : s.phase with
      | complete => exact hafter hcomplete
      | started | sampled _ | restored _ | catchingUp _ _ | caughtUp | failed =>
          rw [hs] at hcomplete
          cases hcomplete
    · rw [heq, if_neg hcomplete]
      exact h.of_eq h.remote (fun hyes => absurd hyes hcomplete) (htarget.trans h.targetTime.symm)

/-- Such a step keeps what is known. -/
theorem Inv.step (h : s.Inv S) {a : HydrationAction ps} (hrecords : a.Records S)
    (hafter : s.HydratedAfter S a) (hstep : s.step a = some s') : s'.Inv S := by
  have hhydrated := hafter s' hstep
  cases a with
  | remote replica =>
      obtain rfl := Option.some.inj hstep
      exact h.of_eq hrecords (fun _ => rfl) rfl
  | lock elock =>
      obtain rfl := Option.some.inj hstep
      obtain ⟨hpos, htarget⟩ := pos_lock s.file elock
      exact h.of_eq h.remote (fun _ => hpos) htarget
  | unlock elock =>
      obtain rfl := Option.some.inj hstep
      obtain ⟨hpos, htarget⟩ := pos_unlock s.file elock
      exact h.of_eq h.remote (fun _ => hpos) htarget
  | poll =>
      obtain rfl := Option.some.inj hstep
      exact h.poll hhydrated
  | hydrate faults =>
      rcases hydrate_cases hstep with ⟨hcaught, -⟩ | ⟨hphase, rfl⟩
      · exact h.hydrate hstep hcaught
      · exact ⟨h.database, h.remote, h.plan, h.chain, h.targetTime, h.applied, hhydrated rfl⟩

/-- The local file is the database at the position in every state of a run in which it is
complete, if and only if the files that it was made of lead to the position each time. -/
theorem hydrated_run_iff (hopen : s.Opened S) {as : List (HydrationAction ps)}
    (hrecords : ∀ a ∈ as, a.Records S) :
    Along Hydration.step (HydratedAfter S) s as ↔ Along Hydration.step (LeadsAt S) s as := by
  have hiff : Along Hydration.step (fun s a => a.Records S ∧ HydratedAfter S s a) s as ↔
      Along Hydration.step (fun s a => a.Records S ∧ LeadsAt S s a) s as :=
    along_congr (I := Inv S) (fun h hG hstep => h.step hG.1 hG.2 hstep)
      (fun h => and_congr_right fun ha => h.hydratedAfter_iff ha) hopen.inv
  exact (along_and_iff hrecords).symm.trans (hiff.trans (along_and_iff hrecords))

end Hydration

/-! ## A poll between the sample and the end -/

namespace OnePage

/-- The first transaction makes one page, and the second one changes it. -/
def history : Nat → List (Page PageSize.min)
  | 0 => []
  | 1 => [page 1]
  | _ => [page 2]

theorem database_history : Database history where
  empty := rfl
  lockPage t ht := by
    have hlength : (history t).length ≤ 1 := by
      rcases t with _ | _ | t
      · exact Nat.zero_le 1
      · exact le_rfl
      · exact le_rfl
    exact absurd (le_trans ht hlength) (by decide)

theorem recorded_snapshot : Recorded history (snapshot 1) where
  commit := rfl
  sound frame hframe := by
    rw [List.mem_singleton.mp hframe]
    rfl
  complete t j hmin hmax hchanged hj hlock :=
    ⟨_, List.mem_singleton_self _, by
      have hlt : j < 1 := hj
      dsimp only
      omega⟩

theorem recorded_update : Recorded history update where
  commit := rfl
  sound frame hframe := by
    rw [List.mem_singleton.mp hframe]
    rfl
  complete t j hmin hmax hchanged hj hlock :=
    ⟨_, List.mem_singleton_self _, by
      have hlt : j < 1 := hj
      dsimp only
      omega⟩

/-- The replica has the second transaction. -/
theorem recorded_replica : ∀ level, ∀ file ∈ (replica 1).level level, Recorded history file := by
  intro level file hfile
  have hlevel : file ∈ if level = 9 then [snapshot 1] else if level = 0 then [update] else [] :=
    hfile
  split_ifs at hlevel
  · rw [List.mem_singleton.mp hlevel]
    exact recorded_snapshot
  · rw [List.mem_singleton.mp hlevel]
    exact recorded_update
  · cases hlevel

/-- A file that was opened on the snapshot. -/
def hydration : Hydration PageSize.min where
  replica := replica 1
  file := file.rebuildIndex [snapshot 1] none
  hydrator := ⟨[], 0⟩
  plan := [snapshot 1]
  phase := .started
  hydrationTXID := 0
  base := 0
  applied := []

theorem hydration_opened : hydration.Opened history where
  database := database_history
  remote := recorded_replica
  plan file hfile := by
    rw [List.mem_singleton.mp hfile]
    exact recorded_snapshot
  chain := ⟨by decide, by decide, trivial⟩
  targetTime := rfl
  phase := rfl
  base := rfl
  applied := rfl
  file := rfl

/-- The poll comes when the target of the catch-up has been sampled. -/
def polledBetween : List (HydrationAction PageSize.min) :=
  [.hydrate {}, .poll, .hydrate {}, .hydrate {}, .hydrate {}]

theorem records_polledBetween : ∀ a ∈ polledBetween, a.Records history := by
  intro a ha
  simp only [polledBetween, List.mem_cons, List.not_mem_nil, or_false] at ha
  rcases ha with rfl | rfl | rfl | rfl | rfl <;> trivial

end OnePage

open OnePage in
theorem hydrated_run_iff_between :
    Along Hydration.step (Hydration.HydratedAfter history) hydration polledBetween ↔
      Along Hydration.step (Hydration.LeadsAt history) hydration polledBetween :=
  Hydration.hydrated_run_iff hydration_opened records_polledBetween

theorem OnePage.run_polledBetween :
    (run Hydration.step hydration polledBetween).map
      (fun s => (s.phase.isComplete, s.hydrator.file, s.file.pos)) =
        some (true, (page 1).data, 2) := by
  decide +kernel

open OnePage in
/-- The local file is marked complete without the pages of the poll. -/
theorem poll_lost : ¬ ∀ (s s' : Hydration PageSize.min) (as : List (HydrationAction PageSize.min)),
    s.Opened history → (∀ a ∈ as, a.Records history) → run Hydration.step s as = some s' →
      s'.Hydrated history := by
  intro hclaim
  obtain ⟨s', hrun, hs'⟩ := Option.map_eq_some_iff.mp run_polledBetween
  simp only [Prod.mk.injEq] at hs'
  obtain ⟨hcomplete, hfile, hpos⟩ := hs'
  have hhydrated := hclaim hydration s' polledBetween hydration_opened records_polledBetween hrun
  have heq := hhydrated hcomplete
  rw [hfile, hpos] at heq
  exact absurd heq (by decide +kernel)

end Vfs

end Litestream
