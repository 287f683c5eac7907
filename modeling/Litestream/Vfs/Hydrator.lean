import Litestream.Lib.Cover
import Litestream.Lib.Delta
import Litestream.Lib.PageArray
import Litestream.Lib.Resize
import Litestream.Vfs.FlatFile

/-!
# Catching up a hydrated file

A hydrator keeps a database in a local file.  `CatchUp` lists level 0 from the transaction
after the one that the file is at, and writes the pages of the files up to a target.  It looks
neither at the first TXID of a file nor at its commit size, and it does not see when the
listing ends with an error.

The file is an array of pages, and a catch-up puts the pages of the applied files into it
(`file_catchUp`).  `catchUp_correct_iff` says exactly when a catch-up leads to the database at
the target or fails.  Files that lead to the target without a gap, and without a commit size
below the one before, are enough (`exact_of_leads`).
-/

namespace Litestream

namespace Vfs

open Overlay PageArray

variable {ps : PageSize}

/-! ## The code -/

/-- Reading or writing a file of the listing fails, perhaps after some pages are written. -/
inductive Fault where
  | openLTXFile (err : ClientError)
  | decodeHeader (err : ClientError)
  | decodePage (n : Nat) (err : ClientError)
  | writePage (n : Nat) (err : ClientError)
deriving DecidableEq

/-- The pages that are written before the fault. -/
def Fault.written : Fault → Nat
  | openLTXFile _ => 0
  | decodeHeader _ => 0
  | decodePage n _ => n
  | writePage n _ => n

inductive CatchUpError where
  | ltxFiles (err : ClientError)
  | applyLTX (fault : Fault)
deriving DecidableEq

structure Hydrator where
  file : Bytes
  txid : Nat
deriving DecidableEq

/-- What one catch-up meets. -/
structure CatchUpRun (ps : PageSize) where
  replica : Replica ps
  /-- The listing cannot be made. -/
  listErr : Option ClientError
  /-- The number of files after which the iterator stops with an error. -/
  iterErr : Option Nat
  fault : LTXFile ps → Option Fault

namespace Hydrator

/-- The loop over the pages of a file. -/
def writePages (frames : List (PageFrame ps)) (h : Hydrator) : Hydrator :=
  { h with
    file := frames.foldl
      (fun b frame => b.writeAt ((frame.pgno - 1) * ps.size) frame.page.data) h.file }

def ApplyLTX (fault : Option Fault) (file : LTXFile ps) (h : Hydrator) :
    Hydrator × Except CatchUpError Unit :=
  match fault with
  | none => (h.writePages file.frames, .ok ())
  | some fault => (h.writePages (file.frames.take fault.written), .error (.applyLTX fault))

/-- The loop over the files of the listing. -/
def catchUpFiles (run : CatchUpRun ps) (toTXID : Nat) :
    List (LTXFile ps) → Hydrator → Hydrator × Except CatchUpError Unit
  | [], h => (h, .ok ())
  | file :: files, h =>
    if file.maxTXID > toTXID then (h, .ok ())
    else
      match h.ApplyLTX (run.fault file) file with
      | (h, .error err) => (h, .error err)
      | (h, .ok ()) => catchUpFiles run toTXID files { h with txid := file.maxTXID }

end Hydrator

/-- The files that the iterator yields. -/
def CatchUpRun.listed (run : CatchUpRun ps) (fromTXID : Nat) : List (LTXFile ps) :=
  let files := (run.replica.level 0).filter fun file => fromTXID + 1 ≤ file.minTXID
  match run.iterErr with
  | none => files
  | some n => files.take n

def Hydrator.CatchUp (run : CatchUpRun ps) (fromTXID toTXID : Nat) (h : Hydrator) :
    Hydrator × Except CatchUpError Unit :=
  match run.listErr with
  | some err => (h, .error (.ltxFiles err))
  | none => h.catchUpFiles run toTXID (run.listed fromTXID)

/-! ## Histories -/

theorem length_zeroPage (ps : PageSize) : (List.replicate ps.size (0 : UInt8)).length = ps.size :=
  List.length_replicate

/-- A page of zeros. -/
def zeroPage (ps : PageSize) : Page ps := ⟨List.replicate ps.size 0, length_zeroPage ps⟩

/-- The file of a database. -/
def image (pages : List (Page ps)) : Bytes := pages.flatMap Page.data

/-- A file has the pages that its transactions changed, as of its last one, and the page count
there. -/
structure Records (S : Nat → List (Page ps)) (file : LTXFile ps) : Prop where
  commit : file.commit = (S file.maxTXID).length
  sound : ∀ frame ∈ file.frames, (S file.maxTXID)[frame.pgno - 1]? = some frame.page
  complete : ∀ t j, file.minTXID ≤ t → t ≤ file.maxTXID →
    Delta.Changed (fun t j => (S t)[j]?) id t j → j < (S file.maxTXID).length →
      ∃ frame ∈ file.frames, frame.pgno = j + 1

namespace CatchUpRun

variable (run : CatchUpRun ps) (S : Nat → List (Page ps)) (fromTXID toTXID : Nat)

/-- The files that a catch-up without a fault applies. -/
def applied : List (LTXFile ps) :=
  (run.listed fromTXID).takeWhile fun file => file.maxTXID ≤ toTXID

/-- The listing cannot be made, or a file up to the target cannot be applied. -/
def Fails : Prop := run.listErr ≠ none ∨ ∃ file ∈ run.applied fromTXID toTXID, run.fault file ≠ none

/-- A transaction of the range is in no file of level 0. -/
def Gap : Prop := ∃ t, fromTXID < t ∧ t ≤ toTXID ∧
  ∀ file ∈ run.replica.level 0, ¬ (file.minTXID ≤ t ∧ t ≤ file.maxTXID)

/-- The transaction as of which the applied files have a page, the last file that has it first.
Pages count from zero. -/
def version (j : Nat) : Option Nat :=
  (lastWrite ((run.applied fromTXID toTXID).flatMap fun file =>
    file.frames.map fun frame => (frame.pgno - 1, file.maxTXID)) j).or
      (if j < (S fromTXID).length then some fromTXID else none)

/-- The database at the target has no page that differs from the newest version of the page,
and it ends where the pages end. -/
structure Exact : Prop where
  shrinks : (S fromTXID).length ≤ (S toTXID).length
  within : ∀ file ∈ run.applied fromTXID toTXID, ∀ frame ∈ file.frames,
    frame.pgno ≤ (S toTXID).length
  reached : (S fromTXID).length = (S toTXID).length ∨
    ∃ file ∈ run.applied fromTXID toTXID, ∃ frame ∈ file.frames, frame.pgno = (S toTXID).length
  pages : ∀ j < (S toTXID).length,
    ((run.version S fromTXID toTXID j).elim (zeroPage ps) fun t => entry (zeroPage ps) (S t) j) =
      entry (zeroPage ps) (S toTXID) j

/-- From the database at `fromTXID`: a catch-up that returns no error leads to the database at
`toTXID`, and returns an error if there is a gap. -/
def Correct : Prop := ∀ txid h,
  Hydrator.CatchUp run fromTXID toTXID ⟨image (S fromTXID), txid⟩ = (h, .ok ()) →
    h.file = image (S toTXID) ∧ ¬ run.Gap fromTXID toTXID

end CatchUpRun

/-! ## Files that lead from one database to another -/

/-- The transaction as of which the files leave a page of the database at `fromTXID`.  Pages
count from zero. -/
def versionOf (S : Nat → List (Page ps)) (files : List (LTXFile ps)) (fromTXID j : Nat) :
    Option Nat :=
  (lastWrite (files.flatMap fun file =>
    file.frames.map fun frame => (frame.pgno - 1, file.maxTXID)) j).or
      (if j < (S fromTXID).length then some fromTXID else none)

/-- The database at `toTXID` has no page that differs from the version that the files leave, and
it ends where the pages end. -/
structure Leads (S : Nat → List (Page ps)) (files : List (LTXFile ps)) (fromTXID toTXID : Nat) :
    Prop where
  shrinks : (S fromTXID).length ≤ (S toTXID).length
  within : ∀ file ∈ files, ∀ frame ∈ file.frames, frame.pgno ≤ (S toTXID).length
  reached : (S fromTXID).length = (S toTXID).length ∨
    ∃ file ∈ files, ∃ frame ∈ file.frames, frame.pgno = (S toTXID).length
  pages : ∀ j < (S toTXID).length,
    ((versionOf S files fromTXID j).elim (zeroPage ps) fun t => entry (zeroPage ps) (S t) j) =
      entry (zeroPage ps) (S toTXID) j

/-! ## The pages that are written -/

/-- The writes of a list of files, by index. -/
def fileWrites (files : List (LTXFile ps)) : List (Nat × Page ps) :=
  files.flatMap fun file => file.frames.map fun frame => (frame.pgno - 1, frame.page)

section

variable {run : CatchUpRun ps} {S : Nat → List (Page ps)} {fromTXID toTXID txid : Nat}
  {files : List (LTXFile ps)} {file : LTXFile ps} {a b : List (Page ps)} {h : Hydrator}

theorem size_pos : 0 < ps.size := by
  have := ps.bounds
  omega

theorem image_inj (heq : image a = image b) : a = b :=
  flatMap_inj Page.length_data size_pos (fun _ _ hdata => Page.ext hdata) heq

/-- Writing frames puts their pages into the array. -/
theorem writePages_image (frames : List (PageFrame ps)) (a : List (Page ps)) (txid : Nat) :
    Hydrator.writePages frames ⟨image a, txid⟩ =
      ⟨image (putAll (zeroPage ps) a (frames.map fun frame => (frame.pgno - 1, frame.page))),
        txid⟩ := by
  rw [Hydrator.writePages, Hydrator.mk.injEq]
  refine ⟨?_, rfl⟩
  dsimp only
  induction frames generalizing a with
  | nil => rfl
  | cons frame frames ih =>
      rw [List.foldl_cons, List.map_cons, image,
        @writeAt_flatMap _ (zeroPage ps) _ _ Page.length_data size_pos rfl]
      exact ih _

theorem applyLTX_ok {fault : Option Fault} (hfault : fault = none) (file : LTXFile ps)
    (h : Hydrator) : h.ApplyLTX fault file = (h.writePages file.frames, .ok ()) := by
  rw [hfault]
  rfl

theorem fileWrites_cons : fileWrites (file :: files) =
    (file.frames.map fun frame => (frame.pgno - 1, frame.page)) ++ fileWrites files :=
  List.flatMap_cons

/-- Without a fault the pages of the files up to the target are written. -/
theorem catchUpFiles_ok
    (hfault : ∀ file ∈ files.takeWhile fun file => file.maxTXID ≤ toTXID, run.fault file = none)
    (a : List (Page ps)) (txid : Nat) :
    ∃ txid', Hydrator.catchUpFiles run toTXID files ⟨image a, txid⟩ =
      (⟨image (putAll (zeroPage ps) a
        (fileWrites (files.takeWhile fun file => file.maxTXID ≤ toTXID))), txid'⟩, .ok ()) := by
  induction files generalizing a txid with
  | nil => exact ⟨txid, rfl⟩
  | cons file files ih =>
      rw [Hydrator.catchUpFiles]
      by_cases hpast : file.maxTXID > toTXID
      · rw [if_pos hpast, List.takeWhile_cons_of_neg (by simpa using hpast)]
        exact ⟨txid, rfl⟩
      · rw [List.takeWhile_cons_of_pos (by simpa using hpast)] at hfault ⊢
        obtain ⟨hfile, hfiles⟩ := List.forall_mem_cons.mp hfault
        rw [if_neg hpast, applyLTX_ok hfile, writePages_image, fileWrites_cons, putAll_append]
        exact ih hfiles _ _

/-- A fault ends the loop with an error. -/
theorem catchUpFiles_error
    (hfault : ∃ file ∈ files.takeWhile fun file => file.maxTXID ≤ toTXID, run.fault file ≠ none)
    (h : Hydrator) : ∃ h' err, Hydrator.catchUpFiles run toTXID files h = (h', .error err) := by
  induction files generalizing h with
  | nil =>
      obtain ⟨file, hfile, -⟩ := hfault
      cases hfile
  | cons file files ih =>
      rw [Hydrator.catchUpFiles]
      by_cases hpast : file.maxTXID > toTXID
      · rw [List.takeWhile_cons_of_neg (by simpa using hpast)] at hfault
        obtain ⟨file, hfile, -⟩ := hfault
        cases hfile
      · rw [List.takeWhile_cons_of_pos (by simpa using hpast)] at hfault
        rw [if_neg hpast]
        cases hnow : run.fault file with
        | some fault => exact ⟨_, _, rfl⟩
        | none =>
            refine ih ?_ _
            obtain ⟨g, hg, hne⟩ := hfault
            rcases List.mem_cons.mp hg with rfl | hg
            · exact absurd hnow hne
            · exact ⟨g, hg, hne⟩

theorem catchUp_ok (hfails : ¬ run.Fails fromTXID toTXID) (a : List (Page ps)) (txid : Nat) :
    ∃ txid', Hydrator.CatchUp run fromTXID toTXID ⟨image a, txid⟩ =
      (⟨image (putAll (zeroPage ps) a (fileWrites (run.applied fromTXID toTXID))), txid'⟩,
        .ok ()) := by
  rw [CatchUpRun.Fails, not_or, not_not] at hfails
  rw [Hydrator.CatchUp, hfails.1]
  refine catchUpFiles_ok (fun file hfile => ?_) a txid
  by_contra hne
  exact hfails.2 ⟨file, hfile, hne⟩

theorem catchUp_error (hfails : run.Fails fromTXID toTXID) (h : Hydrator) :
    ∃ h' err, Hydrator.CatchUp run fromTXID toTXID h = (h', .error err) := by
  rw [Hydrator.CatchUp]
  cases hlist : run.listErr with
  | some err => exact ⟨_, _, rfl⟩
  | none => exact catchUpFiles_error (hfails.resolve_left (not_not.mpr hlist)) h

/-! ## When a catch-up is exact -/

/-- The pages of the file are those of its last transaction. -/
def Sound (S : Nat → List (Page ps)) (file : LTXFile ps) : Prop :=
  ∀ frame ∈ file.frames, (S file.maxTXID)[frame.pgno - 1]? = some frame.page

theorem versionOf_elim (hsound : ∀ file ∈ files, Sound S file) (j : Nat) :
    ((versionOf S files fromTXID j).elim (zeroPage ps) fun t => entry (zeroPage ps) (S t) j) =
      entry (zeroPage ps) (putAll (zeroPage ps) (S fromTXID) (fileWrites files)) j := by
  have hwrites : fileWrites files =
      (files.flatMap fun file => file.frames.map fun frame => (frame.pgno - 1, file.maxTXID)).map
          fun w => (w.1, entry (zeroPage ps) (S w.2) w.1) := by
    rw [fileWrites, List.map_flatMap]
    refine List.flatMap_congr fun file hfile => ?_
    rw [List.map_map]
    refine List.map_congr_left fun frame hframe => ?_
    rw [Function.comp_apply, entry, List.getD_eq_getElem?_getD, hsound file hfile frame hframe,
      Option.getD_some]
  rw [entry_putAll, overlay, hwrites, lastWrite_mapKey (fun j t => entry (zeroPage ps) (S t) j),
    versionOf]
  cases lastWrite (files.flatMap fun file =>
      file.frames.map fun frame => (frame.pgno - 1, file.maxTXID)) j with
  | some t => rfl
  | none =>
      rw [Option.none_or, Option.map_none, Option.getD_none]
      split_ifs with hj
      · rfl
      · rw [Option.elim_none, entry_of_le (Nat.le_of_not_lt hj)]

/-- The pages of the files make the one database of the other. -/
theorem leads_iff (hsound : ∀ file ∈ files, Sound S file) :
    Leads S files fromTXID toTXID ↔
      putAll (zeroPage ps) (S fromTXID) (fileWrites files) = S toTXID := by
  have hpgno : ∀ file : LTXFile ps, ∀ frame ∈ file.frames, frame.pgno - 1 + 1 = frame.pgno :=
    fun file frame hframe => Nat.sub_add_cancel (file.bounds frame hframe).1
  have hmem : ∀ w, w ∈ fileWrites files ↔
      ∃ file ∈ files, ∃ frame ∈ file.frames, (frame.pgno - 1, frame.page) = w := by
    intro w
    simp only [fileWrites, List.mem_flatMap, List.mem_map]
  rw [eq_iff_entry (zeroPage ps), length_putAll_eq_iff]
  constructor
  · intro hleads
    refine ⟨⟨hleads.shrinks, fun w hw => ?_, ?_⟩, fun j hj => ?_⟩
    · obtain ⟨file, hfile, frame, hframe, rfl⟩ := (hmem w).mp hw
      have hle := hleads.within file hfile frame hframe
      have heq := hpgno file frame hframe
      dsimp only
      omega
    · refine hleads.reached.imp id ?_
      rintro ⟨file, hfile, frame, hframe, heq⟩
      exact ⟨_, (hmem _).mpr ⟨file, hfile, frame, hframe, rfl⟩,
        (hpgno file frame hframe).trans heq⟩
    · rw [← versionOf_elim hsound]
      exact hleads.pages j hj
  · rintro ⟨⟨hshrinks, hwithin, hreached⟩, hentry⟩
    refine ⟨hshrinks, fun file hfile frame hframe => ?_, hreached.imp id ?_, fun j hj => ?_⟩
    · have hlt := hwithin _ ((hmem _).mpr ⟨file, hfile, frame, hframe, rfl⟩)
      have heq := hpgno file frame hframe
      dsimp only at hlt
      omega
    · rintro ⟨w, hw, heq⟩
      obtain ⟨file, hfile, frame, hframe, rfl⟩ := (hmem w).mp hw
      exact ⟨file, hfile, frame, hframe, (hpgno file frame hframe).symm.trans heq⟩
    · rw [versionOf_elim hsound]
      exact hentry j hj

theorem exact_iff (hrecords : ∀ file ∈ run.applied fromTXID toTXID, Records S file) :
    run.Exact S fromTXID toTXID ↔
      putAll (zeroPage ps) (S fromTXID) (fileWrites (run.applied fromTXID toTXID)) = S toTXID := by
  rw [← leads_iff fun file hfile => (hrecords file hfile).sound]
  exact ⟨fun h => ⟨h.shrinks, h.within, h.reached, h.pages⟩,
    fun h => ⟨h.shrinks, h.within, h.reached, h.pages⟩⟩

/-- A page that a file does not have is as it was before the transactions of the file. -/
theorem Records.held_or_same (hrecords : Records S file) {t j : Nat}
    (hmin : file.minTXID ≤ t + 1) (hmax : t ≤ file.maxTXID)
    (hj : j < (S file.maxTXID).length) :
    (∃ frame ∈ file.frames, frame.pgno = j + 1) ∨ (S t)[j]? = (S file.maxTXID)[j]? := by
  by_cases hheld : ∃ frame ∈ file.frames, frame.pgno = j + 1
  · exact .inl hheld
  · have hstill : Delta.Still (fun t j => (S t)[j]?) id t file.maxTXID j :=
      fun u htu hu hchanged => hheld (hrecords.complete u j (by omega) hu hchanged hj)
    refine .inr (hstill.eq hmax ?_)
    rw [List.getElem?_eq_getElem hj]
    exact Option.some_ne_none _

/-- A file that does not cut pages off leads from one database to another. -/
theorem Records.putAll_frames (hrecords : Records S file) {t : Nat}
    (hmin : file.minTXID ≤ t + 1) (hmax : t ≤ file.maxTXID) (hsize : (S t).length ≤ file.commit) :
    putAll (zeroPage ps) (S t) (file.frames.map fun frame => (frame.pgno - 1, frame.page)) =
      S file.maxTXID := by
  have hcommit := hrecords.commit
  rw [eq_iff_entry (zeroPage ps), length_putAll_eq_iff]
  refine ⟨⟨hcommit ▸ hsize, fun w hw => ?_, ?_⟩, fun j hj => ?_⟩
  · obtain ⟨frame, hframe, rfl⟩ := List.mem_map.mp hw
    have hbounds := file.bounds frame hframe
    dsimp only
    omega
  · -- the last page is there already, or the file has it
    rcases Nat.lt_or_ge (S t).length (S file.maxTXID).length with hlt | hge
    · rcases hrecords.held_or_same (j := (S file.maxTXID).length - 1) hmin hmax (by omega) with
        ⟨frame, hframe, hpgno⟩ | hsame
      · exact .inr ⟨_, List.mem_map.mpr ⟨frame, hframe, rfl⟩, by dsimp only; omega⟩
      · rw [List.getElem?_eq_none (by omega), List.getElem?_eq_getElem (by omega)] at hsame
        cases hsame
    · exact .inl (le_antisymm (hcommit ▸ hsize) hge)
  · rw [entry_putAll]
    cases hlast : lastWrite (file.frames.map fun frame => (frame.pgno - 1, frame.page)) j with
    | some page =>
        obtain ⟨frame, hframe, heq⟩ := List.mem_map.mp (mem_of_lastWrite hlast)
        obtain ⟨rfl, rfl⟩ := Prod.mk.inj heq
        rw [overlay_of_lastWrite hlast, entry, List.getD_eq_getElem?_getD,
          hrecords.sound frame hframe, Option.getD_some]
    | none =>
        have hkey := lastWrite_eq_none_iff.mp hlast
        rw [overlay_of_notMem hkey]
        rcases hrecords.held_or_same hmin hmax hj with ⟨frame, hframe, hpgno⟩ | hsame
        · refine absurd (List.mem_map.mpr ⟨_, List.mem_map.mpr ⟨frame, hframe, rfl⟩, ?_⟩) hkey
          exact (congrArg (· - 1) hpgno).trans (Nat.add_sub_cancel j 1)
        · rw [entry, entry, List.getD_eq_getElem?_getD, List.getD_eq_getElem?_getD, hsame]

theorem putAll_chain {t : Nat} (hrecords : ∀ file ∈ files, Records S file)
    (hchain : Cover.Chain LTXFile.minTXID LTXFile.maxTXID t files)
    (hshrinks : ¬ Resize.Shrinks LTXFile.commit (S t).length files) :
    putAll (zeroPage ps) (S t) (fileWrites files) =
      S (Cover.reach LTXFile.maxTXID t files) := by
  induction files generalizing t with
  | nil => rfl
  | cons file files ih =>
      obtain ⟨hfile, hfiles⟩ := List.forall_mem_cons.mp hrecords
      obtain ⟨hmin, hmax, hrest⟩ := hchain
      rw [Resize.shrinks_cons, not_or, not_lt] at hshrinks
      rw [fileWrites_cons, putAll_append, hfile.putAll_frames hmin hmax.le hshrinks.1,
        Cover.reach_cons]
      rw [hfile.commit] at hshrinks
      exact ih hfiles hrest hshrinks.2

/-- Files that lead to the target without a gap and without a smaller commit size are exact. -/
theorem exact_of_leads (hrecords : ∀ file ∈ run.applied fromTXID toTXID, Records S file)
    (hchain : Cover.Chain LTXFile.minTXID LTXFile.maxTXID fromTXID (run.applied fromTXID toTXID))
    (hreach : Cover.reach LTXFile.maxTXID fromTXID (run.applied fromTXID toTXID) = toTXID)
    (hshrinks : ¬ Resize.Shrinks LTXFile.commit (S fromTXID).length
      (run.applied fromTXID toTXID)) :
    run.Exact S fromTXID toTXID := by
  rw [exact_iff hrecords, putAll_chain hrecords hchain hshrinks, hreach]

theorem mem_level_of_applied (hfile : file ∈ run.applied fromTXID toTXID) :
    file ∈ run.replica.level 0 ∧ fromTXID < file.minTXID ∧ file.maxTXID ≤ toTXID := by
  rw [CatchUpRun.applied] at hfile
  have hle := List.mem_takeWhile_imp hfile
  have hlisted := (List.takeWhile_sublist _).mem hfile
  have hfilter : file ∈ (run.replica.level 0).filter fun file => fromTXID + 1 ≤ file.minTXID := by
    rw [CatchUpRun.listed] at hlisted
    split at hlisted
    · exact hlisted
    · exact List.mem_of_mem_take hlisted
  obtain ⟨hlevel, hmin⟩ := List.mem_filter.mp hfilter
  exact ⟨hlevel, by simpa using hmin, by simpa using hle⟩

/-- A catch-up leads to the target or fails, if and only if a file cannot be applied, or no
transaction of the range is missing from level 0 and the newest version of each page makes up
the database at the target. -/
theorem catchUp_correct_iff (run : CatchUpRun ps) (S : Nat → List (Page ps))
    (hrecords : ∀ file ∈ run.replica.level 0, Records S file) (fromTXID toTXID : Nat) :
    run.Correct S fromTXID toTXID ↔
      run.Fails fromTXID toTXID ∨
        ¬ run.Gap fromTXID toTXID ∧ run.Exact S fromTXID toTXID := by
  have happlied : ∀ file ∈ run.applied fromTXID toTXID, Records S file :=
    fun file hfile => hrecords file (mem_level_of_applied hfile).1
  rw [exact_iff happlied]
  by_cases hfails : run.Fails fromTXID toTXID
  · refine iff_of_true (fun txid h hok => ?_) (.inl hfails)
    obtain ⟨h', err, heq⟩ := catchUp_error hfails ⟨image (S fromTXID), txid⟩
    rw [heq] at hok
    cases (Prod.mk.inj hok).2
  · rw [or_iff_right hfails]
    constructor
    · intro hcorrect
      obtain ⟨txid', heq⟩ := catchUp_ok hfails (S fromTXID) 0
      obtain ⟨hfile, hgap⟩ := hcorrect 0 _ heq
      exact ⟨hgap, image_inj hfile⟩
    · rintro ⟨hgap, hexact⟩ txid h hok
      obtain ⟨txid', heq⟩ := catchUp_ok hfails (S fromTXID) txid
      rw [heq] at hok
      obtain rfl := (Prod.mk.inj hok).1
      exact ⟨congrArg image hexact, hgap⟩

end

/-! ## Two transactions of a database of two pages -/

namespace TwoPages

/-- The second transaction writes the second page, and the third the first page. -/
def database : Nat → List (Page PageSize.min)
  | 0 => [OnePage.page 1, OnePage.page 1]
  | 1 => [OnePage.page 1, OnePage.page 1]
  | 2 => [OnePage.page 1, OnePage.page 2]
  | _ => [OnePage.page 3, OnePage.page 2]

theorem valid_second : FileInfo.Valid ⟨0, 2, 2, 100, 2⟩ := by decide

theorem valid_third : FileInfo.Valid ⟨0, 3, 3, 100, 3⟩ := by decide

def second : LTXFile PageSize.min where
  info := ⟨0, 2, 2, 100, 2⟩
  commit := 2
  frames := [⟨2, 0, 1, OnePage.page 2⟩]
  valid := valid_second
  pgnos_nodup := by simp
  offsets_nodup := by simp
  bounds := by simp

def third : LTXFile PageSize.min where
  info := ⟨0, 3, 3, 100, 3⟩
  commit := 2
  frames := [⟨1, 0, 1, OnePage.page 3⟩]
  valid := valid_third
  pgnos_nodup := by simp
  offsets_nodup := by simp
  bounds := by simp

theorem records_second : Records database second where
  commit := rfl
  sound frame hframe := by
    rw [List.mem_singleton.mp hframe]
    rfl
  complete t j hmin hmax hchanged hj := by
    obtain rfl : t = 2 := le_antisymm hmax hmin
    refine ⟨_, List.mem_singleton_self _, ?_⟩
    obtain ⟨i, rfl, -, hne⟩ := hchanged
    rcases i with _ | _ | i
    · exact absurd rfl hne
    · rfl
    · exact absurd hj (Nat.not_lt.mpr (Nat.le_add_left 2 i))

theorem records_third : Records database third where
  commit := rfl
  sound frame hframe := by
    rw [List.mem_singleton.mp hframe]
    rfl
  complete t j hmin hmax hchanged hj := by
    obtain rfl : t = 3 := le_antisymm hmax hmin
    refine ⟨_, List.mem_singleton_self _, ?_⟩
    obtain ⟨i, rfl, -, hne⟩ := hchanged
    rcases i with _ | _ | i
    · rfl
    · exact absurd rfl hne
    · exact absurd hj (Nat.not_lt.mpr (Nat.le_add_left 2 i))

/-- A replica of level 0 files. -/
def replica (files : List (LTXFile PageSize.min)) (hlevel : ∀ file ∈ files, file.info.level = 0)
    (hnames : (files.map fun file => (file.minTXID, file.maxTXID)).Nodup) :
    Replica PageSize.min where
  level k := if k = 0 then files else []
  level_eq k file hfile := by
    split at hfile
    · next h => rw [hlevel file hfile, h]
    · cases hfile
  names_nodup k := by
    split
    · exact hnames
    · exact List.nodup_nil

/-- Both transactions are at level 0. -/
def whole : CatchUpRun PageSize.min :=
  ⟨replica [second, third] (by simp [second, third]) (by decide), none, none, fun _ => none⟩

/-- Retention has deleted the second transaction. -/
def pruned : CatchUpRun PageSize.min :=
  ⟨replica [third] (by simp [third]) (by decide), none, none, fun _ => none⟩

theorem records_whole : ∀ file ∈ whole.replica.level 0, Records database file := by
  intro file hfile
  have hmem : file ∈ [second, third] := hfile
  rcases List.mem_cons.mp hmem with rfl | hmem
  · exact records_second
  · rw [List.mem_singleton.mp hmem]
    exact records_third

theorem records_pruned : ∀ file ∈ pruned.replica.level 0, Records database file := by
  intro file hfile
  have hmem : file ∈ [third] := hfile
  rw [List.mem_singleton.mp hmem]
  exact records_third

theorem no_gap : ¬ whole.Gap 1 3 := by
  rintro ⟨t, hlt, hle, hnone⟩
  rcases Nat.lt_or_ge t 3 with h | h
  · exact hnone second (List.mem_cons_self ..) ⟨hlt, Nat.le_of_lt_succ h⟩
  · exact hnone third (List.mem_cons_of_mem _ (List.mem_singleton_self _)) ⟨h, hle⟩

theorem gap : pruned.Gap 1 3 := by
  refine ⟨2, by decide, by decide, fun file hfile => ?_⟩
  have hmem : file ∈ [third] := hfile
  rw [List.mem_singleton.mp hmem]
  decide

end TwoPages

open TwoPages in
theorem catchUp_correct_sample : whole.Correct database 1 3 := by
  have happlied : whole.applied 1 3 = [second, third] := rfl
  refine (catchUp_correct_iff whole database records_whole 1 3).mpr (.inr ⟨no_gap, ?_⟩)
  refine exact_of_leads (fun file hfile => records_whole file (mem_level_of_applied hfile).1) ?_ ?_ ?_
  · rw [happlied]
    exact ⟨le_rfl, by decide, le_rfl, by decide, trivial⟩
  · rw [happlied]
    rfl
  · rw [happlied]
    decide

open TwoPages in
/-- Without the second transaction the catch-up reports success. -/
theorem catchUp_gap : ¬ ∀ (run : CatchUpRun PageSize.min) (S : Nat → List (Page PageSize.min))
    (fromTXID toTXID : Nat), (∀ file ∈ run.replica.level 0, Records S file) →
      fromTXID < toTXID → run.Correct S fromTXID toTXID := by
  intro hclaim
  have hok : (Hydrator.CatchUp pruned 1 3 ⟨image (database 1), 1⟩).2 = .ok () := rfl
  exact (hclaim pruned database 1 3 records_pruned (by decide) 1 _ (Prod.ext rfl hok)).2 gap

end Vfs

end Litestream
