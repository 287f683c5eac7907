import Litestream.Db.NoLoss

/-!
# Snapshots

`SnapshotReader` reads the position of the database first, the page map of the WAL later,
and the pages one by one after it has returned.  A run interleaves its steps with commits,
syncs and checkpoints.  The checkpoint lock is held from `start` to `ret` only.

`images` is bookkeeping: for each level 0 file its TXID and the database when it was
written.  A snapshot is right if it has the image of its TXID (`LTXFile.IsImage`).  It is
in every run that meets `Snapshotting.StepOK` (`isImage_of_run`).
-/

namespace Litestream

open Bytes Overlay Paged Run

variable {ps : PageSize}

/-! ## States and steps -/

/-- How far a snapshot has come. -/
inductive SnapshotPhase where
  | idle
  | positioned (txID : Nat)
  /-- The goroutine that encodes has been started. -/
  | started (txID : Nat) (commit : UInt32)
  /-- The page map has been read, and these pages are left. -/
  | encoding (f : LTXFile) (pageMap : WALReader.PageOffsets) (pgnos : List UInt32)
  | closed (f : LTXFile)
  | failed

structure Snapshotting (ps : PageSize) where
  db : State ps
  /-- The databases as of the TXIDs of the level 0 files. -/
  images : List (Nat × Store UInt32 Bytes)
  /-- Whether the snapshot holds the checkpoint lock. -/
  chkMu : Bool
  phase : SnapshotPhase

inductive SnapshotAction (ps : PageSize) where
  /-- A step of an application, a sync or a checkpoint. -/
  | db (a : Action ps)
  | readPos
  /-- Takes the checkpoint lock, reads the size of the database file and starts the goroutine. -/
  | start
  /-- `SnapshotReader` returns. -/
  | ret
  | readPageMap
  | copyPage
  | close
  /-- The context is cancelled. -/
  | cancel

/-- Whether a checkpoint holds the checkpoint lock. -/
def Phase.checkpointing : Phase → Bool
  | .idle | .ensured => false
  | _ => true

variable (lockPgno : UInt32 → UInt32)

namespace Snapshotting

/-- The goroutine reads the page map and encodes the header. -/
def readPageMap (s : Snapshotting ps) (txID : Nat) (commit : UInt32) : SnapshotPhase :=
  match WALReader.newWALReader s.db.walFile with
  | .error _ => .failed
  | .ok rd =>
      match rd.pageMap (s.db.walFile.length + 1) with
      | none => .failed
      | some (.error _, _) => .failed
      | some (.ok (pageMap, maxOffset, walCommit), rd) =>
          let commit := if 0 < walCommit then walCommit else commit
          let sz : Int := if 0 < maxOffset then maxOffset - rd.offset else 0
          .encoding {
            pageSize := UInt32.ofNat s.db.db.pageSize
            commit := commit
            minTXID := 1
            maxTXID := txID
            walOffset := rd.offset
            walSize := sz
            walSalt1 := rd.salt1
            walSalt2 := rd.salt2
            pages := []
            badHeader := false
            badPages := false } pageMap
            (DB.pageNumbers (lockPgno (UInt32.ofNat s.db.db.pageSize)) commit)

/-- Encodes the next page, from the WAL if the page map has it. -/
def copyPage (s : Snapshotting ps) (f : LTXFile) (pageMap : WALReader.PageOffsets)
    (pgno : UInt32) (pgnos : List UInt32) : SnapshotPhase :=
  match (match pageMap.lookup pgno with
    | some offset => s.db.db.readWALPage s.db.walFile offset
    | none => s.db.db.readDBPage pgno) with
  | none => .failed
  | some data => .encoding { f with pages := f.pages ++ [(pgno, data)] } pageMap pgnos

/-- A step of the database.  A checkpoint does not start while a snapshot holds the lock. -/
def stepDB (s : Snapshotting ps) (a : Action ps) : Option (Snapshotting ps) :=
  match a, s.chkMu with
  | .readWALHeader, true => none
  | _, _ =>
      (step lockPgno s.db a).map fun db =>
        { s with
          db := db
          images := if s.db.l0.length < db.l0.length then (db.db.txID, db.committed) :: s.images
            else s.images }

def step (s : Snapshotting ps) : SnapshotAction ps → Option (Snapshotting ps)
  | .db a => s.stepDB lockPgno a
  | .readPos =>
      match s.phase, s.chkMu with
      | .idle, false | .closed _, false | .failed, false =>
          some { s with phase := .positioned s.db.db.txID }
      | _, _ => none
  | .start =>
      match s.phase, s.db.phase.checkpointing with
      | .positioned txID, false =>
          some { s with
            phase := .started txID (UInt32.ofNat (s.db.db.file.length / s.db.db.pageSize))
            chkMu := true }
      | _, _ => none
  | .ret => if s.chkMu then some { s with chkMu := false } else none
  | .readPageMap =>
      match s.phase with
      | .started txID commit => some { s with phase := s.readPageMap lockPgno txID commit }
      | _ => none
  | .copyPage =>
      match s.phase with
      | .encoding f pageMap (pgno :: pgnos) =>
          some { s with phase := s.copyPage f pageMap pgno pgnos }
      | _ => none
  | .close =>
      match s.phase with
      | .encoding f _ [] => some { s with phase := .closed f }
      | _ => none
  | .cancel =>
      match s.phase with
      | .encoding _ _ _ | .started _ _ => some { s with phase := .failed }
      | _ => none

end Snapshotting

/-! ## When a snapshot is right -/

/-- The file has the pages of a database, and it is labelled from the first TXID on. -/
structure LTXFile.IsImage (lockPgno : UInt32 → UInt32) (ps : PageSize) (f : LTXFile)
    (image : Store UInt32 Bytes) : Prop where
  minTXID : f.minTXID = 1
  commit : f.commit = image.size
  pgnos : f.pages.map Prod.fst = DB.pageNumbers (lockPgno ps.toUInt32) image.size
  pages : ∀ w ∈ f.pages, w.2 = image.page w.1

/-- The frame of the WAL file at which a commit starts to write. -/
def State.writesFrom (s : State ps) (restart : Option WalHeader) : Nat :=
  match restart, s.wal with
  | none, some w => w.cur.length
  | _, _ => 0

/-- The action commits a transaction that writes the `i`-th frame of the WAL file. -/
def State.WritesFrame (s : State ps) (a : Action ps) (i : Nat) : Prop :=
  ∃ c restart, a.commits s = some (c, restart) ∧ s.writesFrom restart ≤ i ∧
    i < s.writesFrom restart + c.pages.length

/-- The action copies a page to the database file, or cuts the page off. -/
def State.WritesPage (s : State ps) (a : Action ps) (p : UInt32) : Prop :=
  ∃ mode k w, a = .walCheckpoint mode k ∧ s.wal = some w ∧
    (p ∈ (Wal.writes (w.cur.take k)).map Prod.fst ∨ k = w.cur.length ∧ w.commit < p)

namespace Snapshotting

/-- The database is the one as of the TXID that the snapshot has read. -/
def Current (s : Snapshotting ps) : Prop :=
  ∀ txID commit image, s.phase = .started txID commit → (txID, image) ∈ s.images →
    Store.Agree (LivePage lockPgno ps) s.db.committed image

/-- No page that is left to copy is overwritten where the snapshot reads it. -/
def Undisturbed (s : Snapshotting ps) (a : Action ps) : Prop :=
  ∀ f pageMap pgnos, s.phase = .encoding f pageMap pgnos → ∀ p ∈ pgnos,
    match pageMap.lookup p with
    | some offset => ∀ i, offset = Wal.offsetOf ps i → ¬ s.db.WritesFrame a i
    | none => ¬ s.db.WritesPage a p

/-- The page map is read while the database is the one as of the TXID, and no step overwrites
a page that is left. -/
def StepOK (s : Snapshotting ps) : SnapshotAction ps → Prop
  | .readPageMap => s.Current lockPgno
  | .db a => s.Undisturbed a
  | _ => True

end Snapshotting

/-! ## What a step changes -/

namespace State

variable {lockPgno} {s m : State ps} {c : Commit ps} {restart : Option WalHeader}

theorem frames_of_writes (h : s.Writes lockPgno c restart m) {i : Nat}
    (hi : ¬ (s.writesFrom restart ≤ i ∧ i < s.writesFrom restart + c.pages.length)) :
    m.frames[i]? = s.frames[i]? := by
  cases h with
  | append w hw hc hfits =>
      have hfrom : s.writesFrom none = w.cur.length := by simp [writesFrom, hw]
      rw [hfrom] at hi
      rw [frames, frames, hw]
      exact Wal.getElem?_frames_append (by omega)
  | start header hc hfresh hold hr hfits =>
      have hfrom : s.writesFrom (some header) = 0 := by simp [writesFrom]
      rw [hfrom] at hi
      exact Wal.getElem?_frames_start (by omega)

theorem file_of_writes (h : s.Writes lockPgno c restart m) : m.file = s.file := by
  cases h with
  | append w hw hc hfits => rfl
  | start header hc hfresh hold hr hfits => rfl

theorem frames_of_copies {k : Nat} (h : s.Copies k m) {i : Nat} {f : Frame ps}
    (hf : m.frames[i]? = some f) : s.frames[i]? = some f := by
  cases h with
  | nothing hw => exact hf
  | part w hw hk => exact hf
  | full w hw hk => exact hf
  | truncate w hw hk => cases hf

/-- A page that is not written stays as it is. -/
theorem file_of_copies (hs : s.Sqlite lockPgno) {k : Nat} (h : s.Copies k m) {p : UInt32}
    (h0 : p ≠ 0) (hlen : p.toNat ≤ s.file.length)
    (hp : ∀ w, s.wal = some w → p ∉ (Wal.writes (w.cur.take k)).map Prod.fst ∧
      (k = w.cur.length → p ≤ w.commit)) :
    p.toNat ≤ m.file.length ∧ filePage m.file p = filePage s.file p := by
  have hpart : ∀ w, s.wal = some w →
      p.toNat ≤ (backfill s.file (w.cur.take k)).length ∧
        filePage (backfill s.file (w.cur.take k)) p = filePage s.file p := by
    intro w hw
    obtain ⟨base, ts, hgen⟩ := hs.gen w hw
    refine ⟨hlen.trans (le_length_backfill _ _), ?_⟩
    rw [filePage_backfill (fun f hf => hgen.ne_zero f (List.mem_of_mem_take hf)) h0 (Or.inl hlen),
      overlay_of_notMem (hp w hw).1]
  have hfull : ∀ w, s.wal = some w → k = w.cur.length →
      p.toNat ≤ (resize (backfill s.file w.cur) w.commit.toNat).length ∧
        filePage (resize (backfill s.file w.cur) w.commit.toNat) p = filePage s.file p := by
    intro w hw hk
    have hpart := hpart w hw
    rw [hk, List.take_length] at hpart
    have hle := UInt32.le_iff_toNat_le.mp ((hp w hw).2 hk)
    exact ⟨by rwa [length_resize], by rw [filePage_resize h0 hle hpart.1, hpart.2]⟩
  cases h with
  | nothing hw => exact ⟨hlen, rfl⟩
  | part w hw hk => exact hpart w hw
  | full w hw hk => exact hfull w hw hk
  | truncate w hw hk => exact hfull w hw hk

end State

/-! ## Encoding -/

variable {lockPgno}

/-- The pages encoded so far are those of a database, and those that are left are still where the
snapshot reads them. -/
structure Encoding (lockPgno : UInt32 → UInt32) (s : State ps) (f : LTXFile)
    (pageMap : WALReader.PageOffsets) (pgnos : List UInt32) (image : Store UInt32 Bytes) :
    Prop where
  minTXID : f.minTXID = 1
  commit : f.commit = image.size
  split : f.pages.map Prod.fst ++ pgnos = DB.pageNumbers (lockPgno ps.toUInt32) image.size
  pages : ∀ w ∈ f.pages, w.2 = image.page w.1
  wal : ∀ p ∈ pgnos, ∀ offset, pageMap.lookup p = some offset → ∃ i, offset = Wal.offsetOf ps i ∧
    ∀ g, s.frames[i]? = some g → g.page.data = image.page p
  file : ∀ p ∈ pgnos, pageMap.lookup p = none →
    p.toNat ≤ s.file.length ∧ filePage s.file p = image.page p

namespace Encoding

variable {s : State ps} {f : LTXFile} {pageMap : WALReader.PageOffsets} {pgnos : List UInt32}
  {image : Store UInt32 Bytes}

theorem live (h : Encoding lockPgno s f pageMap pgnos image) :
    ∀ p ∈ pgnos, LivePage lockPgno ps p := by
  intro p hp
  have hmem : p ∈ DB.pageNumbers (lockPgno ps.toUInt32) image.size := by
    rw [← h.split]
    exact List.mem_append_right _ hp
  obtain ⟨h0, -, hlock⟩ := DB.mem_pageNumbers.mp hmem
  exact ⟨h0, hlock⟩

/-- A step that overwrites no page that is left. -/
theorem stepDB {s' : State ps} {a : Action ps} (h : Encoding lockPgno s f pageMap pgnos image)
    (hs : s.Sqlite lockPgno) (hstep : Litestream.step lockPgno s a = some s')
    (hok : ∀ p ∈ pgnos, match pageMap.lookup p with
      | some offset => ∀ i, offset = Wal.offsetOf ps i → ¬ s.WritesFrame a i
      | none => ¬ s.WritesPage a p) : Encoding lockPgno s' f pageMap pgnos image := by
  -- each frame that is left was there before, and each page of the file
  suffices hsame : (∀ p ∈ pgnos, ∀ i, pageMap.lookup p = some (Wal.offsetOf ps i) →
      ∀ g, s'.frames[i]? = some g → s.frames[i]? = some g) ∧
      ∀ p ∈ pgnos, pageMap.lookup p = none → p.toNat ≤ s.file.length →
        p.toNat ≤ s'.file.length ∧ filePage s'.file p = filePage s.file p by
    refine ⟨h.minTXID, h.commit, h.split, h.pages, ?_, ?_⟩
    · intro p hp offset hoffset
      obtain ⟨i, rfl, hframe⟩ := h.wal p hp offset hoffset
      exact ⟨i, rfl, fun g hg => hframe g (hsame.1 p hp i hoffset g hg)⟩
    · intro p hp hnone
      obtain ⟨hlen, hpage⟩ := h.file p hp hnone
      obtain ⟨hlen', hpage'⟩ := hsame.2 p hp hnone hlen
      exact ⟨hlen', hpage'.trans hpage⟩
  cases step_moves hstep with
  | quiet p r eq =>
      subst eq
      exact ⟨fun p hp i hi g hg => hg, fun p hp hnone hlen => ⟨hlen, rfl⟩⟩
  | sync p hsyncs eq =>
      subst eq
      exact ⟨fun p hp i hi g hg => hg, fun p hp hnone hlen => ⟨hlen, rfl⟩⟩
  | write c restart m p hcommits hm eq =>
      subst eq
      have hfile : m.file = s.file := State.file_of_writes hm
      refine ⟨fun p hp i hi g hg => ?_, fun p hp hnone hlen => ?_⟩
      · have hnot := hok p hp
        rw [hi] at hnot
        have hframes : m.frames[i]? = s.frames[i]? := State.frames_of_writes hm fun hwrites =>
          hnot i rfl ⟨c, restart, hcommits, hwrites.1, hwrites.2⟩
        rw [← hframes]
        exact hg
      · show p.toNat ≤ m.file.length ∧ filePage m.file p = filePage s.file p
        rw [hfile]
        exact ⟨hlen, rfl⟩
  | copy mode k m p haction hm eq =>
      subst eq
      refine ⟨fun p hp i hi g hg => State.frames_of_copies hm hg, fun p hp hnone hlen => ?_⟩
      have hnot := hok p hp
      rw [hnone] at hnot
      refine State.file_of_copies hs hm (h.live p hp).1 hlen fun w hw => ⟨fun hmem => ?_, fun hk => ?_⟩
      · exact hnot ⟨mode, k, w, haction, hw, Or.inl hmem⟩
      · exact not_lt.mp fun hlt => hnot ⟨mode, k, w, haction, hw, Or.inr ⟨hk, hlt⟩⟩

/-- The next page is copied. -/
theorem copyPage {pgno : UInt32} {data : Bytes}
    (h : Encoding lockPgno s f pageMap (pgno :: pgnos) image)
    (hread : (match pageMap.lookup pgno with
      | some offset => s.db.readWALPage s.walFile offset
      | none => s.db.readDBPage pgno) = some data) :
    Encoding lockPgno s { f with pages := f.pages ++ [(pgno, data)] } pageMap pgnos image := by
  have hdata : data = image.page pgno := by
    cases hlookup : pageMap.lookup pgno with
    | none =>
        obtain ⟨hlen, hpage⟩ := h.file pgno List.mem_cons_self hlookup
        have h0 := (h.live pgno List.mem_cons_self).1
        simp only [hlookup, State.readDBPage_db h0 hlen, Option.some.injEq] at hread
        exact hread.symm.trans hpage
    | some offset =>
        obtain ⟨i, rfl, hframe⟩ := h.wal pgno List.mem_cons_self offset hlookup
        simp only [hlookup] at hread
        obtain ⟨g, hg, hdata⟩ := State.readWALPage_db hread
        exact hdata.symm.trans (hframe g hg)
  constructor
  case minTXID => exact h.minTXID
  case commit => exact h.commit
  case split =>
    rw [List.map_append, List.append_assoc]
    exact h.split
  case pages =>
    intro w hw
    rcases List.mem_append.mp hw with hw | hw
    · exact h.pages w hw
    · rw [List.mem_singleton.mp hw]
      exact hdata
  case wal => exact fun p hp => h.wal p (List.mem_cons_of_mem _ hp)
  case file => exact fun p hp => h.file p (List.mem_cons_of_mem _ hp)

theorem close (h : Encoding lockPgno s f pageMap [] image) : f.IsImage lockPgno ps image where
  minTXID := h.minTXID
  commit := h.commit
  pgnos := by rw [← h.split, List.append_nil]
  pages := h.pages

end Encoding

/-! ## Runs -/

namespace Snapshotting

variable {s s' : Snapshotting ps}

/-- What the page map and the database file have when the page map is read. -/
theorem encoding_of_readPageMap (hs : s.db.Sqlite lockPgno) {txID : Nat} {commit : UInt32}
    {f : LTXFile} {pageMap : WALReader.PageOffsets} {pgnos : List UInt32}
    (h : s.readPageMap lockPgno txID commit = .encoding f pageMap pgnos) :
    f.maxTXID = txID ∧ ∀ image, Store.Agree (LivePage lockPgno ps) s.db.committed image →
      Encoding lockPgno s.db f pageMap pgnos image := by
  rw [readPageMap] at h
  cases hw : s.db.wal with
  | none =>
      have hempty : WALReader.newWALReader s.db.walFile = .error .eof := by
        rw [State.walFile, hw]
        rfl
      rw [hempty] at h
      cases h
  | some w =>
      have hfile : s.db.walFile = w.encode := by rw [State.walFile, hw]
      obtain ⟨base, ts, hgen⟩ := hs.gen w hw
      have hpos : 0 < w.cur.length := List.length_pos_iff.mpr w.cur_ne
      obtain ⟨m, hmap, hm⟩ := w.pageMap_readerAt hpos (DB.fuel_lt w 0)
      have hcommit : 0 < w.commit := by
        rw [UInt32.lt_iff_toNat_lt]
        exact Nat.pos_of_ne_zero fun h => w.committed (UInt32.toNat_inj.mp h)
      rw [hfile, w.newWALReader_encode] at h
      simp only [hmap, if_pos hcommit] at h
      cases h
      refine ⟨rfl, fun image hagree => ?_⟩
      rw [State.committed_of_wal hw] at hagree
      have hsize : w.commit = image.size := hagree.1
      -- a live page up to the size is the committed one
      have hpage : ∀ p ∈ DB.pageNumbers (lockPgno ps.toUInt32) w.commit,
          overlay (filePage s.db.file) (Wal.writes w.cur) p = image.page p ∧
            LivePage lockPgno ps p ∧ p ≤ w.commit := by
        intro p hp
        obtain ⟨h0, hle, hlock⟩ := DB.mem_pageNumbers.mp hp
        exact ⟨hagree.2 p ⟨h0, hlock⟩ hle, ⟨h0, hlock⟩, hle⟩
      constructor
      case minTXID => rfl
      case commit => exact hsize
      case split => rw [← hsize]; rfl
      case pages => simp
      case wal =>
        intro p hp offset hoffset
        obtain ⟨hover, -, hle⟩ := hpage p hp
        rw [hm, if_neg (not_lt.mpr hle), List.drop_zero] at hoffset
        rcases Wal.lastWrite_offsets w.cur 0 p with ⟨hnone, -⟩ | ⟨i, g, hg, -, ho, hwrite⟩
        · rw [hoffset] at hnone
          cases hnone
        · rw [hoffset, Option.some.injEq, Nat.zero_add] at ho
          refine ⟨i, ho, fun g' hg' => ?_⟩
          have hlt : i < w.cur.length := (List.getElem?_eq_some_iff.mp hg).1
          have hframe : w.frames[i]? = some g' := by
            rw [State.frames, hw] at hg'
            exact hg'
          rw [Wal.frames, List.getElem?_append_left hlt, hg, Option.some.injEq] at hframe
          rw [← hframe, ← hover, overlay_of_lastWrite hwrite]
      case file =>
        intro p hp hnone
        obtain ⟨hover, hlive, hle⟩ := hpage p hp
        rw [hm, if_neg (not_lt.mpr hle), List.drop_zero] at hnone
        have hmem : p ∉ (Wal.writes w.cur).map Prod.fst := by
          rcases Wal.lastWrite_offsets w.cur 0 p with ⟨-, hwrite⟩ | ⟨i, g, -, -, ho, -⟩
          · exact lastWrite_eq_none_iff.mp hwrite
          · rw [hnone] at ho
            cases ho
        rw [overlay_of_notMem hmem] at hover
        exact ⟨(hgen.covered p hlive hle hmem).1, hover⟩

/-- What is known of the snapshot. -/
def PhaseInv (lockPgno : UInt32 → UInt32) (db : State ps) (images : List (Nat × Store UInt32 Bytes)) :
    SnapshotPhase → Prop
  | .idle | .failed => True
  | .positioned txID | .started txID _ => txID ≤ db.db.txID
  | .encoding f pageMap pgnos =>
      f.maxTXID ≤ db.db.txID ∧ ∀ image, (f.maxTXID, image) ∈ images →
        Encoding lockPgno db f pageMap pgnos image
  | .closed f =>
      f.maxTXID ≤ db.db.txID ∧ ∀ image, (f.maxTXID, image) ∈ images → f.IsImage lockPgno ps image

structure Inv (lockPgno : UInt32 → UInt32) (s : Snapshotting ps) : Prop where
  sqlite : s.db.Sqlite lockPgno
  images_le : ∀ t image, (t, image) ∈ s.images → t ≤ s.db.db.txID
  phase : PhaseInv lockPgno s.db s.images s.phase

theorem Inv.stepDB {a : Action ps} (hI : s.Inv lockPgno) (hok : s.Undisturbed a)
    (h : s.stepDB lockPgno a = some s') : s'.Inv lockPgno := by
  obtain ⟨db, hdb, rfl⟩ : ∃ db, Litestream.step lockPgno s.db a = some db ∧ s' =
      { s with
        db := db
        images := if s.db.l0.length < db.l0.length then (db.db.txID, db.committed) :: s.images
          else s.images } := by
    unfold Snapshotting.stepDB at h
    split at h
    · cases h
    · obtain ⟨db, hdb, rfl⟩ := Option.map_eq_some_iff.mp h
      exact ⟨db, hdb, rfl⟩
  -- a new image has a larger TXID than all that are known
  have hmono : s.db.db.txID ≤ db.db.txID ∧ ∀ t image, t ≤ s.db.db.txID →
      (t, image) ∈ (if s.db.l0.length < db.l0.length then (db.db.txID, db.committed) :: s.images
        else s.images) → (t, image) ∈ s.images := by
    rcases State.step_l0 hdb with hl0 | ⟨hlt, htxID⟩
    · have htxID : s.db.db.txID = db.db.txID := by
        rw [DB.txID, DB.txID, show db.db.l0 = s.db.db.l0 from hl0]
      rw [if_neg (by rw [hl0]; exact lt_irrefl _)]
      exact ⟨htxID.le, fun t image _ hmem => hmem⟩
    · rw [if_pos hlt]
      refine ⟨by omega, fun t image hle hmem => ?_⟩
      rcases List.mem_cons.mp hmem with heq | hmem
      · have := (Prod.mk.inj heq).1
        omega
      · exact hmem
  refine ⟨hI.sqlite.step hdb, fun t image hmem => ?_, ?_⟩
  · simp only at hmem
    split at hmem
    · rcases List.mem_cons.mp hmem with heq | hmem
      · exact (Prod.mk.inj heq).1.le
      · exact (hI.images_le t image hmem).trans hmono.1
    · exact (hI.images_le t image hmem).trans hmono.1
  · have hphase := hI.phase
    show PhaseInv lockPgno db _ s.phase
    cases hp : s.phase with
    | idle => trivial
    | failed => trivial
    | positioned txID =>
        rw [hp] at hphase
        exact le_trans hphase hmono.1
    | started txID commit =>
        rw [hp] at hphase
        exact le_trans hphase hmono.1
    | encoding f pageMap pgnos =>
        rw [hp] at hphase
        obtain ⟨hle, hencoding⟩ := hphase
        refine ⟨hle.trans hmono.1, fun image hmem => ?_⟩
        exact (hencoding image (hmono.2 _ image hle hmem)).stepDB hI.sqlite hdb
          (hok f pageMap pgnos hp)
    | closed f =>
        rw [hp] at hphase
        obtain ⟨hle, himage⟩ := hphase
        exact ⟨hle.trans hmono.1, fun image hmem => himage image (hmono.2 _ image hle hmem)⟩

theorem Inv.step {a : SnapshotAction ps} (hI : s.Inv lockPgno) (hok : s.StepOK lockPgno a)
    (h : s.step lockPgno a = some s') : s'.Inv lockPgno := by
  have hphase := hI.phase
  cases a with
  | db a => exact hI.stepDB hok h
  | readPos =>
      simp only [Snapshotting.step] at h
      split at h
      · cases h
        exact ⟨hI.sqlite, hI.images_le, le_refl _⟩
      · cases h
        exact ⟨hI.sqlite, hI.images_le, le_refl _⟩
      · cases h
        exact ⟨hI.sqlite, hI.images_le, le_refl _⟩
      · cases h
  | start =>
      simp only [Snapshotting.step] at h
      split at h
      · next txID hp _ =>
          cases h
          rw [hp] at hphase
          exact ⟨hI.sqlite, hI.images_le, hphase⟩
      · cases h
  | ret =>
      simp only [Snapshotting.step] at h
      split at h
      · cases h
        exact ⟨hI.sqlite, hI.images_le, hI.phase⟩
      · cases h
  | readPageMap =>
      simp only [Snapshotting.step] at h
      split at h
      · next txID commit hp =>
          cases h
          rw [hp] at hphase
          refine ⟨hI.sqlite, hI.images_le, ?_⟩
          show PhaseInv lockPgno s.db s.images (s.readPageMap lockPgno txID commit)
          cases hmap : s.readPageMap lockPgno txID commit with
          | encoding f pageMap pgnos =>
              obtain ⟨htxID, hencoding⟩ := encoding_of_readPageMap hI.sqlite hmap
              refine ⟨htxID ▸ hphase, fun image hmem => hencoding image ?_⟩
              rw [htxID] at hmem
              exact hok txID commit image hp hmem
          | failed => trivial
          | idle => trivial
          | _ =>
              rw [Snapshotting.readPageMap] at hmap
              repeat' split at hmap
              all_goals cases hmap
      · cases h
  | copyPage =>
      simp only [Snapshotting.step] at h
      split at h
      · next f pageMap pgno pgnos hp =>
          cases h
          rw [hp] at hphase
          obtain ⟨hle, hencoding⟩ := hphase
          refine ⟨hI.sqlite, hI.images_le, ?_⟩
          show PhaseInv lockPgno s.db s.images (s.copyPage f pageMap pgno pgnos)
          unfold Snapshotting.copyPage
          split
          · trivial
          · next data hread =>
              exact ⟨hle, fun image hmem => (hencoding image hmem).copyPage hread⟩
      · cases h
  | close =>
      simp only [Snapshotting.step] at h
      split at h
      · next f pageMap hp =>
          cases h
          rw [hp] at hphase
          exact ⟨hI.sqlite, hI.images_le, hphase.1, fun image hmem => (hphase.2 image hmem).close⟩
      · cases h
  | cancel =>
      simp only [Snapshotting.step] at h
      split at h
      · cases h
        exact ⟨hI.sqlite, hI.images_le, trivial⟩
      · cases h
        exact ⟨hI.sqlite, hI.images_le, trivial⟩
      · cases h

end Snapshotting

/-- In every run that meets the condition, a snapshot has the database as of its TXID. -/
theorem isImage_of_run {s₀ s : Snapshotting ps} {as : List (SnapshotAction ps)} {f : LTXFile}
    {image : Store UInt32 Bytes} (hsqlite : s₀.db.Sqlite lockPgno) (himages : s₀.images = [])
    (hphase : s₀.phase = .idle) (hrun : run (Snapshotting.step lockPgno) s₀ as = some s)
    (halong : Along (Snapshotting.step lockPgno) (Snapshotting.StepOK lockPgno) s₀ as)
    (hclosed : s.phase = .closed f) (hmem : (f.maxTXID, image) ∈ s.images) :
    f.IsImage lockPgno ps image := by
  have hI₀ : s₀.Inv lockPgno := by
    refine ⟨hsqlite, fun t image hmem => ?_, ?_⟩
    · rw [himages] at hmem
      cases hmem
    · rw [hphase]
      trivial
  have hI : s.Inv lockPgno := run_induction (fun hI hok h => hI.step hok h) hI₀ halong hrun
  have hphase := hI.phase
  rw [hclosed] at hphase
  exact hphase.2 image hmem

/-! ## Runs on a small database -/

instance (a b : Store UInt32 Bytes) : Decidable (Store.Agree (LivePage lockPgno ps) a b) :=
  have := List.decidableBAll (fun p => a.page p = b.page p)
    (DB.pageNumbers (lockPgno ps.toUInt32) a.size)
  decidable_of_iff (a.size = b.size ∧
    ∀ p ∈ DB.pageNumbers (lockPgno ps.toUInt32) a.size, a.page p = b.page p) <| by
    refine and_congr_right fun _ => ⟨fun h p hp hle => ?_, fun h p hp => ?_⟩
    · exact h p (DB.mem_pageNumbers.mpr ⟨hp.1, hle, hp.2⟩)
    · obtain ⟨h0, hle, hlock⟩ := DB.mem_pageNumbers.mp hp
      exact h p ⟨h0, hlock⟩ hle

instance (s : State ps) (a : Action ps) (i : Nat) : Decidable (s.WritesFrame a i) :=
  match h : a.commits s with
  | none => .isFalse (by simp [State.WritesFrame, h])
  | some (c, restart) =>
      decidable_of_iff (s.writesFrom restart ≤ i ∧ i < s.writesFrom restart + c.pages.length)
        (by simp [State.WritesFrame, h])

instance (s : State ps) (a : Action ps) (p : UInt32) : Decidable (s.WritesPage a p) :=
  match a, h : s.wal with
  | .walCheckpoint mode k, some w =>
      decidable_of_iff (p ∈ (Wal.writes (w.cur.take k)).map Prod.fst ∨
        k = w.cur.length ∧ w.commit < p) (by simp [State.WritesPage, h])
  | .walCheckpoint mode k, none => .isFalse (by simp [State.WritesPage, h])
  | .commit .., _ | .ensureWALExists .., _ | .sync, _ | .readWALHeader, _ | .syncBefore, _
  | .releaseReadLock, _ | .acquireReadLock _, _ | .writeSeq .., _ | .compareHeader, _ | .lock, _
  | .syncAfter, _ | .rollback, _ | .fail, _ => .isFalse (by simp [State.WritesPage])

/-- At most one frame starts at an offset. -/
instance (offset : Nat) (P : Nat → Prop) [DecidablePred P] :
    Decidable (∀ i, offset = Wal.offsetOf ps i → ¬ P i) :=
  let i := (offset - walHeaderSize) / ps.frameSize
  decidable_of_iff (offset = Wal.offsetOf ps i → ¬ P i) <| by
    refine ⟨fun h j hj => ?_, fun h => h i⟩
    have hij : i = j := by
      show (offset - walHeaderSize) / ps.frameSize = j
      rw [hj, Wal.offsetOf, Nat.add_sub_cancel_left, Nat.mul_div_cancel j ps.frameSize_pos]
    exact hij ▸ h (hij ▸ hj)

namespace Snapshotting

instance (s : Snapshotting ps) : Decidable (s.Current lockPgno) :=
  match h : s.phase with
  | .started txID commit =>
      decidable_of_iff (∀ e ∈ s.images, e.1 = txID →
        Store.Agree (LivePage lockPgno ps) s.db.committed e.2) <| by
        rw [Current, h]
        constructor
        · rintro hall txID' commit' image ⟨⟩ hmem
          exact hall _ hmem rfl
        · rintro hall ⟨t, image⟩ hmem rfl
          exact hall t commit image rfl hmem
  | .idle | .positioned _ | .encoding .. | .closed _ | .failed => .isTrue (by simp [Current, h])

instance (s : Snapshotting ps) (a : Action ps) : Decidable (s.Undisturbed a) :=
  match h : s.phase with
  | .encoding f pageMap pgnos =>
      decidable_of_iff ((pgnos.all fun p => match pageMap.lookup p with
        | some offset => decide (∀ i, offset = Wal.offsetOf ps i → ¬ s.db.WritesFrame a i)
        | none => decide (¬ s.db.WritesPage a p)) = true) <| by
        have hiff : ∀ p, (match pageMap.lookup p with
            | some offset => decide (∀ i, offset = Wal.offsetOf ps i → ¬ s.db.WritesFrame a i)
            | none => decide (¬ s.db.WritesPage a p)) = true ↔ match pageMap.lookup p with
            | some offset => ∀ i, offset = Wal.offsetOf ps i → ¬ s.db.WritesFrame a i
            | none => ¬ s.db.WritesPage a p := by
          intro p
          cases pageMap.lookup p with
          | none => exact decide_eq_true_iff
          | some offset => exact decide_eq_true_iff
        rw [Undisturbed, h, List.all_eq_true]
        constructor
        · rintro hall f' pageMap' pgnos' ⟨⟩ p hp
          exact (hiff p).mp (hall p hp)
        · intro hall p hp
          exact (hiff p).mpr (hall f pageMap pgnos rfl p hp)
  | .idle | .positioned _ | .started .. | .closed _ | .failed => .isTrue (by simp [Undisturbed, h])

instance (s : Snapshotting ps) (a : SnapshotAction ps) : Decidable (s.StepOK lockPgno a) :=
  match a with
  | .readPageMap => inferInstanceAs (Decidable (s.Current lockPgno))
  | .db a => inferInstanceAs (Decidable (s.Undisturbed a))
  | .readPos | .start | .ret | .copyPage | .close | .cancel => .isTrue trivial

end Snapshotting

namespace Sample

def unopened : Snapshotting PageSize.min where
  db := empty
  images := []
  chkMu := false
  phase := .idle

/-- The end of a checkpoint that empties the WAL. -/
def truncate : List (Action PageSize.min) :=
  [.walCheckpoint .truncate 3, .acquireReadLock true,
    .writeSeq (change 1 4 one_live) (some (header 2)), .compareHeader, .lock, .syncAfter,
    .rollback]

/-- Commits page 2, and a checkpoint up to the release of the read transaction. -/
def rerelease : List (Action PageSize.min) :=
  [.commit (change 2 5 two_live) none, .readWALHeader, .syncBefore, .releaseReadLock]

/-- Two level 0 files and a snapshot up to its page map.  Page 1 is in the WAL.  A transaction
commits and is synced. -/
def mapped : List (SnapshotAction PageSize.min) :=
  (release ++ truncate).map .db ++ [.readPos, .start, .ret, .readPageMap] ++ rerelease.map .db

def copy : List (SnapshotAction PageSize.min) := [.copyPage, .copyPage, .copyPage, .close]

end Sample

/-- Commits and syncs do not disturb a snapshot. -/
theorem isImage_of_run_sample : ∃ (s : Snapshotting PageSize.min) (f : LTXFile)
    (image : Store UInt32 Bytes),
    run (Snapshotting.step Sample.lockPage) Sample.unopened
      (Sample.mapped ++ Sample.copy) = some s ∧
    s.phase = .closed f ∧ (f.maxTXID, image) ∈ s.images ∧
    f.IsImage Sample.lockPage PageSize.min image := by
  have hany : (run (Snapshotting.step Sample.lockPage) Sample.unopened
      (Sample.mapped ++ Sample.copy)).any fun s =>
      match s.phase with
      | .closed f => s.images.any fun e => e.1 = f.maxTXID
      | _ => false := by
    decide +kernel
  have halong : Along (Snapshotting.step Sample.lockPage)
      (Snapshotting.StepOK Sample.lockPage) Sample.unopened
      (Sample.mapped ++ Sample.copy) := by
    decide +kernel
  have hsqlite : Sample.unopened.db.Sqlite Sample.lockPage := .of_empty (by decide) rfl
  obtain ⟨s, hrun, hs⟩ := (Option.any_eq_true _ _).mp hany
  split at hs
  · next f hclosed =>
      obtain ⟨⟨t, image⟩, hmem, ht⟩ := List.any_eq_true.mp hs
      obtain rfl : t = f.maxTXID := of_decide_eq_true ht
      exact ⟨s, f, image, hrun, hclosed, hmem,
        isImage_of_run hsqlite rfl rfl hrun halong hclosed hmem⟩
  · cases hs

/-- A checkpoint copies a later transaction to the database file while the snapshot copies. -/
theorem snapshot_torn : ∃ (s : Snapshotting PageSize.min) (f : LTXFile)
    (image : Store UInt32 Bytes),
    run (Snapshotting.step Sample.lockPage) Sample.unopened
      (Sample.mapped ++ [.db (.walCheckpoint .passive 2)] ++ Sample.copy) =
        some s ∧
    s.phase = .closed f ∧ (f.maxTXID, image) ∈ s.images ∧
    ¬ f.IsImage Sample.lockPage PageSize.min image := by
  have hany : (run (Snapshotting.step Sample.lockPage) Sample.unopened
      (Sample.mapped ++ [.db (.walCheckpoint .passive 2)] ++ Sample.copy)).any
      fun s => match s.phase with
      | .closed f => s.images.any fun e =>
          decide (e.1 = f.maxTXID) && f.pages.any fun w => decide (w.2 ≠ e.2.page w.1)
      | _ => false := by
    decide +kernel
  obtain ⟨s, hrun, hs⟩ := (Option.any_eq_true _ _).mp hany
  split at hs
  · next f hclosed =>
      obtain ⟨⟨t, image⟩, hmem, himage⟩ := List.any_eq_true.mp hs
      obtain ⟨ht, hpages⟩ := Bool.and_eq_true_iff.mp himage
      obtain rfl : t = f.maxTXID := of_decide_eq_true ht
      obtain ⟨w, hw, hne⟩ := List.any_eq_true.mp hpages
      exact ⟨s, f, image, hrun, hclosed, hmem, fun h => of_decide_eq_true hne (h.pages w hw)⟩
  · cases hs

end Litestream
