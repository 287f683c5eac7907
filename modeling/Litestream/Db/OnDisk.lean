import Litestream.Db.Checkpoint
import Litestream.Db.Generation

/-!
# What SQLite keeps on disk

`State.Sqlite` relates the database file to the WAL file.  Every step keeps it
(`State.Sqlite.step`), whatever litestream does.
-/

namespace Litestream

open Bytes Overlay Paged

variable {ps : PageSize} {lockPgno : UInt32 → UInt32}

/-- The database file and the WAL file are as SQLite leaves them. -/
structure State.Sqlite (lockPgno : UInt32 → UInt32) (s : State ps) : Prop where
  file_lt : s.file.length < 2 ^ 32
  gen : ∀ w, s.wal = some w → ∃ base ts, Generation lockPgno s.file w base ts
  fits : ∀ w, s.wal = some w → Fits ps w.frames.length
  header_mem : ∀ w, s.wal = some w → w.header.salt ∈ s.salts
  nBackfill_le : ∀ w, s.wal = some w → s.nBackfill ≤ w.cur.length
  /-- When every frame was copied, the database file has the database. -/
  full : ∀ w, s.wal = some w → s.nBackfill = w.cur.length →
    Store.Agree (LivePage lockPgno ps) (Litestream.committed s.file none) s.committed

theorem Commit.Extends.grow {c : Commit ps} {n : UInt32} (h : c.Extends lockPgno n) :
    c.Grow lockPgno n where
  live := fun w hw => ⟨c.pgno_ne_zero w hw, h.1 w hw⟩
  fills := by
    intro p hp hn hle
    have hmem := h.2 p (DB.mem_pageNumbers.mpr ⟨hp.1, hle, hp.2⟩) hn
    rw [Commit.tx, List.map_map]
    exact hmem

namespace State

variable {s m : State ps} {c : Commit ps}

theorem committed_of_wal {w : Wal ps} (hw : s.wal = some w) :
    s.committed = Litestream.committed s.file (some w) := by rw [committed, hw]

theorem committed_of_empty (hw : s.wal = none) :
    s.committed = Litestream.committed s.file none := by rw [committed, hw]

/-- When the WAL may be restarted, the database file has the database. -/
theorem Sqlite.agree_file (h : s.Sqlite lockPgno) (hr : s.restartable = true) :
    Store.Agree (LivePage lockPgno ps) (Litestream.committed s.file none) s.committed := by
  cases hw : s.wal with
  | none =>
      rw [committed_of_empty hw]
      exact Store.Agree.refl
  | some w =>
      rw [restartable, hw, Bool.and_eq_true, decide_eq_true_eq] at hr
      exact h.full w hw hr.1

theorem Sqlite.write (h : s.Sqlite lockPgno) {restart : Option WalHeader}
    (hm : s.Writes lockPgno c restart m) : m.Sqlite lockPgno := by
  cases hm with
  | append w hw hc hfits =>
      obtain ⟨base, ts, hgen⟩ := h.gen w hw
      have hle := h.nBackfill_le w hw
      have hpos : 0 < c.pages.length := List.length_pos_iff.mpr c.ne
      rw [committed_of_wal hw] at hc
      constructor
      case file_lt => exact h.file_lt
      case gen =>
        rintro _ ⟨⟩
        exact ⟨base, _, hgen.append hc.grow⟩
      case fits =>
        rintro _ ⟨⟩
        exact hfits
      case header_mem =>
        rintro _ ⟨⟩
        exact h.header_mem w hw
      case nBackfill_le =>
        rintro _ ⟨⟩
        rw [Wal.length_cur_append]
        exact hle.trans (Nat.le_add_right ..)
      case full =>
        -- the new frames are not in the database file
        rintro _ ⟨⟩ heq
        rw [Wal.length_cur_append] at heq
        simp only at heq
        omega
  | start header hc hfresh hold hr hfits =>
      rw [← (h.agree_file hr).1] at hc
      constructor
      case file_lt => exact h.file_lt
      case gen =>
        rintro _ ⟨⟩
        exact ⟨_, _, Generation.start h.file_lt hc.grow⟩
      case fits =>
        rintro _ ⟨⟩
        exact hfits
      case header_mem =>
        rintro _ ⟨⟩
        exact List.mem_cons_self
      case nBackfill_le =>
        rintro _ ⟨⟩
        exact Nat.zero_le _
      case full =>
        rintro w ⟨⟩ heq
        exact absurd heq.symm (List.length_pos_iff.mpr (Wal.start header c s.frames hold).cur_ne).ne'

theorem Sqlite.copy (h : s.Sqlite lockPgno) {k : Nat} (hm : s.Copies k m) :
    m.Sqlite lockPgno := by
  cases hm with
  | nothing hw => exact h
  | part w hw hk =>
      obtain ⟨base, ts, hgen⟩ := h.gen w hw
      constructor
      case file_lt => exact length_backfill_lt h.file_lt
      case gen =>
        intro v hv
        obtain rfl : w = v := Option.some.inj (hw.symm.trans hv)
        exact ⟨base, ts, hgen.backfill k⟩
      case fits => exact h.fits
      case header_mem => exact h.header_mem
      case nBackfill_le =>
        intro v hv
        obtain rfl : w = v := Option.some.inj (hw.symm.trans hv)
        exact hk.le
      case full =>
        intro v hv heq
        obtain rfl : w = v := Option.some.inj (hw.symm.trans hv)
        exact absurd heq hk.ne
  | full w hw hk =>
      obtain ⟨base, ts, hgen⟩ := h.gen w hw
      constructor
      case file_lt =>
        simp only [length_resize]
        exact w.commit.toNat_lt
      case gen =>
        intro v hv
        obtain rfl : w = v := Option.some.inj (hw.symm.trans hv)
        exact ⟨base, ts, hgen.full⟩
      case fits => exact h.fits
      case header_mem => exact h.header_mem
      case nBackfill_le =>
        intro v hv
        obtain rfl : w = v := Option.some.inj (hw.symm.trans hv)
        exact hk.le
      case full =>
        intro v hv _
        rw [committed_of_wal hv]
        obtain rfl : w = v := Option.some.inj (hw.symm.trans hv)
        exact hgen.agree_full.trans (hgen.agree.trans hgen.full.agree.symm)
  | truncate w hw hk =>
      constructor
      case file_lt =>
        simp only [length_resize]
        exact w.commit.toNat_lt
      case gen => rintro _ ⟨⟩
      case fits => rintro _ ⟨⟩
      case header_mem => rintro _ ⟨⟩
      case nBackfill_le => rintro _ ⟨⟩
      case full => rintro _ ⟨⟩

/-- Only the two files matter. -/
theorem Sqlite.of_eq (h : s.Sqlite lockPgno) (hfile : m.file = s.file) (hwal : m.wal = s.wal)
    (hn : m.nBackfill = s.nBackfill) (hsalts : m.salts = s.salts) : m.Sqlite lockPgno where
  file_lt := hfile ▸ h.file_lt
  gen := by
    rw [hfile, hwal]
    exact h.gen
  fits := hwal ▸ h.fits
  header_mem := by
    rw [hwal, hsalts]
    exact h.header_mem
  nBackfill_le := by
    rw [hwal, hn]
    exact h.nBackfill_le
  full := by
    rw [committed, hfile, hwal, hn]
    exact h.full

theorem Sqlite.of_empty (hfile : s.file.length < 2 ^ 32) (hw : s.wal = none) :
    s.Sqlite lockPgno where
  file_lt := hfile
  gen := by rw [hw]; rintro _ ⟨⟩
  fits := by rw [hw]; rintro _ ⟨⟩
  header_mem := by rw [hw]; rintro _ ⟨⟩
  nBackfill_le := by rw [hw]; rintro _ ⟨⟩
  full := by rw [hw]; rintro _ ⟨⟩

theorem Sqlite.step {s' : State ps} {a : Action ps} (hs : s.Sqlite lockPgno)
    (h : step lockPgno s a = some s') : s'.Sqlite lockPgno := by
  cases step_moves h with
  | quiet p r eq =>
      subst eq
      exact hs.of_eq rfl rfl rfl rfl
  | write c restart m p hcommits hm eq =>
      subst eq
      exact (hs.write hm).of_eq rfl rfl rfl rfl
  | copy mode k m p haction hm eq =>
      subst eq
      exact (hs.copy hm).of_eq rfl rfl rfl rfl
  | sync p hsyncs eq =>
      subst eq
      exact hs.of_eq rfl rfl rfl rfl

/-- A step writes at most one level 0 file, with the next TXID. -/
theorem step_l0 {s' : State ps} {a : Action ps} (h : Litestream.step lockPgno s a = some s') :
    s'.l0 = s.l0 ∨ s.l0.length < s'.l0.length ∧ s'.db.txID = s.db.txID + 1 := by
  cases step_moves h with
  | quiet p r eq =>
      subst eq
      exact Or.inl rfl
  | write c restart m p hcommits hm eq =>
      subst eq
      cases hm with
      | append w hw hc hfits => exact Or.inl rfl
      | start header hc hfresh hold hr hfits => exact Or.inl rfl
  | copy mode k m p haction hm eq =>
      subst eq
      cases hm with
      | nothing hw => exact Or.inl rfl
      | part w hw hk => exact Or.inl rfl
      | full w hw hk => exact Or.inl rfl
      | truncate w hw hk => exact Or.inl rfl
  | sync p hsyncs eq =>
      subst eq
      have hl0 : (s.verifyAndSync lockPgno p).l0 = (s.db.verifyAndSync lockPgno).2.l0 := rfl
      rcases DB.verifyAndSync_l0 (Prod.mk.eta (p := s.db.verifyAndSync lockPgno)).symm with
        hsame | ⟨f, happend, htxID⟩
      · exact Or.inl (hl0.trans hsame)
      · rw [happend] at hl0
        refine Or.inr ⟨?_, ?_⟩
        · rw [hl0, List.length_append]
          exact Nat.lt_succ_self s.l0.length
        · rw [DB.txID, show (s.verifyAndSync lockPgno p).db.l0 = _ from hl0,
            List.getLast?_concat]
          exact htxID

/-! ## What litestream sees of it -/

theorem fits_encode {w : Wal ps} (h : Fits ps w.frames.length) : w.encode.length < 2 ^ 63 := by
  rw [w.length_encode]
  exact h

theorem db_wal {w : Wal ps} (hw : s.wal = some w) : s.db.wal = some w.encode := by
  rw [db, walFile, hw]

/-- A page of the database file is read from its place. -/
theorem readDBPage_db {p : UInt32} (h0 : p ≠ 0) (hle : p.toNat ≤ s.file.length) :
    s.db.readDBPage p = some (filePage s.file p) := by
  have hpos : p.toNat ≠ 0 := fun h => h0 (UInt32.toNat_inj.mp h)
  obtain ⟨page, hpage⟩ : ∃ page, s.file[p.toNat - 1]? = some page :=
    ⟨_, List.getElem?_eq_getElem (show p.toNat - 1 < s.file.length by omega)⟩
  have hread : readAt (s.file.flatMap Page.data) ((p.toNat - 1) * ps.size) ps.size = page.data :=
    readAt_flatMap Page.length_data hpage
  have hoff : ((p.toNat : Int) - 1) * ps.size = ((p.toNat - 1) * ps.size : Nat) := by
    rw [Nat.cast_mul, Nat.cast_sub (by omega), Nat.cast_one]
  rw [DB.readDBPage, readWALFileAt, show s.db.file = s.file.flatMap Page.data from rfl,
    show s.db.pageSize = ps.size from rfl, hoff, Int.toNat_natCast, hread, filePage, hpage]
  exact if_pos ⟨by omega, page.length_data⟩

/-- The page at a frame is read behind the header of the frame. -/
theorem readWALPage_db {i : Nat} {data : Bytes}
    (h : s.db.readWALPage s.walFile (Wal.offsetOf ps i) = some data) :
    ∃ f, s.frames[i]? = some f ∧ f.page.data = data := by
  have hoff : ((Wal.offsetOf ps i : Int) + walFrameHeaderSize).toNat =
      Wal.offsetOf ps i + walFrameHeaderSize := by omega
  have hps := ps.bounds
  rw [DB.readWALPage, readWALFileAt, show s.db.pageSize = ps.size from rfl] at h
  simp only [hoff] at h
  cases hw : s.wal with
  | none =>
      rw [walFile, hw, if_neg (by simp [readAt]; omega)] at h
      cases h
  | some w =>
      rw [walFile, hw] at h
      simp only at h
      rw [frames, hw]
      cases hf : w.frames[i]? with
      | none =>
          have hnil := w.readAt_eq_nil (a := walFrameHeaderSize) (n := ps.size)
            (List.getElem?_eq_none_iff.mp hf)
          rw [hnil, if_neg (by simp; omega)] at h
          cases h
      | some f =>
          rw [w.readAt_frame hf le_rfl, f.readAt_page, if_pos ⟨by omega, f.page.length_data⟩] at h
          exact ⟨f, rfl, Option.some.inj h⟩

end State

/-! ## A small database -/

namespace Sample

/-- The page at the byte `0x40000000`. -/
def lockPage (pageSize : UInt32) : UInt32 := 0x40000000 / pageSize + 1

/-- A page filled with one byte. -/
def page (x : UInt8) : Page PageSize.min := ⟨List.replicate 512 x, length_fill x⟩

def header (n : UInt32) : WalHeader := ⟨.bigEndian, n, (n, 0)⟩

/-- Writes three pages. -/
def fill (x : UInt8) : Commit PageSize.min where
  size := 3
  pages := [(1, page x), (2, page x), (3, page x)]
  ne := by simp
  pgno_ne_zero := by simp
  pgno_le := by simp

/-- Writes one of three pages. -/
def change (p : UInt32) (x : UInt8) (h : p ≠ 0 ∧ p ≤ 3) : Commit PageSize.min where
  size := 3
  pages := [(p, page x)]
  ne := by simp
  pgno_ne_zero := by simpa using h.1
  pgno_le := by simpa using h.2

theorem one_live : (1 : UInt32) ≠ 0 ∧ (1 : UInt32) ≤ 3 := by decide

theorem two_live : (2 : UInt32) ≠ 0 ∧ (2 : UInt32) ≤ 3 := by decide

theorem three_live : (3 : UInt32) ≠ 0 ∧ (3 : UInt32) ≤ 3 := by decide

/-- An empty database. -/
def empty : State PageSize.min where
  file := []
  wal := none
  nBackfill := 0
  readLock := true
  l0 := []
  syncedToWALEnd := false
  lastSyncedWALOffset := 0
  phase := .idle
  salts := []
  missed := false

end Sample

end Litestream
