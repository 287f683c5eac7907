import Litestream.Db.Identity
import Litestream.Db.Sync
import Litestream.Lib.Paged
import Litestream.Wal.PageMap

/-!
# What a sync writes

On a WAL file that SQLite wrote, a sync that succeeds either writes nothing or writes a
file that reaches the end of the current generation (`LTXFile.Reaches`).  Such a file has
the last version of each page from some frame on, or is a snapshot.
-/

namespace Litestream

open Bytes Overlay Paged

/-! ## Copied pages -/

theorem lastWrite_copyPages {read : UInt32 → Option Bytes} {pgnos : List UInt32}
    {pages : List (UInt32 × Bytes)} (h : copyPages read pgnos = some pages) (p : UInt32) :
    lastWrite pages p = if p ∈ pgnos then read p else none := by
  induction pgnos generalizing pages with
  | nil =>
      cases h
      simp
  | cons q pgnos ih =>
      rw [copyPages] at h
      cases hq : read q with
      | none => simp [hq] at h
      | some data =>
          cases hrest : copyPages read pgnos with
          | none => simp [hq, hrest] at h
          | some rest =>
              rw [hq, hrest] at h
              cases h
              rw [lastWrite_cons, ih hrest]
              by_cases hp : q = p
              · subst hp
                by_cases hmem : q ∈ pgnos
                · simp [hmem, hq]
                · simp [hmem, hq]
              · simp [hp, Ne.symm hp]

namespace DB

theorem mem_pageNumbers {lock commit p : UInt32} :
    p ∈ pageNumbers lock commit ↔ p ≠ 0 ∧ p ≤ commit ∧ p ≠ lock := by
  have hp := p.toNat_lt
  have hc := commit.toNat_lt
  simp only [pageNumbers, List.mem_filter, List.mem_map, List.mem_range, decide_eq_true_eq,
    ← and_assoc]
  refine and_congr_left fun _ => ?_
  constructor
  · rintro ⟨i, hi, rfl⟩
    have hnat : (UInt32.ofNat (i + 1)).toNat = i + 1 := by
      rw [UInt32.toNat_ofNat']
      omega
    refine ⟨fun h0 => ?_, ?_⟩
    · rw [h0] at hnat
      simp at hnat
    · rw [UInt32.le_iff_toNat_le, hnat]
      omega
  · rintro ⟨h0, hle⟩
    rw [UInt32.le_iff_toNat_le] at hle
    have hpos : p.toNat ≠ 0 := fun h => h0 (UInt32.toNat_inj.mp h)
    refine ⟨p.toNat - 1, by omega, ?_⟩
    rw [Nat.sub_add_cancel (by omega), UInt32.ofNat_toNat]

variable {ps : PageSize} {db : DB} {w : Wal ps}

/-- The page at the last offset of a page is read from its last version. -/
theorem readWALPage_lastOffset (hps : db.pageSize = ps.size) {k o : Nat} {p : UInt32}
    (h : lastWrite (Wal.offsets k (w.cur.drop k)) p = some o) :
    db.readWALPage w.encode o = lastWrite (Wal.writes (w.cur.drop k)) p := by
  have hread := w.readAt_lastOffset h
  have hlen : (readAt w.encode (o + walFrameHeaderSize) ps.size).length = ps.size := by
    have hmem := mem_of_lastWrite hread
    obtain ⟨f, -, hf⟩ := List.mem_map.mp hmem
    rw [← (Prod.mk.inj hf).2, f.page.length_data]
  rw [hread, readWALPage, readWALFileAt, hps]
  have hoff : ((o : Int) + walFrameHeaderSize).toNat = o + walFrameHeaderSize := by omega
  simp only [hoff]
  rw [if_pos ⟨by omega, hlen⟩]

/-- An incremental file has the last version of each page from a frame on. -/
theorem lastWrite_writeLTXFromWAL (hps : db.pageSize = ps.size) {k : Nat}
    {m : WALReader.PageOffsets} {pages : List (UInt32 × Bytes)}
    (hm : ∀ p, m.lookup p =
      if w.commit < p then none else lastWrite (Wal.offsets k (w.cur.drop k)) p)
    (h : db.writeLTXFromWAL w.encode m = some pages) (p : UInt32) :
    lastWrite pages p =
      if w.commit < p then none else lastWrite (Wal.writes (w.cur.drop k)) p := by
  have hmem : p ∈ m.keys.insertionSort (· ≤ ·) ↔ m.lookup p ≠ none := by
    rw [List.mem_insertionSort, ne_eq, AList.lookup_eq_none, not_not, AList.mem_keys]
  rw [lastWrite_copyPages h]
  by_cases hc : w.commit < p
  · have hnone : m.lookup p = none := by rw [hm, if_pos hc]
    simp [hmem, hnone, hc]
  · have hlookup : m.lookup p = lastWrite (Wal.offsets k (w.cur.drop k)) p := by
      rw [hm, if_neg hc]
    rw [if_neg hc]
    cases ho : lastWrite (Wal.offsets k (w.cur.drop k)) p with
    | none =>
        rw [ho] at hlookup
        rcases Wal.lastWrite_offsets (w.cur.drop k) k p with ⟨-, hw⟩ | ⟨i, f, -, -, ho', -⟩
        · simp [hmem, hlookup, hw]
        · rw [ho] at ho'
          cases ho'
    | some o =>
        rw [ho] at hlookup
        rw [if_pos (hmem.mpr (by simp [hlookup])), hlookup, Option.bind_some,
          readWALPage_lastOffset hps ho]

/-- A snapshot has the last version of each page in the WAL, or that in the database file. -/
theorem lastWrite_writeLTXFromDB (hps : db.pageSize = ps.size) {lockPgno : UInt32 → UInt32}
    {m : WALReader.PageOffsets} {pages : List (UInt32 × Bytes)}
    (hm : ∀ p, m.lookup p = if w.commit < p then none else lastWrite (Wal.offsets 0 w.cur) p)
    (h : writeLTXFromDB lockPgno db w.encode w.commit m = some pages) {p : UInt32} (h0 : p ≠ 0)
    (hle : p ≤ w.commit) (hlock : p ≠ lockPgno ps.toUInt32) :
    lastWrite pages p = (lastWrite (Wal.writes w.cur) p).or (db.readDBPage p) := by
  rw [writeLTXFromDB, hps, ← PageSize.toUInt32] at h
  rw [lastWrite_copyPages h, if_pos (mem_pageNumbers.mpr ⟨h0, hle, hlock⟩), hm,
    if_neg (not_lt.mpr hle)]
  rcases Wal.lastWrite_offsets w.cur 0 p with ⟨ho, hw⟩ | ⟨i, f, -, -, ho, hw⟩
  · rw [ho, hw, Option.none_or]
  · have hread := readWALPage_lastOffset (w := w) (k := 0) hps (by rw [List.drop_zero]; exact ho)
    rw [List.drop_zero] at hread
    rw [ho]
    simp only
    rw [hread, hw, Option.some_or]

end DB

/-! ## Files that reach the end of the WAL -/

variable {ps : PageSize} {lockPgno : UInt32 → UInt32}

theorem int64_of_lt {n : Nat} (h : n < 2 ^ 63) : int64 n = n :=
  Int.bmod_eq_of_le (by omega) (by omega)

/-- The pages that a database uses. -/
def LivePage (lockPgno : UInt32 → UInt32) (ps : PageSize) (p : UInt32) : Prop :=
  p ≠ 0 ∧ p ≠ lockPgno ps.toUInt32

namespace LTXFile

/-- The file was read up to the end of the current generation. -/
structure Reaches (f : LTXFile) (w : Wal ps) : Prop where
  commit : f.commit = w.commit
  walEnd : f.walEnd = Wal.offsetOf ps w.cur.length
  salt : f.salt = w.header.salt
  badHeader : f.badHeader = false
  lastPage : ((w.cur.getLast w.cur_ne).pgno, (w.cur.getLast w.cur_ne).page.data) ∈ f.pages

/-- The file has the last version of each page from the `k`-th frame on. -/
def Incremental (f : LTXFile) (w : Wal ps) (k : Nat) : Prop :=
  ∀ p, lastWrite f.pages p =
    if w.commit < p then none else lastWrite (Wal.writes (w.cur.drop k)) p

/-- The file has every page of the database. -/
def Snapshot (f : LTXFile) (lockPgno : UInt32 → UInt32) (db : DB) (w : Wal ps) : Prop :=
  ∀ p, LivePage lockPgno ps p → p ≤ w.commit →
    lastWrite f.pages p = (lastWrite (Wal.writes w.cur) p).or (db.readDBPage p)

end LTXFile

namespace Wal

/-- The last frame from any frame on is the last one of the generation. -/
theorem lastWrite_writes_getLast (w : Wal ps) {k : Nat} (hk : k < w.cur.length) :
    lastWrite (writes (w.cur.drop k)) (w.cur.getLast w.cur_ne).pgno =
      some (w.cur.getLast w.cur_ne).page.data := by
  have hne : w.cur.drop k ≠ [] := by
    rw [ne_eq, List.drop_eq_nil_iff]
    omega
  have hsplit := List.dropLast_append_getLast hne
  rw [List.getLast_drop] at hsplit
  rw [← hsplit, writes_append, lastWrite_append]
  simp [writes, lastWrite_cons]

theorem getLast_pgno_le (w : Wal ps) : (w.cur.getLast w.cur_ne).pgno ≤ w.commit :=
  w.pgno_le _ (List.getLast_mem w.cur_ne) w.committed

end Wal

namespace DB

variable {db db' : DB} {w : Wal ps} {info : SyncInfo}

/-- What is written from the `k`-th frame of the current generation on. -/
theorem writeLTX_ok (hps : db.pageSize = ps.size) (hfits : w.encode.length < 2 ^ 63)
    (hlive : ∀ f ∈ w.cur, LivePage lockPgno ps f.pgno) {k : Nat} (hk : k < w.cur.length)
    (hoff : info.offset = Wal.offsetOf ps k) (hsnap : info.snapshotting = true → k = 0)
    {m : WALReader.PageOffsets} (hm : ∀ p, m.lookup p =
      if w.commit < p then none else lastWrite (Wal.offsets k (w.cur.drop k)) p) {b : Bool}
    (h : db.writeLTX lockPgno w.encode info (w.readerAt w.cur.length) m
      (Wal.offsetOf ps w.cur.length) w.commit = (.ok b, db')) :
    ∃ f, db'.l0 = db.l0 ++ [f] ∧ f.Reaches w ∧
      (info.snapshotting = false ∧ f.Incremental w k ∨
        info.snapshotting = true ∧ f.Snapshot lockPgno db w) := by
  have hcommit : 0 < w.commit := by
    rw [UInt32.lt_iff_toNat_lt]
    have h0 : w.commit.toNat ≠ 0 := fun h => w.committed (UInt32.toNat_inj.mp h)
    exact Nat.pos_of_ne_zero h0
  have hlt : Wal.offsetOf ps k < Wal.offsetOf ps w.cur.length := by
    rw [← not_le, Wal.offsetOf_le]
    omega
  have hend : Wal.offsetOf ps w.cur.length < 2 ^ 63 := by
    refine Nat.lt_of_le_of_lt ?_ hfits
    rw [Wal.length_encode, Wal.offsetOf_le, Wal.frames, List.length_append]
    omega
  rw [writeLTX] at h
  simp only [if_pos hcommit, if_pos (show 0 < Wal.offsetOf ps w.cur.length by omega), hoff] at h
  rw [if_neg (by omega), if_neg (by omega)] at h
  have hwalEnd : int64 (Wal.offsetOf ps k + ((Wal.offsetOf ps w.cur.length : Int) -
      Wal.offsetOf ps k)) = Wal.offsetOf ps w.cur.length := by
    rw [add_sub_cancel, int64_of_lt hend]
  cases hs : info.snapshotting with
  | false =>
      simp only [hs, Bool.false_eq_true, if_false] at h
      cases hpages : db.writeLTXFromWAL w.encode m with
      | none =>
          rw [hpages] at h
          cases h
      | some pages =>
          rw [hpages] at h
          cases h
          have hl := lastWrite_writeLTXFromWAL hps hm hpages
          refine ⟨_, rfl, ⟨rfl, hwalEnd, rfl, rfl, mem_of_lastWrite ?_⟩, Or.inl ⟨rfl, hl⟩⟩
          rw [hl, if_neg (not_lt.mpr w.getLast_pgno_le), w.lastWrite_writes_getLast hk]
  | true =>
      simp only [hs, if_true] at h
      cases hpages : writeLTXFromDB lockPgno db w.encode w.commit m with
      | none =>
          rw [hpages] at h
          cases h
      | some pages =>
          rw [hpages] at h
          cases h
          obtain rfl := hsnap hs
          have hl : ∀ p, LivePage lockPgno ps p → p ≤ w.commit → lastWrite pages p =
              (lastWrite (Wal.writes w.cur) p).or (db.readDBPage p) :=
            fun p hp hle => lastWrite_writeLTXFromDB hps hm hpages hp.1 hle hp.2
          have hlast := w.lastWrite_writes_getLast hk
          rw [List.drop_zero] at hlast
          refine ⟨_, rfl, ⟨rfl, hwalEnd, rfl, rfl, mem_of_lastWrite ?_⟩, Or.inr ⟨rfl, hl⟩⟩
          rw [hl _ (hlive _ (List.getLast_mem w.cur_ne)) w.getLast_pgno_le, hlast, Option.some_or]

theorem fuel_lt (w : Wal ps) (k : Nat) : w.cur.length - k < w.encode.length + 1 := by
  have h := Nat.le_mul_of_pos_right w.frames.length ps.frameSize_pos
  rw [Wal.length_encode, Wal.offsetOf]
  rw [Wal.frames, List.length_append] at h ⊢
  omega

/-- A sync that reads from the `k`-th frame of the current generation on. -/
theorem sync_readerAt (hps : db.pageSize = ps.size) (hwal : db.wal = some w.encode)
    (hfits : w.encode.length < 2 ^ 63) (hlive : ∀ f ∈ w.cur, LivePage lockPgno ps f.pgno)
    {info' : SyncInfo} {k : Nat} (hopen : openWALReader w.encode info = .ok (w.readerAt k, info'))
    (hk : k < w.cur.length) (hoff : info'.offset = Wal.offsetOf ps k)
    (hsnap : info'.snapshotting = true → k = 0) {b : Bool}
    (h : db.sync lockPgno info = (.ok b, db')) :
    ∃ f, db'.l0 = db.l0 ++ [f] ∧ f.Reaches w ∧
      (info'.snapshotting = false ∧ f.Incremental w k ∨
        info'.snapshotting = true ∧ f.Snapshot lockPgno db w) := by
  obtain ⟨m, hmap, hm⟩ := w.pageMap_readerAt hk (fuel_lt w k)
  rw [sync, hwal] at h
  simp only [hopen, hmap] at h
  exact writeLTX_ok hps hfits hlive hk hoff hsnap hm h

/-- A sync that finds no valid frame writes nothing. -/
theorem sync_of_eof (hwal : db.wal = some w.encode) {info' : SyncInfo} {rd rd' : WALReader}
    (hopen : openWALReader w.encode info = .ok (rd, info'))
    (heof : rd.readFrame rd.pageSize.toNat true = (.error .eof, rd'))
    (hsnap : info'.snapshotting = false) {b : Bool}
    (h : db.sync lockPgno info = (.ok b, db')) : db' = db := by
  have hmap := Wal.pageMap_of_eof heof (Nat.succ_pos w.encode.length)
  rw [sync, hwal] at h
  simp only [hopen, hmap, writeLTX, hsnap] at h
  cases h
  rfl

/-! ## Where a sync starts to read -/

theorem openWALReader_header (hoff : info.offset = walHeaderSize) :
    openWALReader w.encode info = .ok (w.readerAt 0, info) := by
  rw [openWALReader, if_pos hoff, w.newWALReader_encode]

theorem offsetOf_succ_ne (i : Nat) : (Wal.offsetOf ps (i + 1) : Int) ≠ walHeaderSize := by
  have := ps.frameSize_pos
  rw [Wal.offsetOf_succ, Wal.offsetOf]
  omega

/-- If the frame before does not have the salts, the reader starts over. -/
theorem openWALReader_mismatch {i : Nat} (hoff : info.offset = Wal.offsetOf ps (i + 1))
    (hframe : ∀ f, w.frames[i]? = some f → f.salt ≠ (info.salt1, info.salt2)) :
    openWALReader w.encode info =
      .ok (w.readerAt 0, { info with offset := walHeaderSize }) := by
  have hopen := w.newWALReaderWithOffset_encode i (info.salt1, info.salt2)
  have hne : info.offset ≠ walHeaderSize := by
    rw [hoff]
    exact offsetOf_succ_ne i
  have hmatch : ∃ err, WALReader.newWALReaderWithOffset w.encode info.offset info.salt1 info.salt2 =
      .error (.prevFrameMismatch err) := by
    rw [hoff, hopen]
    cases hf : w.frames[i]? with
    | none => exact ⟨_, rfl⟩
    | some f => exact ⟨_, if_pos (hframe f hf)⟩
  obtain ⟨err, herr⟩ := hmatch
  rw [openWALReader, if_neg hne, herr, w.newWALReader_encode]

theorem openWALReader_match {i : Nat} {f : Frame ps}
    (hoff : info.offset = Wal.offsetOf ps (i + 1)) (hf : w.frames[i]? = some f)
    (hsalt : f.salt = (info.salt1, info.salt2)) :
    openWALReader w.encode info = .ok (w.reader f.salt f.chksum (i + 1), info) := by
  have hopen := w.newWALReaderWithOffset_encode i (info.salt1, info.salt2)
  have hne : info.offset ≠ walHeaderSize := by
    rw [hoff]
    exact offsetOf_succ_ne i
  have hmatch : WALReader.newWALReaderWithOffset w.encode info.offset info.salt1 info.salt2 =
      .ok (w.reader f.salt f.chksum (i + 1)) := by
    rw [hoff, hopen, hf, hsalt]
    exact if_neg (not_not.mpr hsalt)
  rw [openWALReader, if_neg hne, hmatch]

/-- In the current generation the reader goes on behind the frame. -/
theorem reader_eq_readerAt {i : Nat} {f : Frame ps} (hf : w.frames[i]? = some f)
    (hsalt : f.salt = w.header.salt) :
    i < w.cur.length ∧ w.reader f.salt f.chksum (i + 1) = w.readerAt (i + 1) := by
  have hi : i < w.cur.length := by
    by_contra hi
    rw [Wal.frames, List.getElem?_append_right (by omega)] at hf
    exact w.stale_salt f (List.mem_of_getElem? hf) hsalt
  have hcur : w.cur[i]? = some f := by rwa [Wal.frames, List.getElem?_append_left hi] at hf
  exact ⟨hi, by rw [Wal.readerAt, lastChecksum_take_succ hcur, hsalt]⟩

end DB

end Litestream
