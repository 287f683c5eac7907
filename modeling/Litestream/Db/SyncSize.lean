import Litestream.Db.Identity
import Litestream.Db.Sync
import Litestream.Wal.Committed

/-!
# The size that a sync records

`sync` reads the WAL from the offset that `verify` returned, or from its start if the frame before
the offset does not match.  The header of the level 0 file records where the read started and how
far the page map reaches.

`sync_size` says that for every offset the recorded size is not negative, and that a positive one
ends behind the last valid commit frame, where the next `verify` goes on.
-/

namespace Litestream

open Bytes

namespace WALReader

/-! ## Where a read starts -/

/-- The reader with other salts. -/
def withSalt (r : WALReader) (salt1 salt2 : UInt32) : WALReader :=
  { r with salt1 := salt1, salt2 := salt2 }

/-- A read from slot `k` on starts with checksum `c`: that of the file header, or that of the
frame before. -/
inductive StartsAt (r : WALReader) : Nat → Checksum → Prop
  | start : StartsAt r 0 (r.chksum1, r.chksum2)
  | behind {k : Nat} {f : WALFrame} (hf : r.frameAt k = some f)
      (hsalt : f.salt = (r.salt1, r.salt2)) : StartsAt r (k + 1) f.chksum

variable {r r' rd : WALReader} {k : Nat} {c : Checksum} {fs : List WALFrame} {wal : Bytes}

/-- A reader at an offset is behind a frame with the salts. -/
theorem newWALReaderWithOffset_ok {offset : Int} {salt1 salt2 : UInt32}
    (h : newWALReaderWithOffset wal offset salt1 salt2 = .ok r') :
    ∃ rd k c, newWALReader wal = .ok rd ∧ (rd.withSalt salt1 salt2).StartsAt k c ∧
      offset = (rd.withSalt salt1 salt2).slot k ∧ r' = (rd.withSalt salt1 salt2).past k c := by
  rw [newWALReaderWithOffset] at h
  split at h
  · cases h
  next hlarge =>
  cases hrd : newWALReader wal with
  | error err =>
      rw [show readHeader wal = .error err from hrd] at h
      cases h
  | ok rd =>
      rw [show readHeader wal = .ok rd from hrd] at h
      dsimp only at h
      rw [show ({ rd with salt1 := salt1, salt2 := salt2 } : WALReader).frameSize = rd.frameSize
        from rfl] at h
      split at h
      · cases h
      next hsize =>
      split at h
      · cases h
      next haligned =>
      obtain ⟨q, hq⟩ := Int.dvd_of_emod_eq_zero (not_not.mp haligned)
      have hpos : 0 < q := by
        by_contra hneg
        have := Int.mul_nonpos_of_nonneg_of_nonpos (Int.natCast_nonneg rd.frameSize)
          (Int.not_lt.mp hneg)
        omega
      obtain ⟨k, rfl⟩ : ∃ k : Nat, q = k + 1 := ⟨(q - 1).toNat, by omega⟩
      have hdiv : ((offset - walHeaderSize) / rd.frameSize).toNat - 1 = k := by
        rw [hq, Int.mul_ediv_cancel_left _ (by omega)]
        omega
      have hslot : offset = (rd.withSalt salt1 salt2).slot (k + 1) := by
        rw [slot, show (rd.withSalt salt1 salt2).frameSize = rd.frameSize from rfl]
        push_cast
        rw [Int.mul_comm]
        omega
      have hread : ({ rd with salt1 := salt1, salt2 := salt2, frameN := k } : WALReader).readFrame
          rd.pageSize.toNat false = _ :=
        readFrame_past (r := rd.withSalt salt1 salt2) k (rd.chksum1, rd.chksum2) false
      rw [hdiv, hread] at h
      cases hf : (rd.withSalt salt1 salt2).frameAt k with
      | none =>
          rw [hf] at h
          cases h
      | some f =>
          rw [hf] at h
          dsimp only at h
          by_cases hsalt : f.salt = ((rd.withSalt salt1 salt2).salt1, (rd.withSalt salt1 salt2).salt2)
          · rw [if_neg (not_not.mpr hsalt)] at h
            cases h
            exact ⟨rd, k + 1, f.chksum, rfl, .behind hf hsalt, hslot, rfl⟩
          · rw [if_pos hsalt] at h
            cases h

/-! ## Reading a frame again -/

/-- A frame ends within the file. -/
theorem slot_succ_le_of_frameAt (hb : r.Bounded) {f : WALFrame} (h : r.frameAt k = some f) :
    r.slot (k + 1) ≤ r.r.length := by
  have hslot := slot_lt_of_frameAt h
  obtain ⟨-, hdata⟩ := frameAt_lengths h
  rw [frameAt] at h
  split at h
  · next hlen =>
      cases h
      rw [length_readAt] at hdata
      rw [slot_succ hb]
      omega
  · cases h

/-- Another file that is the same up to a slot has the same frames before it. -/
theorem frameAt_onFile (hb : r.Bounded) {n i : Nat} (hi : i < n)
    (hsame : wal.take (r.slot n) = r.r.take (r.slot n)) :
    (r.onFile wal).frameAt i = r.frameAt i := by
  have hcut : (r.onFile wal).cut (r.slot n) = r.cut (r.slot n) :=
    congrArg (fun file => r.onFile file) hsame
  have hleft := frameAt_cut (r := r.onFile wal) (n := n) (i := i) hb
  have hright := frameAt_cut (r := r) (n := n) (i := i) hb
  rw [if_pos hi] at hleft hright
  rw [← hleft, ← hright]
  exact congrArg (fun cut => cut.frameAt i) hcut

/-- The frames of a list that a read from a slot finds. -/
theorem Longest.length_lt (h : r.Longest k c fs) (hb : r.Bounded) : fs.length < r.r.length + 1 := by
  rcases h.valid.length_le hb with hle | rfl
  · omega
  · exact Nat.succ_pos _

/-- The frames of a valid list have the salts of the reader. -/
theorem ValidFrom.salt_eq (h : r.ValidFrom k c fs) {f : WALFrame} (hf : f ∈ fs) :
    f.salt = (r.salt1, r.salt2) := by
  induction fs generalizing k c with
  | nil => cases hf
  | cons g fs ih =>
      obtain ⟨-, hsalt, -, hfs⟩ := h
      rcases List.mem_cons.mp hf with rfl | hf
      · exact hsalt
      · exact ih hfs hf

/-- The last commit frame of a valid list. -/
theorem ValidFrom.exists_committed (h : r.ValidFrom k c fs) (hne : committedFrames fs ≠ []) :
    ∃ n f, (committedFrames fs).length = n + 1 ∧ r.frameAt (k + n) = some f ∧
      f.salt = (r.salt1, r.salt2) := by
  obtain ⟨pre, f, hf, -⟩ := committedFrames_getLast fs hne
  obtain ⟨post, hpost⟩ := committedFrames_isPrefix fs
  have hget : fs[pre.length]? = some f := by
    rw [← hpost, hf]
    simp
  exact ⟨pre.length, f, by simp [hf], h.frameAt_eq hget, h.salt_eq (List.mem_of_getElem? hget)⟩

end WALReader

open WALReader

/-! ## What is to be shown -/

/-- A WAL with a page size that SQLite allows, in which the page of each commit frame is within
the commit size. -/
structure WellFormedWAL (wal : Bytes) : Prop where
  pageSize : ∀ rd, newWALReader wal = .ok rd → rd.PowerOfTwo
  commit : ∀ rd, newWALReader wal = .ok rd → ∀ k f, rd.frameAt k = some f → f.commit ≠ 0 →
    f.pgno ≤ f.commit

/-- The reader of a WAL with the salts that a file records. -/
def LTXFile.reader (ltx : LTXFile) (rd : WALReader) : WALReader :=
  rd.withSalt ltx.walSalt1 ltx.walSalt2

/-- The file records a read of the valid frames from slot `k` on, up to the last commit frame. -/
structure RecordsRead (wal : Bytes) (ltx : LTXFile) (rd : WALReader) (k : Nat) (c : Checksum)
    (fs : List WALFrame) : Prop where
  reader : newWALReader wal = .ok rd
  starts : (ltx.reader rd).StartsAt k c
  frames : (ltx.reader rd).Longest k c fs
  offset : ltx.walOffset = (ltx.reader rd).slot k
  size : ltx.walOffset + ltx.walSize = (ltx.reader rd).slot (k + (committedFrames fs).length)

/-- When the WAL was not restarted, and is the same up to slot `n`, the next `verify` and the sync
after it go on from there. -/
def ResumesAt (wal : Bytes) (ltx : LTXFile) (rd : WALReader) (n : Nat) : Prop :=
  ∀ (later : DB) (wal' : Bytes), later.l0.getLast? = some ltx → later.wal = some wal' →
    later.pageSize = rd.pageSize.toNat → wal'.length < 2 ^ 63 →
    wal'.take (rd.slot n) = wal.take (rd.slot n) →
    (readWALHeader wal').map headerSalt = some ltx.salt →
      ∃ info rd', later.verify = (.ok info, later) ∧ info.offset = rd.slot n ∧
        DB.openWALReader wal' info = .ok (rd', info) ∧ rd'.frameN = n

namespace DB

variable {db db' : DB} {wal : Bytes} {ltx : LTXFile} {info info' : SyncInfo} {rd : WALReader}

/-! ## The next verify -/

theorem lastPageMatch_ok (hbad : ltx.badPages = false) {prevWALOffset : Int} {frame : Bytes}
    (hframe : readWALFileAt wal prevWALOffset db.frameSize = some frame) :
    ∃ found, db.lastPageMatch wal ltx prevWALOffset = .ok found := by
  rw [lastPageMatch, hframe, hbad]
  dsimp only
  split
  · exact ⟨false, rfl⟩
  · split
    · exact ⟨false, rfl⟩
    · split
      · exact ⟨true, rfl⟩
      · exact ⟨false, rfl⟩

/-- With the recorded salts in the header, the comparison of the headers keeps the offset. -/
theorem verifyHeader_same (info : SyncInfo) (hbad : ltx.badPages = false)
    (hhdr : (readWALHeader wal).map headerSalt = some ltx.salt) {frame : Bytes}
    (hprev : walHeaderSize ≤ int64 (info.offset - db.frameSize))
    (hframe : readWALFileAt wal (int64 (info.offset - db.frameSize)) db.frameSize = some frame) :
    ∃ snapshotting reason, db.verifyHeader wal ltx info =
      .ok { info with snapshotting := snapshotting, reason := reason } := by
  cases hread : readWALHeader wal with
  | none =>
      rw [hread] at hhdr
      cases hhdr
  | some hdr0 =>
      rw [hread, Option.map_some, Option.some.injEq] at hhdr
      rw [verifyHeader, hread]
      dsimp only
      rw [hhdr]
      split
      · exact ⟨false, _, if_pos rfl⟩
      rw [if_neg (by omega)]
      obtain ⟨found, hfound⟩ := lastPageMatch_ok hbad hframe
      rw [hfound]
      cases found with
      | false => exact ⟨_, _, rfl⟩
      | true => exact ⟨false, _, if_neg (not_not.mpr rfl)⟩

/-- A WAL that has the recorded end is read on from there. -/
theorem verify_resumes (hl0 : db.l0.getLast? = some ltx) (hwal : db.wal = some wal)
    (hheader : ltx.badHeader = false) (hbad : ltx.badPages = false)
    (hhdr : (readWALHeader wal).map headerSalt = some ltx.salt)
    (hprev : walHeaderSize + db.frameSize ≤ ltx.walEnd) (hend : ltx.walEnd ≤ wal.length)
    (hlen : wal.length < 2 ^ 63) :
    ∃ snapshotting reason, db.verify =
      (.ok ⟨ltx.walEnd, ltx.walSalt1, ltx.walSalt2, snapshotting, reason⟩, db) := by
  rcases hend.eq_or_lt with heq | hlt
  · exact ⟨false, _, verify_at_end hl0 hwal hheader heq⟩
  · have hback : int64 (ltx.walEnd - db.frameSize) = ltx.walEnd - db.frameSize := by
      rw [int64, Int.bmod_eq_of_le] <;> omega
    have hframe : readWALFileAt wal (ltx.walEnd - db.frameSize) db.frameSize =
        some (readAt wal (ltx.walEnd - db.frameSize).toNat db.frameSize) := by
      rw [readWALFileAt, length_readAt, if_pos]
      omega
    obtain ⟨snapshotting, reason, hok⟩ := verifyHeader_same
      ⟨ltx.walEnd, ltx.walSalt1, ltx.walSalt2, true, ""⟩ hbad hhdr
      (by rw [hback]; omega) (by rw [hback]; exact hframe)
    exact ⟨snapshotting, reason, by rw [verify_past_end hl0 hwal hheader hlt, hok]⟩

end DB

theorem WALReader.salt_of_newWALReader {rd : WALReader} {wal : Bytes}
    (hr : newWALReader wal = .ok rd) :
    (readWALHeader wal).map headerSalt = some (rd.salt1, rd.salt2) := by
  rw [newWALReader, readHeader] at hr
  dsimp only at hr
  split at hr
  · cases hr
  next hlen =>
  rw [readWALHeader, if_pos (by rw [length_readAt] at hlen ⊢; omega)]
  split at hr
  · cases hr
  split at hr
  · cases hr
  split at hr
  · cases hr
  cases hr
  rfl

theorem resumesAt_of_frame {wal : Bytes} {rd : WALReader} {ltx : LTXFile} {n : Nat} {f : WALFrame}
    (hr : newWALReader wal = .ok rd) (hb : rd.Bounded) (hheader : ltx.badHeader = false)
    (hbad : ltx.badPages = false) (hf : rd.frameAt n = some f) (hsalt : f.salt = ltx.salt)
    (hend : ltx.walOffset + ltx.walSize = rd.slot (n + 1)) : ResumesAt wal ltx rd (n + 1) := by
  intro later wal' hl0 hwal hpage hlen hsame hhdr
  have hfile : rd.r = wal := (newWALReader_past hr).1
  have hsucc := slot_succ hb n
  have hlarge : walHeaderSize ≤ rd.slot n := Nat.le_add_right _ _
  have hwithin : rd.slot (n + 1) ≤ wal.length := hfile ▸ slot_succ_le_of_frameAt hb hf
  have hwithin' : rd.slot (n + 1) ≤ wal'.length := by
    have := congrArg List.length hsame
    rw [List.length_take, List.length_take] at this
    omega
  have hwalEnd : ltx.walEnd = rd.slot (n + 1) := by
    rw [LTXFile.walEnd, hend, int64, Int.bmod_eq_of_le] <;> omega
  have hsize : later.frameSize = walFrameHeaderSize + rd.pageSize.toNat := by
    rw [DB.frameSize, hpage, Nat.add_comm]
  obtain ⟨snapshotting, reason, hverify⟩ := DB.verify_resumes hl0 hwal hheader hbad hhdr
    (by rw [hwalEnd, hsize]; omega) (by omega) hlen
  -- the reader of the later file
  have hread : readAt wal' 0 walHeaderSize = readAt wal 0 walHeaderSize := by
    rw [← readAt_take (m := rd.slot (n + 1)) (by omega), hsame, readAt_take (by omega)]
  have hr' := newWALReader_onFile hr hread
  have hsalts : ltx.salt = (rd.salt1, rd.salt2) := by
    have := (salt_of_newWALReader hr').symm.trans hhdr
    exact (Option.some.inj this).symm
  have hf' : (rd.onFile wal').frameAt n = some f :=
    (frameAt_onFile hb (Nat.lt_succ_self n) (hfile.symm ▸ hsame)).trans hf
  have hopen := newWALReaderWithOffset_slot hr' hb hf' (hsalt.trans hsalts)
  refine ⟨_, (rd.onFile wal').past (n + 1) f.chksum, hverify, hwalEnd, ?_, rfl⟩
  obtain ⟨hsalt1, hsalt2⟩ := Prod.mk.inj hsalts
  rw [DB.openWALReader]
  dsimp only
  rw [if_neg (by rw [hwalEnd, hsucc, walFrameHeaderSize]; omega)]
  rw [hwalEnd, show ltx.walSalt1 = rd.salt1 from hsalt1, show ltx.walSalt2 = rd.salt2 from hsalt2]
  rw [show newWALReaderWithOffset wal' (rd.slot (n + 1)) rd.salt1 rd.salt2 = .ok _ from hopen]

namespace DB

/-! ## What a sync records -/

variable {db db' : DB} {wal : Bytes} {info info' : SyncInfo}

/-- The reader that `sync` opens is at the recorded offset. -/
theorem openWALReader_ok {rd' : WALReader} (h : openWALReader wal info = .ok (rd', info')) :
    ∃ rd k c, newWALReader wal = .ok rd ∧ (rd.withSalt rd'.salt1 rd'.salt2).StartsAt k c ∧
      info'.offset = (rd.withSalt rd'.salt1 rd'.salt2).slot k ∧
      rd' = (rd.withSalt rd'.salt1 rd'.salt2).past k c := by
  have hstart : ∀ rd, newWALReader wal = .ok rd → rd' = rd → info'.offset = walHeaderSize →
      ∃ rd k c, newWALReader wal = .ok rd ∧ (rd.withSalt rd'.salt1 rd'.salt2).StartsAt k c ∧
        info'.offset = (rd.withSalt rd'.salt1 rd'.salt2).slot k ∧
        rd' = (rd.withSalt rd'.salt1 rd'.salt2).past k c := by
    rintro rd hrd rfl hoff
    exact ⟨rd', 0, _, hrd, .start, by rw [hoff, slot, Nat.zero_mul]; rfl,
      (newWALReader_past hrd).2⟩
  rw [openWALReader] at h
  split at h
  · next hoff =>
      cases hrd : newWALReader wal with
      | error err =>
          rw [hrd] at h
          cases h
      | ok rd =>
          rw [hrd] at h
          cases h
          simpa only [hrd] using hstart _ hrd rfl hoff
  · cases hoffset : newWALReaderWithOffset wal info.offset info.salt1 info.salt2 with
    | ok r =>
        rw [hoffset] at h
        cases h
        obtain ⟨rd, k, c, hrd, hstarts, hoff, rfl⟩ := newWALReaderWithOffset_ok hoffset
        exact ⟨rd, k, c, hrd, hstarts, hoff, rfl⟩
    | error err =>
        rw [hoffset] at h
        cases err with
        | prevFrameMismatch err =>
            cases hrd : newWALReader wal with
            | error err =>
                rw [hrd] at h
                cases h
            | ok rd =>
                rw [hrd] at h
                cases h
                simpa only [hrd] using hstart _ hrd rfl rfl
        | _ => cases h

theorem openWALReader_error {err : SyncError} (h : openWALReader wal info = .error err) :
    err ≠ .negativeSize := by
  rw [openWALReader] at h
  split at h
  · split at h
    · cases h
      exact SyncError.noConfusion
    · cases h
  · split at h
    · cases h
    · split at h
      · cases h
        exact SyncError.noConfusion
      · cases h
    · cases h
      exact SyncError.noConfusion

/-- The file that `writeLTX` appends has the offset and the size of the read. -/
theorem writeLTX_size (lockPgno : UInt32 → UInt32) (db : DB) (wal : Bytes) (info : SyncInfo)
    (rd : WALReader) (pageMap : WALReader.PageOffsets) (maxOffset : Nat) (walCommit : UInt32)
    {size : Int} (hsize : (if 0 < maxOffset then maxOffset - info.offset else 0) = size)
    (hpos : 0 ≤ size) :
    (db.writeLTX lockPgno wal info rd pageMap maxOffset walCommit).1 ≠ .error .negativeSize ∧
      ∀ db', db.writeLTX lockPgno wal info rd pageMap maxOffset walCommit = (.ok true, db') →
        ∃ ltx : LTXFile, db'.l0 = db.l0 ++ [ltx] ∧ ltx.walOffset = info.offset ∧
          ltx.walSize = size ∧ ltx.walSalt1 = rd.salt1 ∧ ltx.walSalt2 = rd.salt2 ∧
          ltx.badHeader = false ∧ ltx.badPages = false := by
  rw [writeLTX]
  dsimp only
  rw [hsize, if_neg (not_lt.mpr hpos)]
  split
  · exact ⟨by simp, fun db' h => by cases h⟩
  · split
    · exact ⟨by simp, fun db' h => by cases h⟩
    · refine ⟨by simp, fun db' h => ?_⟩
      cases h
      exact ⟨_, rfl, rfl, rfl, rfl, rfl, rfl, rfl⟩

/-- What a reader that `sync` opens finds: valid frames, and a page map up to the last commit frame
of them. -/
theorem pageMap_opened {rd' : WALReader} (hform : WellFormedWAL wal)
    (h : openWALReader wal info = .ok (rd', info')) :
    ∃ rd k c fs m c', newWALReader wal = .ok rd ∧
      (rd.withSalt rd'.salt1 rd'.salt2).StartsAt k c ∧
      (rd.withSalt rd'.salt1 rd'.salt2).Longest k c fs ∧
      info'.offset = (rd.withSalt rd'.salt1 rd'.salt2).slot k ∧
      rd'.pageMap (wal.length + 1) = some (.ok (m,
        if committedFrames fs = [] then 0
          else (rd.withSalt rd'.salt1 rd'.salt2).slot (k + (committedFrames fs).length),
        lastCommitSize fs), (rd.withSalt rd'.salt1 rd'.salt2).past (k + fs.length) c') := by
  obtain ⟨rd, k, c, hrd, hstarts, hoff, hpast⟩ := openWALReader_ok h
  generalize hr : rd.withSalt rd'.salt1 rd'.salt2 = r at hstarts hoff hpast ⊢
  have hfile : r.r = wal := by
    rw [← hr]
    exact (newWALReader_past hrd).1
  have hps : r.PowerOfTwo := hr ▸ hform.pageSize rd hrd
  obtain ⟨fs, hfs⟩ : ∃ fs, r.Longest k c fs := by
    refine ⟨_, longest_validFrames hps.bounded (n := wal.length) ?_⟩
    have := Nat.mul_le_mul_left wal.length (show 1 ≤ r.frameSize by
      rw [hps.bounded.frameSize_eq, walFrameHeaderSize]
      omega)
    rw [hfile]
    omega
  have hcommit : ∀ f ∈ fs, f.commit ≠ 0 → f.pgno ≤ f.commit := by
    intro f hf
    obtain ⟨i, hi⟩ := List.getElem?_of_mem hf
    have hframe := hfs.valid.frameAt_eq hi
    rw [← hr] at hframe
    exact hform.commit rd hrd _ f hframe
  have hlength := hfs.length_lt hps.bounded
  rw [hfile] at hlength
  obtain ⟨m, c', hmap, -⟩ := pageMap_slot hps hfs hcommit hlength
  exact ⟨rd, k, c, fs, m, c', hrd, hr ▸ hstarts, hr ▸ hfs, hr ▸ hoff, hr ▸ hpast ▸ hmap⟩

/-- How far the page map reaches from where the read starts.  Without a commit frame it ends there. -/
theorem readSize_eq {r : WALReader} (k : Nat) (fs : List WALFrame) :
    (if 0 < (if committedFrames fs = [] then 0 else r.slot (k + (committedFrames fs).length)) then
        (((if committedFrames fs = [] then 0
          else r.slot (k + (committedFrames fs).length) : Nat) : Int) - (r.slot k : Nat)) else 0) =
      (r.slot (k + (committedFrames fs).length) : Int) - (r.slot k : Nat) := by
  by_cases hnil : committedFrames fs = []
  · rw [if_pos hnil, if_neg (Nat.lt_irrefl 0), hnil, List.length_nil, Nat.add_zero]
    omega
  · have hpos : 0 < r.slot (k + (committedFrames fs).length) := by
      rw [slot, walHeaderSize]
      omega
    rw [if_neg hnil, if_pos hpos]

/-- The assertion of `sync` about the WAL size never fails, and a file that it writes records a read
up to the last valid commit frame.  If it has read one, the next `verify` goes on from there. -/
theorem sync_size (lockPgno : UInt32 → UInt32) (db : DB) (wal : Bytes) (info : SyncInfo)
    (hwal : db.wal = some wal) (hform : WellFormedWAL wal) :
    (db.sync lockPgno info).1 ≠ .error .negativeSize ∧
      ∀ db', db.sync lockPgno info = (.ok true, db') →
        ∃ ltx rd k c fs, db'.l0 = db.l0 ++ [ltx] ∧ RecordsRead wal ltx rd k c fs ∧
          0 ≤ ltx.walSize ∧ (0 < ltx.walSize → committedFrames fs ≠ [] ∧
            ResumesAt wal ltx rd (k + (committedFrames fs).length)) := by
  rw [sync, hwal]
  dsimp only
  cases hopen : openWALReader wal info with
  | error err =>
      exact ⟨fun h => openWALReader_error hopen (Except.error.inj h), fun db' h => by cases h⟩
  | ok opened =>
      obtain ⟨rd', info'⟩ := opened
      obtain ⟨rd, k, c, fs, m, c', hrd, hstarts, hfs, hoff, hmap⟩ := pageMap_opened hform hopen
      dsimp only
      rw [hmap]
      dsimp only
      generalize hr : rd.withSalt rd'.salt1 rd'.salt2 = r at hstarts hfs hoff
      have hmono := slot_mono (r := r) (Nat.le_add_right k (committedFrames fs).length)
      have hsize := readSize_eq (r := r) k fs
      rw [← hoff] at hsize
      obtain ⟨hne, hok⟩ := writeLTX_size lockPgno db wal info' (r.past (k + fs.length) c') m _
        (lastCommitSize fs) hsize (by omega)
      refine ⟨hne, fun db' h => ?_⟩
      obtain ⟨ltx, hl0, hwalOffset, hwalSize, hsalt1, hsalt2, hheader, hbad⟩ := hok db' h
      obtain rfl : ltx.reader rd = r := by
        rw [LTXFile.reader, hsalt1, hsalt2, ← hr]
        rfl
      have hend : ltx.walOffset + ltx.walSize =
          (ltx.reader rd).slot (k + (committedFrames fs).length) := by omega
      refine ⟨ltx, rd, k, c, fs, hl0, ⟨hrd, hstarts, hfs, hwalOffset.trans hoff, hend⟩, by omega,
        fun hpos => ?_⟩
      have hcommitted : committedFrames fs ≠ [] := by
        intro hnil
        rw [hnil, List.length_nil, Nat.add_zero] at hwalSize
        omega
      refine ⟨hcommitted, ?_⟩
      obtain ⟨n, f, hn, hf, hsalt⟩ := hfs.valid.exists_committed hcommitted
      rw [hn] at hend ⊢
      exact resumesAt_of_frame hrd (hform.pageSize rd hrd).bounded hheader hbad hf hsalt hend

/-- The frames of a database of two pages, the last of a transaction that does not commit. -/
def twoPages : List (UInt32 × UInt32) := [(1, 0), (2, 2), (1, 0)]

/-- A database that has not been synced. -/
def unsynced : DB where
  pageSize := 512
  file := List.replicate 1024 0
  wal := some (sampleWAL twoPages)
  l0 := []
  syncedToWALEnd := false
  lastSyncedWALOffset := 0

theorem wellFormed_twoPages : WellFormedWAL (sampleWAL twoPages) := by
  obtain ⟨r, hr, hcheck⟩ := exists_reader (sampleWAL twoPages)
    (fun r => decide (r.pageSize.toNat = 512 ∧ (sampleWAL twoPages).length = 32 + 3 * 536) &&
      (List.range 3).all fun k => (r.frameAt k).all fun (f : WALFrame) =>
        decide (f.commit ≠ 0 → f.pgno ≤ f.commit)) (by decide +kernel)
  obtain ⟨hsizes, hframes⟩ := Bool.and_eq_true_iff.mp hcheck
  obtain ⟨hsize, hlen⟩ := of_decide_eq_true hsizes
  have hps : r.PowerOfTwo := ⟨9, by decide, by decide, hsize⟩
  refine ⟨fun rd hrd => ?_, fun rd hrd k f hf hne => ?_⟩ <;>
    obtain rfl : r = rd := Except.ok.inj (hr.symm.trans hrd)
  · exact hps
  · have hend := slot_succ_le_of_frameAt hps.bounded hf
    rw [(newWALReader_past hr).1, hlen, slot, hps.bounded.frameSize_eq, hsize] at hend
    simp only [walHeaderSize, walFrameHeaderSize] at hend
    have hall := List.all_eq_true.mp hframes k (List.mem_range.mpr (by omega))
    rw [hf] at hall
    exact of_decide_eq_true hall hne

/-- The first sync reads up to the second frame. -/
theorem sync_size_sample : ∃ info db' ltx rd n,
    unsynced.verify = (.ok info, unsynced) ∧
    unsynced.sync (fun _ => 2097153) info = (.ok true, db') ∧ db'.l0 = [ltx] ∧
    ltx.walSize = 2 * 536 ∧ ResumesAt (sampleWAL twoPages) ltx rd n := by
  obtain ⟨-, hok⟩ := sync_size (fun _ => 2097153) unsynced (sampleWAL twoPages)
    ⟨walHeaderSize, 0, 0, true, ""⟩ rfl wellFormed_twoPages
  have hsync : (unsynced.sync (fun _ => 2097153) ⟨walHeaderSize, 0, 0, true, ""⟩).1 = .ok true ∧
      (unsynced.sync (fun _ => 2097153) ⟨walHeaderSize, 0, 0, true, ""⟩).2.l0.map (·.walSize) =
        [2 * 536] := by decide +kernel
  generalize hres : unsynced.sync (fun _ => 2097153) ⟨walHeaderSize, 0, 0, true, ""⟩ = res at hok hsync
  obtain ⟨result, db'⟩ := res
  obtain ⟨hresult, hsize⟩ := hsync
  obtain rfl : result = .ok true := hresult
  obtain ⟨ltx, rd, k, c, fs, hl0, -, -, hresumes⟩ := hok db' rfl
  rw [hl0] at hsize
  have hwalSize : ltx.walSize = 2 * 536 := List.head_eq_of_cons_eq hsize
  exact ⟨_, db', ltx, rd, _, rfl, hres, hl0, hwalSize, (hresumes (by omega)).2⟩

end DB

end Litestream
