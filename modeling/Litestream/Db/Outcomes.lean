import Litestream.Db.Writes

/-!
# What verifying and syncing does

`verifyAndSync_ok` lists what a successful `verifyAndSync` can do on a WAL file that SQLite
wrote, when the last level 0 file was read from the WAL (`LTXFile.Recorded`).  Either it
writes nothing, or it goes on in the same generation, or it reads a restarted WAL from its
first frame on, or it takes a snapshot.
-/

namespace Litestream

open Bytes Overlay

variable {ps : PageSize} {lockPgno : UInt32 → UInt32}

/-- The file records the end of the `e`-th frame, and it has the page of that frame as long
as the WAL has the frame. -/
structure LTXFile.Recorded (ltx : LTXFile) (w : Wal ps) (e : Nat) : Prop where
  walEnd : ltx.walEnd = Wal.offsetOf ps e
  pos : 1 ≤ e
  badHeader : ltx.badHeader = false
  page : ∀ f, w.frames[e - 1]? = some f → f.salt = ltx.salt → (f.pgno, f.page.data) ∈ ltx.pages
  le_cur : ltx.salt = w.header.salt → e ≤ w.cur.length

namespace DB

/-- The WAL ends at the recorded end with a frame of the recorded generation. -/
def Refilled (db : DB) (wal : Bytes) (ltx : LTXFile) : Prop :=
  ltx.walEnd = wal.length ∧ (db.frameEndingAt wal ltx.walEnd).map frameSalt = some ltx.salt

/-- A restarted WAL is read incrementally: it was truncated after the last sync had reached
its end, or it has the recorded length, or it is longer, still has the last recorded frame
and no frame of a generation in between. -/
def ReadsOn (db : DB) (wal : Bytes) (ltx : LTXFile) : Prop :=
  wal.length < ltx.walEnd ∧ db.syncedToWALEnd = true ∨ ltx.walEnd = wal.length ∨
    ltx.walEnd < wal.length ∧ (db.frameEndingAt wal ltx.walEnd).map frameSalt = some ltx.salt ∧
      ∃ hdr, readWALHeader wal = some hdr ∧
        detectFullCheckpoint wal [headerSalt hdr, ltx.salt] = .ok false

instance (db : DB) (wal : Bytes) (ltx : LTXFile) : Decidable (db.Refilled wal ltx) :=
  inferInstanceAs (Decidable (_ ∧ _))

instance (db : DB) (wal : Bytes) (ltx : LTXFile) : Decidable (db.ReadsOn wal ltx) :=
  match h : readWALHeader wal with
  | none =>
      decidable_of_iff (wal.length < ltx.walEnd ∧ db.syncedToWALEnd = true ∨
        ltx.walEnd = wal.length) (by simp [ReadsOn, h])
  | some hdr =>
      decidable_of_iff (wal.length < ltx.walEnd ∧ db.syncedToWALEnd = true ∨
        ltx.walEnd = wal.length ∨
        ltx.walEnd < wal.length ∧ (db.frameEndingAt wal ltx.walEnd).map frameSalt = some ltx.salt ∧
          detectFullCheckpoint wal [headerSalt hdr, ltx.salt] = .ok false) (by simp [ReadsOn, h])

/-- What a successful sync did. -/
inductive Synced (lockPgno : UInt32 → UInt32) (db : DB) (w : Wal ps) (ltx : LTXFile) (db' : DB) :
    Prop
  /-- Nothing new was found. -/
  | idle (l0 : db'.l0 = db.l0) (same : ltx.salt = w.header.salt)
      (walEnd : ltx.walEnd = Wal.offsetOf ps w.cur.length)
  /-- A restarted WAL was taken for the recorded one. -/
  | refilled (l0 : db'.l0 = db.l0) (restarted : ltx.salt ≠ w.header.salt)
      (refilled : db.Refilled w.encode ltx)
  /-- The frames behind the recorded end were copied. -/
  | resumed (f : LTXFile) (k : Nat) (l0 : db'.l0 = db.l0 ++ [f]) (reaches : f.Reaches w)
      (pages : f.Incremental w k) (same : ltx.salt = w.header.salt)
      (walEnd : ltx.walEnd = Wal.offsetOf ps k)
  /-- The frames of a restarted WAL were copied. -/
  | restarted (f : LTXFile) (l0 : db'.l0 = db.l0 ++ [f]) (reaches : f.Reaches w)
      (pages : f.Incremental w 0) (restarted : ltx.salt ≠ w.header.salt)
      (readsOn : db.ReadsOn w.encode ltx)
  | snapshot (f : LTXFile) (l0 : db'.l0 = db.l0 ++ [f]) (reaches : f.Reaches w)
      (pages : f.Snapshot lockPgno db w)

variable {db db' : DB} {w : Wal ps} {ltx : LTXFile} {info : SyncInfo}
  {res : Except VerifyError SyncInfo}

/-! ## Reading what SQLite wrote -/

theorem readWALHeader_encode (w : Wal ps) : readWALHeader w.encode = some (w.header.encode ps) := by
  rw [readWALHeader, w.readAt_walHeader, if_pos (w.header.length_encode ps)]

theorem headerSalt_encode (w : Wal ps) : headerSalt (w.header.encode ps) = w.header.salt :=
  Prod.ext (w.header.be32_encode_salt1 ps) (w.header.be32_encode_salt2 ps)

theorem frameSalt_encode (f : Frame ps) : frameSalt f.encode = f.salt :=
  Prod.ext (be32_putBe32_append ..) (be32_putBe32_append ..)

theorem be32_frame_encode (f : Frame ps) : be32 f.encode = f.pgno := be32_putBe32_append ..

theorem drop_frame_encode (f : Frame ps) : f.encode.drop walFrameHeaderSize = f.page.data := by
  rw [Frame.encode, ← f.length_header, List.drop_left]

theorem readWALFileAt_frame (hps : db.pageSize = ps.size) (w : Wal ps) (i : Nat) :
    readWALFileAt w.encode (Wal.offsetOf ps i) db.frameSize = (w.frames[i]?).map Frame.encode := by
  have hsize : db.frameSize = ps.frameSize := by
    rw [frameSize, hps, PageSize.frameSize, Nat.add_comm]
  have hpos := ps.frameSize_pos
  rw [readWALFileAt, hsize]
  simp only [Int.toNat_natCast]
  cases hf : w.frames[i]? with
  | none =>
      have hnil := w.readAt_eq_nil (a := 0) (n := ps.frameSize) (List.getElem?_eq_none_iff.mp hf)
      rw [Nat.add_zero] at hnil
      rw [hnil, if_neg]
      · rfl
      · rintro ⟨-, h⟩
        rw [List.length_nil] at h
        omega
  | some f =>
      have hread := w.readAt_frame (a := 0) (n := ps.frameSize) hf (by omega)
      rw [Nat.add_zero, readAt_all f.length_encode] at hread
      rw [hread, if_pos ⟨by omega, f.length_encode⟩]
      rfl

theorem walEnd_lt (ltx : LTXFile) : ltx.walEnd < 2 ^ 63 := by
  have := Int.bmod_lt (x := ltx.walOffset + ltx.walSize) (m := 2 ^ 64) (by decide)
  rw [LTXFile.walEnd, int64]
  omega

/-- The frame that ends at the recorded end starts where its predecessor ends. -/
theorem int64_prevWALOffset (hps : db.pageSize = ps.size) {i : Nat}
    (hend : ltx.walEnd = Wal.offsetOf ps (i + 1)) :
    int64 (ltx.walEnd - db.frameSize) = Wal.offsetOf ps i := by
  have hlt := walEnd_lt ltx
  rw [hend, Wal.offsetOf_succ] at hlt
  have hsize : db.frameSize = ps.frameSize := by
    rw [frameSize, hps, PageSize.frameSize, Nat.add_comm]
  rw [hend, Wal.offsetOf_succ, hsize, Nat.cast_add, add_sub_cancel_right]
  exact int64_of_lt (by omega)

theorem frameEndingAt_encode (hps : db.pageSize = ps.size) (w : Wal ps) {i : Nat}
    (hend : ltx.walEnd = Wal.offsetOf ps (i + 1)) :
    (db.frameEndingAt w.encode ltx.walEnd).map frameSalt = (w.frames[i]?).map Frame.salt := by
  have hle : ¬ (Wal.offsetOf ps i : Int) < walHeaderSize := by
    rw [Wal.offsetOf]
    omega
  rw [frameEndingAt, int64_prevWALOffset hps hend, if_neg hle, readWALFileAt_frame hps]
  cases w.frames[i]? with
  | none => rfl
  | some f => exact congrArg some (frameSalt_encode f)

theorem getElem?_zero_salt (w : Wal ps) {f : Frame ps} (hf : w.frames[0]? = some f) :
    f.salt = w.header.salt := by
  cases hcur : w.cur with
  | nil => exact absurd hcur w.cur_ne
  | cons g fs =>
      rw [Wal.frames, hcur] at hf
      cases hf
      exact w.valid.salt_eq _ (by rw [hcur]; exact List.mem_cons_self)

/-- The last recorded frame is found when it has the recorded salts. -/
theorem lastPageMatch_encode (hps : db.pageSize = ps.size) {i : Nat} {f : Frame ps}
    (hrec : ltx.Recorded w (i + 1)) (hi : i ≠ 0) (hf : w.frames[i]? = some f) :
    db.lastPageMatch w.encode ltx (Wal.offsetOf ps i) = .ok (decide (f.salt = ltx.salt)) := by
  have hgt : ¬ (Wal.offsetOf ps i : Int) ≤ walHeaderSize := by
    obtain ⟨j, rfl⟩ : ∃ j, i = j + 1 := ⟨i - 1, by omega⟩
    have := ps.frameSize_pos
    rw [Wal.offsetOf_succ, Wal.offsetOf]
    omega
  rw [lastPageMatch, if_neg hgt, readWALFileAt_frame hps, hf]
  simp only [Option.map_some, frameSalt_encode, be32_frame_encode, drop_frame_encode]
  by_cases hsalt : f.salt = ltx.salt
  · rw [if_neg (not_not.mpr hsalt), if_pos (hrec.page f hf hsalt), decide_eq_true hsalt]
  · rw [if_pos hsalt, decide_eq_false hsalt]

/-- What the comparison of the headers says. -/
theorem verifyHeader_encode (hps : db.pageSize = ps.size) {i : Nat} {f : Frame ps}
    (hrec : ltx.Recorded w (i + 1)) (hf : w.frames[i]? = some f) {info' : SyncInfo}
    (h : db.verifyHeader w.encode ltx ⟨ltx.walEnd, ltx.walSalt1, ltx.walSalt2, true, ""⟩ =
      .ok info') :
    (info' = ⟨ltx.walEnd, ltx.walSalt1, ltx.walSalt2, false, ""⟩ ∧ f.salt = ltx.salt ∧
        ltx.salt = w.header.salt) ∨
      (info'.offset = ltx.walEnd ∧ (info'.salt1, info'.salt2) = ltx.salt ∧
        info'.snapshotting = true ∧ f.salt ≠ ltx.salt) ∨
      (info'.offset = walHeaderSize ∧ (info'.snapshotting = true ∨
        info'.snapshotting = false ∧ f.salt = ltx.salt ∧ ltx.salt ≠ w.header.salt ∧
          detectFullCheckpoint w.encode [w.header.salt, ltx.salt] = .ok false)) := by
  have hprev := int64_prevWALOffset hps hrec.walEnd
  have hne : ltx.walEnd ≠ walHeaderSize := by
    rw [hrec.walEnd]
    exact offsetOf_succ_ne i
  rw [verifyHeader, readWALHeader_encode] at h
  simp only [headerSalt_encode, hprev] at h
  by_cases hi : i = 0
  · subst hi
    have hsalt := getElem?_zero_salt w hf
    rw [if_pos (Or.inr (by rw [Wal.offsetOf]; simp))] at h
    split at h
    · next heq =>
        cases h
        exact Or.inl ⟨rfl, hsalt.trans heq, heq.symm⟩
    · next hneq =>
        cases h
        exact Or.inr (Or.inl ⟨rfl, rfl, rfl, fun heq => hneq (hsalt.symm.trans heq)⟩)
  · have hgt : ¬ (Wal.offsetOf ps i : Int) ≤ walHeaderSize := by
      obtain ⟨j, rfl⟩ : ∃ j, i = j + 1 := ⟨i - 1, by omega⟩
      have := ps.frameSize_pos
      rw [Wal.offsetOf_succ, Wal.offsetOf]
      omega
    rw [if_neg (by rintro (h | h) <;> omega), if_neg (by omega),
      lastPageMatch_encode hps hrec hi hf] at h
    by_cases hsalt : f.salt = ltx.salt
    · rw [decide_eq_true hsalt] at h
      simp only at h
      split at h
      · next hrestarted =>
          cases hdetect : detectFullCheckpoint w.encode [w.header.salt, ltx.salt] with
          | error err =>
              rw [hdetect] at h
              cases h
          | ok detected =>
              rw [hdetect] at h
              cases detected with
              | true =>
                  cases h
                  exact Or.inr (Or.inr ⟨rfl, Or.inl rfl⟩)
              | false =>
                  cases h
                  exact Or.inr (Or.inr ⟨rfl, Or.inr ⟨rfl, hsalt, Ne.symm hrestarted, rfl⟩⟩)
      · next hsame =>
          cases h
          exact Or.inl ⟨rfl, hsalt, (not_not.mp hsame).symm⟩
    · rw [decide_eq_false hsalt] at h
      cases h
      exact Or.inr (Or.inl ⟨rfl, rfl, rfl, hsalt⟩)

/-! ## The outcomes -/

theorem verifyAndSync_eq_ok {b : Bool} (h : db.verifyAndSync lockPgno = (.ok b, db')) :
    ∃ info db₁, db.verify = (.ok info, db₁) ∧ db₁.sync lockPgno info = (.ok b, db') := by
  rw [verifyAndSync] at h
  cases hverify : db.verify with
  | mk res db₁ =>
      rw [hverify] at h
      cases res with
      | error err => cases h
      | ok info =>
          simp only at h
          refine ⟨info, db₁, rfl, ?_⟩
          cases hsync : db₁.sync lockPgno info with
          | mk res db₂ =>
              rw [hsync] at h
              cases res with
              | error err => cases h
              | ok synced =>
                  cases h
                  rfl

/-- Verifying changes at most whether the last sync reached the end of the WAL. -/
theorem verify_db (h : db.verify = (res, db')) : ∃ b, db' = { db with syncedToWALEnd := b } := by
  simp only [verify] at h
  repeat' split at h
  all_goals
    cases h
    first
    | exact ⟨false, rfl⟩
    | exact ⟨db.syncedToWALEnd, rfl⟩

theorem sync_error {err : SyncError} (h : db.sync lockPgno info = (.error err, db')) :
    db' = db := by
  simp only [sync, writeLTX] at h
  repeat' split at h
  all_goals first
    | cases h; rfl
    | cases h

/-- A sync that fails writes nothing. -/
theorem verifyAndSync_error {err : VerifyAndSyncError}
    (h : db.verifyAndSync lockPgno = (.error err, db')) : db'.l0 = db.l0 := by
  rw [verifyAndSync] at h
  cases hverify : db.verify with
  | mk res db₁ =>
      obtain ⟨b, rfl⟩ := verify_db hverify
      rw [hverify] at h
      cases res with
      | error err =>
          cases h
          rfl
      | ok info =>
          simp only at h
          cases hsync : DB.sync lockPgno { db with syncedToWALEnd := b } info with
          | mk res db₂ =>
              rw [hsync] at h
              cases res with
              | error err =>
                  cases h
                  rw [sync_error hsync]
              | ok synced => cases h

/-- A sync writes at most one file, with the next TXID. -/
theorem sync_l0 {res : Except SyncError Bool} (h : db.sync lockPgno info = (res, db')) :
    db'.l0 = db.l0 ∨ ∃ f, db'.l0 = db.l0 ++ [f] ∧ f.maxTXID = db.txID + 1 := by
  simp only [sync, writeLTX] at h
  repeat' split at h
  all_goals
    cases h
    first
    | exact Or.inl rfl
    | exact Or.inr ⟨_, rfl, rfl⟩

theorem verifyAndSync_l0 {res : Except VerifyAndSyncError Bool}
    (h : db.verifyAndSync lockPgno = (res, db')) :
    db'.l0 = db.l0 ∨ ∃ f, db'.l0 = db.l0 ++ [f] ∧ f.maxTXID = db.txID + 1 := by
  rw [verifyAndSync] at h
  cases hverify : db.verify with
  | mk res db₁ =>
      obtain ⟨b, rfl⟩ := verify_db hverify
      rw [hverify] at h
      cases res with
      | error err =>
          cases h
          exact Or.inl rfl
      | ok info =>
          simp only at h
          cases hsync : DB.sync lockPgno { db with syncedToWALEnd := b } info with
          | mk res db₂ =>
              have hl0 := sync_l0 hsync
              rw [hsync] at h
              cases res with
              | error err =>
                  cases h
                  exact hl0
              | ok synced =>
                  cases h
                  exact hl0

/-- Nothing can be synced from a WAL file without a header. -/
theorem verifyAndSync_empty (hwal : db.wal = some []) {b : Bool} :
    db.verifyAndSync lockPgno ≠ (.ok b, db') := by
  intro h
  obtain ⟨info, db₁, hverify, hsync⟩ := verifyAndSync_eq_ok h
  obtain ⟨b', rfl⟩ := verify_db hverify
  have hheader : WALReader.newWALReader [] = .error .eof := rfl
  have hoffset : WALReader.newWALReaderWithOffset [] info.offset info.salt1 info.salt2 =
      .error (.offsetTooSmall info.offset) ∨
      WALReader.newWALReaderWithOffset [] info.offset info.salt1 info.salt2 =
        .error (.readHeader .eof) := by
    rw [WALReader.newWALReaderWithOffset]
    split
    · exact Or.inl rfl
    · exact Or.inr rfl
  have hopen : ∃ err, openWALReader [] info = .error err := by
    rw [openWALReader, hheader]
    split
    · exact ⟨_, rfl⟩
    · rcases hoffset with hoffset | hoffset
      · exact ⟨_, by rw [hoffset]⟩
      · exact ⟨_, by rw [hoffset]⟩
  obtain ⟨err, hopen⟩ := hopen
  rw [sync, show ({ db with syncedToWALEnd := b' } : DB).wal = some [] from hwal] at hsync
  simp only [hopen] at hsync
  cases hsync

section Outcomes

variable (hps : db.pageSize = ps.size) (hwal : db.wal = some w.encode)
  (hfits : w.encode.length < 2 ^ 63) (hlive : ∀ f ∈ w.cur, LivePage lockPgno ps f.pgno)

include hps hwal hfits hlive

/-- Reading from the WAL header on. -/
theorem sync_header {info' : SyncInfo}
    (hopen : openWALReader w.encode info = .ok (w.readerAt 0, info'))
    (hoff : info'.offset = walHeaderSize) {b : Bool}
    (h : db.sync lockPgno info = (.ok b, db')) :
    ∃ f, db'.l0 = db.l0 ++ [f] ∧ f.Reaches w ∧
      (info'.snapshotting = false ∧ f.Incremental w 0 ∨
        info'.snapshotting = true ∧ f.Snapshot lockPgno db w) := by
  have hpos : 0 < w.cur.length := List.length_pos_iff.mpr w.cur_ne
  exact sync_readerAt hps hwal hfits hlive hopen hpos (by rw [hoff, Wal.offsetOf]; simp)
    (fun _ => rfl) h

/-- The first sync takes a snapshot. -/
theorem verifyAndSync_first (hl0 : db.l0 = []) {b : Bool}
    (h : db.verifyAndSync lockPgno = (.ok b, db')) :
    ∃ f, db'.l0 = db.l0 ++ [f] ∧ f.Reaches w ∧ f.Snapshot lockPgno db w := by
  obtain ⟨info, db₁, hverify, hsync⟩ := verifyAndSync_eq_ok h
  rw [verify, hl0] at hverify
  cases hverify
  obtain ⟨f, hl0', hreaches, ⟨hsnap, -⟩ | ⟨-, hpages⟩⟩ := sync_header hps hwal hfits hlive
    (openWALReader_header rfl) rfl hsync
  · cases hsnap
  · exact ⟨f, hl0', hreaches, hpages⟩

/-- A sync whose previous frame does not match reads the whole generation. -/
theorem sync_mismatch {i : Nat} (hoff : info.offset = Wal.offsetOf ps (i + 1))
    (hframe : ∀ f, w.frames[i]? = some f → f.salt ≠ (info.salt1, info.salt2)) {b : Bool}
    (h : db.sync lockPgno info = (.ok b, db')) :
    ∃ f, db'.l0 = db.l0 ++ [f] ∧ f.Reaches w ∧
      (info.snapshotting = false ∧ f.Incremental w 0 ∨
        info.snapshotting = true ∧ f.Snapshot lockPgno db w) := by
  have hsync := sync_header hps hwal hfits hlive (openWALReader_mismatch hoff hframe) rfl h
  exact hsync

/-- Going on in the same generation. -/
theorem sync_resumed {i : Nat} {f : Frame ps} (hoff : info.offset = Wal.offsetOf ps (i + 1))
    (hf : w.frames[i]? = some f) (hsalt : f.salt = (info.salt1, info.salt2))
    (hcur : f.salt = w.header.salt) (hsnap : info.snapshotting = false) {b : Bool}
    (h : db.sync lockPgno info = (.ok b, db')) :
    i + 1 = w.cur.length ∧ db' = db ∨
      ∃ f, db'.l0 = db.l0 ++ [f] ∧ f.Reaches w ∧ f.Incremental w (i + 1) := by
  obtain ⟨hi, hreader⟩ := reader_eq_readerAt hf hcur
  have hopen := openWALReader_match hoff hf hsalt
  rw [hreader] at hopen
  rcases Nat.lt_or_eq_of_le hi with hlt | heq
  · obtain ⟨f, hl0, hreaches, ⟨-, hpages⟩ | ⟨hs, -⟩⟩ := sync_readerAt hps hwal hfits hlive hopen hlt
      hoff (fun hs => by rw [hsnap] at hs; cases hs) h
    · exact Or.inr ⟨f, hl0, hreaches, hpages⟩
    · rw [hsnap] at hs
      cases hs
  · have heof := w.readFrame_readerAt_end
    rw [← heq, ← ps.toNat_toUInt32] at heof
    exact Or.inl ⟨heq, sync_of_eof hwal hopen heof hsnap h⟩

/-- Every successful sync is one of these. -/
theorem verifyAndSync_ok {e : Nat} (hltx : db.l0.getLast? = some ltx) (hrec : ltx.Recorded w e)
    {b : Bool} (h : db.verifyAndSync lockPgno = (.ok b, db')) :
    Synced lockPgno db w ltx db' := by
  obtain ⟨i, rfl⟩ : ∃ i, e = i + 1 := ⟨e - 1, by have := hrec.pos; omega⟩
  obtain ⟨info, db₁, hverify, hsync⟩ := verifyAndSync_eq_ok h
  have hend := hrec.walEnd
  have hsalts : (ltx.walSalt1, ltx.walSalt2) = ltx.salt := rfl
  rcases lt_trichotomy ltx.walEnd w.encode.length with hlt | heq | hgt
  · -- the WAL goes past the recorded end
    rw [verify_past_end hltx hwal hrec.badHeader hlt, Prod.mk.injEq] at hverify
    obtain ⟨hheader, rfl⟩ := hverify
    have hi : i < w.frames.length := by
      rw [hend, w.length_encode, Nat.cast_lt, ← not_le, Wal.offsetOf_le] at hlt
      omega
    have hf := List.getElem?_eq_getElem hi
    rcases verifyHeader_encode hps hrec hf hheader with ⟨rfl, hsalt, hsame⟩ |
      ⟨hoff, hs, hsnap, hsalt⟩ | ⟨hoff, hsnap | ⟨hsnap, hsalt, hrestarted, hdetect⟩⟩
    · rcases sync_resumed hps hwal hfits hlive hend hf hsalt (hsalt.trans hsame) rfl hsync with
        ⟨hcur, rfl⟩ | ⟨f, hl0, hreaches, hpages⟩
      · exact .idle rfl hsame (hcur ▸ hend)
      · exact .resumed f (i + 1) hl0 hreaches hpages hsame hend
    · obtain ⟨f, hl0, hreaches, ⟨hs', -⟩ | ⟨-, hpages⟩⟩ := sync_mismatch hps hwal hfits hlive
        (hoff.trans hend) (fun g hg => by
          rw [hf] at hg
          cases hg
          rwa [hs]) hsync
      · rw [hsnap] at hs'
        cases hs'
      · exact .snapshot f hl0 hreaches hpages
    · obtain ⟨f, hl0, hreaches, ⟨hs', -⟩ | ⟨-, hpages⟩⟩ := sync_header hps hwal hfits hlive
        (openWALReader_header hoff) hoff hsync
      · rw [hsnap] at hs'
        cases hs'
      · exact .snapshot f hl0 hreaches hpages
    · obtain ⟨f, hl0, hreaches, ⟨-, hpages⟩ | ⟨hs', -⟩⟩ := sync_header hps hwal hfits hlive
        (openWALReader_header hoff) hoff hsync
      · refine .restarted f hl0 hreaches hpages hrestarted (Or.inr (Or.inr ⟨hlt, ?_, ?_⟩))
        · rw [frameEndingAt_encode hps w hend, hf, Option.map_some, hsalt]
        · exact ⟨_, readWALHeader_encode w, by rw [headerSalt_encode]; exact hdetect⟩
      · rw [hsnap] at hs'
        cases hs'
  · -- the WAL ends at the recorded end
    rw [verify_at_end hltx hwal hrec.badHeader heq, Prod.mk.injEq] at hverify
    obtain ⟨hinfo, rfl⟩ := hverify
    cases hinfo
    have hn : i + 1 = w.frames.length := by
      rw [hend, w.length_encode, Nat.cast_inj, Wal.offsetOf_inj] at heq
      exact heq
    have hf := List.getElem?_eq_getElem (show i < w.frames.length by omega)
    by_cases hsalt : w.frames[i].salt = ltx.salt
    · by_cases hsame : ltx.salt = w.header.salt
      · rcases sync_resumed hps hwal hfits hlive hend hf hsalt (hsalt.trans hsame) rfl hsync with
          ⟨hcur, rfl⟩ | ⟨f, hl0, hreaches, hpages⟩
        · exact .idle rfl hsame (hcur ▸ hend)
        · exact .resumed f (i + 1) hl0 hreaches hpages hsame hend
      · have hopen : openWALReader w.encode ⟨ltx.walEnd, ltx.walSalt1, ltx.walSalt2, false, ""⟩ = _ :=
          openWALReader_match hend hf hsalt
        have heof : (w.reader w.frames[i].salt w.frames[i].chksum (i + 1)).readFrame ps.size true =
            (.error .eof, w.reader w.frames[i].salt w.frames[i].chksum (i + 1)) := by
          rw [w.readFrame_reader, List.getElem?_eq_none (by omega)]
        rw [← ps.toNat_toUInt32] at heof
        obtain rfl := sync_of_eof hwal hopen heof rfl hsync
        refine .refilled rfl hsame ⟨heq, ?_⟩
        rw [frameEndingAt_encode hps w hend, hf, Option.map_some, hsalt]
    · have hrestarted : ltx.salt ≠ w.header.salt := by
        intro hsame
        have hcur : i < w.cur.length := by
          have := hrec.le_cur hsame
          omega
        have hmem : w.cur[i]? = some w.frames[i] := by
          rw [← hf, Wal.frames, List.getElem?_append_left hcur]
        exact hsalt ((w.valid.salt_eq _ (List.mem_of_getElem? hmem)).trans hsame.symm)
      obtain ⟨f, hl0, hreaches, ⟨-, hpages⟩ | ⟨hs, -⟩⟩ := sync_mismatch hps hwal hfits hlive
        hend (fun g hg => by
          rw [hf] at hg
          cases hg
          exact hsalt) hsync
      · exact .restarted f hl0 hreaches hpages hrestarted (Or.inr (Or.inl heq))
      · cases hs
  · -- the WAL was truncated
    have hn : w.frames.length ≤ i := by
      have hlt := hgt
      rw [hend, w.length_encode, Nat.cast_lt, ← not_le, Wal.offsetOf_le] at hlt
      omega
    have hrestarted : ltx.salt ≠ w.header.salt := by
      intro hsame
      have hle := hrec.le_cur hsame
      rw [Wal.frames, List.length_append] at hn
      omega
    rw [verify_before_end hltx hwal hrec.badHeader hgt] at hverify
    cases hflag : db.syncedToWALEnd with
    | true =>
        rw [if_pos hflag, readWALHeader_encode] at hverify
        cases hverify
        have hps' : ({ db with syncedToWALEnd := false } : DB).pageSize = ps.size := hps
        obtain ⟨f, hl0, hreaches, ⟨-, hpages⟩ | ⟨hs, -⟩⟩ := sync_header hps' hwal hfits hlive
          (openWALReader_header rfl) rfl hsync
        · exact .restarted f hl0 hreaches hpages hrestarted (Or.inl ⟨hgt, hflag⟩)
        · cases hs
    | false =>
        rw [hflag, if_neg Bool.false_ne_true] at hverify
        cases hverify
        obtain ⟨f, hl0, hreaches, ⟨hs, -⟩ | ⟨-, hpages⟩⟩ := sync_mismatch hps hwal hfits hlive
          hend (fun g hg => by
            rw [List.getElem?_eq_none hn] at hg
            cases hg) hsync
        · cases hs
        · exact .snapshot f hl0 hreaches hpages

end Outcomes

end DB

end Litestream
