import Litestream.Db.Verify
import Litestream.Wal.Image

/-!
# The WAL identity check

When `verify` goes on from the recorded end of the last LTX file, the WAL should be of the
generation that the file was read from.  `verify_identified_iff` says exactly when it is.
-/

namespace Litestream

open Bytes

namespace DB

/-! ## What is to be shown -/

/-- The frame of a WAL file that ends at an offset. -/
def frameEndingAt (db : DB) (wal : Bytes) (offset : Int) : Option Bytes :=
  let start := int64 (offset - db.frameSize)
  if start < walHeaderSize then none else readWALFileAt wal start db.frameSize

/-- The header of the WAL and the frame that ends at an offset have the recorded salts. -/
structure SameGeneration (db : DB) (wal : Bytes) (ltx : LTXFile) (offset : Int) : Prop where
  header : (readWALHeader wal).map headerSalt = some ltx.salt
  frame : (db.frameEndingAt wal offset).map frameSalt = some ltx.salt

/-- When `verify` goes on past the WAL header without a snapshot, it does so in the
generation that the last file was read from. -/
def Identified (db : DB) : Prop :=
  ∀ info db', db.verify = (.ok info, db') → info.snapshotting = false →
    info.offset ≠ walHeaderSize →
      ∃ ltx wal, db.l0.getLast? = some ltx ∧ db.wal = some wal ∧
        db.SameGeneration wal ltx info.offset

/-- The WAL was not restarted and filled to the recorded end again, and it does not have
the recorded salts in its header with those of another generation in its first frame. -/
structure NotRecycled (db : DB) (wal : Bytes) (ltx : LTXFile) : Prop where
  full : ltx.walEnd = wal.length → ltx.walEnd ≠ walHeaderSize →
    db.SameGeneration wal ltx ltx.walEnd
  first : ltx.walEnd < wal.length → ltx.walEnd ≠ walHeaderSize →
    int64 (ltx.walEnd - db.frameSize) = walHeaderSize →
      (readWALHeader wal).map headerSalt = some ltx.salt →
        (db.frameEndingAt wal ltx.walEnd).map frameSalt = some ltx.salt

/-! ## The check -/

variable {db : DB} {wal : Bytes} {ltx : LTXFile} {info info' : SyncInfo}

theorem lastPageMatch_frame {prevWALOffset : Int}
    (h : db.lastPageMatch wal ltx prevWALOffset = .ok true) :
    (readWALFileAt wal prevWALOffset db.frameSize).map frameSalt = some ltx.salt := by
  rw [lastPageMatch] at h
  split at h
  · cases h
  · cases hframe : readWALFileAt wal prevWALOffset db.frameSize with
    | none =>
        rw [hframe] at h
        cases h
    | some frame =>
        rw [hframe] at h
        simp only at h
        split at h
        · cases h
        · next hsalt => rw [Option.map_some, not_not.mp hsalt]

/-- What the comparison of the headers has checked when it goes on past the header. -/
theorem verifyHeader_checked (h : db.verifyHeader wal ltx info = .ok info')
    (hsnap : info'.snapshotting = false) (hinfo : info.snapshotting = true)
    (hoff : info'.offset ≠ walHeaderSize) :
    info'.offset = info.offset ∧ (readWALHeader wal).map headerSalt = some ltx.salt ∧
      (int64 (info.offset - db.frameSize) = walHeaderSize ∨
        (db.frameEndingAt wal info.offset).map frameSalt = some ltx.salt) := by
  rw [verifyHeader] at h
  cases hhdr : readWALHeader wal with
  | none =>
      rw [hhdr] at h
      cases h
  | some hdr0 =>
      rw [hhdr] at h
      simp only at h
      rw [Option.map_some, Option.some.injEq]
      split at h
      · next hfirst =>
          split at h
          · next hsalt =>
              cases h
              exact ⟨rfl, hsalt, Or.inl (hfirst.resolve_left hoff)⟩
          · cases h
            rw [hinfo] at hsnap
            cases hsnap
      · split at h
        · cases h
        · next hprev =>
            cases hmatch : db.lastPageMatch wal ltx (int64 (info.offset - db.frameSize)) with
            | error err =>
                rw [hmatch] at h
                cases h
            | ok found =>
                rw [hmatch] at h
                cases found with
                | false =>
                    cases h
                    rw [hinfo] at hsnap
                    cases hsnap
                | true =>
                    simp only at h
                    split at h
                    · -- a restarted WAL is read from its header on
                      exfalso
                      split at h <;> cases h <;> exact hoff rfl
                    · next hsalt =>
                        cases h
                        refine ⟨rfl, not_not.mp hsalt, Or.inr ?_⟩
                        rw [frameEndingAt, if_neg hprev]
                        exact lastPageMatch_frame hmatch

/-- Going on from the end of the first frame takes only the salts of the header. -/
theorem verifyHeader_first (info : SyncInfo)
    (hhdr : (readWALHeader wal).map headerSalt = some ltx.salt)
    (hfirst : int64 (info.offset - db.frameSize) = walHeaderSize) :
    db.verifyHeader wal ltx info = .ok { info with snapshotting := false } := by
  cases h : readWALHeader wal with
  | none =>
      rw [h] at hhdr
      cases hhdr
  | some hdr0 =>
      rw [h, Option.map_some, Option.some.injEq] at hhdr
      rw [verifyHeader, h]
      simp only
      rw [if_pos (Or.inr hfirst), if_pos hhdr]

/-- A WAL that ends at the recorded end passes without a look at its header. -/
theorem verify_at_end (hltx : db.l0.getLast? = some ltx) (hwal : db.wal = some wal)
    (hheader : ltx.badHeader = false) (hend : ltx.walEnd = wal.length) :
    db.verify = (.ok ⟨ltx.walEnd, ltx.walSalt1, ltx.walSalt2, false, ""⟩, db) := by
  rw [verify, hltx]
  simp only [hheader, Bool.false_eq_true, if_false, hwal]
  rw [if_neg (by omega), if_pos hend]

theorem verify_past_end (hltx : db.l0.getLast? = some ltx) (hwal : db.wal = some wal)
    (hheader : ltx.badHeader = false) (hend : ltx.walEnd < wal.length) :
    db.verify =
      (db.verifyHeader wal ltx ⟨ltx.walEnd, ltx.walSalt1, ltx.walSalt2, true, ""⟩, db) := by
  rw [verify, hltx]
  simp only [hheader, Bool.false_eq_true, if_false, hwal]
  rw [if_neg (by omega), if_neg (by omega)]

theorem verify_before_end (hltx : db.l0.getLast? = some ltx) (hwal : db.wal = some wal)
    (hheader : ltx.badHeader = false) (hend : wal.length < ltx.walEnd) :
    db.verify =
      if db.syncedToWALEnd then
        match readWALHeader wal with
        | none => (.error .readWALHeaderAfterTruncation, { db with syncedToWALEnd := false })
        | some hdr =>
            (.ok ⟨walHeaderSize, (headerSalt hdr).1, (headerSalt hdr).2, false, ""⟩,
              { db with syncedToWALEnd := false })
      else
        (.ok ⟨ltx.walEnd, ltx.walSalt1, ltx.walSalt2, true, "wal truncated by another process"⟩,
          db) := by
  rw [verify, hltx]
  simp only [hheader, Bool.false_eq_true, if_false, hwal]
  exact if_pos hend

/-- `verify` goes on past the WAL header only in the generation of the last LTX file if and
only if the WAL was not recycled. -/
theorem verify_identified_iff (db : DB) :
    db.Identified ↔ ∀ ltx wal, db.l0.getLast? = some ltx → db.wal = some wal →
      ltx.badHeader = false → db.NotRecycled wal ltx := by
  constructor
  · intro h ltx wal hltx hwal hheader
    have hsame : ∀ offset, db.verify = (.ok ⟨offset, ltx.walSalt1, ltx.walSalt2, false, ""⟩, db) →
        offset ≠ walHeaderSize → db.SameGeneration wal ltx offset := by
      intro offset hverify hoff
      obtain ⟨ltx', wal', hltx', hwal', hgen⟩ := h _ _ hverify rfl hoff
      rw [hltx, Option.some.injEq] at hltx'
      rw [hwal, Option.some.injEq] at hwal'
      rwa [hltx', hwal']
    constructor
    · intro hend hoff
      exact hsame _ (verify_at_end hltx hwal hheader hend) hoff
    · intro hend hoff hfirst hsalt
      have hverify := verify_past_end hltx hwal hheader hend
      rw [verifyHeader_first ⟨ltx.walEnd, ltx.walSalt1, ltx.walSalt2, true, ""⟩
        hsalt hfirst] at hverify
      exact (hsame _ hverify hoff).frame
  · intro h info db' hverify hsnap hoff
    cases hltx : db.l0.getLast? with
    | none =>
        rw [verify, hltx] at hverify
        cases hverify
        cases hsnap
    | some ltx =>
        rw [verify, hltx] at hverify
        simp only at hverify
        cases hheader : ltx.badHeader with
        | true =>
            rw [hheader] at hverify
            cases hverify
        | false =>
            cases hwal : db.wal with
            | none =>
                rw [hheader, hwal] at hverify
                cases hverify
            | some wal =>
                have hrec := h ltx wal hltx hwal hheader
                refine ⟨ltx, wal, rfl, rfl, ?_⟩
                simp only [hheader, hwal, Bool.false_eq_true, if_false] at hverify
                split at hverify
                · -- a truncated WAL is read from its header on or copied in full
                  exfalso
                  split at hverify
                  · cases hhdr : readWALHeader wal with
                    | none =>
                        rw [hhdr] at hverify
                        cases hverify
                    | some hdr =>
                        rw [hhdr] at hverify
                        cases hverify
                        exact hoff rfl
                  · cases hverify
                    cases hsnap
                · next hle =>
                    split at hverify
                    · next hend =>
                        cases hverify
                        exact hrec.full hend hoff
                    · next hend =>
                        have hchecked := (Prod.mk.injEq .. ▸ hverify).1
                        obtain ⟨hoffset, hhdr, hframe⟩ := verifyHeader_checked hchecked hsnap rfl hoff
                        rw [hoffset] at hoff ⊢
                        refine ⟨hhdr, ?_⟩
                        rcases hframe with hfirst | hframe
                        · exact hrec.first (by omega) hoff hfirst hhdr
                        · exact hframe

/-- The header of a restarted WAL. -/
def recycledHeader : WalHeader := ⟨.littleEndian, 1, (3, 4)⟩

/-- The frame of a restarted WAL. -/
def recycledFrame : Frame PageSize.min :=
  ⟨1, 1, (3, 4), (0, 0), ⟨List.replicate 512 2, length_fill 2⟩⟩

/-- A last file that was read from one frame, and a WAL of one frame that was restarted
since. -/
def recycled : DB where
  pageSize := 512
  file := List.replicate 512 1
  wal := some (recycledHeader.encode PageSize.min ++ recycledFrame.encode)
  l0 := [⟨512, 1, 1, 1, 32, 536, 1, 2, [(1, List.replicate 512 1)], false, false⟩]
  syncedToWALEnd := true
  lastSyncedWALOffset := 568

/-- A restarted WAL of the recorded length passes as already synced. -/
theorem verify_recycled : ¬ ∀ db : DB, db.Identified := by
  intro h
  have hlen : (recycledHeader.encode PageSize.min ++ recycledFrame.encode).length = 568 := by
    rw [List.length_append, Frame.length_encode]
    rfl
  have hend : int64 (32 + 536) = 568 := by decide
  have hverify := verify_at_end (show recycled.l0.getLast? = some _ from rfl) rfl rfl
    (hend.trans (congrArg Nat.cast hlen).symm)
  obtain ⟨ltx, wal, hltx, hwal, hgen⟩ := h recycled _ _ hverify rfl (by decide)
  cases hltx
  cases hwal
  have hhdr := hgen.header
  rw [readWALHeader, readAt_append_left (by simp), readAt_all (by simp)] at hhdr
  have hsalt := Option.some.inj hhdr
  rw [headerSalt, WalHeader.be32_encode_salt1, WalHeader.be32_encode_salt2] at hsalt
  cases hsalt

end DB

end Litestream
