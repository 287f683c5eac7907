import Litestream.Db.OnDisk

/-!
# No transaction is lost

The level 0 files are a copy of the database, `replay`.  In a run whose syncs meet
`State.SyncOK`, every sync that succeeds brings the copy up to date
(`sync_agrees_of_run`).  A sync fails to do so when it takes a restarted WAL for one that it
has read, or goes on from the start of a restarted WAL although frames of an earlier
generation were missed.

The invariant has a part that SQLite keeps (`State.Sqlite`), and one about the last level 0
file (`State.Last`): it was read from the current generation of the WAL, or from an earlier
one, or the WAL is empty.
-/

namespace Litestream

open Bytes Overlay Paged Run

variable {ps : PageSize} {lockPgno : UInt32 → UInt32}

/-! ## The copy -/

/-- The database that level 0 files describe. -/
def replay (fs : List LTXFile) : Store UInt32 Bytes :=
  fs.foldl (fun a f => a.patch f.commit f.pages []) ⟨0, fun _ => []⟩

theorem replay_append (fs : List LTXFile) (f : LTXFile) :
    replay (fs ++ [f]) = (replay fs).patch f.commit f.pages [] := by
  rw [replay, List.foldl_append]
  rfl

/-! ## When a sync is right -/

/-- If the WAL was restarted since the last level 0 file, the sync notices it, and it takes a
snapshot if frames were missed. -/
def State.SyncOK (s : State ps) : Prop :=
  ∀ w ltx, s.wal = some w → s.l0.getLast? = some ltx → ltx.salt ≠ w.header.salt →
    ¬ s.db.Refilled w.encode ltx ∧ (s.missed = true → ¬ s.db.ReadsOn w.encode ltx)

instance (s : State ps) : Decidable s.SyncOK :=
  match hw : s.wal, hltx : s.l0.getLast? with
  | none, _ => .isTrue (by simp [State.SyncOK, hw])
  | some _, none => .isTrue (by simp [State.SyncOK, hltx])
  | some w, some ltx =>
      decidable_of_iff (ltx.salt ≠ w.header.salt → ¬ s.db.Refilled w.encode ltx ∧
        (s.missed = true → ¬ s.db.ReadsOn w.encode ltx)) (by simp [State.SyncOK, hw, hltx])

/-- A step that syncs meets the condition. -/
def StepOK (s : State ps) (a : Action ps) : Prop := a.Syncs → s.SyncOK

instance (a : Action ps) : Decidable a.Syncs :=
  match a with
  | .sync | .syncBefore | .syncAfter => .isTrue trivial
  | .commit .. | .ensureWALExists .. | .readWALHeader | .releaseReadLock | .walCheckpoint ..
  | .acquireReadLock _ | .writeSeq .. | .compareHeader | .lock | .rollback | .fail =>
      .isFalse id

instance (s : State ps) (a : Action ps) : Decidable (StepOK s a) :=
  inferInstanceAs (Decidable (_ → _))

namespace State

variable {s m : State ps} {c : Commit ps}

/-! ## The last level 0 file -/

/-- Where the last level 0 file was read. -/
inductive Last (lockPgno : UInt32 → UInt32) (s : State ps) (ltx : LTXFile) : Prop
  /-- From the current generation of the WAL.  The copy has the transactions `us` of it. -/
  | same (w : Wal ps) (base : Store UInt32 Bytes) (us vs : List (Tx UInt32 Bytes)) (e : Nat)
      (wal : s.wal = some w) (gen : Generation lockPgno s.file w base (us ++ vs))
      (salt : ltx.salt = w.header.salt) (recorded : ltx.Recorded w e)
      (writes : allWrites us = Wal.writes (w.cur.take e))
      (agree : Store.Agree (LivePage lockPgno ps) (replay s.l0) (base.applyAll us))
      (missed : s.missed = false)
  /-- From an earlier generation. -/
  | earlier (w : Wal ps) (base : Store UInt32 Bytes) (ts : List (Tx UInt32 Bytes)) (e : Nat)
      (wal : s.wal = some w) (gen : Generation lockPgno s.file w base ts)
      (salt : ltx.salt ≠ w.header.salt) (mem : ltx.salt ∈ s.salts) (recorded : ltx.Recorded w e)
      (agree : s.missed = false → Store.Agree (LivePage lockPgno ps) (replay s.l0) base)
  /-- From an earlier generation, and the WAL is empty. -/
  | empty (e : Nat) (wal : s.wal = none) (mem : ltx.salt ∈ s.salts)
      (walEnd : ltx.walEnd = Wal.offsetOf ps e) (pos : 1 ≤ e) (badHeader : ltx.badHeader = false)
      (agree : s.missed = false →
        Store.Agree (LivePage lockPgno ps) (replay s.l0) (Litestream.committed s.file none))

namespace Last

variable {ltx : LTXFile}

theorem mem (hs : s.Sqlite lockPgno) (h : s.Last lockPgno ltx) : ltx.salt ∈ s.salts := by
  cases h with
  | same w base us vs e wal gen salt recorded writes agree missed =>
      rw [salt]
      exact hs.header_mem w wal
  | earlier w base ts e wal gen salt mem recorded agree => exact mem
  | empty e wal mem walEnd pos badHeader agree => exact mem

/-- The file still matches what the WAL file has. -/
theorem recorded (h : s.Last lockPgno ltx) :
    ∃ e : Nat, ltx.walEnd = Wal.offsetOf ps e ∧ 1 ≤ e ∧ ltx.badHeader = false ∧
      ∀ f, s.frames[e - 1]? = some f → f.salt = ltx.salt → (f.pgno, f.page.data) ∈ ltx.pages := by
  cases h with
  | same w base us vs e wal gen salt recorded writes agree missed =>
      refine ⟨e, recorded.walEnd, recorded.pos, recorded.badHeader, ?_⟩
      rw [frames, wal]
      exact recorded.page
  | earlier w base ts e wal gen salt mem recorded agree =>
      refine ⟨e, recorded.walEnd, recorded.pos, recorded.badHeader, ?_⟩
      rw [frames, wal]
      exact recorded.page
  | empty e wal mem walEnd pos badHeader agree =>
      refine ⟨e, walEnd, pos, badHeader, ?_⟩
      rw [frames, wal]
      rintro f ⟨⟩

/-- If nothing was missed and the file reaches the end of the WAL, the copy is up to date. -/
theorem agree_of_upToDate (h : s.Last lockPgno ltx) (hltx : s.l0.getLast? = some ltx)
    (hup : s.upToDate = true) (hmissed : s.missed = false) :
    Store.Agree (LivePage lockPgno ps) (replay s.l0) s.committed := by
  rw [upToDate, hltx] at hup
  cases h with
  | same w base us vs e wal gen salt recorded writes agree missed =>
      simp only [wal, decide_eq_true_eq] at hup
      have he : e = w.cur.length := by
        have hend := recorded.walEnd.symm.trans hup.2
        exact Wal.offsetOf_inj.mp (Int.ofNat_inj.mp hend)
      rw [he, List.take_length] at writes
      obtain rfl := gen.eq_nil writes
      rw [List.append_nil] at gen
      rw [committed_of_wal wal]
      exact agree.trans gen.agree.symm
  | earlier w base ts e wal gen salt mem recorded agree =>
      simp only [wal, decide_eq_true_eq] at hup
      exact absurd hup.1 salt
  | empty e wal mem walEnd pos badHeader agree =>
      rw [committed_of_empty wal]
      exact agree hmissed

/-- The flags and the progress of litestream do not matter. -/
theorem of_eq (h : s.Last lockPgno ltx) (hfile : m.file = s.file) (hwal : m.wal = s.wal)
    (hl0 : m.l0 = s.l0) (hsalts : m.salts = s.salts) (hmissed : m.missed = s.missed) :
    m.Last lockPgno ltx := by
  cases h with
  | same w base us vs e wal gen salt recorded writes agree missed =>
      exact .same w base us vs e (hwal.trans wal) (hfile ▸ gen) salt recorded writes (hl0 ▸ agree)
        (hmissed.trans missed)
  | earlier w base ts e wal gen salt mem recorded agree =>
      refine .earlier w base ts e (hwal.trans wal) (hfile ▸ gen) salt (hsalts ▸ mem) recorded ?_
      rw [hmissed, hl0]
      exact agree
  | empty e wal mem walEnd pos badHeader agree =>
      refine .empty e (hwal.trans wal) (hsalts ▸ mem) walEnd pos badHeader ?_
      rw [hmissed, hl0, hfile]
      exact agree

theorem write (hs : s.Sqlite lockPgno) (h : s.Last lockPgno ltx) (hltx : s.l0.getLast? = some ltx)
    {restart : Option WalHeader} (hm : s.Writes lockPgno c restart m) : m.Last lockPgno ltx := by
  cases hm with
  | append w hw hc hfits =>
      rw [committed_of_wal hw] at hc
      cases h with
      | same w' base us vs e wal gen salt recorded writes agree missed =>
          obtain rfl : w = w' := Option.some.inj (hw.symm.trans wal)
          have hgen := gen.append hc.grow
          rw [List.append_assoc] at hgen
          refine .same (w.append c) base us (vs ++ [c.tx]) e rfl hgen salt recorded.append ?_ agree
            missed
          rw [writes, Wal.cur_append, List.take_append_of_le_length (recorded.le_cur salt)]
      | earlier w' base ts e wal gen salt mem recorded agree =>
          obtain rfl : w = w' := Option.some.inj (hw.symm.trans wal)
          exact .earlier (w.append c) base (ts ++ [c.tx]) e rfl (gen.append hc.grow) salt mem
            recorded.append agree
      | empty e wal mem walEnd pos badHeader agree => cases hw.symm.trans wal
  | start header hc hfresh hold hr hfits =>
      rw [← (hs.agree_file hr).1] at hc
      have hmem := h.mem hs
      have hsalt : ltx.salt ≠ header.salt := fun heq => hfresh (heq ▸ hmem)
      obtain ⟨e, hend, hpos, hbad, hpage⟩ := h.recorded
      refine .earlier _ _ _ e rfl (Generation.start hs.file_lt hc.grow) hsalt
        (List.mem_cons_of_mem _ hmem) (LTXFile.Recorded.start hend hpos hbad hsalt hpage) ?_
      intro hmissed
      simp only [Bool.or_eq_false_iff, Bool.not_eq_false'] at hmissed
      exact (h.agree_of_upToDate hltx hmissed.2 hmissed.1).trans (hs.agree_file hr).symm

theorem copy (hs : s.Sqlite lockPgno) (h : s.Last lockPgno ltx) (hltx : s.l0.getLast? = some ltx)
    {k : Nat} (hm : s.Copies k m) : m.Last lockPgno ltx := by
  cases hm with
  | nothing hw => exact h
  | part w hw hk =>
      cases h with
      | same w' base us vs e wal gen salt recorded writes agree missed =>
          obtain rfl : w = w' := Option.some.inj (hw.symm.trans wal)
          exact .same w base us vs e wal (gen.backfill k) salt recorded writes agree missed
      | earlier w' base ts e wal gen salt mem recorded agree =>
          obtain rfl : w = w' := Option.some.inj (hw.symm.trans wal)
          exact .earlier w base ts e wal (gen.backfill k) salt mem recorded agree
      | empty e wal mem walEnd pos badHeader agree => cases hw.symm.trans wal
  | full w hw hk =>
      cases h with
      | same w' base us vs e wal gen salt recorded writes agree missed =>
          obtain rfl : w = w' := Option.some.inj (hw.symm.trans wal)
          exact .same w base us vs e wal gen.full salt recorded writes agree missed
      | earlier w' base ts e wal gen salt mem recorded agree =>
          obtain rfl : w = w' := Option.some.inj (hw.symm.trans wal)
          exact .earlier w base ts e wal gen.full salt mem recorded agree
      | empty e wal mem walEnd pos badHeader agree => cases hw.symm.trans wal
  | truncate w hw hk =>
      obtain ⟨base, ts, hgen⟩ := hs.gen w hw
      have hmem := h.mem hs
      obtain ⟨e, hend, hpos, hbad, -⟩ := h.recorded
      refine .empty e rfl hmem hend hpos hbad fun hmissed => ?_
      simp only [Bool.or_eq_false_iff, Bool.not_eq_false'] at hmissed
      have hagree := h.agree_of_upToDate hltx hmissed.2 hmissed.1
      rw [committed_of_wal hw] at hagree
      exact hagree.trans hgen.agree_full.symm

end Last

/-! ## Syncing -/

/-- A snapshot has the database. -/
theorem agree_of_snapshot {w : Wal ps} {base : Store UInt32 Bytes} {ts : List (Tx UInt32 Bytes)}
    {f : LTXFile} (hw : s.wal = some w) (hgen : Generation lockPgno s.file w base ts)
    (hreaches : f.Reaches w) (hpages : f.Snapshot lockPgno s.db w) :
    Store.Agree (LivePage lockPgno ps) (replay (s.l0 ++ [f])) s.committed := by
  rw [replay_append, hreaches.commit, committed_of_wal hw]
  have hcommit : (Litestream.committed s.file (some w)).size = w.commit := rfl
  rw [← hcommit]
  refine Store.agree_patch_full fun p hp hle => ?_
  rw [hpages p hp hle, Litestream.committed]
  simp only
  cases hwrite : lastWrite (Wal.writes w.cur) p with
  | some data => rw [overlay_of_lastWrite hwrite, Option.some_or]
  | none =>
      have hmem := lastWrite_eq_none_iff.mp hwrite
      rw [Option.none_or, overlay_of_notMem hmem]
      exact readDBPage_db hp.1 (hgen.covered p hp hle hmem).1

/-- A file with the last version of each page from some frame on brings a copy that has the
transactions before it up to date. -/
theorem agree_of_incremental {w : Wal ps} {base : Store UInt32 Bytes}
    {us vs : List (Tx UInt32 Bytes)} {f : LTXFile} {k : Nat} (hw : s.wal = some w)
    (hgen : Generation lockPgno s.file w base (us ++ vs)) (hreaches : f.Reaches w)
    (hpages : f.Incremental w k) (hus : allWrites us = Wal.writes (w.cur.take k))
    (hagree : Store.Agree (LivePage lockPgno ps) (replay s.l0) (base.applyAll us)) :
    Store.Agree (LivePage lockPgno ps) (replay (s.l0 ++ [f])) s.committed := by
  have hvs : allWrites vs = Wal.writes (w.cur.drop k) := by
    have hwrites := hgen.writes
    rw [← List.take_append_drop k w.cur, Wal.writes_append, allWrites_append, hus] at hwrites
    exact (List.append_cancel_left hwrites).symm
  have hsize : finalSize (base.applyAll us).size vs = w.commit := by
    rw [Store.applyAll_size, ← finalSize_append, hgen.commit]
  have hgrows : Grows (LivePage lockPgno ps) (base.applyAll us).size vs := by
    rw [Store.applyAll_size]
    exact (grows_append.mp hgen.grows).2
  have hpages' : ∀ p, LivePage lockPgno ps p → p ≤ finalSize (base.applyAll us).size vs →
      lastWrite f.pages p = lastWrite (allWrites vs) p := by
    intro p _ hle
    rw [hpages p, if_neg (not_lt.mpr (hsize ▸ hle)), hvs]
  have hpatch : Store.Agree (LivePage lockPgno ps) ((replay s.l0).patch _ f.pages []) _ :=
    hagree.patch hgrows hpages'
  rw [hsize, ← hreaches.commit, ← replay_append, ← Store.applyAll_append] at hpatch
  rw [committed_of_wal hw]
  exact hpatch.trans hgen.agree.symm

/-- What holds in every state of a run. -/
structure Inv (lockPgno : UInt32 → UInt32) (s : State ps) : Prop where
  sqlite : s.Sqlite lockPgno
  last : ∀ ltx, s.l0.getLast? = some ltx → s.Last lockPgno ltx

/-- A sync that succeeds leaves the level 0 files as they are, or adds one that reaches the end
of the WAL.  In both cases they have the database. -/
theorem Inv.agree_of_sync (hI : s.Inv lockPgno) (hok : s.SyncOK) {b : Bool} {db' : DB}
    (h : s.db.verifyAndSync lockPgno = (.ok b, db')) :
    Store.Agree (LivePage lockPgno ps) (replay db'.l0) s.committed ∧
      (db'.l0 = s.l0 ∨
        ∃ w f, s.wal = some w ∧ db'.l0 = s.l0 ++ [f] ∧ f.Reaches w) := by
  cases hw : s.wal with
  | none =>
      have hempty : s.db.wal = some [] := by rw [db, walFile, hw]
      exact absurd h (DB.verifyAndSync_empty hempty)
  | some w =>
      obtain ⟨base, ts, hgen⟩ := hI.sqlite.gen w hw
      have hfits := fits_encode (hI.sqlite.fits w hw)
      cases hltx : s.l0.getLast? with
      | none =>
          have hl0 : s.db.l0 = [] := List.getLast?_eq_none_iff.mp hltx
          obtain ⟨f, hl0', hreaches, hpages⟩ :=
            DB.verifyAndSync_first rfl (db_wal hw) hfits hgen.live hl0 h
          have hagree := agree_of_snapshot hw hgen hreaches hpages
          exact ⟨by rw [hl0']; exact hagree, Or.inr ⟨w, f, rfl, hl0', hreaches⟩⟩
      | some ltx =>
          have hlast := hI.last ltx hltx
          have hidle := hlast.agree_of_upToDate hltx
          have hsynced : ∀ e, ltx.Recorded w e → DB.Synced lockPgno s.db w ltx db' := fun e hrec =>
            DB.verifyAndSync_ok rfl (db_wal hw) hfits hgen.live hltx hrec h
          cases hlast with
          | empty e wal mem walEnd pos badHeader agree => cases hw.symm.trans wal
          | same w' base' us vs e wal gen salt recorded writes agree missed =>
              obtain rfl : w = w' := Option.some.inj (hw.symm.trans wal)
              cases hsynced e recorded with
              | idle l0 same walEnd =>
                  have hup : s.upToDate = true := by
                    rw [upToDate, hw, hltx]
                    exact decide_eq_true ⟨same, walEnd⟩
                  rw [l0]
                  exact ⟨hidle hup missed, Or.inl rfl⟩
              | refilled l0 restarted refilled => exact absurd salt restarted
              | resumed f k l0 reaches pages same walEnd =>
                  have he : e = k :=
                    Wal.offsetOf_inj.mp (Int.ofNat_inj.mp (recorded.walEnd.symm.trans walEnd))
                  subst he
                  have hagree := agree_of_incremental hw gen reaches pages writes agree
                  exact ⟨by rw [l0]; exact hagree, Or.inr ⟨w, f, rfl, l0, reaches⟩⟩
              | restarted f l0 reaches pages restarted readsOn => exact absurd salt restarted
              | snapshot f l0 reaches pages =>
                  have hagree := agree_of_snapshot hw hgen reaches pages
                  exact ⟨by rw [l0]; exact hagree, Or.inr ⟨w, f, rfl, l0, reaches⟩⟩
          | earlier w' base' ts' e wal gen salt mem recorded agree =>
              obtain rfl : w = w' := Option.some.inj (hw.symm.trans wal)
              cases hsynced e recorded with
              | idle l0 same walEnd => exact absurd same salt
              | refilled l0 restarted refilled =>
                  exact absurd refilled (hok w ltx hw hltx restarted).1
              | resumed f k l0 reaches pages same walEnd => exact absurd same salt
              | restarted f l0 reaches pages restarted readsOn =>
                  -- a restarted WAL is read on only if nothing was missed
                  have hmissed : s.missed = false := by
                    cases hm : s.missed with
                    | false => rfl
                    | true => exact absurd readsOn ((hok w ltx hw hltx restarted).2 hm)
                  have hgen' : Generation lockPgno s.file w base' ([] ++ ts') := gen
                  have hagree := agree_of_incremental hw hgen' reaches pages rfl (agree hmissed)
                  exact ⟨by rw [l0]; exact hagree, Or.inr ⟨w, f, rfl, l0, reaches⟩⟩
              | snapshot f l0 reaches pages =>
                  have hagree := agree_of_snapshot hw hgen reaches pages
                  exact ⟨by rw [l0]; exact hagree, Or.inr ⟨w, f, rfl, l0, reaches⟩⟩

/-! ## Runs -/

theorem Inv.of_eq (hI : s.Inv lockPgno) (hfile : m.file = s.file) (hwal : m.wal = s.wal)
    (hn : m.nBackfill = s.nBackfill) (hl0 : m.l0 = s.l0) (hsalts : m.salts = s.salts)
    (hmissed : m.missed = s.missed) : m.Inv lockPgno where
  sqlite := hI.sqlite.of_eq hfile hwal hn hsalts
  last := fun ltx hltx => (hI.last ltx (hl0 ▸ hltx)).of_eq hfile hwal hl0 hsalts hmissed

theorem Inv.write (hI : s.Inv lockPgno) {restart : Option WalHeader}
    (hm : s.Writes lockPgno c restart m) : m.Inv lockPgno where
  sqlite := hI.sqlite.write hm
  last := by
    have hl0 : m.l0 = s.l0 := by
      cases hm with
      | append w hw hc hfits => rfl
      | start header hc hfresh hold hr hfits => rfl
    intro ltx hltx
    rw [hl0] at hltx
    exact (hI.last ltx hltx).write hI.sqlite hltx hm

theorem Inv.copy (hI : s.Inv lockPgno) {k : Nat} (hm : s.Copies k m) : m.Inv lockPgno where
  sqlite := hI.sqlite.copy hm
  last := by
    have hl0 : m.l0 = s.l0 := by
      cases hm with
      | nothing hw => rfl
      | part w hw hk => rfl
      | full w hw hk => rfl
      | truncate w hw hk => rfl
    intro ltx hltx
    rw [hl0] at hltx
    exact (hI.last ltx hltx).copy hI.sqlite hltx hm

/-- A sync that writes no file changes flags only. -/
theorem Inv.verifyAndSync_of_l0 (hI : s.Inv lockPgno) (p : Phase)
    (hl0 : (s.db.verifyAndSync lockPgno).2.l0 = s.l0) :
    Inv lockPgno (s.verifyAndSync lockPgno p) := by
  refine hI.of_eq rfl rfl rfl hl0 rfl ?_
  show (s.missed && decide ((s.db.verifyAndSync lockPgno).2.l0.length = s.l0.length)) = s.missed
  rw [hl0, decide_eq_true rfl, Bool.and_true]

theorem Inv.verifyAndSync (hI : s.Inv lockPgno) (hok : s.SyncOK) (p : Phase) :
    Inv lockPgno (s.verifyAndSync lockPgno p) := by
  cases h : s.db.verifyAndSync lockPgno with
  | mk res db' =>
      cases res with
      | error err =>
          exact hI.verifyAndSync_of_l0 p (by rw [h]; exact DB.verifyAndSync_error h)
      | ok b =>
          obtain ⟨hagree, hl0 | ⟨w, f, hw, hl0, hreaches⟩⟩ := hI.agree_of_sync hok h
          · exact hI.verifyAndSync_of_l0 p (by rw [h]; exact hl0)
          · obtain ⟨base, ts, hgen⟩ := hI.sqlite.gen w hw
            have hl0' : (s.verifyAndSync lockPgno p).l0 = s.l0 ++ [f] := by
              rw [State.verifyAndSync, h, ← hl0]
            have hmissed : (s.verifyAndSync lockPgno p).missed = false := by
              rw [State.verifyAndSync, h]
              simp [hl0]
            refine ⟨hI.sqlite.of_eq rfl rfl rfl rfl, fun ltx hltx => ?_⟩
            rw [hl0', List.getLast?_concat, Option.some.injEq] at hltx
            subst hltx
            have hgen' : Generation lockPgno s.file w base (ts ++ []) := by rwa [List.append_nil]
            have htake : allWrites ts = Wal.writes (w.cur.take w.cur.length) := by
              rw [List.take_length, hgen.writes]
            rw [committed_of_wal hw, hl0, ← hl0'] at hagree
            exact .same w base ts [] w.cur.length hw hgen' hreaches.salt
              (LTXFile.Recorded.of_reaches hreaches) htake (hagree.trans hgen.agree) hmissed

theorem Inv.step {s' : State ps} {a : Action ps} (hI : s.Inv lockPgno) (hok : StepOK s a)
    (h : step lockPgno s a = some s') : s'.Inv lockPgno := by
  cases step_moves h with
  | quiet p r eq =>
      subst eq
      exact hI.of_eq rfl rfl rfl rfl rfl rfl
  | write c restart m p hcommits hm eq =>
      subst eq
      exact (hI.write hm).of_eq rfl rfl rfl rfl rfl rfl
  | copy mode k m p haction hm eq =>
      subst eq
      exact (hI.copy hm).of_eq rfl rfl rfl rfl rfl rfl
  | sync p hsyncs eq =>
      subst eq
      exact hI.verifyAndSync (hok hsyncs) p

end State

/-- In every run from a database that was not synced yet, a sync that succeeds brings the level
0 files up to date, when it and the syncs before it meet the condition. -/
theorem sync_agrees_of_run {s₀ s : State ps} {as : List (Action ps)} {b : Bool} {db' : DB}
    (hsqlite : s₀.Sqlite lockPgno) (hl0 : s₀.l0 = []) (hrun : run (step lockPgno) s₀ as = some s)
    (halong : Along (step lockPgno) StepOK s₀ as) (hok : s.SyncOK)
    (h : s.db.verifyAndSync lockPgno = (.ok b, db')) :
    Store.Agree (LivePage lockPgno ps) (replay db'.l0) s.committed := by
  have hI₀ : s₀.Inv lockPgno := ⟨hsqlite, fun ltx hltx => by rw [hl0] at hltx; cases hltx⟩
  have hI : s.Inv lockPgno := run_induction (fun hI hok h => hI.step hok h) hI₀ halong hrun
  exact (hI.agree_of_sync hok h).1

/-! ## Runs on a small database -/

namespace Sample

/-- A first sync, and a checkpoint up to the release of the read transaction. -/
def release : List (Action PageSize.min) :=
  [.commit (fill 1) (some (header 1)), .ensureWALExists (fill 1) (header 1), .sync,
    .readWALHeader, .syncBefore, .releaseReadLock]

/-- The end of a checkpoint, up to the write lock. -/
def relock : List (Action PageSize.min) :=
  [.acquireReadLock true, .writeSeq (change 1 4 one_live) none, .compareHeader, .lock]

/-- A transaction restarts the WAL after every frame was synced and copied. -/
def keeping : List (Action PageSize.min) :=
  release ++ [.walCheckpoint .passive 3, .commit (fill 2) (some (header 2))] ++ relock

/-- A transaction commits before the `PRAGMA`, and another one restarts the WAL. -/
def losing : List (Action PageSize.min) :=
  release ++ [.commit (change 2 2 two_live) none, .walCheckpoint .passive 4,
    .commit (change 3 3 three_live) (some (header 2))] ++ relock

end Sample

/-- The condition holds in a run with a checkpoint. -/
theorem sync_agrees_of_run_sample : ∃ (s : State PageSize.min) (db' : DB),
    run (step Sample.lockPage) Sample.empty Sample.keeping = some s ∧
      s.db.verifyAndSync Sample.lockPage = (.ok true, db') ∧
      Store.Agree (LivePage Sample.lockPage PageSize.min) (replay db'.l0) s.committed := by
  have hany : (run (step Sample.lockPage) Sample.empty Sample.keeping).any fun s =>
      decide (s.SyncOK ∧ (s.db.verifyAndSync Sample.lockPage).1 = .ok true) := by
    decide +kernel
  have halong : Along (step Sample.lockPage) StepOK Sample.empty Sample.keeping := by
    decide +kernel
  have hsqlite : Sample.empty.Sqlite Sample.lockPage := .of_empty (by decide) rfl
  obtain ⟨s, hrun, hs⟩ := (Option.any_eq_true _ _).mp hany
  obtain ⟨hok, hres⟩ := of_decide_eq_true hs
  have hsync : s.db.verifyAndSync Sample.lockPage =
      (.ok true, (s.db.verifyAndSync Sample.lockPage).2) := Prod.ext hres rfl
  exact ⟨s, _, hrun, hsync, sync_agrees_of_run hsqlite rfl hrun halong hok hsync⟩

/-- The sync after a checkpoint loses a transaction that committed before the `PRAGMA`. -/
theorem sync_loses : ∃ s : State PageSize.min,
    run (step Sample.lockPage) Sample.empty (Sample.losing ++ [.syncAfter]) = some s ∧
      s.phase = .copied ∧
      ¬ Store.Agree (LivePage Sample.lockPage PageSize.min) (replay s.l0) s.committed := by
  have hany : (run (step Sample.lockPage) Sample.empty (Sample.losing ++ [.syncAfter])).any fun s =>
      decide (s.phase = .copied ∧ 2 ≤ (replay s.l0).size ∧
        (replay s.l0).page 2 ≠ s.committed.page 2) := by
    decide +kernel
  obtain ⟨s, hrun, hs⟩ := (Option.any_eq_true _ _).mp hany
  obtain ⟨hphase, hsize, hpage⟩ := of_decide_eq_true hs
  exact ⟨s, hrun, hphase, fun hagree => hpage (hagree.2 2 ⟨by decide, by decide⟩ hsize)⟩

end Litestream
