import Mathlib
import Litestream.Compaction.Contents
import Litestream.Db.NoLoss

/-!
# From a commit to a restore

`System` puts the database of `step` and the replica of `Maintenance.Contents` together.  A
level 0 file that a sync writes is a transaction of the replica, which is uploaded, compacted,
snapshotted and deleted later on, while applications and checkpoints go on.

A sync that succeeds ends at some TXID.  Any later restore of that TXID gives what SQLite
had committed at the sync (`restores_committed_of_run`).
-/

namespace Litestream

open Bytes Overlay Paged Run Maintenance

variable {ps : PageSize} {lockPgno : UInt32 → UInt32}

/-- The pages of a level 0 file. -/
def LTXFile.patch (f : LTXFile) : Patch UInt32 Bytes := ⟨f.commit, f.pages⟩

/-! ## What a sync adds -/

namespace State

variable {s s' : State ps}

theorem replay_page {f : LTXFile} {p : UInt32} (hle : p ≤ f.commit) :
    (replay (s.l0 ++ [f])).page p = overlay (replay s.l0).page f.pages p := by
  rw [replay_append, Store.patch]
  exact if_pos hle

/-- A file leads from the copy without it to the copy with it if it has the pages that are
added. -/
theorem updates_of_fills {f : LTXFile}
    (h : ∀ p, LivePage lockPgno ps p → p ≤ f.commit → lastWrite f.pages p = none →
      p ≤ (replay s.l0).size) :
    Updates (LivePage lockPgno ps) f.patch (replay s.l0) (replay (s.l0 ++ [f])) := by
  have hsize : (replay (s.l0 ++ [f])).size = f.commit := by
    rw [replay_append, Store.patch]
  refine ⟨hsize.symm, fun p hp hle => ?_⟩
  rw [hsize] at hle
  rw [replay_page hle, LTXFile.patch, overlay]
  cases hw : lastWrite f.pages p with
  | some data => exact .inl rfl
  | none => exact .inr ⟨rfl, h p hp hle hw, rfl⟩

theorem updates_of_snapshot {w : Wal ps} {base : Store UInt32 Bytes}
    {ts : List (Tx UInt32 Bytes)} {f : LTXFile} (hgen : Generation lockPgno s.file w base ts)
    (hreaches : f.Reaches w) (hpages : f.Snapshot lockPgno s.db w) :
    Updates (LivePage lockPgno ps) f.patch (replay s.l0) (replay (s.l0 ++ [f])) := by
  refine updates_of_fills fun p hp hle hnone => ?_
  rw [hreaches.commit] at hle
  rw [hpages p hp hle, Option.or_eq_none_iff] at hnone
  obtain ⟨hwrite, hread⟩ := hnone
  rw [readDBPage_db hp.1 (hgen.covered p hp hle (lastWrite_eq_none_iff.mp hwrite)).1] at hread
  cases hread

theorem updates_of_incremental {w : Wal ps} {base : Store UInt32 Bytes}
    {us vs : List (Tx UInt32 Bytes)} {f : LTXFile} {k : Nat}
    (hgen : Generation lockPgno s.file w base (us ++ vs)) (hreaches : f.Reaches w)
    (hpages : f.Incremental w k) (hus : allWrites us = Wal.writes (w.cur.take k))
    (hagree : Store.Agree (LivePage lockPgno ps) (replay s.l0) (base.applyAll us)) :
    Updates (LivePage lockPgno ps) f.patch (replay s.l0) (replay (s.l0 ++ [f])) := by
  refine updates_of_fills fun p hp hle hnone => ?_
  rw [hreaches.commit] at hle
  rw [hpages p, if_neg (not_lt.mpr hle)] at hnone
  have hvs : allWrites vs = Wal.writes (w.cur.drop k) := by
    have hwrites := hgen.writes
    rw [← List.take_append_drop k w.cur, Wal.writes_append, allWrites_append, hus] at hwrites
    exact (List.append_cancel_left hwrites).symm
  have hgrows : Grows (LivePage lockPgno ps) (base.applyAll us).size vs := by
    rw [Store.applyAll_size]
    exact (grows_append.mp hgen.grows).2
  have hsize : finalSize (base.applyAll us).size vs = w.commit := by
    rw [Store.applyAll_size, ← finalSize_append, hgen.commit]
  rw [hagree.1]
  exact hgrows.le_of_notMem hp (hsize ▸ hle) (hvs ▸ lastWrite_eq_none_iff.mp hnone)

/-- A sync that succeeds adds at most one file, which leads from the copy without it to the
copy with it. -/
theorem Inv.updates_of_sync (hI : s.Inv lockPgno) (hok : s.SyncOK) {b : Bool} {db' : DB}
    (h : s.db.verifyAndSync lockPgno = (.ok b, db')) :
    db'.l0 = s.l0 ∧ s.l0 ≠ [] ∨ ∃ f, db'.l0 = s.l0 ++ [f] ∧
      Updates (LivePage lockPgno ps) f.patch (replay s.l0) (replay db'.l0) := by
  cases hw : s.wal with
  | none =>
      have hempty : s.db.wal = some [] := by rw [db, walFile, hw]
      exact absurd h (DB.verifyAndSync_empty hempty)
  | some w =>
      obtain ⟨base, ts, hgen⟩ := hI.sqlite.gen w hw
      have hfits := fits_encode (hI.sqlite.fits w hw)
      cases hltx : s.l0.getLast? with
      | none =>
          have hl0 : s.db.l0 = [] := List.getLast?_eq_none_iff.mp hltx
          obtain ⟨f, hl0', hreaches, hpages⟩ :=
            DB.verifyAndSync_first rfl (db_wal hw) hfits hgen.live hl0 h
          exact .inr ⟨f, hl0', by rw [hl0']; exact updates_of_snapshot hgen hreaches hpages⟩
      | some ltx =>
          have hne : s.l0 ≠ [] := fun hnil => by rw [hnil] at hltx; cases hltx
          have hsynced : ∀ e, ltx.Recorded w e → DB.Synced lockPgno s.db w ltx db' := fun e hrec =>
            DB.verifyAndSync_ok rfl (db_wal hw) hfits hgen.live hltx hrec h
          cases hI.last ltx hltx with
          | empty e wal mem walEnd pos badHeader agree => cases hw.symm.trans wal
          | same w' base' us vs e wal gen salt recorded writes agree missed =>
              obtain rfl : w = w' := Option.some.inj (hw.symm.trans wal)
              cases hsynced e recorded with
              | idle l0 same walEnd => exact .inl ⟨l0, hne⟩
              | refilled l0 restarted refilled => exact .inl ⟨l0, hne⟩
              | resumed f k l0 reaches pages same walEnd =>
                  have he : e = k :=
                    Wal.offsetOf_inj.mp (Int.ofNat_inj.mp (recorded.walEnd.symm.trans walEnd))
                  subst he
                  exact .inr ⟨f, l0, by
                    rw [l0]; exact updates_of_incremental gen reaches pages writes agree⟩
              | restarted f l0 reaches pages restarted readsOn => exact absurd salt restarted
              | snapshot f l0 reaches pages =>
                  exact .inr ⟨f, l0, by rw [l0]; exact updates_of_snapshot gen reaches pages⟩
          | earlier w' base' ts' e wal gen salt mem recorded agree =>
              obtain rfl : w = w' := Option.some.inj (hw.symm.trans wal)
              cases hsynced e recorded with
              | idle l0 same walEnd => exact .inl ⟨l0, hne⟩
              | refilled l0 restarted refilled => exact .inl ⟨l0, hne⟩
              | resumed f k l0 reaches pages same walEnd => exact absurd same salt
              | restarted f l0 reaches pages restarted readsOn =>
                  have hmissed : s.missed = false := by
                    cases hm : s.missed with
                    | false => rfl
                    | true => exact absurd readsOn ((hok w ltx hw hltx restarted).2 hm)
                  have hgen' : Generation lockPgno s.file w base' ([] ++ ts') := gen
                  exact .inr ⟨f, l0, by
                    rw [l0]; exact updates_of_incremental hgen' reaches pages rfl (agree hmissed)⟩
              | snapshot f l0 reaches pages =>
                  exact .inr ⟨f, l0, by rw [l0]; exact updates_of_snapshot gen reaches pages⟩

theorem verifyAndSync_of_step {a : Action ps} (hsyncs : a.Syncs)
    (h : step lockPgno s a = some s') : s'.l0 = (s.db.verifyAndSync lockPgno).2.l0 := by
  cases a with
  | sync | syncBefore | syncAfter =>
      simp only [step] at h
      split at h
      · cases h
        rfl
      · cases h
  | commit | ensureWALExists | readWALHeader | releaseReadLock | walCheckpoint | acquireReadLock
  | writeSeq | compareHeader | lock | rollback | fail => cases hsyncs

/-- Only syncs that succeed add files, one at a time. -/
theorem l0_of_step (hI : s.Inv lockPgno) {a : Action ps} (hok : StepOK s a)
    (h : step lockPgno s a = some s') :
    s'.l0 = s.l0 ∨ ∃ f, s'.l0 = s.l0 ++ [f] ∧
      Updates (LivePage lockPgno ps) f.patch (replay s.l0) (replay s'.l0) := by
  cases step_moves h with
  | quiet p r eq =>
      subst eq
      exact .inl rfl
  | write c restart m p hcommits hm eq =>
      subst eq
      cases hm with
      | append w hw hc hfits => exact .inl rfl
      | start header hc hfresh hold hr hfits => exact .inl rfl
  | copy mode k m p haction hm eq =>
      subst eq
      cases hm with
      | nothing hw => exact .inl rfl
      | part w hw hk => exact .inl rfl
      | full w hw hk => exact .inl rfl
      | truncate w hw hk => exact .inl rfl
  | sync p hsyncs eq =>
      subst eq
      cases hsync : s.db.verifyAndSync lockPgno with
      | mk res db' =>
          have hl0 : (s.verifyAndSync lockPgno p).l0 = db'.l0 := by
            rw [State.verifyAndSync, hsync]
          rw [hl0]
          cases res with
          | error err => exact .inl (DB.verifyAndSync_error hsync)
          | ok b =>
              rcases hI.updates_of_sync (hok hsyncs) hsync with ⟨hsame, -⟩ | ⟨f, hadd, hupdates⟩
              · exact .inl hsame
              · exact .inr ⟨f, hadd, hupdates⟩

end State

/-! ## The system -/

/-- A database and its replica. -/
structure System (ps : PageSize) where
  db : State ps
  replica : Contents UInt32 Bytes

inductive SystemAction (ps : PageSize) where
  /-- A step of an application, a sync or a checkpoint, at a time. -/
  | db (now : Nat) (a : Action ps)
  /-- An upload, a compaction, a snapshot or a retention. -/
  | replica (a : ContentsAction UInt32 Bytes)

namespace System

/-- A level 0 file that is written becomes the next transaction of the replica. -/
def step (lockPgno : UInt32 → UInt32) (cfg : Config) (codec : Codec (LivePage lockPgno ps) Bytes)
    (s : System ps) : SystemAction ps → Option (System ps)
  | .db now a =>
      (Litestream.step lockPgno s.db a).bind fun db =>
        match db.l0.drop s.db.l0.length with
        | [] => some { s with db := db }
        | f :: _ =>
            (s.replica.step cfg codec (.sync now (replay db.l0) f.patch)).map fun replica =>
              ⟨db, replica⟩
  | .replica (.sync ..) => none
  | .replica a => (s.replica.step cfg codec a).map fun replica => { s with replica := replica }

/-- The step meets the conditions of syncs and of snapshots. -/
def StepOK (lockPgno : UInt32 → UInt32) (s : System ps) : SystemAction ps → Prop
  | .db _ a => Litestream.StepOK s.db a
  | .replica a => s.replica.Written (LivePage lockPgno ps) a

/-- A database that was not synced yet, with an empty replica. -/
structure Initial (lockPgno : UInt32 → UInt32) (s : System ps) : Prop where
  sqlite : s.db.Sqlite lockPgno
  l0 : s.db.l0 = []
  base : s.replica.base = Maintenance.State.empty
  version : s.replica.version 0 = replay []

/-- The replica has the transactions of the level 0 files. -/
structure Inv (lockPgno : UInt32 → UInt32) (s : System ps) : Prop where
  db : s.db.Inv lockPgno
  replica : s.replica.Holds (LivePage lockPgno ps)
  dbPos : s.replica.base.dbPos = s.db.l0.length
  version : ∀ t ≤ s.db.l0.length, s.replica.version t = replay (s.db.l0.take t)

variable {cfg : Config} {codec : Codec (LivePage lockPgno ps) Bytes} {s s' : System ps}

theorem Inv.initial (h : s.Initial lockPgno) : s.Inv lockPgno where
  db := ⟨h.sqlite, fun ltx hltx => by rw [h.l0] at hltx; cases hltx⟩
  replica := Contents.Holds.initial ⟨h.base, fun p hp hle => by
    rw [h.version] at hle
    exact hp.1 (UInt32.le_zero_iff.mp hle)⟩
  dbPos := by rw [h.base, h.l0]; rfl
  version := fun t ht => by
    rw [h.l0] at ht ⊢
    rw [List.take_nil, Nat.le_zero.mp ht, h.version]

/-! ## One step -/

/-- A step of the replica that does not write a level 0 file. -/
theorem replica_of_step {a : ContentsAction UInt32 Bytes}
    (h : s.step lockPgno cfg codec (.replica a) = some s') :
    (∀ now db patch, a ≠ .sync now db patch) ∧ s'.db = s.db ∧
      s.replica.step cfg codec a = some s'.replica := by
  cases a with
  | sync now db patch => cases h
  | upload size | compact dstLevel uploaded | snapshot size now patch
  | enforceL0RetentionByTime threshold listedAt localModTime
  | enforceSnapshotRetention timestamp listedAt | enforceRetentionByTXID level =>
      simp only [step, Option.map_eq_some_iff] at h
      obtain ⟨replica, hreplica, rfl⟩ := h
      exact ⟨by simp, rfl, hreplica⟩

/-- A step of the database adds the level 0 file that it writes to the replica. -/
theorem db_of_step (hI : s.Inv lockPgno) {now : Nat} {a : Action ps}
    (hok : Litestream.StepOK s.db a) (h : s.step lockPgno cfg codec (.db now a) = some s') :
    Litestream.step lockPgno s.db a = some s'.db ∧
      (s'.db.l0 = s.db.l0 ∧ s'.replica = s.replica ∨
        ∃ f, s'.db.l0 = s.db.l0 ++ [f] ∧
          Updates (LivePage lockPgno ps) f.patch (replay s.db.l0) (replay s'.db.l0) ∧
          s.replica.step cfg codec (.sync now (replay s'.db.l0) f.patch) = some s'.replica) := by
  obtain ⟨db, hdb, h⟩ := Option.bind_eq_some_iff.mp h
  rcases State.l0_of_step hI.db hok hdb with hsame | ⟨f, hadd, hupdates⟩
  · rw [hsame, List.drop_length] at h
    cases h
    exact ⟨hdb, .inl ⟨hsame, rfl⟩⟩
  · rw [show db.l0.drop s.db.l0.length = [f] by rw [hadd, List.drop_left]] at h
    obtain ⟨replica, hreplica, rfl⟩ := Option.map_eq_some_iff.mp h
    exact ⟨hdb, .inr ⟨f, hadd, hupdates, hreplica⟩⟩

theorem Inv.step (hI : s.Inv lockPgno) {a : SystemAction ps} (hok : s.StepOK lockPgno a)
    (h : s.step lockPgno cfg codec a = some s') : s'.Inv lockPgno := by
  cases a with
  | replica a =>
      obtain ⟨ha, hdb, hreplica⟩ := replica_of_step h
      obtain ⟨hversion, hpos⟩ := Contents.version_of_step ha hreplica
      refine ⟨hdb ▸ hI.db, hI.replica.step hok hreplica, ?_, fun t ht => ?_⟩
      · rw [hpos, hI.dbPos, hdb]
      · rw [hdb] at ht ⊢
        rw [hversion, hI.version t ht]
  | db now a =>
      obtain ⟨hdb, ⟨hl0, hreplica⟩ | ⟨f, hl0, hupdates, hreplica⟩⟩ := db_of_step hI hok h
      · refine ⟨hI.db.step hok hdb, hreplica ▸ hI.replica, ?_, fun t ht => ?_⟩
        · rw [hreplica, hI.dbPos, hl0]
        · rw [hl0] at ht ⊢
          rw [hreplica, hI.version t ht]
      · have hfirst : s.replica.version s.replica.base.dbPos = replay s.db.l0 := by
          rw [hI.dbPos, hI.version _ le_rfl, List.take_length]
        have hwritten : s.replica.Written (LivePage lockPgno ps)
            (.sync now (replay s'.db.l0) f.patch) := by
          rw [Contents.Written, hfirst]
          exact hupdates
        obtain ⟨hversion, hpos⟩ := Contents.version_of_sync hreplica
        refine ⟨hI.db.step hok hdb, hI.replica.step hwritten hreplica, ?_, fun t ht => ?_⟩
        · rw [hpos, hI.dbPos, hl0, List.length_append, List.length_singleton]
        · rw [hl0, List.length_append, List.length_singleton] at ht
          rw [hversion, hI.dbPos]
          rcases Nat.lt_or_eq_of_le ht with hlt | rfl
          · have hle : t ≤ s.db.l0.length := Nat.lt_succ_iff.mp hlt
            rw [Function.update_of_ne (by omega), hI.version t hle, hl0,
              List.take_append_of_le_length hle]
          · rw [Function.update_self, List.take_of_length_le (by simp [hl0])]

/-! ## Runs -/

/-- Level 0 files stay as they are. -/
theorem prefix_of_step (hI : s.Inv lockPgno) {a : SystemAction ps} (hok : s.StepOK lockPgno a)
    (h : s.step lockPgno cfg codec a = some s') : s.db.l0 <+: s'.db.l0 := by
  cases a with
  | replica a =>
      obtain ⟨-, hdb, -⟩ := replica_of_step h
      rw [hdb]
  | db now a =>
      obtain ⟨-, ⟨hl0, -⟩ | ⟨f, hl0, -⟩⟩ := db_of_step hI hok h
      · rw [hl0]
      · exact ⟨[f], hl0.symm⟩

theorem prefix_of_run {as : List (SystemAction ps)} (hI : s.Inv lockPgno)
    (halong : Along (step lockPgno cfg codec) (StepOK lockPgno) s as)
    (hrun : run (step lockPgno cfg codec) s as = some s') :
    s'.Inv lockPgno ∧ s.db.l0 <+: s'.db.l0 :=
  run_induction (I := fun s' => s'.Inv lockPgno ∧ s.db.l0 <+: s'.db.l0)
    (fun hI hok hs => ⟨hI.1.step hok hs, hI.2.trans (prefix_of_step hI.1 hok hs)⟩)
    ⟨hI, List.prefix_rfl⟩ halong hrun

/-- After a sync that succeeds, the level 0 files have what is committed. -/
theorem agree_of_sync (hI : s.Inv lockPgno) {now : Nat} {a : Action ps} (hsyncs : a.Syncs)
    (hok : s.StepOK lockPgno (.db now a)) {b : Bool}
    (hres : (s.db.db.verifyAndSync lockPgno).1 = .ok b)
    (h : s.step lockPgno cfg codec (.db now a) = some s') :
    Store.Agree (LivePage lockPgno ps) (replay s'.db.l0) s.db.committed ∧ s'.db.l0 ≠ [] := by
  obtain ⟨hdb, -⟩ := db_of_step hI hok h
  have hl0 := State.verifyAndSync_of_step hsyncs hdb
  have hsync : s.db.db.verifyAndSync lockPgno = (.ok b, (s.db.db.verifyAndSync lockPgno).2) :=
    Prod.ext hres rfl
  rw [hl0]
  refine ⟨(hI.db.agree_of_sync (hok hsyncs) hsync).1, ?_⟩
  rcases hI.db.updates_of_sync (hok hsyncs) hsync with ⟨hsame, hne⟩ | ⟨f, hadd, -⟩
  · rwa [hsame]
  · rw [hadd]
    exact List.append_ne_nil_of_right_ne_nil _ (List.cons_ne_nil _ _)

end System

/-- A sync that succeeds ends at some TXID.  Whatever happens afterwards, a restore of that TXID
gives what was committed at the sync.  A restore of the latest state gives it if nothing was
synced since and all files are uploaded. -/
theorem restores_committed_of_run (cfg : Config) (codec : Codec (LivePage lockPgno ps) Bytes)
    {s₀ s₁ s₂ s₃ : System ps} {as bs : List (SystemAction ps)} {now : Nat} {a : Action ps}
    {b : Bool} (hinitial : s₀.Initial lockPgno)
    (hrun₁ : run (System.step lockPgno cfg codec) s₀ as = some s₁)
    (hsync : s₁.step lockPgno cfg codec (.db now a) = some s₂) (hsyncs : a.Syncs)
    (hres : (s₁.db.db.verifyAndSync lockPgno).1 = .ok b)
    (hrun₂ : run (System.step lockPgno cfg codec) s₂ bs = some s₃)
    (halong : Along (System.step lockPgno cfg codec) (System.StepOK lockPgno) s₀
      (as ++ .db now a :: bs)) :
    (∀ txID timestamp plan, calcRestorePlan s₃.replica.base.files.client txID timestamp = .ok plan →
      FileInfo.sliceMaxTXID plan = s₂.db.l0.length →
      ∃ p, codec.compact (plan.map s₃.replica.opened) = some p ∧
        Decodes (LivePage lockPgno ps) p s₁.db.committed) ∧
    (s₃.db.l0.length = s₂.db.l0.length → s₃.replica.base.uploaded = s₃.replica.base.dbPos →
      ∃ plan, calcRestorePlan s₃.replica.base.files.client 0 0 = .ok plan ∧
        FileInfo.sliceMaxTXID plan = s₂.db.l0.length) := by
  obtain ⟨halong₁, halong₂⟩ := along_append halong
  have hI₁ := (System.prefix_of_run (.initial hinitial) halong₁ hrun₁).1
  obtain ⟨hok, halong₂⟩ := (along_cons_of_some hsync).mp (halong₂ s₁ hrun₁)
  obtain ⟨hI₃, hprefix⟩ := System.prefix_of_run (hI₁.step hok hsync) halong₂ hrun₂
  obtain ⟨hagree, hne⟩ := System.agree_of_sync hI₁ hsyncs hok hres hsync
  have hle : s₂.db.l0.length ≤ s₃.db.l0.length := hprefix.length_le
  refine ⟨fun txID timestamp plan hplan hend => ?_, fun hlast huploaded => ?_⟩
  · obtain ⟨p, hp, hdecodes⟩ := hI₃.replica.restore codec hplan
    rw [hend, hI₃.version _ hle, ← List.prefix_iff_eq_take.mp hprefix] at hdecodes
    exact ⟨p, hp, hdecodes.of_agree hagree⟩
  · have hsnap := hI₃.replica.restorable.inv.snapshotted_le
    have hhighest : s₃.replica.base.highest = s₂.db.l0.length := by
      rw [Maintenance.State.highest, huploaded, Nat.max_eq_left hsnap, hI₃.dbPos, hlast]
    obtain ⟨plan, hplan, hend⟩ := hI₃.replica.restorable.latest
      (hhighest ▸ List.length_pos_iff.mpr hne)
    exact ⟨plan, hplan, hend.trans hhighest⟩

/-! ## A run on a small database -/

namespace Sample

/-- A database that was not synced yet, with an empty replica. -/
def system : System PageSize.min :=
  ⟨empty, Maintenance.State.empty, fun _ => replay [], fun _ => ⟨0, []⟩, fun _ _ _ => ⟨0, []⟩⟩

/-- Two transactions, of which the first is uploaded and the second one not yet synced. -/
def twoCommits : List (SystemAction PageSize.min) :=
  [.db 1 (.commit (fill 1) (some (header 1))), .db 1 (.ensureWALExists (fill 1) (header 1)),
    .db 1 .sync, .replica (.upload 10), .db 2 (.commit (change 1 2 one_live) none),
    .db 2 (.ensureWALExists (fill 1) (header 1))]

/-- A third transaction commits, and the files of the first two are compacted and deleted. -/
def thirdCommit : List (SystemAction PageSize.min) :=
  [.db 3 (.commit (change 2 3 two_live) none), .replica (.upload 10),
    .replica (.compact 1 (some (20, 1))), .replica (.enforceL0RetentionByTime 5 FileInfo.createdAt
      fun _ => none)]

abbrev listing : Codec (LivePage lockPage PageSize.min) Bytes := .listing _ _

/-- The condition of a step that takes no snapshot. -/
def Checked (s : System PageSize.min) : SystemAction PageSize.min → Prop
  | .db _ a => Litestream.StepOK s.db a
  | .replica (.snapshot ..) | .replica (.sync ..) => False
  | .replica _ => True

instance (s : System PageSize.min) (a : SystemAction PageSize.min) : Decidable (Checked s a) :=
  match a with
  | .db _ a => inferInstanceAs (Decidable (Litestream.StepOK s.db a))
  | .replica (.snapshot ..) | .replica (.sync ..) => .isFalse id
  | .replica (.upload _) | .replica (.compact ..) | .replica (.enforceL0RetentionByTime ..)
  | .replica (.enforceSnapshotRetention ..) | .replica (.enforceRetentionByTXID _) =>
      .isTrue trivial

theorem stepOK_of_checked {s : System PageSize.min} {a : SystemAction PageSize.min}
    (h : Checked s a) : s.StepOK lockPage a := by
  cases a with
  | db now a => exact h
  | replica a =>
      cases a with
      | sync | snapshot => cases h
      | upload | compact | enforceL0RetentionByTime | enforceSnapshotRetention
      | enforceRetentionByTXID => trivial

end Sample

open Sample in
/-- The second transaction is restored after the third one has committed. -/
theorem restores_committed_of_run_sample : ∃ s₁ s₃ : System PageSize.min, ∃ plan p,
    run (System.step lockPage twoLevels listing) system twoCommits = some s₁ ∧
      run (System.step lockPage twoLevels listing) s₁ (.db 2 .sync :: thirdCommit) = some s₃ ∧
      calcRestorePlan s₃.replica.base.files.client 0 0 = .ok plan ∧
      listing.compact (plan.map s₃.replica.opened) = some p ∧
      Decodes (LivePage lockPage PageSize.min) p s₁.db.committed := by
  have hany : (run (System.step lockPage twoLevels listing) system twoCommits).any fun s₁ =>
      (System.step lockPage twoLevels listing s₁ (.db 2 .sync)).any fun s₂ =>
        (run (System.step lockPage twoLevels listing) s₂ thirdCommit).any fun s₃ =>
          decide ((s₁.db.db.verifyAndSync lockPage).1 = .ok true ∧
            s₃.db.l0.length = s₂.db.l0.length ∧
            s₃.replica.base.uploaded = s₃.replica.base.dbPos) := by
    decide +kernel
  have hchecked : Along (System.step lockPage twoLevels listing) Checked system
      (twoCommits ++ .db 2 .sync :: thirdCommit) := by
    decide +kernel
  have halong : Along (System.step lockPage twoLevels listing) (System.StepOK lockPage) system
      (twoCommits ++ .db 2 .sync :: thirdCommit) :=
    along_of_invariant (I := fun _ => True) (fun _ _ _ => trivial)
      (fun _ h => stepOK_of_checked h) trivial hchecked
  obtain ⟨s₁, hrun₁, hany⟩ := (Option.any_eq_true _ _).mp hany
  obtain ⟨s₂, hsync, hany⟩ := (Option.any_eq_true _ _).mp hany
  obtain ⟨s₃, hrun₂, hany⟩ := (Option.any_eq_true _ _).mp hany
  obtain ⟨hres, hlast, huploaded⟩ := of_decide_eq_true hany
  obtain ⟨hrestores, hlatest⟩ := restores_committed_of_run twoLevels listing
    ⟨.of_empty (by decide) rfl, rfl, rfl, rfl⟩ hrun₁ hsync trivial hres hrun₂ halong
  obtain ⟨plan, hplan, hend⟩ := hlatest hlast huploaded
  obtain ⟨p, hp, hdecodes⟩ := hrestores 0 0 plan hplan hend
  exact ⟨s₁, s₃, plan, p, hrun₁, run_cons_eq_some.mpr ⟨s₂, hsync, hrun₂⟩, hplan, hp, hdecodes⟩

end Litestream
