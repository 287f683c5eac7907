import Litestream.Lib.Run
import Litestream.Vfs.Connections

/-!
# Time travel and writes

`SetTargetTime` replaces the index of a file by that of a restore plan for a point in time,
and `ResetTime` by that of the newest plan.  A write checks only that writes are enabled, and
a sync only the counters of the writer, which neither call changes.  So a page of the past can
be written and uploaded as the next transaction (`past_uploaded`).

`read_only` says that a file with a target time accepts no write and uploads nothing, if a
target time is set only when no page is dirty, and no write comes while writes are enabled and
a target time is set.
-/

namespace Litestream

namespace Vfs

open Overlay Run

variable {ps : PageSize}

/-- The files of a plan. -/
def Replica.planFiles (replica : Replica ps) (infos : List FileInfo) : List (LTXFile ps) :=
  infos.filterMap fun info => (replica.level info.level).find? fun file => file.info = info

inductive TimeError where
  | targetTimeRequired
  | restorePlan (err : RestoreError)
  | noBackupFiles
deriving DecidableEq

namespace VFSFile

def SetTargetTime (replica : Replica ps) (timestamp : Nat) (f : VFSFile) : Except TimeError VFSFile :=
  if timestamp = 0 then .error .targetTimeRequired
  else
    match calcRestorePlan replica.client 0 timestamp with
    | .error err => .error (.restorePlan err)
    | .ok infos =>
      if infos = [] then .error .noBackupFiles
      else .ok (f.rebuildIndex (replica.planFiles infos) (some timestamp))

def ResetTime (replica : Replica ps) (f : VFSFile) : Except TimeError VFSFile :=
  match calcRestorePlan replica.client 0 0 with
  | .error err => .error (.restorePlan err)
  | .ok infos =>
    if infos = [] then .error .noBackupFiles
    else .ok (f.rebuildIndex (replica.planFiles infos) none)

end VFSFile

/-- A call of one connection. -/
inductive TravelOp (ps : PageSize) where
  | setTargetTime (timestamp : Nat)
  | resetTime
  | poll
  | lock (elock : LockType)
  | wakeLock (elock : LockType)
  | unlock (elock : LockType)
  | writeAt (b : Bytes) (off : Nat)
  | readAt (random : Bytes) (off len : Nat)
  | truncate (size : Nat)
  | sync (outcome : Outcome ps)
  | setWriteEnabled (enabled ready : Bool) (exit : Option Exit) (outcome : Outcome ps)
  | wakeDisable (exit : Option Exit) (outcome : Outcome ps)

namespace VFS

variable {ι : Type} [DecidableEq ι]

/-- The file after a call that may fail. -/
def orSame {ε : Type} (f : VFSFile) : Except ε VFSFile → VFSFile
  | .ok f' => f'
  | .error _ => f

/-- A call that fails before it changes anything is a step that changes nothing. -/
def travel (s : VFS ι ps) : ι × TravelOp ps → Option (VFS ι ps)
  | (c, .setTargetTime timestamp) =>
    some (s.setFile c (orSame (s.file c) ((s.file c).SetTargetTime s.replica timestamp)))
  | (c, .resetTime) => some (s.setFile c (orSame (s.file c) ((s.file c).ResetTime s.replica)))
  | (c, .poll) => some (s.setFile c (orSame (s.file c) ((s.file c).pollReplicaClient s.replica)))
  | (c, .lock elock) => some (s.Lock c elock).1
  | (c, .wakeLock elock) =>
    if elock ∈ (s.conn c).locking ∧ (s.conn c).disabling = false then some (s.wakeLock c elock).1
    else none
  | (c, .unlock elock) => some (s.Unlock c elock).1
  | (c, .writeAt b off) => some (s.WriteAt c b off).1
  | (c, .readAt random off len) =>
    some (s.setFile c ((s.file c).ReadAt s.replica random off len).1)
  | (c, .truncate size) => some (s.setFile c (orSame (s.file c) ((s.file c).Truncate size)))
  | (c, .sync outcome) => if s.Fits c outcome then some (s.Sync c outcome).1 else none
  | (c, .setWriteEnabled enabled ready exit outcome) =>
    if s.Fits c outcome then some (s.SetWriteEnabled c enabled ready exit outcome).1 else none
  | (c, .wakeDisable exit outcome) =>
    if 0 < (s.conn c).disables ∧ s.Fits c outcome then some (s.wakeDisable c exit outcome).1
    else none

/-- With a target time the call accepts no write into the dirty pages and uploads nothing. -/
def TravelsReadOnly (s : VFS ι ps) : ι × TravelOp ps → Prop
  | (c, op) => (s.file c).targetTime ≠ none →
    (∀ b off, op = .writeAt b off → (s.WriteAt c b off).2.isOk = false) ∧
      ∀ s', s.travel (c, op) = some s' →
        (∀ k data, (s'.file c).dirtyPage k = some data → (s.file c).dirtyPage k = some data) ∧
          s'.uploads = s.uploads

/-- A target time is set when no page is dirty, and a file with a target time is written only
when its writes are disabled. -/
def Separate (s : VFS ι ps) : ι × TravelOp ps → Prop
  | (c, .setTargetTime _) => (s.file c).dirty = []
  | (c, .writeAt _ _) => (s.file c).targetTime = none ∨ (s.file c).writeEnabled = false
  | _ => True

instance decidableSeparate (s : VFS ι ps) : ∀ action : ι × TravelOp ps, Decidable (s.Separate action)
  | (c, .setTargetTime _) => inferInstanceAs (Decidable ((s.file c).dirty = []))
  | (c, .writeAt _ _) =>
    inferInstanceAs (Decidable ((s.file c).targetTime = none ∨ (s.file c).writeEnabled = false))
  | (_, .resetTime) => .isTrue trivial
  | (_, .poll) => .isTrue trivial
  | (_, .lock _) => .isTrue trivial
  | (_, .wakeLock _) => .isTrue trivial
  | (_, .unlock _) => .isTrue trivial
  | (_, .readAt _ _ _) => .isTrue trivial
  | (_, .truncate _) => .isTrue trivial
  | (_, .sync _) => .isTrue trivial
  | (_, .setWriteEnabled _ _ _ _) => .isTrue trivial
  | (_, .wakeDisable _ _) => .isTrue trivial

/-- A file with a target time has no dirty page. -/
def TravelsClean (s : VFS ι ps) : Prop :=
  ∀ c, (s.file c).targetTime ≠ none → (s.file c).dirty = []

variable {s s' s'' : VFS ι ps} {c : ι}

/-! ## Calls that accept no write -/

theorem writeAt_disabled (replica : Replica ps) (b : Bytes) (off : Nat) {f : VFSFile}
    (h : f.writeEnabled = false) : ∃ err, f.WriteAt replica b off = (f, .error err) := by
  rw [VFSFile.WriteAt, h]
  split
  · exact ⟨_, rfl⟩
  · dsimp only
    split
    · exact ⟨_, rfl⟩
    · exact ⟨_, rfl⟩

/-- A call that leaves the target time, adds no dirty page if there is none, and then uploads
nothing. -/
structure Quiet (c : ι) (s s' : VFS ι ps) : Prop where
  others : ∀ c', c' ≠ c → s'.file c' = s.file c'
  targetTime : (s'.file c).targetTime = (s.file c).targetTime
  dirty : (s.file c).dirty = [] → (s'.file c).dirty = []
  uploads : (s.file c).dirty = [] → s'.uploads = s.uploads

namespace Quiet

omit [DecidableEq ι] in
theorem refl (c : ι) (s : VFS ι ps) : Quiet c s s := ⟨fun _ _ => rfl, rfl, id, fun _ => rfl⟩

omit [DecidableEq ι] in
theorem trans (h : Quiet c s s') (h' : Quiet c s' s'') : Quiet c s s'' where
  others c' hne := (h'.others c' hne).trans (h.others c' hne)
  targetTime := h'.targetTime.trans h.targetTime
  dirty hdirty := h'.dirty (h.dirty hdirty)
  uploads hdirty := (h'.uploads (h.dirty hdirty)).trans (h.uploads hdirty)

theorem setConn {conn : Connection} (h : conn.file = s.file c) : Quiet c s (s.setConn c conn) := by
  have hself : (s.setConn c conn).file c = s.file c := (file_setConn_self s c conn).trans h
  refine ⟨fun c' hne => ?_, ?_, fun hdirty => ?_, fun _ => rfl⟩
  · rw [file_setConn, if_neg hne]
  · rw [hself]
  · rw [hself]
    exact hdirty

theorem setFile {f : VFSFile} (htarget : f.targetTime = (s.file c).targetTime)
    (hdirty : (s.file c).dirty = [] → f.dirty = []) : Quiet c s (s.setFile c f) := by
  have hself : (s.setFile c f).file c = f := file_setConn_self _ _ _
  refine ⟨fun c' hne => ?_, ?_, fun hnil => ?_, fun _ => rfl⟩
  · rw [VFS.setFile, file_setConn, if_neg hne]
  · rw [hself, htarget]
  · rw [hself]
    exact hdirty hnil

omit [DecidableEq ι] in
/-- The slot makes no difference. -/
theorem of_shared (h : Quiet c s s') (writeFile : Option ι) :
    Quiet c s { s' with writeFile := writeFile } := ⟨h.1, h.2, h.3, h.4⟩

theorem acquire (c : ι) (elock : LockType) (s : VFS ι ps) : Quiet c s (s.acquire c elock).1 := by
  rw [VFS.acquire]
  dsimp only
  split
  · split
    · exact refl c s
    split
    · exact setFile rfl id
    split
    · exact refl c s
    · obtain ⟨expectedTXID, pendingTXID, pos, heq⟩ := adopt_cases s.lastSyncedTXID (s.file c)
      rw [heq]
      have hfile : Quiet c s (s.setFile c { s.file c with
          expectedTXID := expectedTXID, pendingTXID := pendingTXID, pos := pos,
          inTransaction := true, lockType := elock }) := setFile rfl id
      exact hfile.of_shared _
  · exact setFile rfl id

theorem lock (c : ι) (elock : LockType) (s : VFS ι ps) : Quiet c s (s.Lock c elock).1 := by
  rw [VFS.Lock]
  split
  · exact refl c s
  split
  · exact setConn rfl
  · exact acquire c elock s

theorem unlock (c : ι) (elock : LockType) (s : VFS ι ps) : Quiet c s (s.Unlock c elock).1 := by
  rw [VFS.Unlock, VFSFile.Unlock]
  split
  · exact refl c s
  next f hunlock =>
  split at hunlock
  · cases hunlock
  · have hfile : Quiet c s (s.setFile c f) := by
      obtain rfl := Except.ok.inj hunlock
      exact setFile rfl id
    exact hfile.of_shared _

theorem sync (c : ι) (outcome : Outcome ps) (s : VFS ι ps) :
    Quiet c s (s.syncToRemoteWithLock c outcome).1 := by
  rcases sync_cases s c outcome with ⟨heq, -⟩ | ⟨hdirty, file, -, heq⟩
  · rw [heq]
    exact refl c s
  · -- it uploads only when a page is dirty
    rw [heq]
    have htarget : ((s.file c).afterUpload outcome).1.targetTime = (s.file c).targetTime := by
      cases outcome with
      | failed => rfl
      | stored file => rfl
      | unread file => rfl
      | uncleared file => rfl
    have hfile : Quiet c s (s.setFile c ((s.file c).afterUpload outcome).1) :=
      setFile htarget fun hnil => absurd hnil hdirty
    exact ⟨hfile.1, hfile.2, hfile.3, fun hnil => absurd hnil hdirty⟩

theorem disable (c : ι) (exit : Option Exit) (outcome : Outcome ps) (s : VFS ι ps) :
    Quiet c s (s.disable c exit outcome).1 := by
  have hallow : ∀ s' : VFS ι ps, Quiet c s' (s'.allowLocks c) := fun s' => setConn rfl
  unfold VFS.disable
  split
  · cases exit with
    | none => exact setConn rfl
    | some exit => exact hallow s
  · have hsync := sync c outcome s
    split
    · next s' heq =>
        rw [heq] at hsync
        have hfile : (s'.allowLocks c).file c = s'.file c := file_setConn_self _ _ _
        refine (hsync.trans (hallow s')).trans (setFile ?_ fun hdirty => ?_)
        · rw [hfile]
        · rw [hfile] at hdirty
          exact hdirty
    · next s' reply hne heq =>
        rw [heq] at hsync
        exact hsync.trans (hallow s')

theorem setWriteEnabled (c : ι) (enabled ready : Bool) (exit : Option Exit) (outcome : Outcome ps)
    (s : VFS ι ps) : Quiet c s (s.SetWriteEnabled c enabled ready exit outcome).1 := by
  rw [VFS.SetWriteEnabled]
  split
  · exact refl c s
  split
  · split
    · exact setFile rfl id
    · exact refl c s
  · have hset : Quiet c s (s.setConn c { s.conn c with disabling := true }) := setConn rfl
    exact hset.trans (disable c exit outcome _)

/-- Without writes enabled a write changes nothing. -/
theorem writeAt (b : Bytes) (off : Nat) (h : (s.file c).writeEnabled = false) :
    (∃ err, (s.WriteAt c b off).2 = .error err) ∧ Quiet c s (s.WriteAt c b off).1 := by
  obtain ⟨err, heq⟩ := writeAt_disabled s.replica b off h
  rw [VFS.WriteAt, heq]
  exact ⟨⟨err, rfl⟩, setFile rfl id⟩

/-! ## Calls of a file alone -/

theorem readAt (random : Bytes) (off len : Nat) :
    Quiet c s (s.setFile c ((s.file c).ReadAt s.replica random off len).1) := by
  obtain ⟨cache, heq⟩ := readAt_eq s.replica random off len (s.file c)
  rw [heq]
  exact setFile rfl id

theorem truncate (size : Nat) :
    Quiet c s (s.setFile c (orSame (s.file c) ((s.file c).Truncate size))) := by
  rw [VFSFile.Truncate]
  split_ifs
  · exact setFile rfl id
  · exact setFile rfl id
  · refine setFile rfl fun hdirty => ?_
    rw [orSame, hdirty]
    rfl

theorem poll : Quiet c s (s.setFile c (orSame (s.file c) ((s.file c).pollReplicaClient s.replica))) := by
  cases hpoll : (s.file c).pollReplicaClient s.replica with
  | error err => exact setFile rfl id
  | ok f =>
      obtain ⟨p0, p1, rfl⟩ := pollReplicaClient_eq hpoll
      obtain ⟨_, _, _, _, _, _, _, heq⟩ := applyPoll_eq p0 p1 (s.file c)
      rw [orSame, heq]
      exact setFile rfl id

end Quiet

/-! ## Entering and leaving a time -/

theorem dirty_setTargetTime (replica : Replica ps) (timestamp : Nat) (f : VFSFile) :
    (orSame f (f.SetTargetTime replica timestamp)).dirty = f.dirty := by
  cases htarget : f.SetTargetTime replica timestamp with
  | error err => rfl
  | ok f' =>
      rw [VFSFile.SetTargetTime] at htarget
      split at htarget
      · cases htarget
      split at htarget
      · cases htarget
      split at htarget
      · cases htarget
      · obtain rfl := Except.ok.inj htarget
        rfl

/-- `ResetTime` leaves the dirty pages, and no target time unless it fails. -/
theorem resetTime_cases (replica : Replica ps) (f : VFSFile) :
    orSame f (f.ResetTime replica) = f ∨
      (orSame f (f.ResetTime replica)).targetTime = none ∧
        (orSame f (f.ResetTime replica)).dirty = f.dirty := by
  cases hreset : f.ResetTime replica with
  | error err => exact Or.inl rfl
  | ok f' =>
      rw [VFSFile.ResetTime] at hreset
      split at hreset
      · cases hreset
      split at hreset
      · cases hreset
      · obtain rfl := Except.ok.inj hreset
        exact Or.inr ⟨rfl, rfl⟩

/-- What every step keeps if the calls of the past are separate from those that write. -/
structure Travels (c : ι) (s s' : VFS ι ps) : Prop where
  others : ∀ c', c' ≠ c → s'.file c' = s.file c'
  clean : ((s.file c).targetTime ≠ none → (s.file c).dirty = []) →
    (s'.file c).targetTime ≠ none → (s'.file c).dirty = []
  past : (s.file c).targetTime ≠ none → (s.file c).dirty = [] →
    (s'.file c).dirty = [] ∧ s'.uploads = s.uploads

omit [DecidableEq ι] in
theorem Quiet.travels (h : Quiet c s s') : Travels c s s' := by
  refine ⟨h.others, fun hclean htarget => ?_, fun _ hdirty => ⟨h.dirty hdirty, h.uploads hdirty⟩⟩
  rw [h.targetTime] at htarget
  exact h.dirty (hclean htarget)

theorem travels_of_travel {op : TravelOp ps} (hsep : s.Separate (c, op))
    (hstep : s.travel (c, op) = some s') : Travels c s s' := by
  have hself : ∀ f : VFSFile, (s.setFile c f).file c = f := fun f => file_setConn_self _ _ _
  have hother : ∀ (f : VFSFile) (c' : ι), c' ≠ c → (s.setFile c f).file c' = s.file c' := by
    intro f c' hne
    rw [setFile, file_setConn, if_neg hne]
  cases op with
  | setTargetTime timestamp =>
      obtain rfl := Option.some.inj hstep
      have hdirty : ((s.setFile c _).file c).dirty = [] :=
        (congrArg VFSFile.dirty (hself _)).trans
          ((dirty_setTargetTime s.replica timestamp (s.file c)).trans hsep)
      exact ⟨hother _, fun _ _ => hdirty, fun _ _ => ⟨hdirty, rfl⟩⟩
  | resetTime =>
      obtain rfl := Option.some.inj hstep
      rcases resetTime_cases s.replica (s.file c) with heq | ⟨hnone, hdirty⟩
      · rw [heq]
        exact (Quiet.setFile rfl id).travels
      · refine ⟨hother _, fun _ htarget => ?_, fun _ hclean => ?_⟩
        · rw [hself] at htarget
          exact absurd hnone htarget
        · rw [hself]
          exact ⟨hdirty.trans hclean, rfl⟩
  | poll =>
      obtain rfl := Option.some.inj hstep
      exact Quiet.poll.travels
  | lock elock =>
      obtain rfl := Option.some.inj hstep
      exact (Quiet.lock c elock s).travels
  | wakeLock elock =>
      rw [travel] at hstep
      split at hstep
      · obtain rfl := Option.some.inj hstep
        have hset : Quiet c s
            (s.setConn c { s.conn c with locking := (s.conn c).locking.erase elock }) :=
          Quiet.setConn rfl
        exact (hset.trans (Quiet.acquire c elock _)).travels
      · cases hstep
  | unlock elock =>
      obtain rfl := Option.some.inj hstep
      exact (Quiet.unlock c elock s).travels
  | writeAt b off =>
      obtain rfl := Option.some.inj hstep
      rcases hsep with hnone | hoff
      · obtain ⟨cache, commit, dirty, bufferFile, bufferNextOff, heq⟩ :=
          writeAt_eq s.replica b off (s.file c)
        have htarget : ((s.WriteAt c b off).1.file c).targetTime = none := by
          rw [WriteAt, hself, heq]
          exact hnone
        exact ⟨hother _, fun _ hne => absurd htarget hne, fun hne => absurd hnone hne⟩
      · exact (Quiet.writeAt b off hoff).2.travels
  | readAt random off len =>
      obtain rfl := Option.some.inj hstep
      exact (Quiet.readAt random off len).travels
  | truncate size =>
      obtain rfl := Option.some.inj hstep
      exact (Quiet.truncate size).travels
  | sync outcome =>
      rw [travel] at hstep
      split at hstep
      · obtain rfl := Option.some.inj hstep
        rw [Sync]
        split_ifs
        · exact (Quiet.refl c s).travels
        · exact (Quiet.refl c s).travels
        · exact (Quiet.refl c s).travels
        · exact (Quiet.sync c outcome s).travels
      · cases hstep
  | setWriteEnabled enabled ready exit outcome =>
      rw [travel] at hstep
      split at hstep
      · obtain rfl := Option.some.inj hstep
        exact (Quiet.setWriteEnabled c enabled ready exit outcome s).travels
      · cases hstep
  | wakeDisable exit outcome =>
      rw [travel] at hstep
      split at hstep
      · obtain rfl := Option.some.inj hstep
        have hset : Quiet c s (s.setConn c { s.conn c with disables := (s.conn c).disables - 1 }) :=
          Quiet.setConn rfl
        exact (hset.trans (Quiet.disable c exit outcome _)).travels
      · cases hstep

/-! ## Runs -/

theorem TravelsClean.step {action : ι × TravelOp ps} (h : s.TravelsClean)
    (hsep : s.Separate action) (hstep : s.travel action = some s') : s'.TravelsClean := by
  obtain ⟨c, op⟩ := action
  have htravels := travels_of_travel hsep hstep
  intro c' htarget
  by_cases heq : c' = c
  · subst heq
    exact htravels.clean (h c') htarget
  · rw [htravels.others c' heq] at htarget ⊢
    exact h c' htarget

theorem TravelsClean.readOnly {action : ι × TravelOp ps} (h : s.TravelsClean)
    (hsep : s.Separate action) : s.TravelsReadOnly action := by
  obtain ⟨c, op⟩ := action
  intro htarget
  refine ⟨?_, fun s' hstep => ?_⟩
  · rintro b off rfl
    have hoff : (s.file c).writeEnabled = false := hsep.resolve_left htarget
    obtain ⟨⟨err, heq⟩, -⟩ := Quiet.writeAt b off hoff
    rw [heq]
    rfl
  · obtain ⟨hdirty, huploads⟩ := (travels_of_travel hsep hstep).past htarget (h c htarget)
    refine ⟨fun k data hk => ?_, huploads⟩
    rw [VFSFile.dirtyPage, hdirty] at hk
    cases hk

/-- In a run in which a target time is set only when no page is dirty, and a file with a target
time is written only when its writes are disabled, a file with a target time accepts no write
and uploads nothing. -/
theorem read_only {actions : List (ι × TravelOp ps)} (h : s.TravelsClean)
    (hsep : Along travel Separate s actions) : Along travel TravelsReadOnly s actions :=
  along_of_invariant (fun hs hG hstep => TravelsClean.step hs hG hstep)
    (fun hs hG => TravelsClean.readOnly hs hG) h hsep

end VFS

/-! ## A writer of the past -/

namespace Past

open TwoConnections

/-- A replica of a snapshot and a second transaction, and a writer that is at the second. -/
def vfs : VFS Bool PageSize.min where
  conn _ :=
    ⟨{ OnePage.file.rebuildIndex (OnePage.plan 1) none with
        writeEnabled := true
        expectedTXID := 2
        pendingTXID := 3 }, false, [], 0⟩
  writeFile := none
  lastSyncedTXID := 0
  replica := OnePage.replica 1
  uploads := []

theorem length_old : ((7 : UInt8) :: List.replicate 511 1).length = PageSize.min.size := by
  rw [List.length_cons, List.length_replicate]
  rfl

theorem valid_third : FileInfo.Valid ⟨0, 3, 3, 100, 3⟩ := by decide

/-- The third transaction has the page of the snapshot, but for its first byte. -/
def third : LTXFile PageSize.min where
  info := ⟨0, 3, 3, 100, 3⟩
  commit := 1
  frames := [⟨1, 0, 1, ⟨7 :: List.replicate 511 1, length_old⟩⟩]
  valid := valid_third
  pgnos_nodup := OnePage.update.pgnos_nodup
  offsets_nodup := OnePage.update.offsets_nodup
  bounds := by
    intro frame hframe
    rw [List.mem_singleton.mp hframe]
    exact ⟨le_rfl, le_rfl⟩

/-- The time of the snapshot is set, and a transaction begins. -/
def enters : List (Bool × TravelOp PageSize.min) :=
  [(false, .setTargetTime 2), (false, .lock .reserved)]

/-- A byte of the first page is written and synced. -/
def writes : List (Bool × TravelOp PageSize.min) :=
  [(false, .writeAt [7] 0), (false, .unlock .none), (false, .sync (.stored third))]

/-- Writes are disabled as long as the target time is set. -/
def looks : List (Bool × TravelOp PageSize.min) :=
  [(false, .setWriteEnabled false true none .failed), (false, .setTargetTime 2),
    (false, .lock .reserved), (false, .writeAt [7] 0), (false, .readAt [] 0 512),
    (false, .resetTime), (false, .setWriteEnabled true true none .failed)]

theorem clean : vfs.TravelsClean := fun _ htarget => absurd rfl htarget

end Past

open Past in
theorem read_only_sample : (run VFS.travel vfs looks).isSome = true ∧
    Along VFS.travel VFS.TravelsReadOnly vfs looks :=
  ⟨by decide +kernel, VFS.read_only clean (by decide +kernel)⟩

open Past in
/-- A file with a target time takes a write of a page of the past, and uploads it over the second
transaction. -/
theorem past_uploaded : ¬ Along VFS.travel VFS.TravelsReadOnly vfs (enters ++ writes) ∧
    ∃ s, run VFS.travel vfs (enters ++ writes) = some s ∧ (s.file false).targetTime = some 2 ∧
      s.uploads.map (fun upload => upload.2.pages) = [[(1, 7 :: List.replicate 511 1)]] := by
  have henters : (run VFS.travel vfs enters).map (fun s => ((s.file false).targetTime,
      (s.WriteAt false [7] 0).2.isOk)) = some (some 2, true) := by
    decide +kernel
  have hwrites : (run VFS.travel vfs (enters ++ writes)).map (fun s => ((s.file false).targetTime,
      s.uploads.map (fun upload => upload.2.pages))) =
        some (some 2, [[(1, 7 :: List.replicate 511 1)]]) := by
    decide +kernel
  constructor
  · intro h
    obtain ⟨s, hs, heq⟩ := Option.map_eq_some_iff.mp henters
    obtain ⟨htarget, hok⟩ := Prod.mk.inj heq
    obtain ⟨hwrite, -⟩ := (along_append h).2 s hs
    have hrefused := (hwrite (by rw [htarget]; exact Option.some_ne_none 2)).1 [7] 0 rfl
    rw [hok] at hrefused
    cases hrefused
  · obtain ⟨s, hs, heq⟩ := Option.map_eq_some_iff.mp hwrites
    obtain ⟨htarget, huploads⟩ := Prod.mk.inj heq
    exact ⟨s, hs, htarget, huploads⟩

end Vfs

end Litestream
