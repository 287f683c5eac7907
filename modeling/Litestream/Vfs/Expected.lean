import Litestream.Vfs.Conflict
import Litestream.Vfs.TimeTravel

/-!
# The TXID that a writer expects

A file counts its own transactions with `expectedTXID` and `pendingTXID`.  The counters start
when writes are first enabled, and a sync moves them together with the position.  A poll moves
the position alone.

The calls of one file interleave with uploads of others and with the poll of its background
task, which reads the position, lists level 0, lists level 1 and then applies what it has read.

`expected_of_run` says that a file without dirty pages that is at the newest TXID of the remote expects
this TXID, if no poll takes the position past `expectedTXID` once the counters have started.
A poll that does leaves the file behind what it has seen, and its syncs conflict
(`tracks_fails`).
-/

namespace Litestream

namespace Vfs

open Overlay Run

variable {ps : PageSize}

/-! ## One file and its remote -/

/-- How far a poll has come. -/
inductive Polling where
  | idle
  /-- Level 0 has been listed. -/
  | listed0 (commit maxTXID1 : Nat) (p0 : VFSFile.LevelPoll)
  /-- Both levels have been listed. -/
  | listed1 (commit : Nat) (p0 p1 : VFSFile.LevelPoll)

/-- The position that a poll has read. -/
def Polling.read : Polling → Option Nat
  | .listed1 _ p0 p1 => some (max p0.maxTXID p1.maxTXID)
  | _ => none

/-- Applies what a poll has read since it saw the commit size `commit`. -/
def VFSFile.applyPolled (commit : Nat) (p0 p1 : VFSFile.LevelPoll) (f : VFSFile) : VFSFile :=
  if f.targetTime ≠ none then f
  else
    { f.applyPoll p0 p1 with
      commit :=
        if (p0.replaceIndex || p1.replaceIndex) = true ∨ VFSFile.combined p0 p1 ≠ [] ∧
            VFSFile.newCommit commit p0 p1 > f.commit then VFSFile.newCommit commit p0 p1
        else f.commit }

structure Tracked (ps : PageSize) where
  vfs : VFS Unit ps
  polling : Polling

/-- Calls other than those of time travel and polls. -/
def TravelOp.Plain : TravelOp ps → Prop
  | .setTargetTime _ => False
  | .resetTime => False
  | .poll => False
  | _ => True

instance TravelOp.decidablePlain : ∀ op : TravelOp ps, Decidable op.Plain
  | .setTargetTime _ => .isFalse id
  | .resetTime => .isFalse id
  | .poll => .isFalse id
  | .lock _ => .isTrue trivial
  | .wakeLock _ => .isTrue trivial
  | .unlock _ => .isTrue trivial
  | .writeAt _ _ => .isTrue trivial
  | .readAt _ _ _ => .isTrue trivial
  | .truncate _ => .isTrue trivial
  | .sync _ => .isTrue trivial
  | .setWriteEnabled _ _ _ _ => .isTrue trivial
  | .wakeDisable _ _ => .isTrue trivial

inductive TrackedAction (ps : PageSize) where
  | call (op : TravelOp ps)
  /-- Another process stores a file of any level. -/
  | upload (file : LTXFile ps)
  | pollLevel0
  | pollLevel1
  | pollApply

namespace Tracked

def file (s : Tracked ps) : VFSFile := s.vfs.file ()

def step (s : Tracked ps) : TrackedAction ps → Option (Tracked ps)
  | .call op => if op.Plain then (s.vfs.travel ((), op)).map fun vfs => ⟨vfs, s.polling⟩ else none
  | .upload file =>
    some { s with vfs := { s.vfs with replica := s.vfs.replica.write file } }
  | .pollLevel0 =>
    match s.polling with
    | .idle =>
      match VFSFile.pollLevel s.vfs.replica 0 s.file.pos s.file.commit with
      | .ok p0 => some { s with polling := .listed0 s.file.commit s.file.maxTXID1 p0 }
      | .error _ => some s
    | _ => none
  | .pollLevel1 =>
    match s.polling with
    | .listed0 commit maxTXID1 p0 =>
      match VFSFile.pollLevel s.vfs.replica 1 maxTXID1 (VFSFile.baseCommit commit p0) with
      | .ok p1 => some { s with polling := .listed1 commit p0 p1 }
      | .error _ => some { s with polling := .idle }
    | _ => none
  | .pollApply =>
    match s.polling with
    | .listed1 commit p0 p1 =>
      some ⟨s.vfs.setFile () (s.file.applyPolled commit p0 p1), .idle⟩
    | _ => none

/-- The newest TXID of the remote. -/
def Newest (s : Tracked ps) (txID : Nat) : Prop :=
  (∀ level, ∀ g ∈ s.vfs.replica.level level, g.maxTXID ≤ txID) ∧
    (txID = 0 ∨ ∃ level, ∃ g ∈ s.vfs.replica.level level, g.maxTXID = txID)

/-- With writes enabled at the newest TXID of the remote: without dirty pages the file expects
this TXID, and in any case a sync meets no conflict. -/
structure Tracks (s : Tracked ps) : Prop where
  expected : s.file.writeEnabled = true → s.file.dirty = [] → s.Newest s.file.pos →
    s.file.expectedTXID = s.file.pos
  noConflict : s.file.writeEnabled = true → s.Newest s.file.pos →
    s.file.checkForConflict s.vfs.replica = .ok ()

/-- A poll does not take the position past `expectedTXID` once the counters have started. -/
def Abreast (s : Tracked ps) : TrackedAction ps → Prop
  | .pollApply => ∀ txID ∈ s.polling.read, s.file.pendingTXID = 0 ∨ txID ≤ s.file.expectedTXID
  | _ => True

instance decidableAbreast (s : Tracked ps) : ∀ a : TrackedAction ps, Decidable (s.Abreast a)
  | .pollApply => inferInstanceAs (Decidable (∀ txID ∈ s.polling.read,
      s.file.pendingTXID = 0 ∨ txID ≤ s.file.expectedTXID))
  | .call _ => .isTrue trivial
  | .upload _ => .isTrue trivial
  | .pollLevel0 => .isTrue trivial
  | .pollLevel1 => .isTrue trivial

/-- The remote has a transaction with the TXID or a later one. -/
def Reaches (replica : Replica ps) (txID : Nat) : Prop :=
  txID = 0 ∨ ∃ level, ∃ g ∈ replica.level level, txID ≤ g.maxTXID

/-- The file has been opened at a position of its remote, for reading or for writing. -/
structure Opened (s : Tracked ps) : Prop where
  pos : Reaches s.vfs.replica s.file.pos
  maxTXID1 : Reaches s.vfs.replica s.file.maxTXID1
  counters : s.file.writeEnabled = false ∧ s.file.dirty = [] ∧ s.file.expectedTXID = 0 ∧
      s.file.pendingTXID = 0 ∨
    s.file.expectedTXID = s.file.pos ∧ s.file.pendingTXID = s.file.pos + 1
  lastSyncedTXID : s.vfs.lastSyncedTXID ≤ s.file.expectedTXID
  polling : s.polling = .idle

end Tracked

/-! ## What is stored -/

section Stored

variable {replica : Replica ps} {file g : LTXFile ps} {level txID : Nat}

theorem mem_write_self (replica : Replica ps) (file : LTXFile ps) :
    file ∈ (replica.write file).level file.info.level := by
  rw [Replica.write]
  dsimp only
  rw [if_pos rfl]
  split
  · exact List.mem_append_right _ (List.mem_singleton_self file)
  · next hstale =>
      rw [Replica.Fresh, not_not, List.mem_map] at hstale
      obtain ⟨old, hold, hname⟩ := hstale
      exact List.mem_map.mpr ⟨old, hold, if_pos hname⟩

/-- An upload keeps the names of the stored files. -/
theorem exists_mem_write (hg : g ∈ replica.level level) :
    ∃ g' ∈ (replica.write file).level level, g'.maxTXID = g.maxTXID := by
  rw [Replica.write]
  dsimp only
  split
  · split
    · exact ⟨g, List.mem_append_left _ hg, rfl⟩
    · refine ⟨_, List.mem_map.mpr ⟨g, hg, rfl⟩, ?_⟩
      split
      · next hname => exact (Prod.mk.inj hname).2.symm
      · rfl
  · exact ⟨g, hg, rfl⟩

/-- An upload stores nothing else. -/
theorem eq_or_mem_of_mem_write (hg : g ∈ (replica.write file).level level) :
    g = file ∨ g ∈ replica.level level := by
  rw [Replica.write] at hg
  dsimp only at hg
  split at hg
  · split at hg
    · rcases List.mem_append.mp hg with hg | hg
      · exact .inr hg
      · exact .inl (List.mem_singleton.mp hg)
    · obtain ⟨old, hold, rfl⟩ := List.mem_map.mp hg
      split
      · exact .inl rfl
      · exact .inr hold
  · exact .inr hg

namespace Tracked.Reaches

theorem of_mem (hg : g ∈ replica.level level) : Reaches replica g.maxTXID :=
  .inr ⟨level, g, hg, le_rfl⟩

theorem write (h : Reaches replica txID) (file : LTXFile ps) :
    Reaches (replica.write file) txID := by
  rcases h with hzero | ⟨level, g, hg, hle⟩
  · exact .inl hzero
  · obtain ⟨g', hg', heq⟩ := exists_mem_write hg
    exact .inr ⟨level, g', hg', heq ▸ hle⟩

theorem max {txID' : Nat} (h : Reaches replica txID) (h' : Reaches replica txID') :
    Reaches replica (max txID txID') := by
  rcases le_total txID txID' with hle | hle
  · rwa [max_eq_right hle]
  · rwa [max_eq_left hle]

/-- A poll reads no TXID that the remote does not have. -/
theorem pollFiles {p q : VFSFile.LevelPoll} {n : Nat} {files : List (LTXFile ps)}
    (hp : Reaches replica p.maxTXID) (hfiles : ∀ g ∈ files, g ∈ replica.level level)
    (h : VFSFile.pollFiles n p files = .ok q) : Reaches replica q.maxTXID := by
  induction files generalizing p with
  | nil =>
      obtain rfl := Except.ok.inj h
      exact hp
  | cons file files ih =>
      rw [VFSFile.pollFiles] at h
      obtain ⟨hfile, hrest⟩ := List.forall_mem_cons.mp hfiles
      split_ifs at h
      · obtain rfl := Except.ok.inj h
        exact hp
      · exact ih (of_mem hfile) hrest h

theorem pollLevel {q : VFSFile.LevelPoll} {n prevMaxTXID baseCommit : Nat}
    (hprev : Reaches replica prevMaxTXID)
    (h : VFSFile.pollLevel replica n prevMaxTXID baseCommit = .ok q) : Reaches replica q.maxTXID :=
  pollFiles hprev (fun _ hg => (List.mem_filter.mp hg).1) h

end Tracked.Reaches

end Stored

/-! ## Counters -/

/-- What the calls of a file count with. -/
structure Counters (ps : PageSize) where
  pos : Nat
  maxTXID1 : Nat
  expectedTXID : Nat
  pendingTXID : Nat
  lastSyncedTXID : Nat
  replica : Replica ps

namespace Counters

/-- Writes are enabled. -/
def start (k : Counters ps) : Counters ps :=
  { k with
    expectedTXID := if k.pendingTXID = 0 then k.pos else k.expectedTXID
    pendingTXID := if k.pendingTXID = 0 then k.pos + 1 else k.pendingTXID }

/-- The file of a sync has been stored. -/
def upload (k : Counters ps) (file : LTXFile ps) : Counters ps :=
  { k with
    pos := k.pendingTXID
    expectedTXID := k.pendingTXID
    pendingTXID := k.pendingTXID + 1
    lastSyncedTXID := max k.lastSyncedTXID k.pendingTXID
    replica := k.replica.write file }

/-- A started file is not past the TXID that it expects, which the remote has reached. -/
structure Inv (k : Counters ps) : Prop where
  pos : Tracked.Reaches k.replica k.pos
  maxTXID1 : Tracked.Reaches k.replica k.maxTXID1
  expected : Tracked.Reaches k.replica k.expectedTXID
  started : k.pendingTXID ≠ 0 → k.pos ≤ k.expectedTXID ∧ k.pendingTXID = k.expectedTXID + 1
  unstarted : k.pendingTXID = 0 → k.expectedTXID = 0
  lastSyncedTXID : k.lastSyncedTXID ≤ k.expectedTXID

variable {k : Counters ps} {file : LTXFile ps}

theorem Inv.start (h : k.Inv) : k.start.Inv := by
  by_cases hzero : k.pendingTXID = 0
  · rw [Counters.start, if_pos hzero, if_pos hzero]
    have hlast : k.lastSyncedTXID = 0 :=
      Nat.le_zero.mp ((h.unstarted hzero) ▸ h.lastSyncedTXID)
    exact ⟨h.pos, h.maxTXID1, h.pos, fun _ => ⟨le_rfl, rfl⟩, fun hpending => by simp at hpending,
      by simp [hlast]⟩
  · rw [Counters.start, if_neg hzero, if_neg hzero]
    exact h

theorem Inv.upload (h : k.Inv) (hstarted : k.pendingTXID ≠ 0) (hmax : file.maxTXID = k.pendingTXID) :
    (k.upload file).Inv := by
  have hfile : Tracked.Reaches (k.replica.write file) k.pendingTXID :=
    hmax ▸ .of_mem (mem_write_self k.replica file)
  refine ⟨hfile, h.maxTXID1.write file, hfile, fun _ => ⟨le_rfl, rfl⟩, fun hzero => ?_, ?_⟩
  · simp [Counters.upload] at hzero
  · have hnext := (h.started hstarted).2
    have hlast := h.lastSyncedTXID
    simp only [Counters.upload]
    omega

/-- An upload of another process. -/
theorem Inv.write (h : k.Inv) (file : LTXFile ps) :
    Inv { k with replica := k.replica.write file } :=
  ⟨h.pos.write file, h.maxTXID1.write file, h.expected.write file, h.started, h.unstarted,
    h.lastSyncedTXID⟩

/-- A poll that keeps abreast. -/
theorem Inv.poll (h : k.Inv) {pos maxTXID1 : Nat} (hpos : Tracked.Reaches k.replica pos)
    (hmax : Tracked.Reaches k.replica maxTXID1)
    (habreast : k.pendingTXID = 0 ∨ pos ≤ k.expectedTXID) :
    Inv { k with pos := pos, maxTXID1 := maxTXID1 } :=
  ⟨hpos, hmax, h.expected, fun hstarted =>
    ⟨habreast.resolve_left hstarted, (h.started hstarted).2⟩, h.unstarted, h.lastSyncedTXID⟩

end Counters

/-! ## What the calls count -/

/-- Writes are enabled, or pages of earlier writes are still dirty. -/
def VFSFile.Active (f : VFSFile) : Prop := f.writeEnabled = true ∨ f.dirty ≠ []

namespace VFS

variable {ι : Type} [DecidableEq ι] {s s' s'' : VFS ι ps} {c : ι}

def counters (c : ι) (s : VFS ι ps) : Counters ps where
  pos := (s.file c).pos
  maxTXID1 := (s.file c).maxTXID1
  expectedTXID := (s.file c).expectedTXID
  pendingTXID := (s.file c).pendingTXID
  lastSyncedTXID := s.lastSyncedTXID
  replica := s.replica

/-- A call that counts nothing. -/
structure Still (c : ι) (s s' : VFS ι ps) : Prop where
  counters : s'.counters c = s.counters c
  active : (s'.file c).Active → (s.file c).Active

/-- What one call counts. -/
inductive Counted (c : ι) (s s' : VFS ι ps) : Prop where
  | still (h : Still c s s')
  | started (h : s'.counters c = (s.counters c).start)
  | uploaded (file : LTXFile ps) (hmax : file.maxTXID = (s.file c).pendingTXID)
      (h : s'.counters c = (s.counters c).upload file)
      (hwas : (s.file c).Active)

namespace Still

omit [DecidableEq ι] in
theorem refl (c : ι) (s : VFS ι ps) : Still c s s := ⟨rfl, id⟩

omit [DecidableEq ι] in
theorem trans (h : Still c s s') (h' : Still c s' s'') : Still c s s'' :=
  ⟨h'.counters.trans h.counters, fun hactive => h.active (h'.active hactive)⟩

theorem setConn {conn : Connection} (h : conn.file = s.file c) : Still c s (s.setConn c conn) := by
  have hself : (s.setConn c conn).file c = s.file c := (file_setConn_self s c conn).trans h
  refine ⟨?_, fun hactive => hself ▸ hactive⟩
  simp only [VFS.counters, hself]
  rfl

theorem setFile {f : VFSFile} (hpos : f.pos = (s.file c).pos)
    (hmax : f.maxTXID1 = (s.file c).maxTXID1) (hexpected : f.expectedTXID = (s.file c).expectedTXID)
    (hpending : f.pendingTXID = (s.file c).pendingTXID)
    (hactive : f.Active → (s.file c).Active) : Still c s (s.setFile c f) := by
  have hself : (s.setFile c f).file c = f := file_setConn_self _ _ _
  refine ⟨?_, fun h => hactive (hself ▸ h)⟩
  simp only [VFS.counters, hself, hpos, hmax, hexpected, hpending]
  rfl

omit [DecidableEq ι] in
/-- The slot makes no difference. -/
theorem of_shared (h : Still c s s') (writeFile : Option ι) :
    Still c s { s' with writeFile := writeFile } := ⟨h.1, h.2⟩

/-- A lock adopts nothing if no other connection has synced. -/
theorem acquire (elock : LockType) (hlast : s.lastSyncedTXID ≤ (s.file c).expectedTXID) :
    Still c s (s.acquire c elock).1 := by
  rw [VFS.acquire]
  dsimp only
  split
  · split
    · exact refl c s
    split
    · exact setFile rfl rfl rfl rfl id
    split
    · exact refl c s
    · rw [adopt, if_neg fun h => absurd h.1 (Nat.not_lt.mpr hlast)]
      have hfile : Still c s (s.setFile c
          { s.file c with inTransaction := true, lockType := elock }) :=
        setFile rfl rfl rfl rfl id
      exact hfile.of_shared _
  · exact setFile rfl rfl rfl rfl id

theorem lock (elock : LockType) (hlast : s.lastSyncedTXID ≤ (s.file c).expectedTXID) :
    Still c s (s.Lock c elock).1 := by
  rw [VFS.Lock]
  split
  · exact refl c s
  split
  · exact setConn rfl
  · exact acquire elock hlast

theorem wakeLock (elock : LockType) (hlast : s.lastSyncedTXID ≤ (s.file c).expectedTXID) :
    Still c s (s.wakeLock c elock).1 := by
  have hset : Still c s (s.setConn c
      { s.conn c with locking := (s.conn c).locking.erase elock }) := setConn rfl
  rw [VFS.wakeLock]
  refine hset.trans (acquire elock ?_)
  rw [file_setConn_self]
  exact hlast

theorem unlock (c : ι) (elock : LockType) (s : VFS ι ps) : Still c s (s.Unlock c elock).1 := by
  rw [VFS.Unlock, VFSFile.Unlock]
  split
  · exact refl c s
  next f hunlock =>
  split at hunlock
  · cases hunlock
  · have hfile : Still c s (s.setFile c f) := by
      obtain rfl := Except.ok.inj hunlock
      exact setFile rfl rfl rfl rfl id
    exact hfile.of_shared _

theorem writeAt (b : Bytes) (off : Nat) : Still c s (s.WriteAt c b off).1 := by
  cases hwrite : (s.file c).writeEnabled with
  | true =>
      obtain ⟨cache, commit, dirty, bufferFile, bufferNextOff, heq⟩ :=
        writeAt_eq s.replica b off (s.file c)
      rw [VFS.WriteAt]
      dsimp only
      rw [heq]
      exact setFile rfl rfl rfl rfl fun _ => .inl hwrite
  | false =>
      obtain ⟨err, heq⟩ := writeAt_disabled s.replica b off hwrite
      rw [VFS.WriteAt, heq]
      exact setFile rfl rfl rfl rfl id

theorem readAt (random : Bytes) (off len : Nat) :
    Still c s (s.setFile c ((s.file c).ReadAt s.replica random off len).1) := by
  obtain ⟨cache, heq⟩ := readAt_eq s.replica random off len (s.file c)
  rw [heq]
  exact setFile rfl rfl rfl rfl id

theorem truncate (size : Nat) :
    Still c s (s.setFile c (orSame (s.file c) ((s.file c).Truncate size))) := by
  rw [VFSFile.Truncate]
  split_ifs
  · exact setFile rfl rfl rfl rfl id
  · exact setFile rfl rfl rfl rfl id
  · refine setFile rfl rfl rfl rfl fun hactive => hactive.imp id fun hdirty hnil => hdirty ?_
    rw [orSame, hnil]
    rfl

end Still

namespace Counted

omit [DecidableEq ι] in
/-- What is counted after a call that counts nothing. -/
theorem after_still (h : Still c s s') (h' : Counted c s' s'') : Counted c s s'' := by
  cases h' with
  | still h' => exact .still (h.trans h')
  | started h' => exact .started (by rw [h', h.counters])
  | uploaded file hmax h' hwas =>
      have hpending : (s'.file c).pendingTXID = (s.file c).pendingTXID :=
        congrArg Counters.pendingTXID h.counters
      exact .uploaded file (hmax.trans hpending) (by rw [h', h.counters]) (h.active hwas)

omit [DecidableEq ι] in
theorem before_still (h : Counted c s s') (h' : Still c s' s'') : Counted c s s'' := by
  cases h with
  | still h => exact .still (h.trans h')
  | started h => exact .started (h'.counters.trans h)
  | uploaded file hmax h hwas => exact .uploaded file hmax (h'.counters.trans h) hwas

theorem sync {outcome : Outcome ps} (hfits : s.Fits c outcome) :
    Counted c s (s.syncToRemoteWithLock c outcome).1 := by
  rcases sync_cases s c outcome with ⟨heq, -⟩ | ⟨hdirty, file, hfile, heq⟩
  · rw [heq]
    exact .still (.refl c s)
  · have hself : (s.setFile c ((s.file c).afterUpload outcome).1).file c =
        ((s.file c).afterUpload outcome).1 := file_setConn_self _ _ _
    refine .uploaded file (hfits file hfile).2.2.1 ?_ (.inr hdirty)
    rw [heq]
    have hfile : ∀ s' : VFS ι ps, s'.file c = ((s.file c).afterUpload outcome).1 →
        s'.lastSyncedTXID = max s.lastSyncedTXID (s.file c).pendingTXID →
        s'.replica = s.replica.write file → s'.counters c = (s.counters c).upload file := by
      intro s' hfile' hlast hreplica
      rw [VFS.counters, hfile', hlast, hreplica]
      cases outcome with
      | failed => cases hfile
      | stored file => rfl
      | unread file => rfl
      | uncleared file => rfl
    exact hfile _ hself rfl rfl

theorem disable {exit : Option Exit} {outcome : Outcome ps} (hfits : s.Fits c outcome) :
    Counted c s (s.disable c exit outcome).1 := by
  have hallow : ∀ s' : VFS ι ps, Still c s' (s'.allowLocks c) := fun s' => .setConn rfl
  unfold VFS.disable
  split
  · cases exit with
    | none => exact .still (.setConn rfl)
    | some exit => exact .still (hallow s)
  · have hsync := sync hfits
    split
    · next s' heq =>
        rw [heq] at hsync
        have hfile : (s'.allowLocks c).file c = s'.file c := file_setConn_self _ _ _
        have hset : Still c (s'.allowLocks c)
            ((s'.allowLocks c).setFile c { s'.file c with writeEnabled := false }) := by
          refine .setFile ?_ ?_ ?_ ?_ fun hactive => ?_
          · rw [hfile]
          · rw [hfile]
          · rw [hfile]
          · rw [hfile]
          · rw [hfile]
            exact .inr (hactive.resolve_left Bool.false_ne_true)
        exact hsync.before_still ((hallow s').trans hset)
    · next s' reply hne heq =>
        rw [heq] at hsync
        exact hsync.before_still (hallow s')

theorem setWriteEnabled {enabled ready : Bool} {exit : Option Exit} {outcome : Outcome ps}
    (hfits : s.Fits c outcome) :
    Counted c s (s.SetWriteEnabled c enabled ready exit outcome).1 := by
  rw [VFS.SetWriteEnabled]
  split
  · exact .still (.refl c s)
  split
  · split
    · have hself : (s.setFile c (s.file c).enabled).file c = (s.file c).enabled :=
        file_setConn_self _ _ _
      refine .started ?_
      simp only [VFS.counters, hself]
      rfl
    · exact .still (.refl c s)
  · have hset : Still c s (s.setConn c { s.conn c with disabling := true }) := .setConn rfl
    refine after_still hset (disable ?_)
    rw [VFS.Fits, file_setConn_self]
    exact hfits

theorem wakeDisable {exit : Option Exit} {outcome : Outcome ps} (hfits : s.Fits c outcome) :
    Counted c s (s.wakeDisable c exit outcome).1 := by
  have hset : Still c s (s.setConn c { s.conn c with disables := (s.conn c).disables - 1 }) :=
    .setConn rfl
  rw [VFS.wakeDisable]
  refine after_still hset (disable ?_)
  rw [VFS.Fits, file_setConn_self]
  exact hfits

theorem syncCall {outcome : Outcome ps} (hfits : s.Fits c outcome) :
    Counted c s (s.Sync c outcome).1 := by
  rw [VFS.Sync]
  split_ifs
  · exact .still (.refl c s)
  · exact .still (.refl c s)
  · exact .still (.refl c s)
  · exact sync hfits

/-- What a call counts, if no other connection has synced. -/
theorem travel {op : TravelOp ps} (hplain : op.Plain)
    (hlast : s.lastSyncedTXID ≤ (s.file c).expectedTXID) (h : s.travel (c, op) = some s') :
    Counted c s s' := by
  cases op with
  | setTargetTime timestamp => exact hplain.elim
  | resetTime => exact hplain.elim
  | poll => exact hplain.elim
  | lock elock =>
      obtain rfl := Option.some.inj h
      exact .still (.lock elock hlast)
  | wakeLock elock =>
      rw [VFS.travel] at h
      split_ifs at h
      obtain rfl := Option.some.inj h
      exact .still (.wakeLock elock hlast)
  | unlock elock =>
      obtain rfl := Option.some.inj h
      exact .still (.unlock c elock s)
  | writeAt b off =>
      obtain rfl := Option.some.inj h
      exact .still (.writeAt b off)
  | readAt random off len =>
      obtain rfl := Option.some.inj h
      exact .still (.readAt random off len)
  | truncate size =>
      obtain rfl := Option.some.inj h
      exact .still (.truncate size)
  | sync outcome =>
      rw [VFS.travel] at h
      split_ifs at h with hfits
      obtain rfl := Option.some.inj h
      exact syncCall hfits
  | setWriteEnabled enabled ready exit outcome =>
      rw [VFS.travel] at h
      split_ifs at h with hfits
      obtain rfl := Option.some.inj h
      exact setWriteEnabled hfits
  | wakeDisable exit outcome =>
      rw [VFS.travel] at h
      split_ifs at h with hfits
      obtain rfl := Option.some.inj h
      exact wakeDisable hfits.2

end Counted

end VFS

/-! ## Runs -/

namespace Tracked

/-- A poll has read no TXID that the remote does not have. -/
def PollInv (replica : Replica ps) : Polling → Prop
  | .idle => True
  | .listed0 _ maxTXID1 p0 => Reaches replica maxTXID1 ∧ Reaches replica p0.maxTXID
  | .listed1 _ p0 p1 => Reaches replica p0.maxTXID ∧ Reaches replica p1.maxTXID

structure Inv (s : Tracked ps) : Prop where
  counters : (s.vfs.counters ()).Inv
  active : s.file.Active → s.file.pendingTXID ≠ 0
  polling : PollInv s.vfs.replica s.polling

variable {s s' : Tracked ps} {replica : Replica ps} {polling : Polling}

theorem PollInv.write (h : PollInv replica polling) (file : LTXFile ps) :
    PollInv (replica.write file) polling := by
  cases polling with
  | idle => trivial
  | listed0 commit maxTXID1 p0 => exact ⟨h.1.write file, h.2.write file⟩
  | listed1 commit p0 p1 => exact ⟨h.1.write file, h.2.write file⟩

theorem Opened.inv (h : s.Opened) : s.Inv := by
  refine ⟨⟨h.pos, h.maxTXID1, ?_, ?_, ?_, h.lastSyncedTXID⟩, fun hactive => ?_, ?_⟩
  · rcases h.counters with ⟨-, -, hexpected, -⟩ | ⟨hexpected, -⟩
    · exact .inl hexpected
    · exact (congrArg (Reaches s.vfs.replica) hexpected).mpr h.pos
  · intro hstarted
    rcases h.counters with ⟨-, -, -, hpending⟩ | ⟨hexpected, hpending⟩
    · exact absurd hpending hstarted
    · exact ⟨hexpected.ge, hpending.trans (congrArg (· + 1) hexpected.symm)⟩
  · intro hunstarted
    rcases h.counters with ⟨-, -, hexpected, -⟩ | ⟨-, hpending⟩
    · exact hexpected
    · exact absurd (hpending.symm.trans hunstarted) (Nat.succ_ne_zero _)
  · rcases h.counters with ⟨hread, hclean, -⟩ | ⟨-, hpending⟩
    · rcases hactive with henabled | hdirty
      · exact absurd (hread.symm.trans henabled) Bool.false_ne_true
      · exact absurd hclean hdirty
    · exact hpending ▸ Nat.succ_ne_zero _
  · rw [h.polling]
    trivial

/-- A call of the file. -/
theorem Inv.call (h : s.Inv) {vfs : VFS Unit ps} (hcounted : VFS.Counted () s.vfs vfs) :
    Inv ⟨vfs, s.polling⟩ := by
  cases hcounted with
  | still hstill =>
      have hpending : (vfs.file ()).pendingTXID = s.file.pendingTXID :=
        congrArg Counters.pendingTXID hstill.counters
      have hreplica : vfs.replica = s.vfs.replica := congrArg Counters.replica hstill.counters
      refine ⟨?_, fun hactive => ?_, ?_⟩
      · rw [hstill.counters]
        exact h.counters
      · exact (congrArg (· ≠ 0) hpending).mpr (h.active (hstill.active hactive))
      · rw [hreplica]
        exact h.polling
  | started hstarted =>
      have hpending : (vfs.file ()).pendingTXID =
          if s.file.pendingTXID = 0 then s.file.pos + 1 else s.file.pendingTXID :=
        congrArg Counters.pendingTXID hstarted
      have hreplica : vfs.replica = s.vfs.replica := congrArg Counters.replica hstarted
      refine ⟨?_, fun _ hzero => ?_, ?_⟩
      · rw [hstarted]
        exact h.counters.start
      · have hfile : (vfs.file ()).pendingTXID = 0 := hzero
        split_ifs at hpending with hwas
        · omega
        · exact hwas (hpending.symm.trans hfile)
      · rw [hreplica]
        exact h.polling
  | uploaded file hmax huploaded hwas =>
      have hpending : (vfs.file ()).pendingTXID = s.file.pendingTXID + 1 :=
        congrArg Counters.pendingTXID huploaded
      have hreplica : vfs.replica = s.vfs.replica.write file :=
        congrArg Counters.replica huploaded
      refine ⟨?_, fun _ hzero => ?_, ?_⟩
      · rw [huploaded]
        exact h.counters.upload (h.active hwas) hmax
      · have hfile : (vfs.file ()).pendingTXID = 0 := hzero
        omega
      · rw [hreplica]
        exact h.polling.write file

/-- A poll that has read both levels is applied. -/
theorem Inv.apply (h : s.Inv) {commit : Nat} {p0 p1 : VFSFile.LevelPoll}
    (hpolling : s.polling = .listed1 commit p0 p1)
    (habreast : s.file.pendingTXID = 0 ∨ max p0.maxTXID p1.maxTXID ≤ s.file.expectedTXID) :
    Inv ⟨s.vfs.setFile () (s.file.applyPolled commit p0 p1), .idle⟩ := by
  have hself : (s.vfs.setFile () (s.file.applyPolled commit p0 p1)).file () =
      s.file.applyPolled commit p0 p1 := VFS.file_setConn_self _ _ _
  have hreached := h.polling
  rw [hpolling] at hreached
  by_cases htarget : s.file.targetTime = none
  · have happlied : ∃ index pending pendingReplace cache commit',
        s.file.applyPolled commit p0 p1 =
          { s.file with
            index := index
            pending := pending
            pendingReplace := pendingReplace
            cache := cache
            commit := commit'
            pos := max p0.maxTXID p1.maxTXID
            maxTXID1 := p1.maxTXID } := by
      have hpos := applyPoll_counters htarget p0 p1
      obtain ⟨index, pending, pendingReplace, cache, commit', pos, maxTXID1, heq⟩ :=
        applyPoll_eq p0 p1 s.file
      rw [VFSFile.applyPolled, if_neg (not_not.mpr htarget)]
      rw [heq] at hpos ⊢
      obtain ⟨rfl, rfl, -⟩ := hpos
      exact ⟨_, _, _, _, _, rfl⟩
    obtain ⟨index, pending, pendingReplace, cache, commit', heq⟩ := happlied
    refine ⟨?_, fun hactive => ?_, trivial⟩
    · have hpoll := h.counters.poll (hreached.1.max hreached.2) hreached.2 habreast
      rw [VFS.counters, hself, heq]
      exact hpoll
    · rw [Tracked.file, hself, heq] at hactive ⊢
      exact h.active hactive
  · have hsame : s.file.applyPolled commit p0 p1 = s.file := by
      rw [VFSFile.applyPolled, if_pos htarget]
    rw [hsame]
    have hstill : VFS.Still () s.vfs (s.vfs.setFile () s.file) := .setFile rfl rfl rfl rfl id
    have hcall := h.call (.still hstill)
    exact ⟨hcall.counters, hcall.active, trivial⟩

theorem step_inv {a : TrackedAction ps} (h : s.Inv) (habreast : s.Abreast a)
    (hstep : s.step a = some s') : s'.Inv := by
  cases a with
  | call op =>
      rw [step] at hstep
      split_ifs at hstep with hplain
      obtain ⟨vfs, hvfs, rfl⟩ := Option.map_eq_some_iff.mp hstep
      exact h.call (.travel hplain h.counters.lastSyncedTXID hvfs)
  | upload file =>
      obtain rfl := Option.some.inj hstep
      exact ⟨h.counters.write file, h.active, h.polling.write file⟩
  | pollLevel0 =>
      cases hpolling : s.polling with
      | listed0 commit maxTXID1 p0 => simp [step, hpolling] at hstep
      | listed1 commit p0 p1 => simp [step, hpolling] at hstep
      | idle =>
          cases hlist : VFSFile.pollLevel s.vfs.replica 0 s.file.pos s.file.commit with
          | error err =>
              simp only [step, hpolling, hlist, Option.some.injEq] at hstep
              exact hstep ▸ h
          | ok p0 =>
              simp only [step, hpolling, hlist, Option.some.injEq] at hstep
              subst hstep
              exact ⟨h.counters, h.active, h.counters.maxTXID1, .pollLevel h.counters.pos hlist⟩
  | pollLevel1 =>
      have hreached := h.polling
      cases hpolling : s.polling with
      | idle => simp [step, hpolling] at hstep
      | listed1 commit p0 p1 => simp [step, hpolling] at hstep
      | listed0 commit maxTXID1 p0 =>
          rw [hpolling] at hreached
          cases hlist : VFSFile.pollLevel s.vfs.replica 1 maxTXID1
              (VFSFile.baseCommit commit p0) with
          | error err =>
              simp only [step, hpolling, hlist, Option.some.injEq] at hstep
              subst hstep
              exact ⟨h.counters, h.active, trivial⟩
          | ok p1 =>
              simp only [step, hpolling, hlist, Option.some.injEq] at hstep
              subst hstep
              exact ⟨h.counters, h.active, hreached.2, .pollLevel hreached.1 hlist⟩
  | pollApply =>
      cases hpolling : s.polling with
      | idle => simp [step, hpolling] at hstep
      | listed0 commit maxTXID1 p0 => simp [step, hpolling] at hstep
      | listed1 commit p0 p1 =>
          simp only [step, hpolling, Option.some.injEq] at hstep
          subst hstep
          exact h.apply hpolling (habreast _ (by rw [hpolling]; rfl))

theorem foldl_max_le {n : Nat} {files : List (LTXFile ps)} {init : Nat} (hinit : init ≤ n)
    (hfiles : ∀ g ∈ files, g.maxTXID ≤ n) :
    files.foldl (fun remoteTXID file => max remoteTXID file.maxTXID) init ≤ n := by
  induction files generalizing init with
  | nil => exact hinit
  | cons file files ih =>
      obtain ⟨hfile, hrest⟩ := List.forall_mem_cons.mp hfiles
      exact ih (max_le hinit hfile) hrest

/-- A sync of a file that expects the newest TXID meets no conflict. -/
theorem checkForConflict_of_le {f : VFSFile}
    (h : ∀ g ∈ replica.level 0, g.maxTXID ≤ f.expectedTXID) :
    f.checkForConflict replica = .ok () := by
  have hlisted : ∀ g ∈ (replica.level 0).filter fun file => f.expectedTXID ≤ file.minTXID,
      g.maxTXID ≤ f.expectedTXID := fun g hg => h g (List.mem_filter.mp hg).1
  have hle := foldl_max_le (Nat.zero_le f.expectedTXID) hlisted
  rw [VFSFile.checkForConflict]
  exact if_neg (Nat.not_lt.mpr hle)

/-- At the newest TXID a started file is where it expects to be. -/
theorem Inv.expected (h : s.Inv) (hactive : s.file.Active) (hnewest : s.Newest s.file.pos) :
    s.file.expectedTXID = s.file.pos := by
  refine le_antisymm ?_ (h.counters.started (h.active hactive)).1
  rcases h.counters.expected with hzero | ⟨level, g, hg, hle⟩
  · exact (Nat.le_zero.mpr hzero).trans (Nat.zero_le _)
  · exact hle.trans (hnewest.1 level g hg)

theorem Inv.tracks (h : s.Inv) : s.Tracks := by
  refine ⟨fun henabled _ hnewest => h.expected (.inl henabled) hnewest,
    fun henabled hnewest => checkForConflict_of_le fun g hg => ?_⟩
  rw [h.expected (.inl henabled) hnewest]
  exact hnewest.1 0 g hg

/-- In a run in which no poll takes the position past `expectedTXID` once the counters have
started, a file that is at the newest TXID of the remote expects it, and syncs without a
conflict. -/
theorem expected_of_run {actions : List (TrackedAction ps)} (h : s.Opened)
    (habreast : Along step Abreast s actions) (hrun : run step s actions = some s') :
    s'.Tracks :=
  (run_induction (I := Inv) step_inv h.inv habreast hrun).tracks

end Tracked

/-! ## A poll that sees another writer -/

namespace OtherWriter

open TwoConnections TwoWriters

/-- A writer at the snapshot. -/
def tracked : Tracked PageSize.min := ⟨⟨fun _ => ⟨writer, false, [], 0⟩, none, 1, replica, []⟩, .idle⟩

/-- Another process uploads the second transaction, and the file polls. -/
def polls : List (TrackedAction PageSize.min) :=
  [.upload rival, .pollLevel0, .pollLevel1, .pollApply]

/-- The file writes and syncs the second transaction itself, and polls. -/
def syncs : List (TrackedAction PageSize.min) :=
  [.call (.writeAt (OnePage.page 2).data 0), .call (.sync (.stored OnePage.update)), .pollLevel0,
    .pollLevel1, .pollApply]

theorem level_replica {level : Nat} {g : LTXFile PageSize.min}
    (hg : g ∈ TwoConnections.replica.level level) : g = OnePage.snapshot 1 := by
  rw [TwoConnections.replica] at hg
  dsimp only at hg
  split at hg
  · exact List.mem_singleton.mp hg
  · cases hg

theorem snapshot_mem : OnePage.snapshot 1 ∈ tracked.vfs.replica.level 9 :=
  List.mem_singleton_self _

theorem opened : tracked.Opened :=
  ⟨.inr ⟨9, OnePage.snapshot 1, snapshot_mem, by decide +kernel⟩,
    .inr ⟨9, OnePage.snapshot 1, snapshot_mem, by decide +kernel⟩,
    .inr (by decide +kernel), by decide +kernel, rfl⟩

end OtherWriter

open OtherWriter in
theorem tracks_sample : ∃ s, run Tracked.step tracked syncs = some s ∧ s.file.pos = 2 ∧ s.Tracks := by
  have hrun : (run Tracked.step tracked syncs).map (fun s => s.file.pos) = some 2 := by
    decide +kernel
  obtain ⟨s, hs, hpos⟩ := Option.map_eq_some_iff.mp hrun
  exact ⟨s, hs, hpos, Tracked.expected_of_run opened (by decide +kernel) hs⟩

open OtherWriter in
/-- The poll takes the position to the second transaction, and the file still expects the
first. -/
theorem tracks_fails : ¬ ∀ (s s' : Tracked PageSize.min)
    (actions : List (TrackedAction PageSize.min)), s.Opened →
      run Tracked.step s actions = some s' → s'.Tracks := by
  intro hclaim
  have hrun : (run Tracked.step tracked polls).map (fun s => (s.file.writeEnabled, s.file.dirty,
      s.file.pos, s.file.expectedTXID)) = some (true, [], 2, 1) := by
    decide +kernel
  have hreplica : (run Tracked.step tracked polls).map (fun s => s.vfs.replica) =
      some (TwoConnections.replica.write TwoWriters.rival) := rfl
  obtain ⟨s', hs', heq⟩ := Option.map_eq_some_iff.mp hrun
  obtain ⟨henabled, hdirty, hpos, hexpected⟩ := by simpa only [Prod.mk.injEq] using heq
  rw [hs', Option.map_some, Option.some.injEq] at hreplica
  have hnewest : s'.Newest s'.file.pos := by
    rw [Tracked.Newest, hreplica, hpos]
    refine ⟨fun level g hg => ?_, .inr ⟨0, TwoWriters.rival, mem_write_self _ _, rfl⟩⟩
    rcases eq_or_mem_of_mem_write hg with rfl | hg
    · exact le_refl 2
    · rw [level_replica hg]
      decide
  have htracks := (hclaim tracked s' polls opened hs').expected henabled hdirty hnewest
  rw [hpos, hexpected] at htracks
  exact absurd htracks (by decide)

end Vfs

end Litestream
