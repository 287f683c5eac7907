import Mathlib
import Litestream.Compaction.Contents

/-!
# The compaction schedule

A goroutine for each compaction level, and one for the snapshot level, calls `Store.CompactDB`
soon after every multiple of the level's interval.  That call does nothing if the newest file of
the level is younger than the last multiple, or if the level below seems to have nothing new.

Neither gate holds a level back: after a call that meets no error the level ends no earlier than
the level below ended at the last multiple (`compactDB_run`).  So if every timer fires and every
pass ends within a known slack, each level lags behind level 0 by at most the intervals up to it
and a few slacks (`lag_run`).

Times are in nanoseconds.  Those of headers are rounded down, so they come with the action.  The
clocks of the backend and of the host agree.
-/

namespace Litestream

/-! ## Compaction levels -/

structure CompactionLevel where
  level : Int
  interval : Int
deriving DecidableEq, Repr

/-- `PrevCompactionAt`.  `Truncate` leaves the time for an interval that is not positive. -/
def CompactionLevel.prevCompactionAt (lvl : CompactionLevel) (now : Nat) : Nat :=
  if lvl.interval ≤ 0 then now else now - now % lvl.interval.toNat

def CompactionLevel.nextCompactionAt (lvl : CompactionLevel) (now : Nat) : Int :=
  lvl.prevCompactionAt now + lvl.interval

/-- What `CompactionLevels.Validate` returns. -/
inductive CompactionLevelsError where
  | required
  | outOfOrder (level expected : Int)
  | exceeds
  | intervalOnZero
  | intervalRequired (level : Int)
deriving DecidableEq, Repr

/-- The level may stand at this place of the list. -/
structure CompactionLevel.ValidAt (lvl : CompactionLevel) (k : Nat) : Prop where
  level : lvl.level = (k : Int)
  lt : k < snapshotLevel
  interval_eq : k = 0 → lvl.interval = 0
  interval_pos : k ≠ 0 → 0 < lvl.interval

namespace CompactionLevels

/-- The loop of `Validate`. -/
def validateFrom : Nat → List CompactionLevel → Except CompactionLevelsError Unit
  | _, [] => .ok ()
  | i, lvl :: a =>
      if (i : Int) ≠ lvl.level then .error (.outOfOrder lvl.level i)
      else if snapshotLevel - 1 < lvl.level then .error .exceeds
      else if lvl.level = 0 ∧ lvl.interval ≠ 0 then .error .intervalOnZero
      else if lvl.level ≠ 0 ∧ lvl.interval ≤ 0 then .error (.intervalRequired lvl.level)
      else validateFrom (i + 1) a

def validate (a : List CompactionLevel) : Except CompactionLevelsError Unit :=
  if a.length = 0 then .error .required else validateFrom 0 a

def maxLevel (a : List CompactionLevel) : Int := a.length - 1

def prevLevel (a : List CompactionLevel) (level : Int) : Int :=
  if level = snapshotLevel then maxLevel a else level - 1

theorem validateFrom_eq_ok {i : Nat} {a : List CompactionLevel} :
    validateFrom i a = .ok () ↔
      ∀ (k : Nat) lvl, a[k]? = some lvl → CompactionLevel.ValidAt lvl (i + k) := by
  induction a generalizing i with
  | nil => simp [validateFrom]
  | cons lvl a ih =>
      have hsplit : (∀ (k : Nat) l, (lvl :: a)[k]? = some l → CompactionLevel.ValidAt l (i + k)) ↔
          lvl.ValidAt i ∧
            ∀ (k : Nat) l, a[k]? = some l → CompactionLevel.ValidAt l (i + 1 + k) := by
        constructor
        · intro h
          refine ⟨h 0 lvl rfl, fun k l hl => ?_⟩
          rw [show i + 1 + k = i + (k + 1) by omega]
          exact h (k + 1) l hl
        · rintro ⟨h0, h⟩ k l hl
          cases k with
          | zero =>
              obtain rfl : lvl = l := by simpa using hl
              exact h0
          | succ k =>
              rw [show i + (k + 1) = i + 1 + k by omega]
              exact h k l hl
      rw [hsplit, ← ih, validateFrom]
      constructor
      · intro h
        split_ifs at h with hlevel hexceeds hzero hpos
        push Not at hzero hpos
        unfold snapshotLevel at hexceeds
        exact ⟨⟨by omega, by unfold snapshotLevel; omega, by omega, by omega⟩, h⟩
      · rintro ⟨⟨hlevel, hlt, heq, hpos⟩, h⟩
        rw [if_neg (by omega), if_neg (by omega), if_neg (by omega), if_neg (by omega)]
        exact h

theorem validate_eq_ok {a : List CompactionLevel} :
    validate a = .ok () ↔
      a ≠ [] ∧ ∀ (k : Nat) lvl, a[k]? = some lvl → CompactionLevel.ValidAt lvl k := by
  unfold validate
  split
  · next h => simp [List.length_eq_zero_iff.mp h]
  · next h =>
      have hne : a ≠ [] := fun hnil => h (by rw [hnil]; rfl)
      rw [validateFrom_eq_ok]
      simp [hne]

theorem length_le {a : List CompactionLevel} (h : validate a = .ok ()) :
    a.length ≤ snapshotLevel := by
  by_contra hlt
  have hget : a[snapshotLevel]? = some (a.get ⟨snapshotLevel, by omega⟩) := by simp
  exact absurd ((validate_eq_ok.mp h).2 _ _ hget).lt (lt_irrefl _)

end CompactionLevels

/-! ## Aligned levels -/

/-- Either the file with the largest `MaxTXID` of a listing, or none. -/
theorem maxFileInfo_mem (infos : List FileInfo) :
    maxFileInfo infos = .zero ∨ maxFileInfo infos ∈ infos := by
  have h : ∀ acc : FileInfo,
      infos.foldl (fun info item => if info.maxTXID < item.maxTXID then item else info) acc = acc ∨
        infos.foldl (fun info item => if info.maxTXID < item.maxTXID then item else info) acc ∈
          infos := by
    induction infos with
    | nil => exact fun _ => .inl rfl
    | cons f fs ih =>
        intro acc
        rw [List.foldl_cons]
        rcases ih (if acc.maxTXID < f.maxTXID then f else acc) with heq | hmem
        · rw [heq]
          split
          · exact .inr List.mem_cons_self
          · exact .inl rfl
        · exact .inr (List.mem_cons_of_mem f hmem)
  exact h .zero

namespace Maintenance

variable {cfg : Config} {s s' : State} {a : Action} {n : Nat}

/-- No file of a level straddles the end of the level above. -/
def Aligned (files : Files) (n : Nat) : Prop :=
  ∀ f ∈ files n, f.minTXID ≤ FileInfo.top (files (n + 1)) →
    f.maxTXID ≤ FileInfo.top (files (n + 1))

/-- Once nothing is left to compact, the level has caught up. -/
theorem Aligned.top_le {files : Files} (h : Aligned files n)
    (hnil : compactionSources files (n + 1) = []) :
    FileInfo.top (files n) ≤ FileInfo.top (files (n + 1)) := by
  refine Cover.top_le_iff.mpr fun f hf => h f hf ?_
  have hnot := List.filter_eq_nil_iff.mp hnil f hf
  simp only [decide_eq_true_eq] at hnot
  omega

/-- A compaction catches up. -/
theorem Aligned.compacted_maxTXID {files : Files} (h : Aligned files n) (hlevels : Levels files)
    (hne : compactionSources files (n + 1) ≠ []) (merged : Nat × Nat) :
    (compacted files (n + 1) merged).maxTXID = FileInfo.top (files n) := by
  obtain ⟨hv, hmin, hmax⟩ := hlevels.compacted_spec hne merged
  refine Nat.le_antisymm hmax (Cover.top_le_iff.mpr fun f hf => ?_)
  by_cases hle : f.minTXID ≤ FileInfo.top (files (n + 1))
  · have := h f hf hle
    have := hv.min_le_max
    omega
  · have hsource : f ∈ compactionSources files (n + 1) :=
      List.mem_filter.mpr ⟨hf, by simp only [decide_eq_true_eq]; omega⟩
    have hvs : ∀ g ∈ compactionSources files (n + 1), g.Valid := fun g hg =>
      hlevels.wf.valid n g (List.mem_filter.mp hg).1
    rw [compacted, (sourceRange_spec hne hvs).2.2]
    exact FileInfo.le_top hsource

/-- The end of a level only grows. -/
theorem Effect.top_le (h : s.Inv) (he : Effect s s' a) (hn : n < snapshotLevel) :
    FileInfo.top (s.files n) ≤ FileInfo.top (s'.files n) := by
  cases he with
  | same hsame => rw [hsame n hn]
  | uploaded hfiles =>
      by_cases h0 : n = 0
      · subst h0
        have hlt : FileInfo.top (s.files 0) < s.uploaded + 1 := by
          rw [h.top_zero]
          exact Nat.lt_succ_self _
        rw [hfiles, h.levels.top_writeLTXFile (n := 0) rfl hlt (le_refl _)]
        exact hlt.le
      · rw [hfiles, Files.writeLTXFile_other (Ne.symm h0)]
  | @compacted dstLevel _ merged hpos hlt hne _ hfiles =>
      obtain ⟨hv, hmin, -⟩ := h.levels.compacted_spec hne merged
      by_cases hd : dstLevel = n
      · subst hd
        rw [hfiles, h.levels.top_writeLTXFile (n := dstLevel) rfl hmin hv.min_le_max]
        exact hmin.le.trans hv.min_le_max
      · rw [hfiles, Files.writeLTXFile_other hd]
  | prunedZero _ _ htop hother =>
      by_cases h0 : n = 0
      · rw [h0, htop]
      · rw [hother n h0]
  | @prunedByTXID level _ _ _ _ _ htop hother =>
      by_cases hd : n = level
      · rw [hd, htop]
      · rw [hother n hd]

theorem Effect.aligned (h : s.Inv) (he : Effect s s' a) (hn : n + 1 < snapshotLevel)
    (haligned : Aligned s.files n) : Aligned s'.files n := by
  have htop := h.levels.top_le n hn
  intro f hf
  cases he with
  | same hsame =>
      rw [hsame n (by omega)] at hf
      rw [hsame (n + 1) hn]
      exact haligned f hf
  | uploaded hfiles =>
      rw [hfiles] at hf ⊢
      rw [Files.writeLTXFile_other (by simp)]
      rcases Contents.mem_writeLTXFile hf with rfl | hf
      · have := h.top_le hn
        simp only
        omega
      · exact haligned f hf
  | @compacted dstLevel _ merged hpos hlt hne _ hfiles =>
      obtain ⟨hv, hmin, -⟩ := h.levels.compacted_spec hne merged
      rw [hfiles] at hf ⊢
      by_cases hup : dstLevel = n + 1
      · subst hup
        rw [Files.writeLTXFile_other (by simp)] at hf
        rw [h.levels.top_writeLTXFile (n := n + 1) rfl hmin hv.min_le_max,
          haligned.compacted_maxTXID h.levels hne merged]
        exact fun _ => FileInfo.le_top hf
      · rw [Files.writeLTXFile_other hup]
        by_cases hd : dstLevel = n
        · subst hd
          rcases Contents.mem_writeLTXFile hf with rfl | hf
          · omega
          · exact haligned f hf
        · rw [Files.writeLTXFile_other hd] at hf
          exact haligned f hf
  | @prunedZero _ _ _ del hdel hsplit _ hother =>
      rw [hother (n + 1) (by omega)]
      by_cases h0 : n = 0
      · subst h0
        exact haligned f (hsplit ▸ List.mem_append_right del hf)
      · rw [hother n h0] at hf
        exact haligned f hf
  | @prunedByTXID level del _ _ _ hsplit hend hother =>
      have htop' : FileInfo.top (s'.files (n + 1)) = FileInfo.top (s.files (n + 1)) := by
        by_cases hup : n + 1 = level
        · rw [hup, hend]
        · rw [hother (n + 1) hup]
      rw [htop']
      by_cases hd : n = level
      · subst hd
        exact haligned f (hsplit ▸ List.mem_append_right del hf)
      · rw [hother n hd] at hf
        exact haligned f hf

theorem top_map_stamp (listedAt : FileInfo → Nat) (fs : List FileInfo) :
    FileInfo.top (fs.map (FileInfo.stamp listedAt)) = FileInfo.top fs := by
  induction fs with
  | nil => rfl
  | cons f fs ih =>
      rw [List.map_cons, FileInfo.top, Cover.top_cons, Cover.top_cons]
      exact congrArg (max f.maxTXID) ih

/-- A step adds the files that it is meant to add, and no others. -/
theorem mem_of_step {f : FileInfo} (hs : step cfg s a = some s') (hn : 0 < n)
    (hf : f ∈ s'.files n)
    (ha : (∀ dstLevel merge, a ≠ .compact dstLevel merge) ∧ ∀ size now, a ≠ .snapshot size now) :
    f ∈ s.files n := by
  cases a with
  | sync now =>
      simp only [step, Option.ite_none_right_eq_some, Option.some.injEq] at hs
      obtain ⟨-, rfl⟩ := hs
      exact hf
  | upload size =>
      simp only [step, Option.ite_none_right_eq_some, Option.some.injEq] at hs
      obtain ⟨-, rfl⟩ := hs
      change f ∈ Function.update s.files 0 _ n at hf
      rwa [Function.update_of_ne (Nat.ne_of_gt hn)] at hf
  | compact dstLevel merge => exact absurd rfl (ha.1 dstLevel merge)
  | snapshot size now => exact absurd rfl (ha.2 size now)
  | enforceL0RetentionByTime threshold listedAt localModTime =>
      simp only [step, Option.some.injEq] at hs
      subst hs
      exact Contents.mem_remove hf
  | enforceSnapshotRetention timestamp listedAt =>
      simp only [step, Option.some.injEq] at hs
      subst hs
      exact Contents.mem_remove hf
  | enforceRetentionByTXID level =>
      simp only [step, Option.ite_none_right_eq_some, Option.some.injEq] at hs
      obtain ⟨-, rfl⟩ := hs
      exact Contents.mem_remove hf

end Maintenance

namespace Schedule

open Maintenance (Config)

/-- A store whose levels `Store.Open` accepts. -/
structure Settings where
  levels : List CompactionLevel
  valid : CompactionLevels.validate levels = .ok ()
  snapshotInterval : Int
  retentionEnabled : Bool

theorem Settings.maxLevel_lt (set : Settings) : set.levels.length - 1 < snapshotLevel := by
  have hle := CompactionLevels.length_le set.valid
  have hlt : 0 < snapshotLevel := by decide
  omega

def Settings.config (set : Settings) : Config :=
  ⟨set.levels.length - 1, set.maxLevel_lt, set.retentionEnabled⟩

/-- The level that a monitor is started with. -/
def Settings.level (set : Settings) (n : Nat) : CompactionLevel :=
  if n = snapshotLevel then ⟨snapshotLevel, set.snapshotInterval⟩
  else set.levels[n]?.getD ⟨n, 0⟩

/-- The levels that have a monitor. -/
def Settings.monitored (set : Settings) : List Nat :=
  List.range' 1 (set.levels.length - 1) ++ [snapshotLevel]

/-! ## States -/

/-- `DefaultDBInitTimeout`. -/
def defaultDBInitTimeout : Nat := 30 * 1000000000

/-- The delay after a pass that met a database that was not ready. -/
def retryDelay : Nat := 1000000000

inductive MonitorPhase where
  /-- The timer fires at this time. -/
  | waiting (due : Nat)
  /-- A pass that began at `now`.  Once it has called `CompactDB`, it knows whether the database
  was not ready. -/
  | running (now : Nat) (nextDelay : Int) (called : Option Bool)
deriving DecidableEq, Repr

/-- A run of `Store.monitorCompactionLevel`. -/
structure Monitor where
  phase : MonitorPhase
  /-- Zero if it is not set. -/
  retryDeadline : Nat
deriving DecidableEq, Repr

structure State where
  base : Maintenance.State
  clock : Nat
  /-- The creation times that listings of a level without metadata show. -/
  listedAt : Nat → FileInfo → Nat
  /-- The page size of the database is known. -/
  ready : Bool
  /-- The database has written a file since the process has started. -/
  synced : Bool
  monitors : Nat → Monitor

/-- A process starts on a replica. -/
def State.start (base : Maintenance.State) (clock : Nat) (listedAt : Nat → FileInfo → Nat) :
    State where
  base := { base with cache := fun _ => none }
  clock := clock
  listedAt := listedAt
  ready := false
  synced := false
  monitors _ := ⟨.waiting (clock + 1), 0⟩

/-- What one call of `Store.CompactDB` meets. -/
structure Attempt where
  dstListed : Bool
  srcListed : Bool
  /-- The size and the header timestamp of the file, unless it cannot be written. -/
  written : Option (Nat × Nat)
  /-- The creation time that listings without metadata show for it. -/
  listedAt : Nat
deriving DecidableEq, Repr

/-- The attempt takes its times from the clock. -/
def Attempt.Timed (att : Attempt) (clock : Nat) : Prop :=
  att.listedAt ≤ clock ∧ ∀ w, att.written = some w → w.2 ≤ clock

instance (att : Attempt) (clock : Nat) : Decidable (att.Timed clock) :=
  inferInstanceAs (Decidable (_ ∧ _))

inductive CompactDBError where
  /-- `ErrDBNotReady`. -/
  | notReady
  | fetchDst
  /-- `ErrCompactionTooEarly`. -/
  | tooEarly
  | fetchSrc
  /-- `ErrNoCompaction`. -/
  | noCompaction
  | snapshot
  | writeLTXFile
deriving DecidableEq, Repr

/-! ## Compacting a level -/

/-- What `Replica.MaxLTXFileInfo` finds in a listing. -/
def State.listedMax (s : State) (level : Nat) : FileInfo :=
  maxFileInfo ((s.base.files level).map (FileInfo.stamp (s.listedAt level)))

/-- `DB.MaxLTXFileInfo`, unless the listing fails.  It also caches what an empty level gives. -/
def State.maxLTXFileInfo (s : State) (listed : Bool) (level : Nat) : Option (FileInfo × State) :=
  match s.base.cache level with
  | some info => some (info, s)
  | none =>
      if listed then
        let cache := Function.update s.base.cache level (some (s.listedMax level))
        some (s.listedMax level, { s with base := { s.base with cache } })
      else none

/-- A file is stored, and listings without metadata show this creation time. -/
def State.list (s : State) (info : FileInfo) (listedAt : Nat) : State :=
  { s with
    listedAt := Function.update s.listedAt info.level
      (Function.update (s.listedAt info.level) info listedAt) }

/-- `DB.Snapshot`. -/
def State.snapshot (set : Settings) (s : State) (att : Attempt) :
    Except CompactDBError FileInfo × State :=
  match att.written with
  | none => (.error .snapshot, s)
  | some (size, timestamp) =>
      match Maintenance.step set.config s.base (.snapshot size timestamp) with
      | none => (.error .snapshot, s)
      | some base =>
          let info : FileInfo := ⟨snapshotLevel, 1, s.base.dbPos, size, timestamp⟩
          (.ok info, State.list { s with base := base } info att.listedAt)

/-- `DB.Compact`, without the retention of level 0. -/
def State.compact (s : State) (dstLevel : Nat) (att : Attempt) :
    Except CompactDBError FileInfo × State :=
  let (res, files, cache) :=
    Litestream.compact (fun _ => att.written) dstLevel s.base.files s.base.cache
  let s' : State := { s with base := { s.base with files, cache } }
  match res with
  | .ok info => (.ok info, s'.list info att.listedAt)
  | .error .noCompaction => (.error .noCompaction, s')
  | .error .writeLTXFile => (.error .writeLTXFile, s')

/-- `Store.CompactDB`. -/
def compactDB (set : Settings) (dstLevel : Nat) (att : Attempt) (s : State) :
    Except CompactDBError FileInfo × State :=
  if s.ready = false then (.error .notReady, s)
  else
    match s.maxLTXFileInfo att.dstListed dstLevel with
    | none => (.error .fetchDst, s)
    | some (dstInfo, s) =>
        if (set.level dstLevel).prevCompactionAt s.clock < dstInfo.createdAt then
          (.error .tooEarly, s)
        else if dstLevel = snapshotLevel then s.snapshot set att
        else
          let srcLevel := (CompactionLevels.prevLevel set.levels dstLevel).toNat
          match s.maxLTXFileInfo att.srcListed srcLevel with
          | none => (.error .fetchSrc, s)
          | some (srcInfo, s) =>
              if srcInfo.maxTXID ≤ dstInfo.minTXID then (.error .noCompaction, s)
              else s.compact dstLevel att

/-- The call has written a file, or has found that none is due. -/
def Settled : Except CompactDBError FileInfo → Bool
  | .ok _ | .error .tooEarly | .error .noCompaction => true
  | _ => false

/-! ## Steps -/

inductive Action where
  | elapse (d : Nat)
  /-- The database is initialised. -/
  | init
  /-- The database writes its next level 0 file. -/
  | sync (size now : Nat)
  /-- An upload or a retention. -/
  | other (a : Maintenance.Action)
  /-- The timer of a monitor fires. -/
  | begin (level : Nat)
  | compactDB (level : Nat) (att : Attempt)
  /-- The pass of a monitor ends.  Other databases may not have been ready. -/
  | finish (level : Nat) (othersNotReady : Bool)

/-- The operations that do not compact and do not take snapshots. -/
def isOther : Maintenance.Action → Bool
  | .upload _ | .enforceL0RetentionByTime _ _ _ | .enforceSnapshotRetention _ _
  | .enforceRetentionByTXID _ => true
  | .sync _ | .compact _ _ | .snapshot _ _ => false

def State.setMonitor (s : State) (level : Nat) (m : Monitor) : State :=
  { s with monitors := Function.update s.monitors level m }

/-- The end of the loop of `monitorCompactionLevel`. -/
def Monitor.finish (retryDeadline now : Nat) (nextDelay : Int) (notReady : Bool) (clock : Nat) :
    Monitor :=
  let timedOut := retryDeadline ≠ 0 ∧ retryDeadline < now
  if notReady ∧ ¬timedOut then
    ⟨.waiting (clock + retryDelay),
      if retryDeadline = 0 then now + defaultDBInitTimeout else retryDeadline⟩
  else ⟨.waiting (clock + nextDelay.toNat), 0⟩

def step (set : Settings) (s : State) : Action → Option State
  | .elapse d => some { s with clock := s.clock + d }
  | .init => some { s with ready := true }
  | .sync size now =>
      if s.ready ∧ now ≤ s.clock then
        (Maintenance.step set.config s.base (.sync now)).map fun base =>
          let info : FileInfo := ⟨0, base.dbPos, base.dbPos, size, s.clock⟩
          { s with
            base := { base with cache := Function.update base.cache 0 (some info) }
            synced := true }
      else none
  | .other a =>
      if isOther a then
        (Maintenance.step set.config s.base a).map fun base => { s with base := base }
      else none
  | .begin level =>
      match (s.monitors level).phase with
      | .waiting due =>
          if level ∈ set.monitored ∧ due ≤ s.clock then
            let nextDelay := (set.level level).nextCompactionAt s.clock - s.clock
            some (s.setMonitor level
              ⟨.running s.clock nextDelay none, (s.monitors level).retryDeadline⟩)
          else none
      | .running _ _ _ => none
  | .compactDB level att =>
      match (s.monitors level).phase with
      | .running now nextDelay none =>
          if level ∈ set.monitored ∧ att.Timed s.clock then
            let (res, s') := compactDB set level att s
            some (s'.setMonitor level
              ⟨.running now nextDelay (some (res = .error .notReady)),
                (s.monitors level).retryDeadline⟩)
          else none
      | _ => none
  | .finish level othersNotReady =>
      match (s.monitors level).phase with
      | .running now nextDelay (some notReady) =>
          some (s.setMonitor level
            (.finish (s.monitors level).retryDeadline now nextDelay (notReady || othersNotReady)
              s.clock))
      | _ => none

/-! ## Invariants -/

/-- Where a level ends. -/
def State.top (s : State) (n : Nat) : Nat := FileInfo.top (s.base.files n)

/-- Where the source of a level ends: the level below it, or the database for snapshots. -/
def State.source (s : State) (n : Nat) : Nat :=
  if n = snapshotLevel then s.base.dbPos else s.top (n - 1)

structure Inv (s : State) : Prop where
  base : s.base.Inv
  aligned : ∀ n, n + 1 < snapshotLevel → Maintenance.Aligned s.base.files n
  /-- The cached file of level 0 is the newest one of the database. -/
  synced : s.synced = true → ∃ info, s.base.cache 0 = some info ∧ info.maxTXID = s.base.dbPos
  cached : ∀ n info, 0 < n → s.base.cache n = some info →
    info.minTXID ≤ info.maxTXID ∧ info.createdAt ≤ s.clock
  stamped : ∀ n, 0 < n → ∀ f ∈ s.base.files n, f.createdAt ≤ s.clock ∧ s.listedAt n f ≤ s.clock

/-- At time `c` the source of a level ended at `p`.  A file of the level that was written since
then shows that the level has caught up. -/
structure Since (n c p : Nat) (s : State) : Prop where
  source : p ≤ s.source n
  cached : ∀ info, s.base.cache n = some info → c < info.createdAt → p ≤ s.top n
  stamped : ∀ f ∈ s.base.files n, c < s.listedAt n f → p ≤ s.top n

variable {set : Settings} {s s' : State} {a : Action} {n c p : Nat}

theorem Since.now (h : Inv s) (hn : 0 < n) : Since n s.clock (s.source n) s where
  source := le_rfl
  cached info hinfo hlt := absurd (h.cached n info hn hinfo).2 (Nat.not_le.mpr hlt)
  stamped f hf hlt := absurd (h.stamped n hn f hf).2 (Nat.not_le.mpr hlt)

/-- What a step keeps. -/
structure Keeps (s s' : State) : Prop where
  inv : Inv s'
  since : ∀ {n c p}, 0 < n → n ≤ snapshotLevel → Since n c p s → Since n c p s'
  top_le : ∀ n ≤ snapshotLevel, s.top n ≤ s'.top n

theorem Keeps.refl (h : Inv s) : Keeps s s := ⟨h, fun _ _ => id, fun _ _ => le_rfl⟩

theorem Keeps.trans {t : State} (h : Keeps s t) (h' : Keeps t s') : Keeps s s' :=
  ⟨h'.inv, fun hn hle hs => h'.since hn hle (h.since hn hle hs),
    fun n hn => (h.top_le n hn).trans (h'.top_le n hn)⟩

/-- What ends grow, the source of every level too. -/
theorem source_le (htop : ∀ n ≤ snapshotLevel, s.top n ≤ s'.top n)
    (hpos : s.base.dbPos ≤ s'.base.dbPos) (hn : n ≤ snapshotLevel) :
    s.source n ≤ s'.source n := by
  unfold State.source
  split
  · exact hpos
  · exact htop (n - 1) (by omega)

/-- A step that adds no file to the levels above level 0. -/
structure Passes (s s' : State) : Prop where
  clock_le : s.clock ≤ s'.clock
  listedAt : s'.listedAt = s.listedAt
  files : ∀ n, 0 < n → ∀ f ∈ s'.base.files n, f ∈ s.base.files n
  cache : ∀ n info, 0 < n → s'.base.cache n = some info →
    s.base.cache n = some info ∨ info = s.listedMax n
  top_le : ∀ n ≤ snapshotLevel, s.top n ≤ s'.top n
  dbPos_le : s.base.dbPos ≤ s'.base.dbPos

/-- What a listing shows is a file of the level with the time of the backend. -/
theorem listedMax_spec (s : State) (n : Nat) :
    s.listedMax n = .zero ∨ ∃ f ∈ s.base.files n,
      s.listedMax n = f.stamp (s.listedAt n) := by
  refine (maxFileInfo_mem _).imp id fun hmem => ?_
  obtain ⟨f, hf, heq⟩ := List.mem_map.mp hmem
  exact ⟨f, hf, heq.symm⟩

theorem Passes.keeps (h : Inv s) (hp : Passes s s') (hbase : s'.base.Inv)
    (haligned : ∀ n, n + 1 < snapshotLevel → Maintenance.Aligned s'.base.files n)
    (hsynced : s'.synced = true →
      ∃ info, s'.base.cache 0 = some info ∧ info.maxTXID = s'.base.dbPos) : Keeps s s' where
  inv :=
    { base := hbase
      aligned := haligned
      synced := hsynced
      cached := fun n info hn hinfo => by
        rcases hp.cache n info hn hinfo with hold | rfl
        · obtain ⟨hle, hat⟩ := h.cached n info hn hold
          exact ⟨hle, hat.trans hp.clock_le⟩
        · rcases listedMax_spec s n with hzero | ⟨f, hf, heq⟩
          · rw [hzero]
            exact ⟨le_rfl, Nat.zero_le _⟩
          · rw [heq]
            exact ⟨(h.base.levels.wf.valid n f hf).min_le_max,
              (h.stamped n hn f hf).2.trans hp.clock_le⟩
      stamped := fun n hn f hf => by
        obtain ⟨hat, hlisted⟩ := h.stamped n hn f (hp.files n hn f hf)
        rw [hp.listedAt]
        exact ⟨hat.trans hp.clock_le, hlisted.trans hp.clock_le⟩ }
  since {n c p} hn hle hs :=
    { source := hs.source.trans (source_le hp.top_le hp.dbPos_le hle)
      cached := fun info hinfo hlt => by
        refine le_trans ?_ (hp.top_le n hle)
        rcases hp.cache n info hn hinfo with hold | rfl
        · exact hs.cached info hold hlt
        · rcases listedMax_spec s n with hzero | ⟨f, hf, heq⟩
          · rw [hzero] at hlt
            exact absurd hlt (Nat.not_lt_zero c)
          · rw [heq] at hlt
            exact hs.stamped f hf hlt
      stamped := fun f hf hlt => by
        rw [hp.listedAt] at hlt
        exact (hs.stamped f (hp.files n hn f hf) hlt).trans (hp.top_le n hle) }
  top_le := hp.top_le

/-- A compaction or a snapshot writes a file that goes as far as its source. -/
structure Writes (n : Nat) (info : FileInfo) (s s' : State) : Prop where
  clock_eq : s'.clock = s.clock
  level : info.level = n
  min_le_max : info.minTXID ≤ info.maxTXID
  createdAt_le : info.createdAt ≤ s.clock
  listedAt : ∃ time ≤ s.clock, s'.listedAt =
    Function.update s.listedAt n (Function.update (s.listedAt n) info time)
  files : s'.base.files = s.base.files.writeLTXFile info
  cache : s'.base.cache = Function.update s.base.cache n (some info)
  top_le : ∀ m ≤ snapshotLevel, s.top m ≤ s'.top m
  dbPos_eq : s'.base.dbPos = s.base.dbPos
  synced_eq : s'.synced = s.synced
  caught_up : s.source n ≤ s'.top n

theorem Writes.keeps {info : FileInfo} (h : Inv s) (hw : Writes n info s s') (hn : 0 < n)
    (hbase : s'.base.Inv)
    (haligned : ∀ n, n + 1 < snapshotLevel → Maintenance.Aligned s'.base.files n) :
    Keeps s s' := by
  obtain ⟨time, htime, hlisted⟩ := hw.listedAt
  have hmem : ∀ m, ∀ f ∈ s'.base.files m, (m = n ∧ f = info) ∨ f ∈ s.base.files m :=
    fun m f hf => by
      rw [hw.files] at hf
      by_cases hm : info.level = m
      · exact (Maintenance.Contents.mem_writeLTXFile hf).imp_left fun heq => ⟨hm ▸ hw.level, heq⟩
      · rw [Files.writeLTXFile_other hm] at hf
        exact .inr hf
  have hdbPos : s.base.dbPos ≤ s'.base.dbPos := hw.dbPos_eq.ge
  refine ⟨⟨hbase, haligned, fun hsync => ?_, fun m cached hm hcached => ?_, fun m hm f hf => ?_⟩,
    fun {m c p} hm hle hs => ?_, hw.top_le⟩
  · rw [hw.cache, Function.update_of_ne (Nat.ne_of_lt hn), hw.dbPos_eq]
    exact h.synced (hw.synced_eq ▸ hsync)
  · rw [hw.cache] at hcached
    rw [hw.clock_eq]
    by_cases hmn : m = n
    · subst hmn
      rw [Function.update_self] at hcached
      obtain rfl := Option.some.inj hcached
      exact ⟨hw.min_le_max, hw.createdAt_le⟩
    · rw [Function.update_of_ne hmn] at hcached
      exact h.cached m cached hm hcached
  · rw [hw.clock_eq, hlisted]
    have hlistedAt : f ∈ s.base.files m → s.listedAt m f ≤ s.clock :=
      fun hf => (h.stamped m hm f hf).2
    rcases hmem m f hf with ⟨rfl, rfl⟩ | hold
    · rw [Function.update_self, Function.update_self]
      exact ⟨hw.createdAt_le, htime⟩
    · refine ⟨(h.stamped m hm f hold).1, ?_⟩
      by_cases hmn : m = n
      · subst hmn
        rw [Function.update_self]
        by_cases hf : f = info
        · rw [hf, Function.update_self]
          exact htime
        · rw [Function.update_of_ne hf]
          exact hlistedAt hold
      · rw [Function.update_of_ne hmn]
        exact hlistedAt hold
  · have hsource := hs.source
    by_cases hmn : m = n
    · subst hmn
      have hp : p ≤ s'.top m := hsource.trans hw.caught_up
      exact ⟨hsource.trans (source_le hw.top_le hdbPos hle), fun _ _ _ => hp,
        fun _ _ _ => hp⟩
    · refine ⟨hsource.trans (source_le hw.top_le hdbPos hle), fun cached hcached hlt => ?_,
        fun f hf hlt => ?_⟩
      · rw [hw.cache, Function.update_of_ne hmn] at hcached
        exact (hs.cached cached hcached hlt).trans (hw.top_le m hle)
      · rw [hlisted, Function.update_of_ne hmn] at hlt
        rcases hmem m f hf with ⟨heq, -⟩ | hf
        · exact absurd heq hmn
        · exact (hs.stamped f hf hlt).trans (hw.top_le m hle)

/-! ## One lemma for each operation -/

theorem step_dbPos_le {cfg : Config} {r r' : Maintenance.State} {b : Maintenance.Action}
    (hs : Maintenance.step cfg r b = some r') : r.dbPos ≤ r'.dbPos := by
  cases b with
  | sync | upload | compact | snapshot | enforceRetentionByTXID =>
      simp only [Maintenance.step, Option.ite_none_right_eq_some, Option.some.injEq] at hs
      obtain ⟨-, rfl⟩ := hs
      first | exact le_rfl | exact Nat.le_succ _
  | enforceL0RetentionByTime | enforceSnapshotRetention =>
      simp only [Maintenance.step, Option.some.injEq] at hs
      subst hs
      exact le_rfl

/-- What a step of the replica does to the levels and to their ends. -/
theorem base_step {cfg : Config} (h : Inv s) {b : Maintenance.Action} {base : Maintenance.State}
    (hs : Maintenance.step cfg s.base b = some base) :
    base.Inv ∧ (∀ n, n + 1 < snapshotLevel → Maintenance.Aligned base.files n) ∧
      (∀ n ≤ snapshotLevel, s.top n ≤ FileInfo.top (base.files n)) ∧
      s.base.dbPos ≤ base.dbPos := by
  obtain ⟨hbase, heffect⟩ := Maintenance.step_effect h.base hs
  refine ⟨hbase, fun n hn => heffect.aligned h.base hn (h.aligned n hn), fun n hn => ?_,
    step_dbPos_le hs⟩
  by_cases hsnap : n = snapshotLevel
  · subst hsnap
    rw [State.top, h.base.top_snapshot, hbase.top_snapshot]
    exact Maintenance.step_snapshotted_le h.base hs
  · exact heffect.top_le h.base (by omega)

theorem maxLTXFileInfo_keeps (h : Inv s) {listed : Bool} {level : Nat} {info : FileInfo}
    (hs : s.maxLTXFileInfo listed level = some (info, s')) :
    Keeps s s' ∧ s'.base.cache level = some info ∧
      (∀ n info, s.base.cache n = some info → s'.base.cache n = some info) ∧
      ∃ cache, s' = { s with base := { s.base with cache := cache } } := by
  unfold State.maxLTXFileInfo at hs
  cases hcache : s.base.cache level with
  | some cached =>
      rw [hcache] at hs
      obtain ⟨rfl, rfl⟩ := Prod.mk.inj (Option.some.inj hs)
      exact ⟨.refl h, hcache, fun _ _ => id, s.base.cache, rfl⟩
  | none =>
      simp only [hcache, Option.ite_none_right_eq_some, Option.some.injEq, Prod.mk.injEq] at hs
      obtain ⟨-, rfl, rfl⟩ := hs
      have hup : ∀ n info, Function.update s.base.cache level (some (s.listedMax level)) n =
          some info → s.base.cache n = some info ∨ info = s.listedMax n := fun n info hinfo => by
        by_cases hn : n = level
        · subst hn
          rw [Function.update_self] at hinfo
          exact .inr (Option.some.inj hinfo).symm
        · rw [Function.update_of_ne hn] at hinfo
          exact .inl hinfo
      have htop : ∀ n, (s.listedMax n).maxTXID = s.top n := fun n => by
        rw [State.listedMax, maxFileInfo_maxTXID, State.top]
        exact Maintenance.top_map_stamp _ _
      have hcoherent : FileInfoCache.Coherent
          (Function.update s.base.cache level (some (s.listedMax level))) s.base.files :=
        fun n info hpos hlt hinfo => by
          rcases hup n info hinfo with hold | rfl
          · exact h.base.cache n info hpos hlt hold
          · exact htop n
      refine ⟨?_, Function.update_self .., fun n info hinfo => ?_, _, rfl⟩
      swap
      · by_cases hn : n = level
        · rw [hn, hcache] at hinfo
          cases hinfo
        · exact (Function.update_of_ne hn _ _).trans hinfo
      refine Passes.keeps h ⟨le_rfl, rfl, fun _ _ _ hf => hf, fun n info _ => hup n info,
        fun _ _ => le_rfl, le_rfl⟩ { h.base with cache := hcoherent } h.aligned fun hsync => ?_
      obtain ⟨info, hinfo, hmax⟩ := h.synced hsync
      by_cases hl : level = 0
      · rw [hl, hinfo] at hcache
        cases hcache
      · exact ⟨info, (Function.update_of_ne (Ne.symm hl) _ _).trans hinfo, hmax⟩

/-- What a call of `CompactDB` leaves alone. -/
structure Frame (s s' : State) : Prop where
  dbPos : s'.base.dbPos = s.base.dbPos
  clock : s'.clock = s.clock
  ready : s'.ready = s.ready
  synced : s'.synced = s.synced
  monitors : s'.monitors = s.monitors

theorem compact_keeps (h : Inv s) (hn : 0 < n) (hle : n ≤ set.config.maxLevel) {att : Attempt}
    (hatt : att.Timed s.clock) {info : FileInfo} (hcache : s.base.cache n = some info)
    {res : Except CompactDBError FileInfo} (hs : s.compact n att = (res, s')) :
    Keeps s s' ∧ Frame s s' ∧ (Settled res → s.source n ≤ s'.top n) := by
  have hlt : n < snapshotLevel := hle.trans_lt set.maxLevel_lt
  have hsource : s.source n = s.top (n - 1) := if_neg (by omega)
  obtain ⟨m, rfl⟩ : ∃ m, n = m + 1 := ⟨n - 1, by omega⟩
  rw [Nat.add_sub_cancel] at hsource
  have hnext : FileInfo.top (s.base.files (m + 1)) + 1 < txidLimit := by
    have := h.base.top_le hlt
    have := h.base.uploaded_le
    have := h.base.dbPos_lt
    omega
  have hsame : (maxLTXFileInfo s.base.files s.base.cache (m + 1)).2 = s.base.cache := by
    rw [maxLTXFileInfo, hcache]
  have heq : Litestream.compact (fun _ => att.written) (m + 1) s.base.files s.base.cache = _ :=
    compact_eq h.base.cache hn hlt hnext
  rw [hsame] at heq
  have haligned := h.aligned m hlt
  rw [State.compact, heq] at hs
  by_cases hnil : compactionSources s.base.files (m + 1) = []
  · rw [if_pos hnil] at hs
    obtain ⟨rfl, rfl⟩ := Prod.mk.inj hs
    exact ⟨.refl h, ⟨rfl, rfl, rfl, rfl, rfl⟩, fun _ => hsource ▸ haligned.top_le hnil⟩
  rw [if_neg hnil] at hs
  cases hwritten : att.written with
  | none =>
      simp only [hwritten] at hs
      obtain ⟨rfl, rfl⟩ := Prod.mk.inj hs
      exact ⟨.refl h, ⟨rfl, rfl, rfl, rfl, rfl⟩, fun hset => by cases hset⟩
  | some merged =>
      simp only [hwritten] at hs
      obtain ⟨rfl, rfl⟩ := Prod.mk.inj hs
      have hstep : Maintenance.step set.config s.base (.compact (m + 1) fun _ => att.written) =
          some { s.base with
            files := s.base.files.writeLTXFile (compacted s.base.files (m + 1) merged)
            cache := Function.update s.base.cache (m + 1)
              (some (compacted s.base.files (m + 1) merged)) } := by
        rw [Maintenance.step, if_pos ⟨hn, hle⟩, heq, if_neg hnil, hwritten]
      obtain ⟨hbase, hal, htop, hpos⟩ := base_step h hstep
      obtain ⟨hv, hmin, -⟩ := h.base.levels.compacted_spec hnil merged
      have hcaught : s.source (m + 1) ≤ FileInfo.top
          (s.base.files.writeLTXFile (compacted s.base.files (m + 1) merged) (m + 1)) := by
        rw [h.base.levels.top_writeLTXFile (n := m + 1) rfl hmin hv.min_le_max, hsource]
        exact (haligned.compacted_maxTXID h.base.levels hnil merged).ge
      exact ⟨Writes.keeps h ⟨rfl, rfl, hv.min_le_max, hatt.2 merged hwritten,
        ⟨att.listedAt, hatt.1, rfl⟩, rfl, rfl, htop, rfl, rfl, hcaught⟩ hn hbase hal,
        ⟨rfl, rfl, rfl, rfl, rfl⟩, fun _ => hcaught⟩

theorem snapshot_keeps (h : Inv s) {att : Attempt} (hatt : att.Timed s.clock)
    {res : Except CompactDBError FileInfo} (hs : s.snapshot set att = (res, s')) :
    Keeps s s' ∧ Frame s s' ∧ (Settled res → s.source snapshotLevel ≤ s'.top snapshotLevel) := by
  unfold State.snapshot at hs
  cases hwritten : att.written with
  | none =>
      simp only [hwritten] at hs
      obtain ⟨rfl, rfl⟩ := Prod.mk.inj hs
      exact ⟨.refl h, ⟨rfl, rfl, rfl, rfl, rfl⟩, fun hset => by cases hset⟩
  | some w =>
      obtain ⟨size, timestamp⟩ := w
      simp only [hwritten] at hs
      cases hstep : Maintenance.step set.config s.base (.snapshot size timestamp) with
      | none =>
          simp only [hstep] at hs
          obtain ⟨rfl, rfl⟩ := Prod.mk.inj hs
          exact ⟨.refl h, ⟨rfl, rfl, rfl, rfl, rfl⟩, fun hset => by cases hset⟩
      | some base =>
          simp only [hstep] at hs
          obtain ⟨rfl, rfl⟩ := Prod.mk.inj hs
          obtain ⟨hbase, hal, htop, hpos⟩ := base_step h hstep
          have hsnap := hbase.top_snapshot
          simp only [Maintenance.step, Option.ite_none_right_eq_some, Option.some.injEq] at hstep
          obtain ⟨hone, rfl⟩ := hstep
          have hcaught : s.source snapshotLevel ≤ FileInfo.top
              (s.base.files.writeLTXFile ⟨snapshotLevel, 1, s.base.dbPos, size, timestamp⟩
                snapshotLevel) := hsnap.ge
          exact ⟨Writes.keeps (n := snapshotLevel) h ⟨rfl, rfl, Nat.succ_le_of_lt hone,
            hatt.2 _ hwritten, ⟨att.listedAt, hatt.1, rfl⟩, rfl, rfl, htop, rfl, rfl, hcaught⟩
            (by decide) hbase hal, ⟨rfl, rfl, rfl, rfl, rfl⟩, fun _ => hcaught⟩

theorem Frame.trans {t : State} (h : Frame s t) (h' : Frame t s') : Frame s s' :=
  ⟨h'.dbPos.trans h.dbPos, h'.clock.trans h.clock, h'.ready.trans h.ready,
    h'.synced.trans h.synced, h'.monitors.trans h.monitors⟩

theorem Settings.mem_monitored (hn : n ∈ set.monitored) :
    0 < n ∧ n ≤ snapshotLevel ∧ (n ≠ snapshotLevel → n ≤ set.config.maxLevel) := by
  have hlt := set.maxLevel_lt
  rcases List.mem_append.mp hn with hn | hn
  · obtain ⟨hle, hlt'⟩ := List.mem_range'_1.mp hn
    exact ⟨hle, by omega, fun _ => show n ≤ set.levels.length - 1 by omega⟩
  · obtain rfl := List.mem_singleton.mp hn
    exact ⟨by decide, le_rfl, fun hne => absurd rfl hne⟩

/-- The level that `CompactDB` takes the source files from. -/
theorem prevLevel_toNat {levels : List CompactionLevel} (hn : 0 < n) (hne : n ≠ snapshotLevel) :
    (CompactionLevels.prevLevel levels n).toNat = n - 1 := by
  rw [CompactionLevels.prevLevel, if_neg (by omega)]
  omega

/-- Neither gate of `CompactDB` holds a level back. -/
theorem compactDB_spec (h : Inv s) (hn : n ∈ set.monitored) {att : Attempt}
    (hatt : att.Timed s.clock) {res : Except CompactDBError FileInfo}
    (hs : compactDB set n att s = (res, s')) :
    Keeps s s' ∧ Frame s s' ∧
      (Settled res → Since n c p s → c ≤ (set.level n).prevCompactionAt s.clock →
        (n = 1 → s.synced) → p ≤ s'.top n) := by
  obtain ⟨hpos, hle, hmax⟩ := Settings.mem_monitored hn
  unfold compactDB at hs
  split at hs
  · obtain ⟨rfl, rfl⟩ := Prod.mk.inj hs
    exact ⟨.refl h, ⟨rfl, rfl, rfl, rfl, rfl⟩, fun hset => by cases hset⟩
  split at hs
  · obtain ⟨rfl, rfl⟩ := Prod.mk.inj hs
    exact ⟨.refl h, ⟨rfl, rfl, rfl, rfl, rfl⟩, fun hset => by cases hset⟩
  next dstInfo t hdst =>
  obtain ⟨hkeeps, hcached, -, cache, rfl⟩ := maxLTXFileInfo_keeps h hdst
  set t : State := { s with base := { s.base with cache := cache } } with ht
  have hframe : Frame s t := ⟨rfl, rfl, rfl, rfl, rfl⟩
  split at hs
  · next hearly =>
      -- the newest file of the level is younger than the last multiple of the interval
      obtain ⟨rfl, rfl⟩ := Prod.mk.inj hs
      exact ⟨hkeeps, hframe, fun _ hsince hc _ =>
        (hkeeps.since hpos hle hsince).cached dstInfo hcached (hc.trans_lt hearly)⟩
  split at hs
  · next hsnap =>
      subst hsnap
      obtain ⟨hkeeps', hframe', hcaught⟩ := snapshot_keeps hkeeps.inv hatt hs
      exact ⟨hkeeps.trans hkeeps', hframe.trans hframe', fun hset hsince _ _ =>
        (hkeeps.since hpos hle hsince).source.trans (hcaught hset)⟩
  next hsnap =>
  rw [prevLevel_toNat hpos hsnap] at hs
  simp only at hs
  split at hs
  · obtain ⟨rfl, rfl⟩ := Prod.mk.inj hs
    exact ⟨hkeeps, hframe, fun hset => by cases hset⟩
  next srcInfo u hsrc =>
  obtain ⟨hkeeps', hcached', hold, cache', rfl⟩ := maxLTXFileInfo_keeps hkeeps.inv hsrc
  set u : State := { t with base := { t.base with cache := cache' } } with hu
  have hframe' : Frame s u := ⟨rfl, rfl, rfl, rfl, rfl⟩
  have hsource : u.source n = u.top (n - 1) := if_neg hsnap
  have hkeeps := hkeeps.trans hkeeps'
  have hlt : n < snapshotLevel := by omega
  split at hs
  · next hnew =>
      obtain ⟨rfl, rfl⟩ := Prod.mk.inj hs
      refine ⟨hkeeps, hframe', fun _ hsince _ hsynced => ?_⟩
      refine (hkeeps.since hpos hle hsince).source.trans ?_
      rw [hsource]
      have hdst := hold n dstInfo hcached
      have hmin := (hkeeps.inv.cached n dstInfo hpos hdst).1
      have hend : dstInfo.maxTXID = u.top n := hkeeps.inv.base.cache n dstInfo hpos hlt hdst
      have hsrcEnd : u.top (n - 1) ≤ srcInfo.maxTXID := by
        by_cases hone : n = 1
        · subst hone
          obtain ⟨info, hinfo, hinfoMax⟩ := hkeeps.inv.synced (hsynced rfl)
          obtain rfl : info = srcInfo := Option.some.inj (hinfo.symm.trans hcached')
          rw [hinfoMax]
          exact hkeeps.inv.base.top_zero.trans_le hkeeps.inv.base.uploaded_le
        · exact (hkeeps.inv.base.cache (n - 1) srcInfo (by omega) (by omega) hcached').ge
      omega
  · obtain ⟨hkeeps'', hframe'', hcaught⟩ := compact_keeps hkeeps.inv hpos (hmax hsnap) hatt
      (hold n dstInfo hcached) hs
    exact ⟨hkeeps.trans hkeeps'', hframe'.trans hframe'', fun hset hsince _ _ =>
      (hkeeps.since hpos hle hsince).source.trans (hcaught hset)⟩

theorem compactDB_frame (h : Inv s) (hn : n ∈ set.monitored) {att : Attempt}
    (hatt : att.Timed s.clock) : Frame s (compactDB set n att s).2 :=
  (compactDB_spec (c := 0) (p := 0) h hn hatt rfl).2.1

/-! ## One step -/

theorem other_frame {cfg : Config} {r r' : Maintenance.State} {b : Maintenance.Action}
    (hb : isOther b) (hs : Maintenance.step cfg r b = some r') :
    r'.cache = r.cache ∧ r'.dbPos = r.dbPos := by
  cases b with
  | sync | compact | snapshot => cases hb
  | upload | enforceRetentionByTXID =>
      simp only [Maintenance.step, Option.ite_none_right_eq_some, Option.some.injEq] at hs
      obtain ⟨-, rfl⟩ := hs
      exact ⟨rfl, rfl⟩
  | enforceL0RetentionByTime | enforceSnapshotRetention =>
      simp only [Maintenance.step, Option.some.injEq] at hs
      subst hs
      exact ⟨rfl, rfl⟩

theorem setMonitor_keeps (h : Inv s) (level : Nat) (m : Monitor) :
    Keeps s (s.setMonitor level m) where
  inv := ⟨h.base, h.aligned, h.synced, h.cached, h.stamped⟩
  since _ _ hs := ⟨hs.source, hs.cached, hs.stamped⟩
  top_le _ _ := le_rfl

theorem step_keeps (h : Inv s) (hs : step set s a = some s') : Keeps s s' := by
  cases a with
  | elapse d =>
      simp only [step, Option.some.injEq] at hs
      subst hs
      exact Passes.keeps h ⟨Nat.le_add_right _ _, rfl, fun _ _ _ => id, fun _ _ _ => .inl,
        fun _ _ => le_rfl, le_rfl⟩ h.base h.aligned h.synced
  | init =>
      simp only [step, Option.some.injEq] at hs
      subst hs
      exact Passes.keeps h ⟨le_rfl, rfl, fun _ _ _ => id, fun _ _ _ => .inl,
        fun _ _ => le_rfl, le_rfl⟩ h.base h.aligned h.synced
  | sync size now =>
      simp only [step, Option.ite_none_right_eq_some] at hs
      obtain ⟨-, hs⟩ := hs
      obtain ⟨base, hbase, rfl⟩ := Option.map_eq_some_iff.mp hs
      obtain ⟨hinv, hal, htop, hpos⟩ := base_step h hbase
      have hcache : ∀ n, 0 < n → ∀ cached : Option FileInfo,
          Function.update base.cache 0 cached n = s.base.cache n := fun n hn cached => by
        simp only [Maintenance.step, Option.ite_none_right_eq_some, Option.some.injEq] at hbase
        obtain ⟨-, rfl⟩ := hbase
        exact Function.update_of_ne (Nat.ne_of_gt hn) _ _
      refine Passes.keeps h ⟨le_rfl, rfl, fun n hn f hf => ?_, fun n info hn hinfo => ?_, htop,
        hpos⟩ { hinv with cache := fun n info hn hlt hinfo => ?_ } hal fun _ =>
        ⟨⟨0, base.dbPos, base.dbPos, size, s.clock⟩, Function.update_self 0 _ base.cache, rfl⟩
      · exact Maintenance.mem_of_step hbase hn hf ⟨fun _ _ => by simp, fun _ _ => by simp⟩
      · exact .inl ((hcache n hn _).symm.trans hinfo)
      · refine hinv.cache n info hn hlt ?_
        rw [← hinfo]
        exact (Function.update_of_ne (Nat.ne_of_gt hn) _ _).symm
  | other b =>
      simp only [step, Option.ite_none_right_eq_some] at hs
      obtain ⟨hb, hs⟩ := hs
      obtain ⟨base, hbase, rfl⟩ := Option.map_eq_some_iff.mp hs
      obtain ⟨hinv, hal, htop, hpos⟩ := base_step h hbase
      obtain ⟨hcache, hdbPos⟩ := other_frame hb hbase
      refine Passes.keeps h ⟨le_rfl, rfl, fun n hn f hf => ?_, fun n info _ hinfo => ?_, htop,
        hpos⟩ hinv hal fun hsync => ?_
      · refine Maintenance.mem_of_step hbase hn hf ⟨fun _ _ heq => ?_, fun _ _ heq => ?_⟩
        · rw [heq] at hb
          cases hb
        · rw [heq] at hb
          cases hb
      · exact .inl (hcache ▸ hinfo)
      · rw [hcache, hdbPos]
        exact h.synced hsync
  | begin level =>
      simp only [step] at hs
      split at hs
      · split at hs
        · cases hs
          exact setMonitor_keeps h _ _
        · cases hs
      · cases hs
  | compactDB level att =>
      simp only [step] at hs
      split at hs
      · split at hs
        · next hguard =>
            cases hs
            have hkeeps := (compactDB_spec (n := level) (c := 0) (p := 0) h hguard.1 hguard.2 rfl).1
            exact hkeeps.trans (setMonitor_keeps hkeeps.inv _ _)
        · cases hs
      · cases hs
  | finish level othersNotReady =>
      simp only [step] at hs
      split at hs
      · cases hs
        exact setMonitor_keeps h _ _
      · cases hs

/-! ## Runs -/

/-- The files of a replica were written before this time. -/
def WrittenBy (base : Maintenance.State) (clock : Nat) (listedAt : Nat → FileInfo → Nat) : Prop :=
  ∀ n, ∀ f ∈ base.files n, f.createdAt ≤ clock ∧ listedAt n f ≤ clock

theorem Inv.start {cfg : Config} {before : List Maintenance.Action} {base : Maintenance.State}
    {clock : Nat} {listedAt : Nat → FileInfo → Nat}
    (hbefore : Run.run (Maintenance.step cfg) .empty before = some base)
    (hwritten : WrittenBy base clock listedAt) : Inv (.start base clock listedAt) := by
  have h : base.Inv ∧ ∀ n, n + 1 < snapshotLevel → Maintenance.Aligned base.files n := by
    refine Run.run_invariant (I := fun r => r.Inv ∧
      ∀ n, n + 1 < snapshotLevel → Maintenance.Aligned r.files n) (fun h hs => ?_)
      ⟨Maintenance.State.empty_inv, fun _ _ _ hf => by cases hf⟩ hbefore
    obtain ⟨hinv, heffect⟩ := Maintenance.step_effect h.1 hs
    exact ⟨hinv, fun n hn => heffect.aligned h.1 hn (h.2 n hn)⟩
  exact
    { base := { h.1 with cache := fun _ _ _ _ hinfo => by cases hinfo }
      aligned := h.2
      synced := fun hsync => by cases hsync
      cached := fun _ _ _ hinfo => by cases hinfo
      stamped := fun n _ f hf => hwritten n f hf }

theorem run_keeps (h : Inv s) {as : List Action} (hrun : Run.run (step set) s as = some s') :
    Keeps s s' :=
  Run.run_invariant (I := Keeps s) (fun hk hs => hk.trans (step_keeps hk.inv hs)) (.refl h) hrun

/-- However the monitors, the database, the uploads and the retentions are interleaved, a call of
`CompactDB` that meets no error leaves its level no shorter than its source was at the last
multiple of the interval.  For level 1, the database has written a file since the start. -/
theorem compactDB_run (set : Settings) {cfg : Config} {before : List Maintenance.Action}
    {base : Maintenance.State} {clock : Nat} {listedAt : Nat → FileInfo → Nat}
    {as₁ as₂ : List Action} {s₁ s₂ : State} {n : Nat} {att : Attempt}
    (hbefore : Run.run (Maintenance.step cfg) .empty before = some base)
    (hwritten : WrittenBy base clock listedAt)
    (h₁ : Run.run (step set) (.start base clock listedAt) as₁ = some s₁)
    (h₂ : Run.run (step set) s₁ as₂ = some s₂) (hn : n ∈ set.monitored)
    (hatt : att.Timed s₂.clock) (hsettled : Settled (compactDB set n att s₂).1)
    (hprev : s₁.clock ≤ (set.level n).prevCompactionAt s₂.clock)
    (hsynced : n = 1 → s₂.synced) :
    s₁.source n ≤ (compactDB set n att s₂).2.top n := by
  have hinv₁ : Inv s₁ := (run_keeps (.start hbefore hwritten) h₁).inv
  have hkeeps := run_keeps hinv₁ h₂
  obtain ⟨hpos, hle, -⟩ := Settings.mem_monitored hn
  have hsince := hkeeps.since hpos hle (.now hinv₁ hpos)
  exact (compactDB_spec hkeeps.inv hn hatt rfl).2.2 hsettled hsince hprev hsynced

theorem sampleLevels_valid : CompactionLevels.validate [⟨0, 0⟩, ⟨1, 30000000000⟩] = .ok () := rfl

/-- Level 1 is compacted every 30 seconds, and a snapshot is taken every day. -/
def sampleSettings : Settings :=
  ⟨[⟨0, 0⟩, ⟨1, 30000000000⟩], sampleLevels_valid, 86400000000000, true⟩

def sampleStart : State := .start .empty 5000000000 fun _ => FileInfo.createdAt

def sampleUpload : List Action := [.init, .sync 10 5000000000, .other (.upload 10)]

def sampleAttempt : Attempt := ⟨true, true, some (10, 5000000000), 5000000000⟩

theorem compactDB_run_sample : ∃ s₁ s₂,
    Run.run (step sampleSettings) sampleStart sampleUpload = some s₁ ∧
      Run.run (step sampleSettings) s₁ [.elapse 25000000000] = some s₂ ∧
      s₁.source 1 = 1 ∧ s₁.source 1 ≤ (compactDB sampleSettings 1 sampleAttempt s₂).2.top 1 := by
  have hany : (Run.run (step sampleSettings) sampleStart sampleUpload).any fun s₁ =>
      decide (s₁.source 1 = 1) &&
      (Run.run (step sampleSettings) s₁ [.elapse 25000000000]).any fun s₂ =>
        decide (s₂.synced = true ∧ sampleAttempt.Timed s₂.clock ∧
          Settled (compactDB sampleSettings 1 sampleAttempt s₂).1 = true ∧
          s₁.clock ≤ (sampleSettings.level 1).prevCompactionAt s₂.clock) := by
    decide +kernel
  obtain ⟨s₁, h₁, hs₁⟩ := (Option.any_eq_true _ _).mp hany
  obtain ⟨hsource, hs₁⟩ := Bool.and_eq_true_iff.mp hs₁
  obtain ⟨s₂, h₂, hs₂⟩ := (Option.any_eq_true _ _).mp hs₁
  obtain ⟨hsynced, htimed, hsettled, hprev⟩ := of_decide_eq_true hs₂
  have hbefore : Run.run (Maintenance.step Maintenance.twoLevels) .empty [] = some .empty := rfl
  exact ⟨s₁, s₂, h₁, h₂, of_decide_eq_true hsource,
    compactDB_run sampleSettings hbefore (fun _ _ hf => by cases hf) h₁ h₂ (by decide) htimed
      hsettled hprev fun _ => hsynced⟩

/-- The second transaction was written before the process started, and is uploaded after it has
cached what level 0 ends with. -/
def sampleIdle : List Action :=
  [.init, .elapse 1, .begin 1, .compactDB 1 sampleAttempt, .finish 1 false, .other (.upload 10),
    .elapse 30000000000, .begin 1, .compactDB 1 sampleAttempt]

/-- Until the database writes another file, level 1 does not take it up. -/
example : (Run.run (Maintenance.step sampleSettings.config) .empty
    [.sync 1, .upload 10, .compact 1 fun _ => some (10, 1), .sync 2]).any fun base =>
      (Run.run (step sampleSettings) (.start base 35000000000 fun _ => FileInfo.createdAt)
        sampleIdle).any fun s => decide (s.top 0 = 2 ∧ s.top 1 = 1) := by
  decide +kernel

end Schedule

end Litestream
