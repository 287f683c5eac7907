import Mathlib
import Litestream.Replica.LocalFiles

/-!
# Shutting down

`DB.Close` syncs the database a last time and then calls `Replica.Sync` until that succeeds, the
timeout has passed or the channel `Done` is closed.  The replica monitor goes on meanwhile, and
so do the compactions and the retention of the store.

If `Store.Close` returns nil, every transaction that a database had is on its replica
(`close_replicated`).  If not, the loop has made a bounded number of attempts, and its error
says why it has stopped (`shutdown_run`).
-/

namespace Litestream

namespace Shutdown

open Maintenance (Config)

/-! ## The loop -/

/-- `DefaultShutdownSyncInterval`, in nanoseconds. -/
def defaultShutdownSyncInterval : Nat := 500 * 1000000

structure Settings where
  /-- `ShutdownSyncTimeout`.  Zero stands for a single attempt. -/
  timeout : Nat
  /-- `ShutdownSyncInterval`. -/
  interval : Nat

/-- The time between two attempts. -/
def Settings.delay (c : Settings) : Nat :=
  if c.interval = 0 then defaultShutdownSyncInterval else c.interval

inductive ShutdownError where
  /-- What the single attempt returns. -/
  | sync (err : ClientError)
  | timeout (attempts : Nat) (lastErr : Option ClientError)
  /-- `ErrShutdownInterrupted`. -/
  | interrupted (attempts : Nat)
deriving DecidableEq, Repr

inductive Phase where
  | head
  /-- `Replica.Sync` waits for its mutex. -/
  | calling
  /-- It runs. -/
  | syncing
  /-- It has failed. -/
  | failed
  /-- The next attempt is due an interval after this time. -/
  | waiting (since : Nat)
  | returned (err : Option ShutdownError)
deriving DecidableEq, Repr

structure State where
  files : LocalFiles.State
  phase : Phase
  attempt : Nat
  lastErr : Option ClientError
  /-- The time since the loop has begun. -/
  now : Nat
  /-- `Done` is closed. -/
  done : Bool
  /-- The context of the caller is cancelled. -/
  cancelled : Bool

/-- The loop begins. -/
def State.start (files : LocalFiles.State) : State := ⟨files, .head, 0, none, 0, false, false⟩

/-- Which case a `select` takes. -/
inductive Ready where
  | deadline
  | done
  /-- The default case, or the timer of the interval. -/
  | proceed
deriving DecidableEq, Repr

inductive Action where
  | elapse (d : Nat)
  | closeDone
  | cancel
  | head
  /-- `Replica.Sync` gets its mutex and starts. -/
  | call (listed : Bool) (err : ClientError)
  /-- A step of this call of `Replica.Sync`.  The error is returned if it is the last one. -/
  | own (a : LocalFiles.Action) (err : ClientError)
  /-- A step of anything else that runs. -/
  | other (a : LocalFiles.Action)
  | select (ready : Ready)

/-- The steps of `Replica.Sync`. -/
def isSync : LocalFiles.Action → Bool
  | .start _ | .readPos _ | .openFile | .store _ | .failStore _ | .finish => true
  | _ => false

def isFinish : LocalFiles.Action → Bool
  | .finish => true
  | _ => false

def isRestart : LocalFiles.Action → Bool
  | .restart => true
  | _ => false

/-- An attempt has failed. -/
def State.fail (c : Settings) (s : State) (files : LocalFiles.State) (err : ClientError) : State :=
  { s with
    files := files
    lastErr := some err
    phase := if c.timeout = 0 then .returned (some (.sync err)) else .failed }

/-- `DB.syncReplicaWithRetry`, among everything else that runs. -/
def step (cfg : Config) (c : Settings) (s : State) : Action → Option State
  | .elapse d => some { s with now := s.now + d }
  | .closeDone => some { s with done := true }
  | .cancel => some { s with cancelled := true }
  | .head =>
      match s.phase with
      | .head =>
          if c.timeout ≠ 0 ∧ s.done then
            some { s with phase := .returned (some (.interrupted s.attempt)) }
          else some { s with attempt := s.attempt + 1, phase := .calling }
      | _ => none
  | .call listed err =>
      match s.phase with
      | .calling =>
          (LocalFiles.step cfg s.files (.start listed)).map fun files =>
            if files.sync = .idle then s.fail c files err
            else { s with files := files, phase := .syncing }
      | _ => none
  | .own a err =>
      match s.phase with
      | .syncing =>
          if isSync a then
            (LocalFiles.step cfg s.files a).map fun files =>
              if files.sync = .idle then
                if isFinish a then { s with files := files, phase := .returned none }
                else s.fail c files err
              else { s with files := files }
          else none
      | _ => none
  | .other a =>
      if isRestart a ∨ s.phase = .syncing ∧ isSync a then none
      else (LocalFiles.step cfg s.files a).map fun files => { s with files := files }
  | .select ready =>
      match s.phase, ready with
      | .failed, .deadline | .waiting _, .deadline =>
          if c.timeout ≤ s.now ∨ s.cancelled then
            some { s with phase := .returned (some (.timeout s.attempt s.lastErr)) }
          else none
      | .failed, .done | .waiting _, .done =>
          if s.done then some { s with phase := .returned (some (.interrupted s.attempt)) }
          else none
      | .failed, .proceed =>
          if s.now < c.timeout ∧ s.cancelled = false ∧ s.done = false then
            some { s with phase := .waiting s.now }
          else none
      | .waiting since, .proceed =>
          if since + c.delay ≤ s.now then some { s with phase := .head } else none
      | _, _ => none

/-! ## The steps of the files -/

section Files

variable {cfg : Config} {r r' : LocalFiles.State} {a : LocalFiles.Action}

/-- What is no step of a sync leaves the phase of the sync. -/
theorem other_spec (hsync : isSync a = false) (hrestart : isRestart a = false)
    (hs : LocalFiles.step cfg r a = some r') :
    r'.sync = r.sync ∧ r.base.dbPos ≤ r'.base.dbPos ∧ r'.base.uploaded = r.base.uploaded := by
  cases a with
  | start | readPos | openFile | store | failStore | finish => cases hsync
  | restart => cases hrestart
  | dbSync now =>
      obtain ⟨base, hbase, rfl⟩ := Option.map_eq_some_iff.mp hs
      simp only [Maintenance.step, Option.ite_none_right_eq_some, Option.some.injEq] at hbase
      obtain ⟨-, rfl⟩ := hbase
      exact ⟨rfl, Nat.le_succ _, rfl⟩
  | maintenance b =>
      obtain ⟨base, -, rfl, hpos, hup⟩ := LocalFiles.maintenance_spec hs
      exact ⟨rfl, hpos.ge, hup⟩
  | listL1 =>
      simp only [LocalFiles.step] at hs
      split at hs
      · cases hs
        exact ⟨rfl, le_rfl, rfl⟩
      · cases hs
  | listL0 threshold listedAt modTime =>
      simp only [LocalFiles.step] at hs
      split at hs
      · cases hs
        exact ⟨rfl, le_rfl, rfl⟩
      · cases hs
  | deleteLTXFiles failed =>
      simp only [LocalFiles.step] at hs
      split at hs
      · split at hs
        · cases hs
          exact ⟨rfl, le_rfl, rfl⟩
        · split at hs
          · cases hs
            exact ⟨rfl, le_rfl, rfl⟩
          · cases hs
            exact ⟨rfl, le_rfl, rfl⟩
      · cases hs
  | removeLocal removed =>
      simp only [LocalFiles.step] at hs
      split at hs
      · cases hs
        exact ⟨rfl, le_rfl, rfl⟩
      · cases hs

/-- A sync is in flight, and has not read a position before this one. -/
def Covers (p : Nat) : LocalFiles.SyncPhase → Prop
  | .idle => False
  | .located => True
  | .uploading dpos | .storing dpos _ => p ≤ dpos

/-- A step of a sync moves it on, or ends it.  If it ends without an error, what it has read was
uploaded. -/
theorem sync_spec {p : Nat} (h : LocalFiles.Inv r) (hp : p ≤ r.base.dbPos) (hsync : isSync a)
    (hcovers : r.sync ≠ .idle → Covers p r.sync) (hs : LocalFiles.step cfg r a = some r') :
    r'.base.dbPos = r.base.dbPos ∧ r.base.uploaded ≤ r'.base.uploaded ∧
      (r'.sync ≠ .idle → Covers p r'.sync) ∧ (isFinish a → p ≤ r'.base.uploaded) := by
  have hinv := h.sync
  cases a with
  | dbSync | maintenance | listL1 | listL0 | deleteLTXFiles | removeLocal | restart => cases hsync
  | start listed =>
      simp only [LocalFiles.step] at hs
      split at hs
      · split at hs
        · cases hs
          exact ⟨rfl, le_rfl, fun _ => trivial, fun hf => by cases hf⟩
        · split at hs
          · cases hs
            exact ⟨rfl, le_rfl, fun _ => trivial, fun hf => by cases hf⟩
          · cases hs
            exact ⟨rfl, le_rfl, fun hne => absurd rfl hne, fun hf => by cases hf⟩
      · cases hs
  | readPos read =>
      simp only [LocalFiles.step] at hs
      split at hs
      · split at hs
        · cases hs
          exact ⟨rfl, le_rfl, fun _ => hp.trans h.maxLTX_eq.ge, fun hf => by cases hf⟩
        · cases hs
          exact ⟨rfl, le_rfl, fun hne => absurd rfl hne, fun hf => by cases hf⟩
      · cases hs
  | openFile =>
      simp only [LocalFiles.step] at hs
      split at hs
      · next dpos hphase =>
          rw [hphase] at hcovers
          split at hs
          · split at hs
            · cases hs
              exact ⟨rfl, le_rfl, fun _ => hcovers (by simp), fun hf => by cases hf⟩
            · cases hs
              exact ⟨rfl, le_rfl, fun hne => absurd rfl hne, fun hf => by cases hf⟩
          · cases hs
      · cases hs
  | store size =>
      simp only [LocalFiles.step] at hs
      split at hs
      · next dpos txID hphase =>
          rw [hphase] at hcovers
          rw [LocalFiles.SyncInv, hphase] at hinv
          cases hs
          exact ⟨rfl, show r.base.uploaded ≤ txID by omega, fun _ => hcovers (by simp),
            fun hf => by cases hf⟩
      · cases hs
  | failStore stored =>
      simp only [LocalFiles.step] at hs
      split at hs
      · next dpos txID hphase =>
          rw [LocalFiles.SyncInv, hphase] at hinv
          split at hs
          · cases hs
            exact ⟨rfl, show r.base.uploaded ≤ txID by omega, fun hne => absurd rfl hne,
              fun hf => by cases hf⟩
          · cases hs
            exact ⟨rfl, le_rfl, fun hne => absurd rfl hne, fun hf => by cases hf⟩
      · cases hs
  | finish =>
      simp only [LocalFiles.step] at hs
      split at hs
      · next dpos hphase =>
          rw [hphase] at hcovers
          rw [LocalFiles.SyncInv, hphase] at hinv
          split at hs
          · cases hs
            have hle : p ≤ dpos := hcovers (by simp)
            exact ⟨rfl, le_rfl, fun hne => absurd rfl hne,
              fun _ => show p ≤ r.base.uploaded by omega⟩
          · cases hs
      · cases hs

/-- The positions only grow. -/
theorem files_le (h : LocalFiles.Inv r) (hrestart : isRestart a = false)
    (hs : LocalFiles.step cfg r a = some r') :
    r.base.dbPos ≤ r'.base.dbPos ∧ r.base.uploaded ≤ r'.base.uploaded := by
  cases hsync : isSync a with
  | false =>
      obtain ⟨-, hpos, hup⟩ := other_spec hsync hrestart hs
      exact ⟨hpos, hup.ge⟩
  | true =>
      have hzero : r.sync ≠ .idle → Covers 0 r.sync := fun hne => by
        cases hphase : r.sync with
        | idle => exact hne hphase
        | located => trivial
        | uploading dpos => exact Nat.zero_le dpos
        | storing dpos txID => exact Nat.zero_le dpos
      obtain ⟨hpos, hup, -⟩ := sync_spec h (Nat.zero_le _) hsync hzero hs
      exact ⟨hpos.ge, hup⟩

end Files

/-! ## The invariant -/

/-- How often the loop has been through an interval, at this time. -/
def Timed (c : Settings) (s : State) : Prop :=
  match s.phase with
  | .head => s.attempt * c.delay ≤ s.now ∧ (s.attempt = 0 ∨ (s.attempt - 1) * c.delay < c.timeout)
  | .calling | .syncing | .failed =>
      1 ≤ s.attempt ∧ (s.attempt - 1) * c.delay ≤ s.now ∧
        (s.attempt = 1 ∨ (s.attempt - 2) * c.delay < c.timeout)
  | .waiting since =>
      1 ≤ s.attempt ∧ (s.attempt - 1) * c.delay ≤ since ∧ since < c.timeout ∧ since ≤ s.now
  | .returned _ => s.attempt ≤ 1 ∨ (s.attempt - 2) * c.delay < c.timeout

/-- Why the loop has returned an error. -/
def Explained (c : Settings) (s : State) : Prop :=
  match s.phase with
  | .returned none => True
  | .returned (some (.sync err)) => c.timeout = 0 ∧ s.attempt = 1 ∧ s.lastErr = some err
  | .returned (some (.timeout attempts lastErr)) =>
      attempts = s.attempt ∧ lastErr = s.lastErr ∧ c.timeout ≠ 0 ∧
        (c.timeout ≤ s.now ∨ s.cancelled) ∧ lastErr ≠ none
  | .returned (some (.interrupted attempts)) =>
      attempts = s.attempt ∧ c.timeout ≠ 0 ∧ s.done = true
  | .failed | .waiting _ => c.timeout ≠ 0 ∧ s.lastErr ≠ none
  | .head => c.timeout = 0 → s.attempt = 0
  | .calling | .syncing => c.timeout = 0 → s.attempt = 1

/-- The loop began when the database was at position `p`. -/
structure Inv (c : Settings) (p : Nat) (s : State) : Prop where
  files : LocalFiles.Inv s.files
  le : p ≤ s.files.base.dbPos
  covers : s.phase = .syncing → s.files.sync ≠ .idle ∧ Covers p s.files.sync
  replicated : s.phase = .returned none → p ≤ s.files.base.uploaded
  timed : Timed c s
  explained : Explained c s

variable {cfg : Config} {c : Settings} {p : Nat} {s s' : State}

theorem Inv.start {files : LocalFiles.State} (h : LocalFiles.Inv files) :
    Inv c files.base.dbPos (.start files) where
  files := h
  le := le_rfl
  covers hphase := by cases hphase
  replicated hphase := by cases hphase
  timed := by
    show 0 * c.delay ≤ 0 ∧ _
    rw [Nat.zero_mul]
    exact ⟨le_rfl, .inl rfl⟩
  explained _ := rfl

/-- The time passes, and the channel or the context may be closed. -/
theorem Explained.later (h : Explained c s) {now : Nat} {done cancelled : Bool}
    (hnow : s.now ≤ now) (hdone : s.done = true → done = true)
    (hcancelled : s.cancelled = true → cancelled = true) :
    Explained c { s with now := now, done := done, cancelled := cancelled } := by
  unfold Explained at h ⊢
  rcases hphase : s.phase with _ | _ | _ | _ | since | (_ | (err | ⟨attempts, err⟩ | attempts)) <;>
    simp only [hphase] at h ⊢
  case head | calling | syncing => exact h
  case failed | waiting => exact h
  case returned.some.sync => exact h
  case returned.some.timeout =>
    obtain ⟨hattempts, herr, hne, hle, hsome⟩ := h
    exact ⟨hattempts, herr, hne, hle.imp (fun h => h.trans hnow) hcancelled, hsome⟩
  case returned.some.interrupted => exact ⟨h.1, h.2.1, hdone h.2.2⟩

/-- A step that leaves the loop where it is. -/
theorem Inv.of_files (h : Inv c p s) {files : LocalFiles.State} (hfiles : LocalFiles.Inv files)
    (hpos : s.files.base.dbPos ≤ files.base.dbPos)
    (hup : s.files.base.uploaded ≤ files.base.uploaded)
    (hcovers : s.phase = .syncing → files.sync ≠ .idle ∧ Covers p files.sync) :
    Inv c p { s with files := files } where
  files := hfiles
  le := h.le.trans hpos
  covers := hcovers
  replicated hphase := (h.replicated hphase).trans hup
  timed := h.timed
  explained := h.explained

/-- An attempt that fails. -/
theorem Inv.fail (h : Inv c p s) (hphase : s.phase = .calling ∨ s.phase = .syncing)
    {files : LocalFiles.State} (hfiles : LocalFiles.Inv files)
    (hpos : s.files.base.dbPos ≤ files.base.dbPos) (err : ClientError) :
    Inv c p (s.fail c files err) := by
  have htimed := h.timed
  have hexplained := h.explained
  have htimed : 1 ≤ s.attempt ∧ (s.attempt - 1) * c.delay ≤ s.now ∧
      (s.attempt = 1 ∨ (s.attempt - 2) * c.delay < c.timeout) := by
    rcases hphase with hphase | hphase <;> rwa [Timed, hphase] at htimed
  have hexplained : c.timeout = 0 → s.attempt = 1 := by
    rcases hphase with hphase | hphase <;> rwa [Explained, hphase] at hexplained
  by_cases hzero : c.timeout = 0
  · refine ⟨hfiles, h.le.trans hpos, fun hphase => ?_, fun hphase => ?_, ?_, ?_⟩
    · rw [State.fail, if_pos hzero] at hphase
      cases hphase
    · rw [State.fail, if_pos hzero] at hphase
      cases hphase
    · rw [State.fail, if_pos hzero]
      exact .inl (hexplained hzero).le
    · rw [State.fail, if_pos hzero]
      exact ⟨hzero, hexplained hzero, rfl⟩
  · refine ⟨hfiles, h.le.trans hpos, fun hphase => ?_, fun hphase => ?_, ?_, ?_⟩
    · rw [State.fail, if_neg hzero] at hphase
      cases hphase
    · rw [State.fail, if_neg hzero] at hphase
      cases hphase
    · rw [State.fail, if_neg hzero]
      exact htimed
    · rw [State.fail, if_neg hzero]
      exact ⟨hzero, by simp⟩

theorem Inv.select (h : Inv c p s) {ready : Ready}
    (hs : step cfg c s (.select ready) = some s') : Inv c p s' := by
  have htimed := h.timed
  have hexplained := h.explained
  simp only [step] at hs
  cases hphase : s.phase with
  | head | calling | syncing | returned => simp [hphase] at hs
  | failed =>
      rw [Timed, hphase] at htimed
      rw [Explained, hphase] at hexplained
      obtain ⟨hpos, hnow, hbound⟩ := htimed
      have hbound : s.attempt ≤ 1 ∨ (s.attempt - 2) * c.delay < c.timeout :=
        hbound.imp_left fun h => h.le
      cases ready with
      | deadline =>
          simp only [hphase, Option.ite_none_right_eq_some, Option.some.injEq] at hs
          obtain ⟨hle, rfl⟩ := hs
          exact ⟨h.files, h.le, (fun hp => by cases hp), (fun hp => by cases hp), hbound,
            rfl, rfl, hexplained.1, hle, hexplained.2⟩
      | done =>
          simp only [hphase, Option.ite_none_right_eq_some, Option.some.injEq] at hs
          obtain ⟨hdone, rfl⟩ := hs
          exact ⟨h.files, h.le, (fun hp => by cases hp), (fun hp => by cases hp), hbound,
            rfl, hexplained.1, hdone⟩
      | proceed =>
          simp only [hphase, Option.ite_none_right_eq_some, Option.some.injEq] at hs
          obtain ⟨⟨hlt, -⟩, rfl⟩ := hs
          exact ⟨h.files, h.le, (fun hp => by cases hp), (fun hp => by cases hp),
            ⟨hpos, hnow, hlt, le_rfl⟩, hexplained⟩
  | waiting since =>
      rw [Timed, hphase] at htimed
      rw [Explained, hphase] at hexplained
      obtain ⟨hpos, hle, hlt, hnow⟩ := htimed
      have hmul : (s.attempt - 2) * c.delay ≤ (s.attempt - 1) * c.delay :=
        Nat.mul_le_mul_right _ (by omega)
      have hbound : s.attempt ≤ 1 ∨ (s.attempt - 2) * c.delay < c.timeout := .inr (by omega)
      cases ready with
      | deadline =>
          simp only [hphase, Option.ite_none_right_eq_some, Option.some.injEq] at hs
          obtain ⟨hle, rfl⟩ := hs
          exact ⟨h.files, h.le, (fun hp => by cases hp), (fun hp => by cases hp), hbound,
            rfl, rfl, hexplained.1, hle, hexplained.2⟩
      | done =>
          simp only [hphase, Option.ite_none_right_eq_some, Option.some.injEq] at hs
          obtain ⟨hdone, rfl⟩ := hs
          exact ⟨h.files, h.le, (fun hp => by cases hp), (fun hp => by cases hp), hbound,
            rfl, hexplained.1, hdone⟩
      | proceed =>
          simp only [hphase, Option.ite_none_right_eq_some, Option.some.injEq] at hs
          obtain ⟨hdue, rfl⟩ := hs
          refine ⟨h.files, h.le, (fun hp => by cases hp), (fun hp => by cases hp),
            ⟨?_, .inr (hle.trans_lt hlt)⟩, fun hzero => absurd hzero hexplained.1⟩
          have hsucc : s.attempt * c.delay = (s.attempt - 1) * c.delay + c.delay := by
            rw [← Nat.succ_mul, Nat.succ_eq_add_one, Nat.sub_add_cancel hpos]
          show s.attempt * c.delay ≤ s.now
          omega

theorem Inv.step (h : Inv c p s) {a : Action} (hs : step cfg c s a = some s') : Inv c p s' := by
  have htimed := h.timed
  have hexplained := h.explained
  cases a with
  | select ready => exact h.select hs
  | elapse d =>
      simp only [Shutdown.step, Option.some.injEq] at hs
      subst hs
      refine ⟨h.files, h.le, h.covers, h.replicated, ?_,
        h.explained.later (Nat.le_add_right _ _) id id⟩
      unfold Timed at htimed ⊢
      split at htimed <;> next hphase => (simp only [hphase]; omega)
  | closeDone =>
      simp only [Shutdown.step, Option.some.injEq] at hs
      subst hs
      exact ⟨h.files, h.le, h.covers, h.replicated, h.timed,
        h.explained.later le_rfl (fun _ => rfl) id⟩
  | cancel =>
      simp only [Shutdown.step, Option.some.injEq] at hs
      subst hs
      exact ⟨h.files, h.le, h.covers, h.replicated, h.timed,
        h.explained.later le_rfl id fun _ => rfl⟩
  | head =>
      simp only [Shutdown.step] at hs
      split at hs
      · next hphase =>
          rw [Timed, hphase] at htimed
          rw [Explained, hphase] at hexplained
          obtain ⟨hnow, hbound⟩ := htimed
          split at hs
          · next hdone =>
              cases hs
              refine ⟨h.files, h.le, (fun hp => by cases hp), (fun hp => by cases hp), ?_,
                rfl, hdone⟩
              have hmul : (s.attempt - 2) * c.delay ≤ (s.attempt - 1) * c.delay :=
                Nat.mul_le_mul_right _ (by omega)
              show s.attempt ≤ 1 ∨ (s.attempt - 2) * c.delay < c.timeout
              omega
          · cases hs
            refine ⟨h.files, h.le, (fun hp => by cases hp), (fun hp => by cases hp),
              ⟨Nat.succ_pos _, hnow, ?_⟩, fun hzero => by rw [hexplained hzero]⟩
            exact hbound.imp (fun h0 => by rw [h0]) id
      · cases hs
  | call listed err =>
      simp only [Shutdown.step] at hs
      split at hs
      · next hphase =>
          obtain ⟨files, hstep, rfl⟩ := Option.map_eq_some_iff.mp hs
          obtain ⟨hpos, hup⟩ := files_le h.files rfl hstep
          split
          · exact h.fail (.inl hphase) (h.files.step hstep) hpos err
          · next hne =>
              rw [Timed, hphase] at htimed
              rw [Explained, hphase] at hexplained
              refine ⟨h.files.step hstep, h.le.trans hpos, fun _ => ⟨hne, ?_⟩,
                (fun hp => by cases hp), htimed, hexplained⟩
              have hidle : s.files.sync = .idle := by
                cases hsync : s.files.sync with
                | idle => rfl
                | located | uploading | storing => simp [LocalFiles.step, hsync] at hstep
              exact (sync_spec h.files h.le rfl (fun hn => absurd hidle hn) hstep).2.2.1 hne
      · cases hs
  | own a err =>
      simp only [Shutdown.step] at hs
      split at hs
      · next hphase =>
          split at hs
          · next hsync =>
              obtain ⟨files, hstep, rfl⟩ := Option.map_eq_some_iff.mp hs
              obtain ⟨hpos, hup, hcovers, hfinish⟩ :=
                sync_spec h.files h.le hsync (fun _ => (h.covers hphase).2) hstep
              rw [Timed, hphase] at htimed
              split
              · split
                · next hf =>
                    refine ⟨h.files.step hstep, h.le.trans hpos.ge, (fun hp => by cases hp),
                      fun _ => hfinish hf, ?_, trivial⟩
                    exact htimed.2.2.imp_left fun h => h.le
                · exact h.fail (.inr hphase) (h.files.step hstep) hpos.ge err
              · next hne =>
                  exact h.of_files (h.files.step hstep) hpos.ge hup fun _ => ⟨hne, hcovers hne⟩
          · cases hs
      · cases hs
  | other a =>
      simp only [Shutdown.step] at hs
      split at hs
      · cases hs
      · next hother =>
          rw [not_or, not_and, Bool.not_eq_true] at hother
          obtain ⟨files, hstep, rfl⟩ := Option.map_eq_some_iff.mp hs
          obtain ⟨hpos, hup⟩ := files_le h.files hother.1 hstep
          refine h.of_files (h.files.step hstep) hpos hup fun hphase => ?_
          have hsync : isSync a = false := Bool.eq_false_iff.mpr (hother.2 hphase)
          rw [(other_spec hsync hother.1 hstep).1]
          exact h.covers hphase

/-! ## Runs -/

theorem Inv.run {before : List LocalFiles.Action} {files : LocalFiles.State} {as : List Action}
    (hbefore : Run.run (LocalFiles.step cfg) .empty before = some files)
    (hrun : Run.run (Shutdown.step cfg c) (.start files) as = some s) :
    Inv c files.base.dbPos s := by
  have hfiles : LocalFiles.Inv files :=
    Run.run_invariant (fun h hs => h.step hs) LocalFiles.Inv.empty hbefore
  exact Run.run_invariant (fun h hs => h.step hs) (.start hfiles) hrun

/-- One attempt for each interval that begins within the timeout, and one more. -/
theorem Inv.attempt_le (h : Inv c p s) :
    s.attempt ≤ 1 ∨ (s.attempt - 2) * c.delay < c.timeout := by
  have htimed := h.timed
  have hmul : (s.attempt - 2) * c.delay ≤ (s.attempt - 1) * c.delay :=
    Nat.mul_le_mul_right _ (by omega)
  unfold Timed at htimed
  split at htimed <;> omega

/-- Every transaction up to a position is on the replica, and a restore of the latest state goes
as far. -/
def Replicated (p : Nat) (r : Maintenance.State) : Prop :=
  p ≤ r.uploaded ∧ (0 < p → ∃ plan,
    calcRestorePlan r.files.client 0 0 = .ok plan ∧ p ≤ FileInfo.sliceMaxTXID plan)

theorem Inv.restores (h : Inv c p s) (hphase : s.phase = .returned none) :
    Replicated p s.files.base := by
  refine ⟨h.replicated hphase, fun hpos => ?_⟩
  have hle : p ≤ s.files.base.highest := (h.replicated hphase).trans (Nat.le_max_left _ _)
  obtain ⟨plan, hplan, hend⟩ := h.files.base.latest (hpos.trans_le hle)
  exact ⟨plan, hplan, hend ▸ hle⟩

/-- Whatever runs beside it, the loop returns nil only if every transaction that the database had
when it began is on the replica.  Otherwise its error says why it has stopped, and in any case
it makes a bounded number of attempts. -/
theorem shutdown_run (cfg : Config) (c : Settings) {before : List LocalFiles.Action}
    {files : LocalFiles.State} {as : List Action}
    (hbefore : Run.run (LocalFiles.step cfg) .empty before = some files)
    (hrun : Run.run (step cfg c) (.start files) as = some s) :
    (s.attempt ≤ 1 ∨ (s.attempt - 2) * c.delay < c.timeout) ∧
      (s.phase = .returned none → Replicated files.base.dbPos s.files.base) ∧
      (∀ err, s.phase = .returned (some (.sync err)) →
        c.timeout = 0 ∧ s.attempt = 1 ∧ s.lastErr = some err) ∧
      (∀ attempts lastErr, s.phase = .returned (some (.timeout attempts lastErr)) →
        attempts = s.attempt ∧ lastErr = s.lastErr ∧ lastErr ≠ none ∧ c.timeout ≠ 0 ∧
          (c.timeout ≤ s.now ∨ s.cancelled)) ∧
      ∀ attempts, s.phase = .returned (some (.interrupted attempts)) →
        attempts = s.attempt ∧ c.timeout ≠ 0 ∧ s.done = true := by
  have h : Inv c files.base.dbPos s := .run hbefore hrun
  have hexplained := h.explained
  refine ⟨h.attempt_le, h.restores, fun err hphase => ?_, fun attempts lastErr hphase => ?_,
    fun attempts hphase => ?_⟩
  · rwa [Explained, hphase] at hexplained
  · rw [Explained, hphase] at hexplained
    obtain ⟨hattempts, herr, hne, hle, hsome⟩ := hexplained
    exact ⟨hattempts, herr, hsome, hne, hle⟩
  · rwa [Explained, hphase] at hexplained

/-- The first attempt fails, and the second one is made half a second later. -/
def sampleActions : List Action :=
  [.head, .call true "", .own (.readPos true) "", .own .openFile "",
    .own (.failStore none) "connection reset", .select .proceed,
    .elapse defaultShutdownSyncInterval, .other (.dbSync 6), .select .proceed, .head, .call true "",
    .own (.readPos true) "", .own .openFile "", .own (.store 10) "", .own .openFile "",
    .own (.store 10) "", .own .finish ""]

/-- The default settings. -/
def sampleSettings : Settings := ⟨30 * 1000000000, 0⟩

theorem shutdown_run_sample : ∃ files s,
    Run.run (LocalFiles.step Maintenance.twoLevels) .empty [.dbSync 5] = some files ∧
      Run.run (step Maintenance.twoLevels sampleSettings) (.start files) sampleActions = some s ∧
      s.attempt = 2 ∧ files.base.dbPos = 1 ∧ Replicated files.base.dbPos s.files.base := by
  have hany : (Run.run (LocalFiles.step Maintenance.twoLevels) .empty [.dbSync 5]).any fun files =>
      decide (files.base.dbPos = 1) &&
        (Run.run (step Maintenance.twoLevels sampleSettings) (.start files) sampleActions).any
          fun s => decide (s.attempt = 2 ∧ s.phase = .returned none) := by
    decide +kernel
  obtain ⟨files, hbefore, hfiles⟩ := (Option.any_eq_true _ _).mp hany
  obtain ⟨hpos, hany⟩ := Bool.and_eq_true_iff.mp hfiles
  obtain ⟨s, hrun, hs⟩ := (Option.any_eq_true _ _).mp hany
  obtain ⟨hattempt, hphase⟩ := of_decide_eq_true hs
  exact ⟨files, s, hbefore, hrun, hattempt, of_decide_eq_true hpos,
    (shutdown_run _ sampleSettings hbefore hrun).2.1 hphase⟩

/-! ## Closing a store -/

inductive CloseError where
  | sync (err : ClientError)
  | shutdown (err : ShutdownError)
  | releaseReadLock (err : ClientError)
  | closeDB (err : ClientError)
  | closeFile (err : ClientError)
deriving DecidableEq, Repr

/-- The error is `ErrShutdownInterrupted`. -/
def CloseError.isInterrupted : CloseError → Bool
  | .shutdown (.interrupted _) => true
  | _ => false

/-- What the steps of `DB.Close` return. -/
structure Closing where
  /-- The database has a SQL handle. -/
  initialized : Bool
  syncErr : Option ClientError
  shutdownErr : Option ShutdownError
  releaseErr : Option ClientError
  closeDBErr : Option ClientError
  closeFileErr : Option ClientError

/-- `DB.Close` returns the first error. -/
def Closing.err (d : Closing) : Option CloseError :=
  let synced : Option CloseError :=
    if d.initialized then (d.syncErr.map .sync).or (d.shutdownErr.map .shutdown) else none
  synced.or ((d.releaseErr.map .releaseReadLock).or
    ((d.closeDBErr.map .closeDB).or (d.closeFileErr.map .closeFile)))

/-- The body of the loop of `Store.Close`. -/
def closeNext (err : Option CloseError) : Option CloseError → Option CloseError
  | none => err
  | some e =>
      match err with
      | none => some e
      | some e' => if e.isInterrupted = false ∧ e'.isInterrupted then some e else some e'

/-- `Store.Close`, given what closing each database returns. -/
def storeClose (errs : List (Option CloseError)) : Option CloseError := errs.foldl closeNext none

/-- The first error that is no interruption, or else the first one. -/
theorem storeClose_eq (errs : List (Option CloseError)) :
    storeClose errs = (errs.reduceOption.find? fun e => !e.isInterrupted).or
      errs.reduceOption.head? := by
  induction errs using List.reverseRecOn with
  | nil => rfl
  | append_singleton errs err ih =>
      rw [storeClose, List.foldl_append, List.foldl_cons, List.foldl_nil,
        show errs.foldl closeNext none = storeClose errs from rfl, ih, List.reduceOption_append]
      cases err with
      | none => simp [closeNext, List.reduceOption]
      | some e =>
          cases hfind : errs.reduceOption.find? fun e => !e.isInterrupted with
          | some e' =>
              have he' : e'.isInterrupted = false := by simpa using List.find?_some hfind
              simp [closeNext, List.reduceOption_singleton, hfind, he']
          | none =>
              cases hlist : errs.reduceOption with
              | nil => cases hint : e.isInterrupted <;> simp [closeNext, hint]
              | cons e' rest =>
                  rw [hlist] at hfind
                  have hall := List.find?_eq_none.mp hfind
                  have he' : e'.isInterrupted = true := by simpa using hall e' List.mem_cons_self
                  have hrest : rest.find? (fun e => !e.isInterrupted) = none :=
                    List.find?_eq_none.mpr fun x hx => hall x (List.mem_cons_of_mem _ hx)
                  cases hint : e.isInterrupted <;>
                    simp [closeNext, hint, he', hrest, List.reduceOption_singleton]

/-- A database of a store that is closed. -/
structure ClosedDB (cfg : Config) where
  closing : Closing
  settings : Settings
  /-- Its files when the loop begins. -/
  files : LocalFiles.State
  /-- The state in which the loop ends. -/
  final : State
  reachable : ∃ before, Run.run (LocalFiles.step cfg) .empty before = some files
  run : ∃ as, Run.run (step cfg settings) (.start files) as = some final
  returned : closing.initialized → final.phase = .returned closing.shutdownErr

/-- If `Store.Close` returns nil, every database that was initialised is replicated.  If it
returns an interruption, closing a database has returned nil or an interruption, and each one
without an error is replicated. -/
theorem close_replicated (cfg : Config) (dbs : List (ClosedDB cfg))
    (h : ∀ e, storeClose (dbs.map fun d => d.closing.err) = some e → e.isInterrupted) :
    ∀ d ∈ dbs, (∀ e, d.closing.err = some e → e.isInterrupted ∧
        storeClose (dbs.map fun d => d.closing.err) ≠ none) ∧
      (d.closing.err = none → d.closing.initialized →
        Replicated d.files.base.dbPos d.final.files.base) := by
  rw [storeClose_eq] at h ⊢
  intro d hd
  refine ⟨fun e he => ?_, fun hnone hinit => ?_⟩
  · have hmem : e ∈ (dbs.map fun d => d.closing.err).reduceOption :=
      List.reduceOption_mem_iff.mpr (List.mem_map.mpr ⟨d, hd, he⟩)
    refine ⟨?_, ?_⟩
    · by_contra hint
      rcases hfind : (dbs.map fun d => d.closing.err).reduceOption.find? fun e =>
          !e.isInterrupted with _ | e'
      · have := List.find?_eq_none.mp hfind e hmem
        simp [hint] at this
      · have hint' : e'.isInterrupted = false := by simpa using List.find?_some hfind
        rw [hfind] at h
        rw [h e' rfl] at hint'
        cases hint'
    · obtain ⟨e', rest, hcons⟩ := List.exists_cons_of_ne_nil (List.ne_nil_of_mem hmem)
      rw [hcons]
      cases List.find? (fun e => !e.isInterrupted) (e' :: rest) <;> simp
  · obtain ⟨before, hbefore⟩ := d.reachable
    obtain ⟨as, hrun⟩ := d.run
    have hshutdown : d.closing.shutdownErr = none := by
      cases hs : d.closing.shutdownErr with
      | none => rfl
      | some err =>
          rw [Closing.err, hinit, hs] at hnone
          cases hsync : d.closing.syncErr <;> simp [hsync] at hnone
    exact (Inv.run hbefore hrun).restores (hshutdown ▸ d.returned hinit)

/-- The first of two databases is interrupted, and the second is closed with the run above. -/
theorem close_replicated_sample : ∃ (d : ClosedDB Maintenance.twoLevels),
    d.closing.initialized ∧ d.files.base.dbPos = 1 ∧
      Replicated d.files.base.dbPos d.final.files.base := by
  have hany : (Run.run (LocalFiles.step Maintenance.twoLevels) .empty [.dbSync 5]).any fun files =>
      decide (files.base.dbPos = 1) &&
        (Run.run (step Maintenance.twoLevels sampleSettings) (.start files) sampleActions).any
          fun s => decide (s.phase = .returned none) := by
    decide +kernel
  obtain ⟨files, hbefore, hfiles⟩ := (Option.any_eq_true _ _).mp hany
  obtain ⟨hpos, hany⟩ := Bool.and_eq_true_iff.mp hfiles
  obtain ⟨s, hrun, hs⟩ := (Option.any_eq_true _ _).mp hany
  let closed : ClosedDB Maintenance.twoLevels :=
    { closing := ⟨true, none, none, none, none, none⟩
      settings := sampleSettings
      files := files
      final := s
      reachable := ⟨_, hbefore⟩
      run := ⟨_, hrun⟩
      returned := fun _ => of_decide_eq_true hs }
  let interrupted : ClosedDB Maintenance.twoLevels :=
    { closing := ⟨true, none, some (.interrupted 0), none, none, none⟩
      settings := sampleSettings
      files := .empty
      final := { State.start .empty with done := true, phase := .returned (some (.interrupted 0)) }
      reachable := ⟨[], rfl⟩
      run := ⟨[.closeDone, .head], rfl⟩
      returned := fun _ => rfl }
  have hint : ∀ e, storeClose ([interrupted, closed].map fun d => d.closing.err) = some e →
      e.isInterrupted := fun e he => by
    cases he
    rfl
  refine ⟨closed, rfl, of_decide_eq_true hpos, ?_⟩
  exact (close_replicated _ [interrupted, closed] hint closed (by simp)).2 rfl rfl

end Shutdown

end Litestream
