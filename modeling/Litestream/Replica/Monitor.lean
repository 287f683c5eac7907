import Mathlib
import Litestream.Lib.Run

/-!
# The replica monitor

`DB.Sync` closes the channel `notify` each time it succeeds, and makes a new one.
`Replica.monitor` waits for the channel that it holds, takes the one that is current then, and
syncs.  After an error it waits longer, and for the channel that it took before the sync.

A channel is the number of channels closed before it.  It is closed once that number has grown.
-/

namespace Litestream

/-! ## Backoff -/

/-- `DefaultSyncBackoffMax`, in nanoseconds. -/
def syncBackoffMax : Nat := 5 * 60 * 1000000000

/-- The variables of a monitor that are about errors. -/
structure Backoff where
  backoff : Nat
  consecutiveErrs : Nat
deriving DecidableEq

namespace Backoff

def zero : Backoff := ⟨0, 0⟩

/-- After another error. -/
def fail (interval : Nat) (b : Backoff) : Backoff where
  backoff :=
    if b.backoff = 0 then interval
    else if syncBackoffMax < b.backoff * 2 then syncBackoffMax
    else b.backoff * 2
  consecutiveErrs := b.consecutiveErrs + 1

/-- The first delay is the interval.  Each later one is twice as long, up to the maximum. -/
def Doubles (interval : Nat) (b : Backoff) : Prop :=
  b.backoff =
    match b.consecutiveErrs with
    | 0 => 0
    | 1 => interval
    | n + 2 => min (2 ^ (n + 1) * interval) syncBackoffMax

instance (interval : Nat) (b : Backoff) : Decidable (b.Doubles interval) :=
  inferInstanceAs (Decidable (_ = _))

theorem zero_doubles (interval : Nat) : zero.Doubles interval := rfl

theorem Doubles.fail {interval : Nat} {b : Backoff} (h : b.Doubles interval) :
    (b.fail interval).Doubles interval := by
  obtain ⟨backoff, n⟩ := b
  rw [Doubles] at h ⊢
  simp only [Backoff.fail] at h ⊢
  match n with
  | 0 => rw [if_pos h]
  | 1 =>
      have hmax : syncBackoffMax ≠ 0 := by decide
      simp only [zero_add, pow_one] at h ⊢
      split
      · omega
      · split
        · omega
        · omega
  | n + 2 =>
      have hmax : syncBackoffMax ≠ 0 := by decide
      have hpow : 2 ^ (n + 1 + 1) * interval = 2 ^ (n + 1) * interval * 2 := by ring
      have hle : interval ≤ 2 ^ (n + 1) * interval := Nat.le_mul_of_pos_left _ (by positivity)
      simp only at h ⊢
      rw [hpow]
      split
      · omega
      · split
        · omega
        · omega

end Backoff

/-! ## The monitor -/

namespace ReplicaMonitor

inductive Phase where
  /-- Waits for the ticker. -/
  | ticking
  /-- Waits for as long as the backoff says. -/
  | pausing
  /-- Waits for the channel. -/
  | waiting
  | woken
  /-- The next channel is fetched, and a sync begins. -/
  | syncing
  /-- The sync has read the position of the database. -/
  | uploading (dpos : Nat)
  | stopped
deriving DecidableEq

structure State where
  /-- The last TXID of the local level 0 files. -/
  dbPos : Nat
  /-- The number of channels that `DB.Sync` has closed. -/
  closed : Nat
  /-- The last TXID that was uploaded. -/
  uploaded : Nat
  /-- The channel that the monitor holds.  The first one is its own and is closed. -/
  notify : Option Nat
  phase : Phase
  errors : Backoff
  /-- The last TXID when `DB.Sync` last closed a channel. -/
  notified : Nat
  /-- Whether the last sync of the monitor failed. -/
  failed : Bool
  /-- The number of syncs of the monitor. -/
  syncs : Nat

def State.start : State := ⟨0, 0, 0, none, .waiting, .zero, 0, false, 0⟩

/-- The errors that the monitor tells apart. -/
inductive SyncError where
  /-- The context was cancelled. -/
  | canceled
  /-- Another error.  The local state may be recoverable, and the reset succeeds or not. -/
  | failed (isAutoRecoverable reset : Bool)

inductive Action where
  /-- A sync or a checkpoint of the database writes a level 0 file. -/
  | writeLTX
  /-- `DB.Sync` returns nil. -/
  | closeNotify
  /-- A file is uploaded, by the monitor or by another caller of `Replica.Sync`. -/
  | upload
  | tick
  | resume
  | wake
  /-- Fetches the next channel. -/
  | fetch
  | readPos
  | finish
  | fail (err : SyncError)
  | stop

structure Config where
  syncInterval : Nat
  autoRecoverEnabled : Bool

namespace State

variable (s : State)

/-- The channel that the monitor holds is closed. -/
def notifyClosed : Bool :=
  match s.notify with
  | none => true
  | some c => decide (c < s.closed)

/-- What the monitor does with an error. -/
def handle (cfg : Config) : SyncError → State
  | .canceled => { s with phase := .ticking, failed := true }
  | .failed isAutoRecoverable reset =>
      if cfg.autoRecoverEnabled ∧ isAutoRecoverable ∧ reset then
        { s with dbPos := 0, notified := 0, phase := .ticking, errors := .zero, failed := true }
      else
        { s with phase := .ticking, errors := s.errors.fail cfg.syncInterval, failed := true }

end State

def step (cfg : Config) (s : State) : Action → Option State
  | .writeLTX => some { s with dbPos := s.dbPos + 1 }
  | .closeNotify => some { s with closed := s.closed + 1, notified := s.dbPos }
  | .upload => if s.uploaded < s.dbPos then some { s with uploaded := s.uploaded + 1 } else none
  | .tick =>
      match s.phase with
      | .ticking =>
          some { s with phase := if 0 < s.errors.backoff then .pausing else .waiting }
      | _ => none
  | .resume =>
      match s.phase with
      | .pausing => some { s with phase := .waiting }
      | _ => none
  | .wake =>
      match s.phase with
      | .waiting => if s.notifyClosed then some { s with phase := .woken } else none
      | _ => none
  | .fetch =>
      match s.phase with
      | .woken => some { s with notify := some s.closed, phase := .syncing, syncs := s.syncs + 1 }
      | _ => none
  | .readPos =>
      match s.phase with
      | .syncing => if 0 < s.dbPos then some { s with phase := .uploading s.dbPos } else none
      | _ => none
  | .finish =>
      match s.phase with
      | .uploading dpos =>
          if dpos ≤ s.uploaded then
            some { s with phase := .ticking, errors := .zero, failed := false }
          else none
      | _ => none
  | .fail err =>
      match s.phase with
      | .syncing | .uploading _ => some (s.handle cfg err)
      | _ => none
  | .stop =>
      match s.phase with
      | .ticking | .pausing | .waiting => some { s with phase := .stopped }
      | _ => none

/-! ## The invariant -/

/-- What was there at the last notification is uploaded, or is being uploaded, or another sync
is due. -/
def CaughtUp (s : State) : Prop :=
  match s.phase with
  | .ticking | .pausing | .waiting => s.failed = false → s.notified ≤ s.uploaded
  | .uploading dpos => s.notified ≤ dpos
  | .woken => s.notifyClosed = true
  | .syncing | .stopped => True

structure Inv (cfg : Config) (s : State) : Prop where
  errors : s.errors.Doubles cfg.syncInterval
  notified_le : s.notified ≤ s.dbPos
  /-- There is at most one sync for each channel. -/
  syncs_le : s.syncs ≤ s.notify.elim 0 (· + 1)
  notify_le : ∀ c ∈ s.notify, c ≤ s.closed
  woken : s.phase = .woken → s.notifyClosed = true
  caughtUp : s.notify = some s.closed → CaughtUp s

theorem Inv.start (cfg : Config) : Inv cfg State.start where
  errors := Backoff.zero_doubles _
  notified_le := le_rfl
  syncs_le := le_rfl
  notify_le := by simp [State.start]
  woken := by simp [State.start]
  caughtUp := by simp [State.start]

variable {cfg : Config} {s s' : State}

/-- A notification closes the channel that the monitor holds. -/
theorem Inv.closeNotify (h : Inv cfg s) :
    Inv cfg { s with closed := s.closed + 1, notified := s.dbPos } where
  errors := h.errors
  notified_le := le_rfl
  syncs_le := h.syncs_le
  notify_le := fun c hc => Nat.le_succ_of_le (h.notify_le c hc)
  woken := fun hp => by
    have hclosed := h.woken hp
    simp only [State.notifyClosed] at hclosed ⊢
    split
    · rfl
    · next c hc =>
        have := h.notify_le c hc
        exact decide_eq_true (by omega)
  caughtUp := fun hnotify => by
    have := h.notify_le _ hnotify
    exact absurd this (by simp)

/-- The monitor moves on without a new channel. -/
theorem Inv.of_phase (h : Inv cfg s) {phase : Phase} {errors : Backoff} {failed : Bool}
    (herrors : errors.Doubles cfg.syncInterval)
    (hwoken : phase = .woken → s.notifyClosed = true)
    (hcaughtUp : s.notify = some s.closed →
      CaughtUp { s with phase := phase, errors := errors, failed := failed }) :
    Inv cfg { s with phase := phase, errors := errors, failed := failed } where
  errors := herrors
  notified_le := h.notified_le
  syncs_le := h.syncs_le
  notify_le := h.notify_le
  woken := hwoken
  caughtUp := hcaughtUp

theorem Inv.handle (h : Inv cfg s) (err : SyncError) : Inv cfg (s.handle cfg err) := by
  cases err with
  | canceled =>
      exact h.of_phase h.errors (by intro h; cases h) fun _ hfailed => absurd hfailed (by simp)
  | failed isAutoRecoverable reset =>
      rw [State.handle]
      split
      · exact ⟨Backoff.zero_doubles _, le_rfl, h.syncs_le, h.notify_le, (by intro h; cases h),
          fun _ hfailed => absurd hfailed (by simp)⟩
      · exact h.of_phase h.errors.fail (by intro h; cases h) fun _ hfailed =>
          absurd hfailed (by simp)

/-- The next channel is fetched.  The one before was closed. -/
theorem Inv.fetch (h : Inv cfg s) (hp : s.phase = .woken) :
    Inv cfg { s with notify := some s.closed, phase := .syncing, syncs := s.syncs + 1 } where
  errors := h.errors
  notified_le := h.notified_le
  syncs_le := by
    have hclosed := h.woken hp
    have hsyncs := h.syncs_le
    rw [State.notifyClosed] at hclosed
    cases hn : s.notify with
    | none =>
        rw [hn] at hsyncs
        exact Nat.succ_le_succ (Nat.le_trans hsyncs (Nat.zero_le _))
    | some c =>
        rw [hn] at hsyncs hclosed
        exact Nat.succ_le_succ (Nat.le_trans hsyncs (of_decide_eq_true hclosed))
  notify_le := fun c hc => by
    obtain rfl := Option.some.inj hc
    exact le_rfl
  woken := by intro h; cases h
  caughtUp := fun _ => trivial

theorem Inv.step (h : Inv cfg s) {a : Action} (hs : step cfg s a = some s') : Inv cfg s' := by
  cases a with
  | writeLTX =>
      cases hs
      exact ⟨h.errors, Nat.le_succ_of_le h.notified_le, h.syncs_le, h.notify_le, h.woken,
        h.caughtUp⟩
  | closeNotify =>
      cases hs
      exact h.closeNotify
  | upload =>
      simp only [ReplicaMonitor.step] at hs
      split at hs
      · cases hs
        refine ⟨h.errors, h.notified_le, h.syncs_le, h.notify_le, h.woken, fun hn => ?_⟩
        have hcaughtUp := h.caughtUp hn
        simp only [CaughtUp] at hcaughtUp ⊢
        cases hp : s.phase with
        | ticking | pausing | waiting =>
            rw [hp] at hcaughtUp
            exact fun hfailed => Nat.le_succ_of_le (hcaughtUp hfailed)
        | woken | uploading dpos =>
            rw [hp] at hcaughtUp
            exact hcaughtUp
        | syncing | stopped => trivial
      · cases hs
  | tick =>
      simp only [ReplicaMonitor.step] at hs
      split at hs
      · next hp =>
          cases hs
          have hcaughtUp := h.caughtUp
          simp only [CaughtUp, hp] at hcaughtUp
          by_cases hb : 0 < s.errors.backoff
          · rw [if_pos hb]
            exact h.of_phase h.errors (by intro h; cases h) hcaughtUp
          · rw [if_neg hb]
            exact h.of_phase h.errors (by intro h; cases h) hcaughtUp
      · cases hs
  | resume =>
      simp only [ReplicaMonitor.step] at hs
      split at hs
      · next hp =>
          cases hs
          have hcaughtUp := h.caughtUp
          simp only [CaughtUp, hp] at hcaughtUp
          exact h.of_phase h.errors (by intro h; cases h) hcaughtUp
      · cases hs
  | wake =>
      simp only [ReplicaMonitor.step] at hs
      split at hs
      · split at hs
        · next hclosed =>
            cases hs
            exact h.of_phase h.errors (fun _ => hclosed) fun _ => hclosed
        · cases hs
      · cases hs
  | fetch =>
      simp only [ReplicaMonitor.step] at hs
      split at hs
      · next hp =>
          cases hs
          exact h.fetch hp
      · cases hs
  | readPos =>
      simp only [ReplicaMonitor.step] at hs
      split at hs
      · split at hs
        · cases hs
          exact h.of_phase h.errors (by intro h; cases h) fun _ => h.notified_le
        · cases hs
      · cases hs
  | finish =>
      simp only [ReplicaMonitor.step] at hs
      split at hs
      · next dpos hp =>
          split at hs
          · next hle =>
              cases hs
              refine h.of_phase (Backoff.zero_doubles _) (by intro h; cases h) fun hn _ => ?_
              have hcaughtUp := h.caughtUp hn
              simp only [CaughtUp, hp] at hcaughtUp
              exact Nat.le_trans hcaughtUp hle
          · cases hs
      · cases hs
  | fail err =>
      simp only [ReplicaMonitor.step] at hs
      split at hs
      · cases hs
        exact h.handle err
      · cases hs
        exact h.handle err
      · cases hs
  | stop =>
      simp only [ReplicaMonitor.step] at hs
      split at hs
      · cases hs
        exact h.of_phase h.errors (by intro h; cases h) fun _ => trivial
      · cases hs
        exact h.of_phase h.errors (by intro h; cases h) fun _ => trivial
      · cases hs
        exact h.of_phase h.errors (by intro h; cases h) fun _ => trivial
      · cases hs

/-- Two notifications come during a sync that fails, and one sync follows. -/
def sampleActions : List Action :=
  [.writeLTX, .closeNotify, .wake, .fetch, .readPos, .writeLTX, .closeNotify, .closeNotify,
    .fail (.failed false false), .tick, .resume, .wake, .fetch, .readPos, .upload, .upload, .finish,
    .tick]

end ReplicaMonitor

end Litestream
