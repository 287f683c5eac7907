import Mathlib
import Litestream.Compaction.Schedule

/-!
# How far a level lags behind

The timer of a monitor fires late, and its pass takes a while.  Suppose that neither takes longer
than a slack.  A pass that begins within an interval of a time `c` may still use the multiple
before `c`, but then it ends by the next one, and the pass after that uses a multiple after `c`
(`Behind`).  So a level takes up what its source had at `c` within an interval, three slacks and
the delay of a retry (`catches_up`), and level by level the lags add up (`lag_run`).
-/

namespace Litestream

/-! ## Multiples of an interval -/

namespace CompactionLevel

variable (lvl : CompactionLevel) (now : Nat)

theorem prevCompactionAt_le : lvl.prevCompactionAt now ≤ now := by
  unfold prevCompactionAt
  split
  · exact le_rfl
  · exact Nat.sub_le _ _

theorem prevCompactionAt_mono {now now' : Nat} (h : now ≤ now') :
    lvl.prevCompactionAt now ≤ lvl.prevCompactionAt now' := by
  unfold prevCompactionAt
  split
  · exact h
  · have hnow := Nat.div_add_mod now lvl.interval.toNat
    have hnow' := Nat.div_add_mod now' lvl.interval.toNat
    have hdiv := Nat.mul_le_mul_left lvl.interval.toNat
      (Nat.div_le_div_right (c := lvl.interval.toNat) h)
    omega

/-- The delay until the next multiple. -/
theorem add_delay : now + (lvl.nextCompactionAt now - now).toNat =
    lvl.prevCompactionAt now + lvl.interval.toNat := by
  unfold nextCompactionAt
  have hle := prevCompactionAt_le lvl now
  by_cases hpos : lvl.interval ≤ 0
  · have hprev : lvl.prevCompactionAt now = now := if_pos hpos
    omega
  · have hprev : lvl.prevCompactionAt now = now - now % lvl.interval.toNat := if_neg hpos
    have hlt := Nat.mod_lt now (show 0 < lvl.interval.toNat by omega)
    have := Nat.mod_le now lvl.interval.toNat
    omega

theorem delay_le : (lvl.nextCompactionAt now - now).toNat ≤ lvl.interval.toNat := by
  have hadd := add_delay lvl now
  have hle := prevCompactionAt_le lvl now
  omega

end CompactionLevel

namespace Schedule

open Maintenance (Config)

variable {set : Settings} {s s' : State} {a : Action} {n c p slack : Nat}

def Settings.interval (set : Settings) (n : Nat) : Nat := (set.level n).interval.toNat

/-! ## Timers -/

/-- When the timer has fired, or the pass has ended. -/
def MonitorPhase.deadline (slack : Nat) : MonitorPhase → Nat
  | .waiting due => due + slack
  | .running now _ _ => now + slack

/-- Time does not pass the deadlines of the monitors, and their calls meet no error. -/
def Punctual (set : Settings) (slack : Nat) (s : State) : Action → Prop
  | .elapse d => ∀ n ∈ set.monitored, s.clock + d ≤ (s.monitors n).phase.deadline slack
  | .compactDB level att => Settled (compactDB set level att s).1
  | _ => True

instance (set : Settings) (slack : Nat) (s : State) : ∀ a, Decidable (Punctual set slack s a)
  | .elapse d => inferInstanceAs
      (Decidable (∀ n ∈ set.monitored, s.clock + d ≤ (s.monitors n).phase.deadline slack))
  | .compactDB level att => inferInstanceAs
      (Decidable (Settled (compactDB set level att s).1 = true))
  | .init | .sync _ _ | .other _ | .begin _ | .finish _ _ => .isTrue trivial

/-- What a monitor knows about the next multiple. -/
def Timed (set : Settings) (clock n : Nat) : MonitorPhase → Prop
  | .waiting due => due ≤ clock + set.interval n + retryDelay
  | .running now nextDelay _ =>
      now ≤ clock ∧ nextDelay = (set.level n).nextCompactionAt now - now

theorem Timed.later {phase : MonitorPhase} {clock clock' : Nat} (h : Timed set clock n phase)
    (hle : clock ≤ clock') : Timed set clock' n phase := by
  cases phase with
  | waiting due => exact h.trans (by omega)
  | running now nextDelay called => exact ⟨h.1.trans hle, h.2⟩

/-- When the timer of a monitor is set to after a pass. -/
theorem finish_phase (retryDeadline now : Nat) (nextDelay : Int) (notReady : Bool) (clock : Nat) :
    ∃ delay, (delay = retryDelay ∨ delay = nextDelay.toNat) ∧
      (Monitor.finish retryDeadline now nextDelay notReady clock).phase =
        .waiting (clock + delay) := by
  unfold Monitor.finish
  simp only
  split
  · exact ⟨_, .inl rfl, rfl⟩
  · exact ⟨_, .inr rfl, rfl⟩

/-- What a step does to the clock and to the monitor of a level. -/
inductive Turn (set : Settings) (n : Nat) (s s' : State) : Action → Prop where
  | elapsed {d : Nat} (hclock : s'.clock = s.clock + d) (hmon : s'.monitors = s.monitors) :
      Turn set n s s' (.elapse d)
  | same {a : Action} (hclock : s'.clock = s.clock)
      (hphase : (s'.monitors n).phase = (s.monitors n).phase) : Turn set n s s' a
  | began {due : Nat} (hclock : s'.clock = s.clock) (hold : (s.monitors n).phase = .waiting due)
      (hdue : due ≤ s.clock)
      (hnew : (s'.monitors n).phase = .running s.clock
        ((set.level n).nextCompactionAt s.clock - s.clock) none) : Turn set n s s' (.begin n)
  | called {now : Nat} {nextDelay : Int} {att : Attempt} {notReady : Bool}
      (hclock : s'.clock = s.clock) (hold : (s.monitors n).phase = .running now nextDelay none)
      (hn : n ∈ set.monitored) (hatt : att.Timed s.clock)
      (hbase : s'.base = (compactDB set n att s).2.base)
      (hnew : (s'.monitors n).phase = .running now nextDelay (some notReady)) :
      Turn set n s s' (.compactDB n att)
  | finished {now delay : Nat} {nextDelay : Int} {notReady othersNotReady : Bool}
      (hclock : s'.clock = s.clock)
      (hold : (s.monitors n).phase = .running now nextDelay (some notReady))
      (hdelay : delay = retryDelay ∨ delay = nextDelay.toNat)
      (hnew : (s'.monitors n).phase = .waiting (s.clock + delay)) :
      Turn set n s s' (.finish n othersNotReady)

theorem setMonitor_same (level : Nat) (m : Monitor) :
    (s.setMonitor level m).monitors level = m := Function.update_self ..

theorem setMonitor_other {level : Nat} (h : n ≠ level) (m : Monitor) :
    (s.setMonitor level m).monitors n = s.monitors n := Function.update_of_ne h ..

theorem step_turn (h : Inv s) (hs : step set s a = some s') (n : Nat) : Turn set n s s' a := by
  cases a with
  | elapse d =>
      simp only [step, Option.some.injEq] at hs
      subst hs
      exact .elapsed rfl rfl
  | init =>
      simp only [step, Option.some.injEq] at hs
      subst hs
      exact .same rfl rfl
  | sync size now =>
      simp only [step, Option.ite_none_right_eq_some] at hs
      obtain ⟨base, -, rfl⟩ := Option.map_eq_some_iff.mp hs.2
      exact .same rfl rfl
  | other b =>
      simp only [step, Option.ite_none_right_eq_some] at hs
      obtain ⟨base, -, rfl⟩ := Option.map_eq_some_iff.mp hs.2
      exact .same rfl rfl
  | begin level =>
      simp only [step] at hs
      split at hs
      · next due hold =>
          split at hs
          · next hguard =>
              cases hs
              by_cases hn : n = level
              · subst hn
                exact .began rfl hold hguard.2 (congrArg _ (setMonitor_same n _))
              · exact .same rfl (congrArg _ (setMonitor_other hn _))
          · cases hs
      · cases hs
  | compactDB level att =>
      simp only [step] at hs
      split at hs
      · next now nextDelay hold =>
          split at hs
          · next hguard =>
              cases hs
              have hframe := compactDB_frame h hguard.1 hguard.2
              by_cases hn : n = level
              · subst hn
                exact .called hframe.clock hold hguard.1 hguard.2 rfl
                  (congrArg _ (setMonitor_same n _))
              · exact .same hframe.clock (by rw [setMonitor_other hn, hframe.monitors])
          · cases hs
      · cases hs
  | finish level othersNotReady =>
      simp only [step] at hs
      split at hs
      · next now nextDelay notReady hold =>
          cases hs
          by_cases hn : n = level
          · subst hn
            obtain ⟨delay, hdelay, hphase⟩ := finish_phase (s.monitors n).retryDeadline now
              nextDelay (notReady || othersNotReady) s.clock
            exact .finished rfl hold hdelay ((congrArg _ (setMonitor_same n _)).trans hphase)
          · exact .same rfl (congrArg _ (setMonitor_other hn _))
      · cases hs

theorem Turn.timed (ht : Turn set n s s' a) (h : Timed set s.clock n (s.monitors n).phase) :
    Timed set s'.clock n (s'.monitors n).phase := by
  cases ht with
  | elapsed hclock hmon =>
      rw [hmon]
      exact h.later (by omega)
  | same hclock hphase => rwa [hclock, hphase]
  | began hclock hold hdue hnew =>
      rw [hclock, hnew]
      exact ⟨le_rfl, rfl⟩
  | called hclock hold _ _ _ hnew =>
      rw [hold] at h
      rw [hclock, hnew]
      exact h
  | @finished now _ _ _ _ hclock hold hdelay hnew =>
      rw [hold] at h
      have hle : _ ≤ set.interval n := (set.level n).delay_le now
      rw [← h.2] at hle
      rw [hclock, hnew, Timed]
      rcases hdelay with rfl | rfl <;> omega

/-! ## Catching up -/

/-- At time `c` the source of the level ended at `p`.  As long as the level does not go as far,
its monitor does not fall behind. -/
def Behind (set : Settings) (slack n c : Nat) (clock : Nat) : MonitorPhase → Prop
  | .waiting due =>
      due ≤ c + set.interval n + slack + retryDelay ∧ clock ≤ max c (due + slack)
  | .running now _ none =>
      now ≤ c + set.interval n + 2 * slack + retryDelay ∧ clock ≤ max c (now + slack)
  | .running now nextDelay (some _) =>
      now + nextDelay.toNat ≤ c + set.interval n ∧ clock ≤ max c (now + slack)

theorem Behind.clock_le {clock : Nat} {phase : MonitorPhase}
    (h : Behind set slack n c clock phase) :
    clock ≤ c + set.interval n + 3 * slack + retryDelay := by
  cases phase with
  | waiting due =>
      obtain ⟨hdue, hclock⟩ := h
      omega
  | running now nextDelay called =>
      cases called with
      | none =>
          obtain ⟨hnow, hclock⟩ := h
          omega
      | some notReady =>
          obtain ⟨hnow, hclock⟩ := h
          omega

theorem Timed.behind {phase : MonitorPhase} (h : Timed set c n phase) :
    Behind set slack n c c phase := by
  cases phase with
  | waiting due =>
      rw [Timed] at h
      exact ⟨by omega, le_max_left _ _⟩
  | running now nextDelay called =>
      obtain ⟨hnow, rfl⟩ := h
      cases called with
      | none => exact ⟨by omega, le_max_left _ _⟩
      | some notReady =>
          have hadd := (set.level n).add_delay now
          have hprev := (set.level n).prevCompactionAt_le now
          exact ⟨by rw [hadd]; exact Nat.add_le_add_right (hprev.trans hnow) _, le_max_left _ _⟩

/-- A pass that does not catch up has used a multiple before `c`, and so ends by the next one. -/
theorem Turn.behind (ht : Turn set n s s' a) (h : Inv s) (hn : n ∈ set.monitored)
    (htimed : Timed set s.clock n (s.monitors n).phase) (hsince : Since n c p s)
    (hsynced : n = 1 → s.synced) (hG : Punctual set slack s a)
    (hbehind : Behind set slack n c s.clock (s.monitors n).phase) :
    p ≤ s'.top n ∨ Behind set slack n c s'.clock (s'.monitors n).phase := by
  cases ht with
  | @elapsed d hclock hmon =>
      refine .inr ?_
      have hdeadline := hG n hn
      rw [hclock, hmon]
      cases hphase : (s.monitors n).phase with
      | waiting due =>
          rw [hphase] at hbehind hdeadline
          exact ⟨hbehind.1, le_max_of_le_right hdeadline⟩
      | running now nextDelay called =>
          rw [hphase] at hbehind hdeadline
          cases called with
          | none => exact ⟨hbehind.1, le_max_of_le_right hdeadline⟩
          | some notReady => exact ⟨hbehind.1, le_max_of_le_right hdeadline⟩
  | same hclock hphase =>
      rw [hclock, hphase]
      exact .inr hbehind
  | began hclock hold hdue hnew =>
      rw [hold] at hbehind
      obtain ⟨hle, hmax⟩ := hbehind
      rw [hclock, hnew]
      exact .inr ⟨by omega, by omega⟩
  | @called now nextDelay att notReady hclock hold _ hatt hbase hnew =>
      rw [hold] at hbehind htimed
      obtain ⟨hnow, rfl⟩ := htimed
      rw [hclock, hnew]
      by_cases hprev : c ≤ (set.level n).prevCompactionAt s.clock
      · refine .inl ?_
        rw [State.top, hbase]
        exact (compactDB_spec h hn hatt rfl).2.2 hG hsince hprev hsynced
      · have hadd := (set.level n).add_delay now
        have hmono := (set.level n).prevCompactionAt_mono hnow
        exact .inr ⟨by rw [hadd]; exact Nat.add_le_add_right (by omega) _, hbehind.2⟩
  | @finished now _ _ _ _ hclock hold hdelay hnew =>
      rw [hold] at hbehind htimed
      obtain ⟨hnow, rfl⟩ := htimed
      have hle : _ ≤ set.interval n := (set.level n).delay_le now
      obtain ⟨hend, hmax⟩ := hbehind
      rw [hclock, hnew]
      refine .inr ⟨?_, by omega⟩
      rcases hdelay with rfl | rfl <;> omega

/-! ## Runs -/

theorem step_synced (h : Inv s) (hs : step set s a = some s') (hsynced : s.synced) :
    s'.synced := by
  cases a with
  | elapse | init =>
      simp only [step, Option.some.injEq] at hs
      subst hs
      exact hsynced
  | sync | other =>
      simp only [step, Option.ite_none_right_eq_some] at hs
      obtain ⟨base, -, rfl⟩ := Option.map_eq_some_iff.mp hs.2
      first | rfl | exact hsynced
  | begin | finish =>
      simp only [step] at hs
      split at hs
      · first
          | cases hs
            exact hsynced
          | split at hs
            · cases hs
              exact hsynced
            · cases hs
      · cases hs
  | compactDB level att =>
      simp only [step] at hs
      split at hs
      · split at hs
        · next hguard =>
            cases hs
            exact (compactDB_frame h hguard.1 hguard.2).synced.trans hsynced
        · cases hs
      · cases hs

/-- What holds along a run since the source of a level ended at `p`. -/
structure Follows (set : Settings) (slack n c p : Nat) (s : State) : Prop where
  inv : Inv s
  timed : Timed set s.clock n (s.monitors n).phase
  since : Since n c p s
  synced : n = 1 → s.synced
  behind : p ≤ s.top n ∨ Behind set slack n c s.clock (s.monitors n).phase

theorem Follows.step (h : Follows set slack n c p s) (hn : n ∈ set.monitored)
    (hG : Punctual set slack s a) (hs : step set s a = some s') :
    Follows set slack n c p s' := by
  have hturn := step_turn h.inv hs n
  have hkeeps := step_keeps h.inv hs
  obtain ⟨hpos, hle, -⟩ := Settings.mem_monitored hn
  refine ⟨hkeeps.inv, hturn.timed h.timed, hkeeps.since hpos hle h.since,
    fun hone => step_synced h.inv hs (h.synced hone), ?_⟩
  rcases h.behind with hcaught | hbehind
  · exact .inl (hcaught.trans (hkeeps.top_le n hle))
  · exact hturn.behind h.inv hn h.timed h.since h.synced hG hbehind

/-- The monitors of a process that runs, in any state. -/
structure Running (set : Settings) (s : State) : Prop where
  inv : Inv s
  timed : ∀ n, Timed set s.clock n (s.monitors n).phase

theorem Running.start {cfg : Config} {before : List Maintenance.Action} {base : Maintenance.State}
    {clock : Nat} {listedAt : Nat → FileInfo → Nat}
    (hbefore : Run.run (Maintenance.step cfg) .empty before = some base)
    (hwritten : WrittenBy base clock listedAt) : Running set (.start base clock listedAt) where
  inv := .start hbefore hwritten
  timed n := by
    have hone : 1 ≤ retryDelay := by decide
    show clock + 1 ≤ clock + set.interval n + retryDelay
    omega

theorem Running.step (h : Running set s) (hs : step set s a = some s') : Running set s' :=
  ⟨(step_keeps h.inv hs).inv, fun n => (step_turn h.inv hs n).timed (h.timed n)⟩

theorem Running.run (h : Running set s) {as : List Action}
    (hrun : Run.run (Schedule.step set) s as = some s') : Running set s' :=
  Run.run_invariant (fun h hs => h.step hs) h hrun

/-- How far a level lags behind its source, at most. -/
def Settings.levelLag (set : Settings) (slack n : Nat) : Nat :=
  set.interval n + 3 * slack + retryDelay + 1

/-- A level takes up what its source had, within its lag. -/
theorem Running.catches_up (h : Running set s) {as : List Action}
    (hrun : Run.run (Schedule.step set) s as = some s')
    (hG : Run.Along (Schedule.step set) (Punctual set slack) s as) (hn : n ∈ set.monitored)
    (hsynced : n = 1 → s.synced) (hclock : s.clock + set.levelLag slack n ≤ s'.clock) :
    s.source n ≤ s'.top n := by
  obtain ⟨hpos, -, -⟩ := Settings.mem_monitored hn
  have hstart : Follows set slack n s.clock (s.source n) s :=
    ⟨h.inv, h.timed n, .now h.inv hpos, hsynced, .inr (h.timed n).behind⟩
  have hend : Follows set slack n s.clock (s.source n) s' :=
    Run.run_induction (fun hf hG hs => hf.step hn hG hs) hstart hG hrun
  rcases hend.behind with hcaught | hbehind
  · exact hcaught
  · have hle := hbehind.clock_le
    rw [Settings.levelLag] at hclock
    omega

/-- A run passes through every time, if it is stopped while time elapses. -/
theorem split_clock {as : List Action} {k : Nat} (hinv : Inv s)
    (hrun : Run.run (step set) s as = some s')
    (hG : Run.Along (step set) (Punctual set slack) s as) (hk : s.clock ≤ k)
    (hk' : k ≤ s'.clock) : ∃ t as₁ as₂, t.clock = k ∧
      Run.run (step set) s as₁ = some t ∧ Run.Along (step set) (Punctual set slack) s as₁ ∧
      Run.run (step set) t as₂ = some s' ∧ Run.Along (step set) (Punctual set slack) t as₂ := by
  induction as generalizing s with
  | nil =>
      obtain rfl : s = s' := by simpa using hrun
      exact ⟨s, [], [], le_antisymm hk hk', rfl, trivial, rfl, trivial⟩
  | cons a as ih =>
      obtain ⟨m, hm, hrest⟩ := Run.run_cons_eq_some.mp hrun
      by_cases hnow : m.clock ≤ k
      · obtain ⟨t, as₁, as₂, ht, h₁, hG₁, h₂, hG₂⟩ :=
          ih (step_keeps hinv hm).inv hrest (hG.2 m hm) hnow
        refine ⟨t, a :: as₁, as₂, ht, Run.run_cons_eq_some.mpr ⟨m, hm, h₁⟩,
          ⟨hG.1, fun m' hm' => ?_⟩, h₂, hG₂⟩
        obtain rfl : m = m' := Option.some.inj (hm.symm.trans hm')
        exact hG₁
      · rw [Nat.not_le] at hnow
        rcases step_turn hinv hm 0 with @⟨d, hclock, -⟩ | ⟨hclock, -⟩ | ⟨hclock, -⟩ | ⟨hclock, -⟩ |
          ⟨hclock, -⟩
        · -- the time elapses in two parts
          have hsplit : step set { s with clock := k } (.elapse (s.clock + d - k)) = some m := by
            simp only [step, Option.some.injEq] at hm ⊢
            rw [← hm, show k + (s.clock + d - k) = s.clock + d by omega]
          have hfirst : step set s (.elapse (k - s.clock)) = some { s with clock := k } := by
            simp only [step, Option.some.injEq]
            rw [show s.clock + (k - s.clock) = k by omega]
          refine ⟨{ s with clock := k }, [.elapse (k - s.clock)],
            .elapse (s.clock + d - k) :: as, rfl, ?_, ⟨fun n hn => ?_, fun _ _ => trivial⟩, ?_,
            ⟨fun n hn => ?_, fun m' hm' => ?_⟩⟩
          · rw [Run.run, hfirst]
            rfl
          · have := hG.1 n hn
            omega
          · exact Run.run_cons_eq_some.mpr ⟨m, hsplit, hrest⟩
          · have := hG.1 n hn
            show k + (s.clock + d - k) ≤ (s.monitors n).phase.deadline slack
            omega
          · obtain rfl : m = m' := Option.some.inj (hsplit.symm.trans hm')
            exact hG.2 m hm
        all_goals omega

/-- How far a level lags behind level 0, at most. -/
def Settings.lag (set : Settings) (slack : Nat) : Nat → Nat
  | 0 => 0
  | n + 1 => set.lag slack n + set.levelLag slack (n + 1)

theorem Running.lag (h : Running set s) (hsynced : s.synced) {as : List Action}
    (hrun : Run.run (Schedule.step set) s as = some s')
    (hG : Run.Along (Schedule.step set) (Punctual set slack) s as)
    (hn : n ≤ set.config.maxLevel) (hclock : s.clock + set.lag slack n ≤ s'.clock) :
    s.top 0 ≤ s'.top n := by
  induction n generalizing s' as with
  | zero => exact (run_keeps h.inv hrun).top_le 0 (Nat.zero_le _)
  | succ n ih =>
      have hlt := set.maxLevel_lt
      have hmem : n + 1 ∈ set.monitored :=
        List.mem_append_left _ (List.mem_range'_1.mpr ⟨Nat.succ_pos n, by
          rw [Settings.config] at hn
          simp only at hn
          omega⟩)
      rw [Settings.lag] at hclock
      obtain ⟨t, as₁, as₂, ht, h₁, hG₁, h₂, hG₂⟩ :=
        split_clock h.inv hrun hG (Nat.le_add_right s.clock (set.lag slack n)) (by omega)
      have hcaught := ih h₁ hG₁ (by omega) ht.ge
      have hsource : t.source (n + 1) = t.top n := if_neg (by
        rw [Settings.config] at hn
        simp only at hn
        omega)
      refine hcaught.trans (hsource ▸ (h.run h₁).catches_up h₂ hG₂ hmem (fun _ => ?_) (by omega))
      exact Run.run_invariant (I := fun r => Inv r ∧ r.synced)
        (fun h hs => ⟨(step_keeps h.1 hs).inv, step_synced h.1 hs h.2⟩) ⟨h.inv, hsynced⟩ h₁ |>.2

end Schedule

end Litestream
