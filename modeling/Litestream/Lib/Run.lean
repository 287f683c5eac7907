import Mathlib

/-!
# Runs of a transition system

A transition system is a partial step function `step : σ → α → Option σ`.  A step that
yields `none` is not enabled.  Every choice of the environment is part of the action, so
the lists of actions range over all runs.

`Along G` says that every step of a run is taken in a state that meets `G`.  The rule
`run_induction` turns a fact about one such step into a fact about whole runs.
-/

namespace Run

variable {σ α : Type*} (step : σ → α → Option σ)

/-- Takes the steps of a list of actions, in order. -/
def run : σ → List α → Option σ
  | s, [] => some s
  | s, a :: as => (step s a).bind fun s' => run s' as

/-- Every step of the run is taken in a state that meets `G`. -/
def Along (G : σ → α → Prop) : σ → List α → Prop
  | _, [] => True
  | s, a :: as => G s a ∧ ∀ s', step s a = some s' → Along G s' as

variable {step}

@[simp] theorem run_nil (s : σ) : run step s [] = some s := rfl

theorem run_cons_eq_some {s s' : σ} {a : α} {as : List α} :
    run step s (a :: as) = some s' ↔ ∃ m, step s a = some m ∧ run step m as = some s' := by
  simp [run, Option.bind_eq_some_iff]

theorem run_append_eq_some {s s' : σ} {as bs : List α} :
    run step s (as ++ bs) = some s' ↔
      ∃ m, run step s as = some m ∧ run step m bs = some s' := by
  induction as generalizing s with
  | nil => simp
  | cons a as ih =>
      simp only [List.cons_append, run_cons_eq_some, ih]
      constructor
      · rintro ⟨m, hm, n, hn, h⟩
        exact ⟨n, ⟨m, hm, hn⟩, h⟩
      · rintro ⟨n, ⟨m, hm, hn⟩, h⟩
        exact ⟨m, hm, n, hn, h⟩

theorem along_cons_of_some {G : σ → α → Prop} {s m : σ} {a : α} {as : List α}
    (h : step s a = some m) : Along step G s (a :: as) ↔ G s a ∧ Along step G m as := by
  simp [Along, h]

theorem along_cons_of_none {G : σ → α → Prop} {s : σ} {a : α} {as : List α}
    (h : step s a = none) : Along step G s (a :: as) ↔ G s a := by
  simp [Along, h]

instance decidableAlong (G : σ → α → Prop) [∀ s a, Decidable (G s a)] :
    ∀ (s : σ) (as : List α), Decidable (Along step G s as)
  | _, [] => .isTrue trivial
  | s, a :: as =>
      match h : step s a with
      | none => decidable_of_iff (G s a) (along_cons_of_none h).symm
      | some m =>
          have := decidableAlong G m as
          decidable_of_iff (G s a ∧ Along step G m as) (along_cons_of_some h).symm

theorem along_append {G : σ → α → Prop} {s : σ} {as bs : List α}
    (h : Along step G s (as ++ bs)) :
    Along step G s as ∧ ∀ m, run step s as = some m → Along step G m bs := by
  induction as generalizing s with
  | nil =>
      refine ⟨trivial, fun m hm => ?_⟩
      obtain rfl : s = m := by simpa using hm
      exact h
  | cons a as ih =>
      refine ⟨⟨h.1, fun s' hs' => (ih (h.2 s' hs')).1⟩, fun m hm => ?_⟩
      obtain ⟨s', hs', hm⟩ := run_cons_eq_some.mp hm
      exact (ih (h.2 s' hs')).2 m hm

theorem along_true (s : σ) (as : List α) : Along step (fun _ _ => True) s as := by
  induction as generalizing s with
  | nil => trivial
  | cons a as ih => exact ⟨trivial, fun s' _ => ih s'⟩

/-- A condition that all actions of the run meet adds nothing. -/
theorem along_and_iff {P : α → Prop} {G : σ → α → Prop} {s : σ} {as : List α}
    (h : ∀ a ∈ as, P a) : Along step (fun s a => P a ∧ G s a) s as ↔ Along step G s as := by
  induction as generalizing s with
  | nil => exact Iff.rfl
  | cons a as ih =>
      obtain ⟨ha, has⟩ := List.forall_mem_cons.mp h
      exact and_congr (and_iff_right ha) (forall₂_congr fun _ _ => ih has)

/-- Conditions that agree in the states of an invariant agree along runs, if the steps that
meet them keep the invariant. -/
theorem along_congr {I : σ → Prop} {G H : σ → α → Prop} (hstep : ∀ {s a s'}, I s → G s a →
    step s a = some s' → I s') (hiff : ∀ {s a}, I s → (G s a ↔ H s a)) {s : σ} {as : List α}
    (hs : I s) : Along step G s as ↔ Along step H s as := by
  induction as generalizing s with
  | nil => exact Iff.rfl
  | cons a as ih =>
      constructor
      · rintro ⟨hG, has⟩
        exact ⟨(hiff hs).mp hG, fun s' hs' => (ih (hstep hs hG hs')).mp (has s' hs')⟩
      · rintro ⟨hH, has⟩
        have hG := (hiff hs).mpr hH
        exact ⟨hG, fun s' hs' => (ih (hstep hs hG hs')).mpr (has s' hs')⟩

/-- What every step that meets `G` preserves, every run of such steps preserves. -/
theorem run_induction {I : σ → Prop} {G : σ → α → Prop}
    (hstep : ∀ {s a s'}, I s → G s a → step s a = some s' → I s') :
    ∀ {as : List α} {s s' : σ}, I s → Along step G s as → run step s as = some s' → I s'
  | [], s, s', hs, _, hrun => by
      obtain rfl : s = s' := by simpa using hrun
      exact hs
  | a :: as, s, s', hs, hG, hrun => by
      obtain ⟨m, hm, hrun⟩ := run_cons_eq_some.mp hrun
      exact run_induction hstep (hstep hs hG.1 hm) (hG.2 m hm) hrun

/-- What every step preserves, every run preserves. -/
theorem run_invariant {I : σ → Prop}
    (hstep : ∀ {s a s'}, I s → step s a = some s' → I s') {as : List α} {s s' : σ} (hs : I s)
    (hrun : run step s as = some s') : I s' :=
  run_induction (G := fun _ _ => True) (fun hi _ => hstep hi) hs (along_true s as) hrun

/-- Steps that meet `G` meet `H`, if they keep an invariant under which `G` implies `H`. -/
theorem along_of_invariant {I : σ → Prop} {G H : σ → α → Prop} (hstep : ∀ {s a s'}, I s → G s a →
    step s a = some s' → I s') (himp : ∀ {s a}, I s → G s a → H s a) {s : σ} {as : List α}
    (hs : I s) (hG : Along step G s as) : Along step H s as := by
  induction as generalizing s with
  | nil => trivial
  | cons a as ih => exact ⟨himp hs hG.1, fun s' hs' => ih (hstep hs hG.1 hs') (hG.2 s' hs')⟩

end Run
