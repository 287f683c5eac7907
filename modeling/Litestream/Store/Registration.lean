import Mathlib
import Litestream.Lib.Run

/-!
# Registering databases at run time

`RegisterDB` checks the list of the store under its mutex, opens the database without the
mutex, and checks the list again before it appends.  `UnregisterDB` takes a database off the
list under the mutex and closes it without.  A call is a goroutine that takes one of these
steps at a time, and the steps of all calls interleave.

A database is an instance `ι` with a path.  The list never has a path twice.  An instance that
is open and not listed is held by a call that will list or close it (`registered_unique`), so
two instances of one path are open together only while such a call is under way
(`two_instances_open`).
-/

namespace Litestream

namespace Store

open Run

variable {ι γ : Type} [DecidableEq ι] [DecidableEq γ]

/-! ## States and steps -/

inductive StoreError where
  | dbRequired
  | openDB
  | dbPathRequired
  | closeDB
deriving DecidableEq, Repr

/-- How far the call of a goroutine has come. -/
inductive Phase (ι : Type) where
  | returned (result : Except StoreError Unit)
  /-- The first check of `RegisterDB` has passed. -/
  | opening (db : ι)
  /-- The database is open, and `RegisterDB` checks the list again. -/
  | opened (db : ι)
  /-- Another goroutine has added the path, and `RegisterDB` closes its instance. -/
  | closingDuplicate (db : ι)
  /-- `UnregisterDB` has taken the database off the list. -/
  | closing (db : ι)

/-- The instance that a call has opened, or has taken off the list. -/
def Phase.holds : Phase ι → Option ι
  | .returned _ => none
  | .opening _ => none
  | .opened db => some db
  | .closingDuplicate db => some db
  | .closing db => some db

structure State (ι γ : Type) where
  dbs : List ι
  /-- The instances that are open. -/
  isOpen : ι → Bool
  phase : γ → Phase ι

inductive Action (ι γ : Type) where
  | registerDB (g : γ) (db : Option ι)
  | unregisterDB (g : γ) (path : String)
  /-- `DB.Open`.  It fails if the configuration or the temporary files are in its way. -/
  | open (g : γ) (ok : Bool)
  /-- The second check of `RegisterDB`. -/
  | recheck (g : γ)
  /-- `DB.Close`, which closes the instance also when it returns an error. -/
  | close (g : γ) (ok : Bool)

variable (path : ι → String)

namespace State

def setPhase (s : State ι γ) (g : γ) (phase : Phase ι) : State ι γ :=
  { s with phase := Function.update s.phase g phase }

/-- The store has a database with the path. -/
def Has (s : State ι γ) (p : String) : Prop := ∃ db ∈ s.dbs, path db = p

instance (s : State ι γ) (p : String) : Decidable (s.Has path p) :=
  inferInstanceAs (Decidable (∃ db ∈ s.dbs, path db = p))

/-- `UnregisterDB` up to its `Close`. -/
def unregister (s : State ι γ) (g : γ) (p : String) : State ι γ :=
  if p = "" then s.setPhase g (.returned (.error .dbPathRequired))
  else
    match s.dbs.find? fun db => path db = p with
    | none => s.setPhase g (.returned (.ok ()))
    | some db => { s with dbs := s.dbs.erase db }.setPhase g (.closing db)

end State

/-- One step of a goroutine. -/
def step (s : State ι γ) : Action ι γ → Option (State ι γ)
  | .registerDB g db =>
    match s.phase g, db with
    | .returned _, none => some (s.setPhase g (.returned (.error .dbRequired)))
    | .returned _, some db =>
      some (s.setPhase g (if s.Has path (path db) then .returned (.ok ()) else .opening db))
    | _, _ => none
  | .unregisterDB g p =>
    match s.phase g with
    | .returned _ => some (s.unregister path g p)
    | _ => none
  | .open g ok =>
    match s.phase g with
    | .opening db =>
      if s.isOpen db = true ∨ ok = true then
        some ({ s with isOpen := Function.update s.isOpen db true }.setPhase g (.opened db))
      else some (s.setPhase g (.returned (.error .openDB)))
    | _ => none
  | .recheck g =>
    match s.phase g with
    | .opened db =>
      if s.Has path (path db) then some (s.setPhase g (.closingDuplicate db))
      else some ({ s with dbs := s.dbs ++ [db] }.setPhase g (.returned (.ok ())))
    | _ => none
  | .close g ok =>
    match s.phase g with
    | .closingDuplicate db =>
      some ({ s with isOpen := Function.update s.isOpen db false }.setPhase g (.returned (.ok ())))
    | .closing db =>
      some ({ s with isOpen := Function.update s.isOpen db false }.setPhase g
        (.returned (if ok then .ok () else .error .closeDB)))
    | _ => none

/-! ## What holds in every state -/

/-- No path is listed twice, and who has an instance open that is not listed. -/
structure Inv (s : State ι γ) : Prop where
  paths : (s.dbs.map path).Nodup
  held : ∀ db, s.isOpen db = true → db ∈ s.dbs ∨ ∃ g, (s.phase g).holds = some db

/-- No call is under way, and what is open is listed. -/
structure Quiet (s : State ι γ) : Prop where
  paths : (s.dbs.map path).Nodup
  listed : ∀ db, s.isOpen db = true → db ∈ s.dbs
  returned : ∀ g, ∃ result, s.phase g = .returned result

variable {path} {s s' : State ι γ} {g : γ} {phase : Phase ι} {db : ι}

omit [DecidableEq ι] [DecidableEq γ] in
theorem has_iff {p : String} : s.Has path p ↔ p ∈ s.dbs.map path := by
  simp [State.Has]

omit [DecidableEq ι] [DecidableEq γ] in
theorem Quiet.inv (h : Quiet path s) : Inv path s :=
  ⟨h.paths, fun db hdb => .inl (h.listed db hdb)⟩

omit [DecidableEq ι] in
/-- A call enters a phase.  What was listed, or held by the call, is listed or held by it
again. -/
theorem Inv.enter (h : Inv path s) {dbs : List ι} {isOpen : ι → Bool}
    (hpaths : (dbs.map path).Nodup)
    (hopen : ∀ db, isOpen db = true → s.isOpen db = true ∨ phase.holds = some db)
    (hlisted : ∀ db ∈ s.dbs, db ∈ dbs ∨ phase.holds = some db)
    (hheld : ∀ db, (s.phase g).holds = some db → isOpen db = true →
      db ∈ dbs ∨ phase.holds = some db) :
    Inv path ({ s with dbs := dbs, isOpen := isOpen }.setPhase g phase) := by
  refine ⟨hpaths, fun db hdb => ?_⟩
  have hself : phase.holds = some db →
      ∃ g', (Function.update s.phase g phase g').holds = some db := fun hphase =>
    ⟨g, by rwa [Function.update_self]⟩
  rcases hopen db hdb with hwas | hphase
  · rcases h.held db hwas with hmem | ⟨g', hg'⟩
    · exact (hlisted db hmem).imp id hself
    · rcases eq_or_ne g' g with rfl | hne
      · exact (hheld db hg' hdb).imp id hself
      · exact .inr ⟨g', by simpa [State.setPhase, Function.update_of_ne hne] using hg'⟩
  · exact .inr (hself hphase)

omit [DecidableEq ι] in
/-- A call without an instance of its own enters a phase. -/
theorem Inv.setPhase (h : Inv path s) (hg : (s.phase g).holds = none) :
    Inv path (s.setPhase g phase) :=
  h.enter h.paths (fun _ hdb => .inl hdb) (fun _ hdb => .inl hdb) (by simp [hg])

theorem Inv.unregister (h : Inv path s) (hg : (s.phase g).holds = none) (p : String) :
    Inv path (s.unregister path g p) := by
  unfold State.unregister
  split_ifs
  · exact h.setPhase hg
  · cases hfind : s.dbs.find? fun db => path db = p with
    | none => exact h.setPhase hg
    | some db =>
        have hsub : (s.dbs.erase db).Sublist s.dbs := List.erase_sublist
        refine h.enter (h.paths.sublist (hsub.map path)) (fun _ hopen => .inl hopen) ?_
          (by simp [hg])
        intro db' hdb'
        rcases eq_or_ne db' db with rfl | hne
        · exact .inr rfl
        · exact .inl ((List.mem_erase_of_ne hne).mpr hdb')

omit [DecidableEq ι] in
theorem Inv.append (h : Inv path s) (hg : (s.phase g).holds = some db)
    (hnew : ¬ s.Has path (path db)) (result : Except StoreError Unit) :
    Inv path ({ s with dbs := s.dbs ++ [db] }.setPhase g (.returned result)) := by
  rw [has_iff] at hnew
  refine h.enter ?_ (fun _ hopen => .inl hopen)
    (fun _ hdb => .inl (List.mem_append_left _ hdb)) ?_
  · rw [List.map_append, List.nodup_append]
    refine ⟨h.paths, by simp, ?_⟩
    rintro p hp q hq rfl
    rw [List.map_singleton, List.mem_singleton] at hq
    exact hnew (hq ▸ hp)
  · rintro db' hdb' -
    obtain rfl : db = db' := by simpa [hg] using hdb'
    exact .inl (by simp)

theorem Inv.closed (h : Inv path s) (hg : (s.phase g).holds = some db)
    (result : Except StoreError Unit) :
    Inv path ({ s with isOpen := Function.update s.isOpen db false }.setPhase g
      (.returned result)) := by
  refine h.enter h.paths (fun db' hopen => .inl ?_) (fun _ hdb => .inl hdb) ?_
  · rcases eq_or_ne db' db with rfl | hne
    · simp at hopen
    · rwa [Function.update_of_ne hne] at hopen
  · intro db' hdb' hopen
    obtain rfl : db = db' := by simpa [hg] using hdb'
    simp at hopen

theorem Inv.opened (h : Inv path s) (hg : (s.phase g).holds = none) (db : ι) :
    Inv path ({ s with isOpen := Function.update s.isOpen db true }.setPhase g
      (.opened db)) := by
  refine h.enter h.paths ?_ (fun _ hdb => .inl hdb) (by simp [hg])
  intro db' hopen
  rcases eq_or_ne db' db with rfl | hne
  · exact .inr rfl
  · exact .inl (by rwa [Function.update_of_ne hne] at hopen)

/-- One step of any call keeps the invariant. -/
theorem step_inv {a : Action ι γ} (h : Inv path s) (hstep : step path s a = some s') :
    Inv path s' := by
  cases a with
  | registerDB g db =>
      cases hg : s.phase g <;> cases db <;> simp only [step, hg, Option.some.injEq,
        reduceCtorEq] at hstep
      all_goals
        subst hstep
        exact h.setPhase (by rw [hg]; rfl)
  | unregisterDB g p =>
      cases hg : s.phase g <;> simp only [step, hg, Option.some.injEq, reduceCtorEq] at hstep
      subst hstep
      exact h.unregister (by rw [hg]; rfl) p
  | «open» g ok =>
      cases hg : s.phase g <;> simp only [step, hg, reduceCtorEq] at hstep
      split_ifs at hstep <;> cases hstep
      · exact h.opened (by rw [hg]; rfl) _
      · exact h.setPhase (by rw [hg]; rfl)
  | recheck g =>
      cases hg : s.phase g <;> simp only [step, hg, reduceCtorEq] at hstep
      split_ifs at hstep with hlisted <;> cases hstep
      · refine h.enter h.paths (fun _ hopen => .inl hopen) (fun _ hdb => .inl hdb) ?_
        intro db hdb _
        exact .inr (by rwa [hg] at hdb)
      · exact h.append (by rw [hg]; rfl) hlisted _
  | close g ok =>
      cases hg : s.phase g <;> simp only [step, hg, Option.some.injEq, reduceCtorEq] at hstep
      all_goals
        subst hstep
        exact h.closed (by rw [hg]; rfl) _

theorem run_inv {as : List (Action ι γ)} (h : Inv path s) (hrun : run (step path) s as = some s') :
    Inv path s' :=
  run_invariant (I := Inv path) step_inv h hrun

omit [DecidableEq ι] [DecidableEq γ] in
theorem Inv.eq_of_listed (h : Inv path s) {db db' : ι} (hdb : db ∈ s.dbs) (hdb' : db' ∈ s.dbs)
    (heq : path db = path db') : db = db' :=
  List.inj_on_of_nodup_map h.paths hdb hdb' heq

/-! ## One instance for each path -/

omit [DecidableEq γ] in
/-- Of two open instances of one path, one is on its way to the list or to its `Close`. -/
theorem Inv.unlisted (h : Inv path s) {db db' : ι} (hne : db ≠ db') (heq : path db = path db')
    (hdb : s.isOpen db = true) (hdb' : s.isOpen db' = true) :
    (db ∉ s.dbs ∧ ∃ g, (s.phase g).holds = some db) ∨
      (db' ∉ s.dbs ∧ ∃ g, (s.phase g).holds = some db') := by
  by_cases hmem : db ∈ s.dbs
  · have hmem' : db' ∉ s.dbs := fun hmem' => hne (h.eq_of_listed hmem hmem' heq)
    exact .inr ⟨hmem', (h.held db' hdb').resolve_left hmem'⟩
  · exact .inl ⟨hmem, (h.held db hdb).resolve_left hmem⟩

/-- From a store where no call is under way, over every interleaving of `RegisterDB` and
`UnregisterDB`: no path is listed twice, and two instances of one path are open together only
while a call has one of them that is not listed. -/
theorem registered_unique {as : List (Action ι γ)} (h : Quiet path s)
    (hrun : run (step path) s as = some s') :
    (s'.dbs.map path).Nodup ∧
      ∀ db db', db ≠ db' → path db = path db' → s'.isOpen db = true → s'.isOpen db' = true →
        (db ∉ s'.dbs ∧ ∃ g, (s'.phase g).holds = some db) ∨
          (db' ∉ s'.dbs ∧ ∃ g, (s'.phase g).holds = some db') := by
  have hinv : Inv path s' := run_inv h.inv hrun
  exact ⟨hinv.paths, fun _ _ hne heq hdb hdb' => hinv.unlisted hne heq hdb hdb'⟩

omit [DecidableEq ι] [DecidableEq γ] in
/-- When every call has returned, at most one instance of a path is open, and it is listed. -/
theorem Inv.one_of_returned (h : Inv path s) (hret : ∀ g, (s.phase g).holds = none)
    {db db' : ι} (heq : path db = path db') (hdb : s.isOpen db = true)
    (hdb' : s.isOpen db' = true) : db = db' := by
  have hlisted : ∀ db, s.isOpen db = true → db ∈ s.dbs := by
    intro db hdb
    rcases h.held db hdb with hmem | ⟨g, hg⟩
    · exact hmem
    · simp [hret g] at hg
  exact h.eq_of_listed (hlisted db hdb) (hlisted db' hdb') heq

/-- A store without databases. -/
def State.empty : State ι γ where
  dbs := []
  isOpen _ := false
  phase _ := .returned (.ok ())

omit [DecidableEq ι] [DecidableEq γ] in
theorem quiet_empty : Quiet path (State.empty : State ι γ) :=
  ⟨List.nodup_nil, fun _ hdb => (nomatch hdb), fun _ => ⟨_, rfl⟩⟩

/-- Two calls register two instances of one path, and both find the list empty. -/
def bothOpen : List (Action Bool Bool) :=
  [.registerDB false (some false), .registerDB true (some true), .open false true,
    .open true true]

/-- The first instance is listed.  The second is closed after the second check. -/
theorem registered_unique_two :
    ∃ s' : State Bool Bool,
      run (step fun _ => "db") State.empty (bothOpen ++ [.recheck false, .recheck true]) =
        some s' ∧ s'.dbs = [false] ∧ s'.isOpen true = true ∧
        ((false ∉ s'.dbs ∧ ∃ g, (s'.phase g).holds = some false) ∨
          (true ∉ s'.dbs ∧ ∃ g, (s'.phase g).holds = some true)) := by
  have hrun : (run (step fun _ : Bool => "db") (State.empty : State Bool Bool)
      (bothOpen ++ [.recheck false, .recheck true])).map
        (fun s => (s.dbs, s.isOpen false, s.isOpen true)) = some ([false], true, true) := by
    decide +kernel
  obtain ⟨s', hs', heq⟩ := Option.map_eq_some_iff.mp hrun
  simp only [Prod.mk.injEq] at heq
  exact ⟨s', hs', heq.1, heq.2.2,
    (registered_unique quiet_empty hs').2 false true (by decide) rfl heq.2.1 heq.2.2⟩

theorem two_instances_open :
    ¬ ∀ (as : List (Action Bool Bool)) (s' : State Bool Bool),
      run (step fun _ => "db") State.empty as = some s' →
        (s'.dbs.map fun _ => "db").Nodup ∧
          ∀ db db', s'.isOpen db = true → s'.isOpen db' = true → db = db' := by
  intro hclaim
  have hrun : (run (step fun _ : Bool => "db") (State.empty : State Bool Bool) bothOpen).map
      (fun s => (s.isOpen false, s.isOpen true)) = some (true, true) := by
    decide +kernel
  obtain ⟨s', hs', heq⟩ := Option.map_eq_some_iff.mp hrun
  simp only [Prod.mk.injEq] at heq
  exact absurd ((hclaim bothOpen s' hs').2 false true heq.1 heq.2) (by decide)

end Store

end Litestream
