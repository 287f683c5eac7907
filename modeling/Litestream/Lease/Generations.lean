import Litestream.Lease.Exclusion

/-!
# Generations

An acquisition that takes a lease over writes the next generation, and a renewal keeps the
generation it has.  So generations grow from one acquisition to the next.  A release deletes the
object and with it the generation, and the acquisition after it begins at one again.
-/

namespace Litestream.Leaser

open Run

/-! ## Histories -/

section
variable {ι : Type*}

/-- Generations grow from one acquisition to a later one if there is no release between them. -/
def Increasing (history : List (Event ι)) : Prop :=
  ∀ before i generation between j generation' after,
    history = before ++ .acquired i generation :: (between ++ .acquired j generation' :: after) →
      (∀ k, .released k ∉ between) → generation < generation'

/-- The generations that were acquired after the last release. -/
def sinceRelease (history : List (Event ι)) : List Int64 :=
  history.foldl (fun generations e =>
    match e with
    | .acquired _ generation => generations ++ [generation]
    | .released _ => []) []

/-- An acquisition that follows a release directly has the first generation. -/
def Restarts (history : List (Event ι)) : Prop :=
  ∀ before k j generation after,
    history = before ++ .released k :: .acquired j generation :: after → generation = 1

variable {history : List (Event ι)} {i j k : ι} {generation : Int64}

@[simp] theorem sinceRelease_acquired :
    sinceRelease (history ++ [.acquired i generation]) = sinceRelease history ++ [generation] := by
  rw [sinceRelease, List.foldl_append]
  rfl

@[simp] theorem sinceRelease_released : sinceRelease (history ++ [.released i]) = [] := by
  rw [sinceRelease, List.foldl_append]
  rfl

theorem mem_sinceRelease {before between : List (Event ι)} (h : ∀ k, .released k ∉ between) :
    generation ∈ sinceRelease (before ++ .acquired i generation :: between) := by
  induction between using List.reverseRecOn with
  | nil => simp
  | append_singleton between e ih =>
      have hbetween : ∀ k, .released k ∉ between := fun k hk =>
        h k (List.mem_append_left _ hk)
      rw [← List.cons_append, ← List.append_assoc]
      cases e with
      | acquired j g =>
          rw [sinceRelease_acquired]
          exact List.mem_append_left _ (ih hbetween)
      | released k => exact absurd (List.mem_append_right _ (List.mem_singleton_self _)) (h k)

/-- The last event of a history, or what is before it. -/
theorem append_singleton_eq {before after : List (Event ι)} {e e' : Event ι}
    (h : history ++ [e] = before ++ e' :: after) :
    (after = [] ∧ history = before ∧ e = e') ∨
      ∃ rest, after = rest ++ [e] ∧ history = before ++ e' :: rest := by
  induction after using List.reverseRecOn with
  | nil =>
      obtain ⟨hhistory, he⟩ := List.append_inj' h rfl
      exact Or.inl ⟨rfl, hhistory, List.singleton_inj.mp he⟩
  | append_singleton rest last ih =>
      rw [← List.cons_append, ← List.append_assoc] at h
      obtain ⟨hhistory, he⟩ := List.append_inj' h rfl
      rw [List.singleton_inj.mp he]
      exact Or.inr ⟨rest, rfl, hhistory⟩

theorem Increasing.acquired (h : Increasing history)
    (hgrows : ∀ g ∈ sinceRelease history, g < generation) :
    Increasing (history ++ [.acquired j generation]) := by
  intro before i g between j' g' after heq hbetween
  rw [← List.cons_append, ← List.append_assoc] at heq
  rcases append_singleton_eq heq with ⟨-, rfl, he⟩ | ⟨rest, -, rfl⟩
  · obtain ⟨-, rfl⟩ := Event.acquired.inj he
    exact hgrows g (mem_sinceRelease hbetween)
  · refine h before i g between j' g' rest ?_ hbetween
    rw [List.append_assoc, List.cons_append]

theorem Increasing.released (h : Increasing history) :
    Increasing (history ++ [.released k]) := by
  intro before i g between j' g' after heq hbetween
  rw [← List.cons_append, ← List.append_assoc] at heq
  rcases append_singleton_eq heq with ⟨-, -, he⟩ | ⟨rest, -, rfl⟩
  · cases he
  · refine h before i g between j' g' rest ?_ hbetween
    rw [List.append_assoc, List.cons_append]

theorem Restarts.acquired (h : Restarts history)
    (hone : ∀ k, history.getLast? = some (.released k) → generation = 1) :
    Restarts (history ++ [.acquired j generation]) := by
  intro before k j' g after heq
  rw [List.append_cons before] at heq
  rcases append_singleton_eq heq with ⟨-, rfl, he⟩ | ⟨rest, -, rfl⟩
  · obtain ⟨-, rfl⟩ := Event.acquired.inj he
    exact hone k List.getLast?_concat
  · exact h before k j' g rest (List.append_cons ..).symm

theorem Restarts.released (h : Restarts history) : Restarts (history ++ [.released k]) := by
  intro before k' j' g after heq
  rw [List.append_cons before] at heq
  rcases append_singleton_eq heq with ⟨-, -, he⟩ | ⟨rest, -, rfl⟩
  · cases he
  · exact h before k' j' g rest (List.append_cons ..).symm

end

/-! ## Generations of the object -/

/-- A generation below the greatest one has a next one. -/
theorem lt_next {g : Int64} (h : g ≠ Int64.maxValue) : g < g + 1 := by
  have hmax : Int64.maxValue.toInt = 2 ^ 63 - 1 := by decide
  have hone : (1 : Int64).toInt = 1 := by decide
  have hne : g.toInt ≠ 2 ^ 63 - 1 := fun heq => h (Int64.toInt_inj.mp (heq.trans hmax.symm))
  have hlt := Int64.toInt_lt g
  have hle := Int64.le_toInt g
  rw [Int64.lt_iff_toInt_lt, Int64.toInt_add, hone,
    Int.bmod_eq_of_le (by norm_num; omega) (by norm_num; omega)]
  exact Int.lt_succ _

section
variable {ι : Type*} (s : State ι)

/-- The generation is greater than that of the write with this ETag. -/
def State.Climbs (generation : Int64) (etag : Nat) : Prop :=
  ∃ file j, s.lock.versions[etag]? = some (file, j) ∧ file.generation < generation

/-- An acquisition that takes a lease over has a greater generation. -/
def State.CallClimbs : Call → Prop
  | .unheld generation etag => ∀ e, etag = some e → s.Climbs generation e
  | .writing lease etag renewal => renewal = false → ∀ e, etag = some e →
      s.Climbs lease.generation e
  | _ => True

/-- What holds of the generations. -/
structure State.GenInv : Prop where
  call : ∀ i, s.CallClimbs (s.call i)
  /-- The object has the greatest generation since the last release. -/
  greatest : ∀ generation ∈ sinceRelease s.history, ∃ etag file j,
    s.lock.current = some etag ∧ s.lock.versions[etag]? = some (file, j) ∧
      generation ≤ file.generation
  released : ∀ k, s.history.getLast? = some (.released k) → s.lock.current = none
  increasing : Increasing s.history
  restarts : Restarts s.history

/-- The lease that was read has a next generation. -/
def Call.Bounded : Call → Prop
  | .found (some (existing, _)) => existing.generation ≠ Int64.maxValue
  | _ => True

instance : DecidablePred Call.Bounded
  | .found (some (existing, _)) => inferInstanceAs (Decidable (existing.generation ≠ _))
  | .found none | .idle _ | .acquiring | .unheld .. | .writing .. | .conflicting | .releasing _
  | .answered _ => .isTrue trivial

/-- No lease with the greatest generation is taken over. -/
def Bounded (s : State ι) : Action ι → Prop
  | .decide i => (s.call i).Bounded
  | _ => True

instance (s : State ι) : DecidablePred (Bounded s)
  | .decide i => inferInstanceAs (Decidable (s.call i).Bounded)
  | .tick _ | .acquireLease _ | .renewLease .. | .releaseLease .. | .get _ | .prepare _ | .put _
  | .reread _ | .delete _ | .fail _ | .answer _ | .lose _ => .isTrue trivial

end

variable {ι : Type*} [DecidableEq ι] {ttl : ι → Int} {owner : ι → String} {s s' : State ι}
  {a : Action ι} {as : List (Action ι)} {i j : ι} {c : Call}

omit [DecidableEq ι] in
theorem State.CallClimbs.mono (h : s.CallClimbs c) (hversions : ∀ {etag : Nat} {v},
    s.lock.versions[etag]? = some v → s'.lock.versions[etag]? = some v) : s'.CallClimbs c := by
  have hclimbs : ∀ {generation etag}, s.Climbs generation etag → s'.Climbs generation etag := by
    rintro generation etag ⟨file, j, hversion, hlt⟩
    exact ⟨file, j, hversions hversion, hlt⟩
  cases c with
  | unheld generation etag => exact fun e he => hclimbs (h e he)
  | writing lease etag renewal => exact fun hr e he => hclimbs (h hr e he)
  | idle | acquiring | found | conflicting | releasing | answered => trivial

/-- A step that changes neither the object nor the history. -/
theorem State.GenInv.to (h : s.GenInv) (hlock : s'.lock = s.lock)
    (hhistory : s'.history = s.history) (hcall : s'.call = Function.update s.call i c)
    (hc : s.CallClimbs c) : s'.GenInv := by
  have hversions : ∀ {etag : Nat} {v}, s.lock.versions[etag]? = some v →
      s'.lock.versions[etag]? = some v := fun hv => by rw [hlock, hv]
  refine ⟨fun j => ?_, ?_, ?_, ?_, ?_⟩
  · rw [hcall]
    by_cases hj : j = i
    · subst hj
      rw [Function.update_self]
      exact hc.mono hversions
    · rw [Function.update_of_ne hj]
      exact (h.call j).mono hversions
  · rw [hhistory, hlock]
    exact h.greatest
  · rw [hhistory, hlock]
    exact h.released
  · rw [hhistory]
    exact h.increasing
  · rw [hhistory]
    exact h.restarts

theorem State.GenInv.put {lease : LockFile} {etag : Option Nat} {renewal : Bool} (h : s.GenInv)
    (hinv : s.Inv ttl) (hi : s.call i = .writing lease etag renewal) :
    (s.put i lease etag renewal).GenInv := by
  have hclimbs := h.call i
  have hc := (hinv i).call
  rw [hi] at hclimbs hc
  rw [State.put]
  cases hrefuses : s.lock.refuses etag with
  | some refusal =>
      cases refusal with
      | preconditionFailed =>
          refine h.to rfl rfl rfl ?_
          split <;> trivial
      | notFound => exact h.to rfl rfl rfl trivial
  | none =>
      have hcurrent := Conditional.refuses_eq_none.mp hrefuses
      have hcall : ∀ j, State.CallClimbs { s.to i (.answered (.ok (some
          ⟨lease, some s.lock.versions.length⟩))) with lock := s.lock.put (lease, i) }
            ((s.to i (.answered (.ok (some ⟨lease, some s.lock.versions.length⟩)))).call j) := by
        intro j
        by_cases hj : j = i
        · subst hj
          rw [State.call_to_self]
          trivial
        · rw [State.call_to_of_ne hj]
          exact (h.call j).mono Conditional.versions_put_of_some
      have hold : ∀ g ∈ sinceRelease s.history, ∃ e file j, etag = some e ∧
          s.lock.versions[e]? = some (file, j) ∧ g ≤ file.generation := by
        intro g hg
        obtain ⟨e, file, j, he, hversion, hle⟩ := h.greatest g hg
        exact ⟨e, file, j, hcurrent.symm.trans he, hversion, hle⟩
      have hversion : (s.lock.put (lease, i)).versions[s.lock.versions.length]? =
          some (lease, i) := Conditional.versions_put_last
      cases renewal with
      | true =>
          cases etag with
          | none => exact absurd (hc.2.1 rfl).1 (by simp)
          | some e =>
              obtain ⟨file, j, hfile, hgeneration, -⟩ := hc.1 e rfl
              refine ⟨hcall, fun g hg => ?_, fun k hk => ?_, h.increasing, h.restarts⟩
              · obtain ⟨e', file', j', he', hfile', hle⟩ := hold g hg
                obtain rfl := Option.some.inj he'
                obtain ⟨rfl, rfl⟩ := Prod.mk.inj (Option.some.inj (hfile.symm.trans hfile'))
                exact ⟨_, lease, i, rfl, hversion, hle.trans_eq hgeneration.symm⟩
              · exact absurd ((h.released k hk).symm.trans hcurrent) (by simp)
      | false =>
          have hgrows : ∀ g ∈ sinceRelease s.history, g < lease.generation := by
            intro g hg
            obtain ⟨e, file, j, he, hfile, hle⟩ := hold g hg
            obtain ⟨file', j', hfile', hlt⟩ := hclimbs rfl e he
            obtain ⟨rfl, -⟩ := Prod.mk.inj (Option.some.inj (hfile.symm.trans hfile'))
            exact Int64.lt_of_le_of_lt hle hlt
          refine ⟨hcall, fun g hg => ⟨_, lease, i, rfl, hversion, ?_⟩, fun k hk => ?_,
            h.increasing.acquired hgrows, h.restarts.acquired fun k hk => ?_⟩
          · simp only [Bool.false_eq_true, if_false, sinceRelease_acquired, List.mem_append,
              List.mem_singleton] at hg
            rcases hg with hg | rfl
            · exact Int64.le_of_lt (hgrows g hg)
            · exact Int64.le_refl _
          · simp at hk
          · exact (hc.2.1 (hcurrent.symm.trans (h.released k hk))).2

theorem State.GenInv.delete {etag : Nat} (h : s.GenInv) : (s.delete i etag).GenInv := by
  rw [State.delete]
  split
  · refine ⟨fun j => ?_, fun g hg => ?_, fun _ _ => rfl, h.increasing.released,
      h.restarts.released⟩
    · by_cases hj : j = i
      · subst hj
        change State.CallClimbs _ ((s.to j _).call j)
        rw [State.call_to_self]
        trivial
      · change State.CallClimbs _ ((s.to i _).call j)
        rw [State.call_to_of_ne hj]
        exact (h.call j).mono id
    · simp at hg
  · exact h.to rfl rfl rfl trivial
  · exact h.to rfl rfl rfl trivial

theorem State.GenInv.return {result : Result} (h : s.GenInv) : (s.return i result).GenInv := by
  cases result with
  | error err => exact h.to rfl rfl rfl trivial
  | ok lease => cases lease <;> exact h.to rfl rfl rfl trivial

omit [DecidableEq ι] in
theorem State.callClimbs_checkLease {lease : Option Lease} {call : Lease → Nat → Call}
    (h : ∀ lease etag, s.CallClimbs (call lease etag)) : s.CallClimbs (checkLease lease call) := by
  cases lease with
  | none => trivial
  | some lease =>
      rw [checkLease]
      cases lease.etag with
      | none => trivial
      | some etag => exact h lease etag

theorem State.GenInv.step (h : s.GenInv) (hinv : s.Inv ttl) (hbound : Bounded s a)
    (hstep : step ttl owner s a = some s') : s'.GenInv := by
  have hcall := h.call
  cases a with
  | tick n => exact Option.some.inj hstep ▸ ⟨hcall, h.greatest, h.released, h.increasing, h.restarts⟩
  | acquireLease i =>
      simp only [Leaser.step] at hstep
      split at hstep
      · exact Option.some.inj hstep ▸ h.to rfl rfl rfl trivial
      · cases hstep
  | renewLease i lease =>
      simp only [Leaser.step] at hstep
      split at hstep
      · split at hstep
        · refine Option.some.inj hstep ▸ h.to rfl rfl rfl (State.callClimbs_checkLease ?_)
          exact fun _ _ hr => absurd hr (by simp)
        · cases hstep
      · cases hstep
  | releaseLease i lease =>
      simp only [Leaser.step] at hstep
      split at hstep
      · split at hstep
        · refine Option.some.inj hstep ▸ h.to rfl rfl rfl (State.callClimbs_checkLease ?_)
          exact fun _ _ => trivial
        · cases hstep
      · cases hstep
  | get i =>
      simp only [Leaser.step] at hstep
      split at hstep
      · exact Option.some.inj hstep ▸ h.to rfl rfl rfl trivial
      · cases hstep
  | decide i =>
      simp only [Leaser.step] at hstep
      split at hstep
      · next existing hi =>
        refine Option.some.inj hstep ▸ h.to rfl rfl rfl ?_
        have hfound := (hinv i).call
        rw [Bounded, hi] at hbound
        rw [hi] at hfound
        cases existing with
        | none => exact fun e he => absurd he (by simp)
        | some found =>
            obtain ⟨file, etag⟩ := found
            rw [State.decided]
            split
            · intro e he
              obtain rfl := Option.some.inj he
              obtain ⟨j, hj⟩ := hfound file etag rfl
              exact ⟨file, j, hj, lt_next hbound⟩
            · trivial
      · cases hstep
  | prepare i =>
      simp only [Leaser.step] at hstep
      split at hstep
      · next hi =>
        have hclimbs := hcall i
        rw [hi] at hclimbs
        exact Option.some.inj hstep ▸ h.to rfl rfl rfl fun _ => hclimbs
      · cases hstep
  | put i =>
      simp only [Leaser.step] at hstep
      split at hstep
      · next hi => exact Option.some.inj hstep ▸ h.put hinv hi
      · cases hstep
  | reread i =>
      simp only [Leaser.step] at hstep
      split at hstep
      · exact Option.some.inj hstep ▸ h.to rfl rfl rfl trivial
      · cases hstep
  | delete i =>
      simp only [Leaser.step] at hstep
      split at hstep
      · exact Option.some.inj hstep ▸ h.delete
      · cases hstep
  | fail i =>
      simp only [Leaser.step] at hstep
      split at hstep
      · exact Option.some.inj hstep ▸ h.to rfl rfl rfl trivial
      · exact Option.some.inj hstep ▸ h.to rfl rfl rfl trivial
      · exact Option.some.inj hstep ▸ h.to rfl rfl rfl trivial
      · exact Option.some.inj hstep ▸ h.to rfl rfl rfl trivial
      · cases hstep
  | answer i =>
      simp only [Leaser.step] at hstep
      split at hstep
      · exact Option.some.inj hstep ▸ h.return
      · cases hstep
  | lose i =>
      simp only [Leaser.step] at hstep
      split at hstep
      · exact Option.some.inj hstep ▸ h.return
      · cases hstep

omit [DecidableEq ι] in
theorem State.Initial.genInv (h : s.Initial) : s.GenInv := by
  refine ⟨fun i => ?_, ?_, ?_, ?_, ?_⟩
  · rw [h.call]
    trivial
  · rw [h.history]
    exact fun _ hg => absurd hg List.not_mem_nil
  · rw [h.history]
    exact fun _ hk => by cases hk
  · rw [h.history]
    intro before i g between j g' after heq
    simp at heq
  · rw [h.history]
    intro before k j g after heq
    simp at heq

/-- Generations grow between releases, and begin again at one after a release. -/
theorem generations_increase (ttl : ι → Int) (owner : ι → String) (hs : s.Initial)
    (has : Along (step ttl owner) Bounded s as) (hrun : run (step ttl owner) s as = some s') :
    Increasing s'.history ∧ Restarts s'.history := by
  have hinv : s'.Inv ttl ∧ s'.GenInv := by
    refine run_induction (I := fun s => s.Inv ttl ∧ s.GenInv) ?_ ⟨hs.inv, hs.genInv⟩ has hrun
    rintro s a s' ⟨hinv, hgen⟩ hbound hstep
    exact ⟨hinv.step hstep, hgen.step hinv hbound hstep⟩
  exact ⟨hinv.2.increasing, hinv.2.restarts⟩

/-! ## Two clients -/

namespace TwoClients

/-- The steps of a call that releases the first lease of the first client. -/
def release : List (Action Nat) :=
  [.releaseLease 0 (some ⟨⟨1, 30, "host:1"⟩, some 0⟩), .delete 0, .answer 0]

end TwoClients

/-- The second client takes the lease over with the next generation. -/
theorem generations_increase_sample : ∃ s', run (step TwoClients.seconds TwoClients.host)
      TwoClients.empty (TwoClients.acquire 0 ++ .tick 31 :: TwoClients.acquire 1) = some s' ∧
    s'.history = [.acquired 0 1, .acquired 1 2] ∧ Increasing s'.history ∧
      Restarts s'.history := by
  have hrun : ∃ s', run (step TwoClients.seconds TwoClients.host) TwoClients.empty
      (TwoClients.acquire 0 ++ .tick 31 :: TwoClients.acquire 1) = some s' ∧
      s'.history = [.acquired 0 1, .acquired 1 2] := ⟨_, rfl, by decide +kernel⟩
  obtain ⟨s', hrun, hhistory⟩ := hrun
  exact ⟨s', hrun, hhistory, generations_increase TwoClients.seconds TwoClients.host
    TwoClients.initial (by decide +kernel) hrun⟩

/-- The second client acquires the lease after a release, with the generation of the first. -/
theorem generation_reused : ∃ s', run (step TwoClients.seconds TwoClients.host)
      TwoClients.empty (TwoClients.acquire 0 ++ TwoClients.release ++ TwoClients.acquire 1) =
        some s' ∧
    s'.history = [.acquired 0 1, .released 0, .acquired 1 1] ∧
    ¬ ∀ before i generation between j generation' after,
      s'.history = before ++ .acquired i generation :: (between ++
        .acquired j generation' :: after) → generation < generation' := by
  have hrun : ∃ s', run (step TwoClients.seconds TwoClients.host) TwoClients.empty
      (TwoClients.acquire 0 ++ TwoClients.release ++ TwoClients.acquire 1) = some s' ∧
      s'.history = [.acquired 0 1, .released 0, .acquired 1 1] := ⟨_, rfl, by decide +kernel⟩
  obtain ⟨s', hrun, hhistory⟩ := hrun
  refine ⟨s', hrun, hhistory, fun h => ?_⟩
  exact absurd (h [] 0 1 [.released 0] 1 1 [] hhistory) (by decide)

end Litestream.Leaser
