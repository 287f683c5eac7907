import Mathlib
import Litestream.Plan.Cursor

/-!
# The rounds of the planner

`PlanState.Inv` is the invariant of the rounds.  The plan so far is a chain of eligible
files that starts at or before TXID 1 and ends at `currentMax`, and every cursor keeps
its own invariant at `currentMax`.  The rounds stop in one of two states (`planLoop_spec`):
the target TXID is reached, or the plan is *exhausted*, with every cursor settled and
without a candidate.  An exhausted plan ends where the listings are closed
(`PlanState.Exhausted.closed`).
-/

namespace Litestream

variable {txID timestamp : Nat}

open RestoreLevelCursor (Settled remaining)

/-- Every cursor keeps its invariant over the listing it was opened on. -/
def CursorsInv (txID timestamp : Nat) (levels : List (List FileInfo)) (cur : Nat)
    (cursors : List RestoreLevelCursor) : Prop :=
  List.Forall₂ (fun files c => c.Inv txID timestamp files cur) levels cursors

/-- How many candidates the cursors can still offer. -/
def remainingAll (cursors : List RestoreLevelCursor) : Nat := (cursors.map remaining).sum

theorem planFuel_eq (cursors : List RestoreLevelCursor) :
    planFuel cursors = remainingAll cursors + 1 := rfl

/-! ## Refreshing every cursor -/

theorem refreshAll_spec {cur : Nat} {levels : List (List FileInfo)}
    {cursors : List RestoreLevelCursor} (h : CursorsInv txID timestamp levels cur cursors) :
    ∃ cursors', refreshAll cur txID timestamp cursors = .ok cursors' ∧
      CursorsInv txID timestamp levels cur cursors' ∧ (∀ c ∈ cursors', c.Settled cur) ∧
      remainingAll cursors' ≤ remainingAll cursors := by
  induction h with
  | nil => exact ⟨[], rfl, .nil, by simp, Nat.le_refl _⟩
  | @cons files c levels cursors hc _ ih =>
      obtain ⟨c', hc', hinv, hset, hrem⟩ := RestoreLevelCursor.refresh_spec hc
      obtain ⟨cs', hcs', hinvs, hsets, hrems⟩ := ih
      refine ⟨c' :: cs', ?_, .cons hinv hinvs, ?_, ?_⟩
      · rw [refreshAll, hc', hcs']
        rfl
      · intro d hd
        rcases List.mem_cons.mp hd with rfl | hd
        · exact hset
        · exact hsets d hd
      · simp only [remainingAll, List.map_cons, List.sum_cons] at hrems ⊢
        omega

/-! ## Selecting a candidate -/

/-- Only cursors without candidates select nothing. -/
theorem selectNext_eq_none : ∀ {cursors : List RestoreLevelCursor} {i : Nat}
    {next : Option (Nat × FileInfo)}, selectNext cursors i next = none →
      next = none ∧ ∀ c ∈ cursors, c.candidate = none
  | [], _, _, h => ⟨h, by simp⟩
  | c :: cs, i, next, h => by
      cases hc : c.candidate with
      | none =>
          simp only [selectNext, hc] at h
          obtain ⟨hnext, hcs⟩ := selectNext_eq_none h
          exact ⟨hnext, by simpa [hc] using hcs⟩
      | some info =>
          cases next with
          | none =>
              simp only [selectNext, hc] at h
              exact absurd (selectNext_eq_none h).1 (by simp)
          | some jb =>
              obtain ⟨j, best⟩ := jb
              simp only [selectNext, hc] at h
              split at h
              · exact absurd (selectNext_eq_none h).1 (by simp)
              · exact absurd (selectNext_eq_none h).1 (by simp)

/-- What is selected is the candidate of a cursor, or what was selected before. -/
theorem selectNext_eq_some : ∀ {cursors : List RestoreLevelCursor} {i k : Nat}
    {next : Option (Nat × FileInfo)} {info : FileInfo},
    selectNext cursors i next = some (k, info) →
      next = some (k, info) ∨
        ∃ n c, k = i + n ∧ cursors[n]? = some c ∧ c.candidate = some info
  | [], _, _, _, _, h => Or.inl h
  | c :: cs, i, k, next, info, h => by
      have htail : ∀ {next' : Option (Nat × FileInfo)},
          selectNext cs (i + 1) next' = some (k, info) → next' = some (k, info) ∨
            ∃ n d, k = i + n ∧ (c :: cs)[n]? = some d ∧ d.candidate = some info := by
        intro next' h'
        rcases selectNext_eq_some h' with h' | ⟨n, d, hk, hd, hinfo⟩
        · exact Or.inl h'
        · exact Or.inr ⟨n + 1, d, by omega, by simpa using hd, hinfo⟩
      have hhead : ∀ {info' : FileInfo}, c.candidate = some info' →
          (some (i, info') : Option (Nat × FileInfo)) = some (k, info) →
            ∃ n d, k = i + n ∧ (c :: cs)[n]? = some d ∧ d.candidate = some info := by
        intro info' hc he
        cases he
        exact ⟨0, c, rfl, rfl, hc⟩
      cases hc : c.candidate with
      | none =>
          simp only [selectNext, hc] at h
          exact htail h
      | some info' =>
          cases next with
          | none =>
              simp only [selectNext, hc] at h
              exact Or.inr ((htail h).elim (hhead hc) id)
          | some jb =>
              obtain ⟨j, best⟩ := jb
              simp only [selectNext, hc] at h
              split at h
              · exact Or.inr ((htail h).elim (hhead hc) id)
              · exact htail h

/-! ## Clearing a candidate -/

theorem clearCandidate_inv {cur cur' : Nat} {levels : List (List FileInfo)}
    {cursors : List RestoreLevelCursor} (h : CursorsInv txID timestamp levels cur cursors) :
    ∀ {n : Nat} {c : RestoreLevelCursor} {info : FileInfo}, cursors[n]? = some c →
      c.candidate = some info → info.maxTXID ≤ cur' → cur ≤ cur' →
      CursorsInv txID timestamp levels cur' (clearCandidate cursors n) ∧
        remainingAll (clearCandidate cursors n) + 1 = remainingAll cursors := by
  induction h with
  | nil => intro n c info hn; simp at hn
  | @cons files d levels cursors hd hds ih =>
      intro n c info hn hc hmax hle
      cases n with
      | zero =>
          obtain rfl : d = c := by simpa using hn
          refine ⟨.cons ((hd.mono hle).clear hc hmax) (hds.imp fun _ _ he => he.mono hle), ?_⟩
          simp [remainingAll, clearCandidate, remaining, RestoreLevelCursor.pending, hc]
          omega
      | succ n =>
          obtain ⟨hinv, hrem⟩ := ih (by simpa using hn) hc hmax hle
          refine ⟨.cons (hd.mono hle) hinv, ?_⟩
          simp only [remainingAll, clearCandidate, List.modify_succ_cons, List.map_cons,
            List.sum_cons] at hrem ⊢
          omega

/-- The selected candidate belongs to one of the listings. -/
theorem CursorsInv.candidate {cur : Nat} {levels : List (List FileInfo)}
    {cursors : List RestoreLevelCursor} (h : CursorsInv txID timestamp levels cur cursors) :
    ∀ {n : Nat} {c : RestoreLevelCursor} {info : FileInfo}, cursors[n]? = some c →
      c.candidate = some info → ∃ files ∈ levels, info ∈ files ∧
        eligible txID timestamp info = true ∧ info.minTXID ≤ cur + 1 := by
  induction h with
  | nil => intro n c info hn; simp at hn
  | @cons files d levels cursors hd _ ih =>
      intro n c info hn hc
      cases n with
      | zero =>
          obtain rfl : d = c := by simpa using hn
          exact ⟨files, by simp, hd.candidate info hc⟩
      | succ n =>
          obtain ⟨files', hfiles', hinfo⟩ := ih (by simpa using hn) hc
          exact ⟨files', by simp [hfiles'], hinfo⟩

/-- Every listing has a cursor. -/
theorem CursorsInv.exists_cursor {cur : Nat} {levels : List (List FileInfo)}
    {cursors : List RestoreLevelCursor} (h : CursorsInv txID timestamp levels cur cursors)
    {files : List FileInfo} (hfiles : files ∈ levels) :
    ∃ c ∈ cursors, c.Inv txID timestamp files cur := by
  induction h with
  | nil => cases hfiles
  | @cons files' c levels cursors hc _ ih =>
      rcases List.mem_cons.mp hfiles with rfl | hfiles
      · exact ⟨c, by simp, hc⟩
      · obtain ⟨d, hd, hinv⟩ := ih hfiles
        exact ⟨d, by simp [hd], hinv⟩

/-- Every cursor was opened on a listing. -/
theorem CursorsInv.exists_listing {cur : Nat} {levels : List (List FileInfo)}
    {cursors : List RestoreLevelCursor} (h : CursorsInv txID timestamp levels cur cursors)
    {c : RestoreLevelCursor} (hc : c ∈ cursors) :
    ∃ files ∈ levels, c.Inv txID timestamp files cur := by
  induction h with
  | nil => cases hc
  | @cons files d levels cursors hd _ ih =>
      rcases List.mem_cons.mp hc with rfl | hc
      · exact ⟨files, by simp, hd⟩
      · obtain ⟨files', hfiles', hinv⟩ := ih hc
        exact ⟨files', by simp [hfiles'], hinv⟩

/-! ## The invariant of the rounds -/

/-- The invariant of the rounds, for a planner that may use the files of `source`. -/
structure PlanState.Inv (txID timestamp : Nat) (source : FileInfo → Prop)
    (levels : List (List FileInfo)) (s : PlanState) : Prop where
  cursors : CursorsInv txID timestamp levels s.currentMax s.cursors
  chain : FileInfo.Chain 0 s.infos
  reach : FileInfo.reach 0 s.infos = s.currentMax
  mem : ∀ f ∈ s.infos, source f ∧ eligible txID timestamp f = true

/-- No cursor can extend the plan. -/
structure PlanState.Exhausted (s : PlanState) : Prop where
  settled : ∀ c ∈ s.cursors, c.Settled s.currentMax
  candidate : ∀ c ∈ s.cursors, c.candidate = none

/-- The rounds end with the target reached or with an exhausted plan. -/
theorem planLoop_spec {source : FileInfo → Prop} {levels : List (List FileInfo)}
    (hsource : ∀ files ∈ levels, ∀ f ∈ files, source f) :
    ∀ {fuel : Nat} {s : PlanState}, remainingAll s.cursors < fuel →
      s.Inv txID timestamp source levels →
      ∃ s', planLoop txID timestamp fuel s = .ok s' ∧ s'.Inv txID timestamp source levels ∧
        s.currentMax ≤ s'.currentMax ∧
        ((txID ≠ 0 ∧ txID ≤ s'.currentMax) ∨ s'.Exhausted) := by
  intro fuel
  induction fuel with
  | zero => intro s hfuel; omega
  | succ fuel ih =>
      intro s hfuel hs
      obtain ⟨cs, hcs, hinv, hset, hrem⟩ := refreshAll_spec hs.cursors
      cases hsel : selectNext cs 0 none with
      | none =>
          have hnone := (selectNext_eq_none hsel).2
          refine ⟨{ s with cursors := cs }, ?_, ⟨hinv, hs.chain, hs.reach, hs.mem⟩,
            Nat.le_refl _, Or.inr ⟨hset, hnone⟩⟩
          simp only [planLoop, hcs, bind, Except.bind, hsel]
          rfl
      | some p =>
          obtain ⟨i, info⟩ := p
          obtain ⟨n, c, hi, hn, hc⟩ := (selectNext_eq_some hsel).resolve_left (by simp)
          obtain rfl : n = i := by omega
          by_cases hstale : info.maxTXID ≤ s.currentMax
          · obtain ⟨hclear, hrem'⟩ := clearCandidate_inv hinv hn hc hstale (Nat.le_refl _)
            obtain ⟨s', hs', hrest⟩ :=
              ih (s := { s with cursors := clearCandidate cs n }) (by simp only; omega)
                ⟨hclear, hs.chain, hs.reach, hs.mem⟩
            refine ⟨s', ?_, hrest⟩
            simp only [planLoop, hcs, bind, Except.bind, hsel, if_pos hstale]
            exact hs'
          · obtain ⟨files, hfiles, hinfo, hel, hmin⟩ := hinv.candidate hn hc
            have hle : s.currentMax ≤ info.maxTXID := by omega
            obtain ⟨hclear, hrem'⟩ := clearCandidate_inv hinv hn hc (Nat.le_refl _) hle
            have hreach : FileInfo.reach 0 (s.infos ++ [info]) = info.maxTXID :=
              Cover.reach_concat 0 _ _
            have hinv' : PlanState.Inv txID timestamp source levels
                ⟨s.infos ++ [info], info.maxTXID, clearCandidate cs n⟩ := by
              refine ⟨hclear, hs.chain.concat ?_ ?_, hreach, ?_⟩
              · have := hs.reach
                simp only [FileInfo.reach] at this
                omega
              · have := hs.reach
                simp only [FileInfo.reach] at this
                omega
              · intro f hf
                simp only [List.mem_append, List.mem_singleton] at hf
                rcases hf with hf | rfl
                · exact hs.mem f hf
                · exact ⟨hsource files hfiles f hinfo, hel⟩
            by_cases htarget : txID ≠ 0 ∧ txID ≤ info.maxTXID
            · refine ⟨_, ?_, hinv', by simp only; omega, Or.inl htarget⟩
              simp only [planLoop, hcs, bind, Except.bind, hsel, if_neg hstale, if_pos htarget]
              rfl
            · obtain ⟨s', hs', hinv'', hle, hend⟩ := ih (by simp only; omega) hinv'
              refine ⟨s', ?_, hinv'', by simp only at hle; omega, hend⟩
              simp only [planLoop, hcs, bind, Except.bind, hsel, if_neg hstale, if_neg htarget]
              exact hs'

/-- An exhausted plan ends where the listings are closed. -/
theorem PlanState.Exhausted.closed {source : FileInfo → Prop} {levels : List (List FileInfo)}
    {s : PlanState} (h : s.Exhausted) (hs : s.Inv txID timestamp source levels)
    (hsorted : ∀ files ∈ levels, files.Pairwise FileInfo.KeyLE)
    (hvalid : ∀ files ∈ levels, ∀ f ∈ files, f.Valid) :
    ∀ files ∈ levels, FileInfo.Closed
      (fun f => f ∈ files ∧ eligible txID timestamp f = true) s.currentMax := by
  intro files hfiles
  obtain ⟨c, hc, hinv⟩ := hs.cursors.exists_cursor hfiles
  exact hinv.closed (h.settled c hc) (h.candidate c hc) (hsorted files hfiles)
    (hvalid files hfiles)

/-! ## The gap check -/

theorem RestoreLevelCursor.ensureCurrent_of_settled {files : List FileInfo} {cur : Nat}
    {c : RestoreLevelCursor} (h : c.Inv txID timestamp files cur) (hset : c.Settled cur) :
    ∃ c', c.ensureCurrent = .ok c' ∧
      ((c.pending = [] ∧ c'.current = none) ∨
        ∃ info, c'.current = some info ∧ info ∈ c.pending ∧ nextTXID cur < info.minTXID) := by
  rcases hset with hnil | ⟨info, hcur, hgap⟩
  · have hcur : c.current = none := by
      cases hc : c.current with
      | none => rfl
      | some info => simp [pending, hc] at hnil
    have hitems : c.itr.items = [] := by simpa [pending, hcur] using hnil
    by_cases hdone : c.done = true
    · exact ⟨c, by simp [ensureCurrent, hdone], Or.inl ⟨hnil, hcur⟩⟩
    · exact ⟨{ c with done := true }, by simp [ensureCurrent, hdone, hcur, hitems, h.no_err],
        Or.inl ⟨hnil, hcur⟩⟩
  · exact ⟨c, by simp [ensureCurrent, hcur], Or.inr ⟨info, hcur, by simp [pending, hcur], hgap⟩⟩

/-- The check passes only if every listing has been read to its end. -/
theorem checkGap_ok {cur : Nat} {levels : List (List FileInfo)}
    {cursors : List RestoreLevelCursor} (h : CursorsInv txID timestamp levels cur cursors)
    (hset : ∀ c ∈ cursors, c.Settled cur) :
    checkGap cur cursors = .ok () ↔ ∀ c ∈ cursors, c.pending = [] := by
  induction h with
  | nil => simp [checkGap]
  | @cons files c levels cursors hc _ ih =>
      have ih := ih fun d hd => hset d (by simp [hd])
      obtain ⟨c', hc', hcur⟩ :=
        RestoreLevelCursor.ensureCurrent_of_settled hc (hset c (by simp))
      rcases hcur with ⟨hnil, hcur⟩ | ⟨info, hcur, hmem, hgap⟩
      · simp only [checkGap, hc', bind, Except.bind, hcur, ih, List.forall_mem_cons, hnil,
          true_and]
      · simp only [checkGap, hc', bind, Except.bind, hcur, if_pos hgap, List.forall_mem_cons]
        constructor
        · intro he
          cases he
        · intro ⟨hnil, _⟩
          rw [hnil] at hmem
          cases hmem

end Litestream
