import Litestream.Plan.CalcRestorePlan

/-!
# What a cursor knows

A cursor splits the listing of its level into the files it has evaluated and the files it
has not (`RestoreLevelCursor.pending`).  The invariant says that no evaluated file is
lost: each one that is eligible either adds nothing to the plan or is no better than the
candidate (`Covered`).  `refresh` keeps the invariant and leaves the cursor *settled*:
the next file, if there is one, starts after a gap.

`RestoreLevelCursor.refresh_spec` is the only fact about `refresh` used later.
-/

namespace Litestream

variable {txID timestamp : Nat}

/-! ## The order of candidates -/

theorem restoreCandidateBetter_maxTXID {curr next : FileInfo}
    (h : restoreCandidateBetter curr next = true) : curr.maxTXID ≤ next.maxTXID := by
  unfold restoreCandidateBetter at h
  split at h
  · exact Nat.le_of_lt (by simpa using h)
  · omega

theorem not_restoreCandidateBetter_maxTXID {curr next : FileInfo}
    (h : restoreCandidateBetter curr next = false) : next.maxTXID ≤ curr.maxTXID := by
  unfold restoreCandidateBetter at h
  split at h
  · simpa using h
  · omega

namespace RestoreLevelCursor

/-! ## Coverage -/

/-- Every eligible file of `seen` adds nothing past `cur` or is no better than the
candidate. -/
def Covered (txID timestamp cur : Nat) (seen : List FileInfo) (candidate : Option FileInfo) :
    Prop :=
  ∀ f ∈ seen, eligible txID timestamp f = true →
    f.maxTXID ≤ cur ∨ ∃ g, candidate = some g ∧ f.maxTXID ≤ g.maxTXID

/-- The candidate is an eligible file of the listing that is contiguous with `cur`. -/
def CandidateOK (txID timestamp cur : Nat) (files : List FileInfo) (candidate : Option FileInfo) :
    Prop :=
  ∀ g, candidate = some g → g ∈ files ∧ eligible txID timestamp g = true ∧ g.minTXID ≤ cur + 1

theorem Covered.mono {cur cur' : Nat} {seen : List FileInfo} {candidate : Option FileInfo}
    (h : Covered txID timestamp cur seen candidate) (hle : cur ≤ cur') :
    Covered txID timestamp cur' seen candidate := by
  intro f hf hel
  rcases h f hf hel with hmax | hcand
  · exact Or.inl (Nat.le_trans hmax hle)
  · exact Or.inr hcand

/-- A candidate that adds nothing past `cur` can be dropped. -/
theorem Covered.filter {cur : Nat} {seen : List FileInfo} {candidate : Option FileInfo}
    (h : Covered txID timestamp cur seen candidate) :
    Covered txID timestamp cur seen (candidate.filter fun info => cur < info.maxTXID) := by
  intro f hf hel
  rcases h f hf hel with hmax | ⟨g, rfl, hmax⟩
  · exact Or.inl hmax
  · by_cases hg : cur < g.maxTXID
    · exact Or.inr ⟨g, by simp [Option.filter, hg], hmax⟩
    · exact Or.inl (by omega)

/-- Considering a file covers it and everything covered before. -/
theorem Covered.consider {cur : Nat} {seen : List FileInfo} {candidate : Option FileInfo}
    (h : Covered txID timestamp cur seen candidate) (info : FileInfo) :
    Covered txID timestamp cur (seen ++ [info])
      (consider cur txID timestamp candidate info) := by
  intro f hf hel
  simp only [List.mem_append, List.mem_singleton] at hf
  unfold RestoreLevelCursor.consider
  by_cases hmax : info.maxTXID ≤ cur
  · rw [if_pos hmax]
    rcases hf with hf | rfl
    · exact h f hf hel
    · exact Or.inl hmax
  · rw [if_neg hmax]
    by_cases hinfo : eligible txID timestamp info = true
    · simp only [hinfo, Bool.not_true, Bool.false_eq_true, if_false]
      cases candidate with
      | none =>
          rcases hf with hf | rfl
          · rcases h f hf hel with hf | ⟨g, hg, -⟩
            · exact Or.inl hf
            · cases hg
          · exact Or.inr ⟨f, rfl, Nat.le_refl _⟩
      | some curr =>
          cases hb : restoreCandidateBetter curr info with
          | true =>
              have hci := restoreCandidateBetter_maxTXID hb
              rcases hf with hf | rfl
              · rcases h f hf hel with hf | ⟨g, hg, hfg⟩
                · exact Or.inl hf
                · cases hg
                  exact Or.inr ⟨info, by simp [hb], Nat.le_trans hfg hci⟩
              · exact Or.inr ⟨f, by simp [hb], Nat.le_refl _⟩
          | false =>
              have hic := not_restoreCandidateBetter_maxTXID hb
              rcases hf with hf | rfl
              · rcases h f hf hel with hf | ⟨g, hg, hfg⟩
                · exact Or.inl hf
                · cases hg
                  exact Or.inr ⟨curr, by simp [hb], hfg⟩
              · exact Or.inr ⟨curr, by simp [hb], hic⟩
    · rw [if_pos (by simpa using hinfo)]
      rcases hf with hf | rfl
      · exact h f hf hel
      · exact absurd hel hinfo

/-- A file taken into consideration is an acceptable candidate if it is contiguous. -/
theorem CandidateOK.consider {cur : Nat} {files : List FileInfo} {candidate : Option FileInfo}
    (h : CandidateOK txID timestamp cur files candidate) {info : FileInfo} (hmem : info ∈ files)
    (hmin : info.minTXID ≤ cur + 1) :
    CandidateOK txID timestamp cur files (consider cur txID timestamp candidate info) := by
  intro g hg
  unfold RestoreLevelCursor.consider at hg
  split at hg
  · exact h g hg
  · split at hg
    · exact h g hg
    · next hel =>
        have hinfo : eligible txID timestamp info = true := by simpa using hel
        cases candidate with
        | none =>
            obtain rfl : info = g := by simpa using hg
            exact ⟨hmem, hinfo, hmin⟩
        | some curr =>
            simp only at hg
            split at hg
            · obtain rfl : info = g := by simpa using hg
              exact ⟨hmem, hinfo, hmin⟩
            · exact h g hg

theorem length_consider_le (txID timestamp cur : Nat) (candidate : Option FileInfo) (info : FileInfo) :
    (consider cur txID timestamp candidate info).toList.length ≤ candidate.toList.length + 1 := by
  have hone : ∀ o : Option FileInfo, o.toList.length ≤ 1 := by
    intro o
    cases o <;> simp
  have := hone (consider cur txID timestamp candidate info)
  omega

/-! ## The invariant -/

/-- What a cursor over `files` knows when the plan ends at `cur`. -/
structure Inv (txID timestamp : Nat) (files : List FileInfo) (cur : Nat)
    (c : RestoreLevelCursor) : Prop where
  no_err : c.itr.err = none
  split : ∃ seen, files = seen ++ c.pending ∧ Covered txID timestamp cur seen c.candidate
  candidate : CandidateOK txID timestamp cur files c.candidate
  pending_of_done : c.done = true → c.pending = []

/-- The next file, if there is one, starts after a gap. -/
def Settled (cur : Nat) (c : RestoreLevelCursor) : Prop :=
  c.pending = [] ∨ ∃ info, c.current = some info ∧ nextTXID cur < info.minTXID

/-- How many candidates the cursor can still offer. -/
def remaining (c : RestoreLevelCursor) : Nat := c.pending.length + c.candidate.toList.length

theorem Inv.mono {files : List FileInfo} {cur cur' : Nat} {c : RestoreLevelCursor}
    (h : c.Inv txID timestamp files cur) (hle : cur ≤ cur') :
    c.Inv txID timestamp files cur' where
  no_err := h.no_err
  split := by
    obtain ⟨seen, hfiles, hcov⟩ := h.split
    exact ⟨seen, hfiles, hcov.mono hle⟩
  candidate := by
    intro g hg
    obtain ⟨hmem, hel, hmin⟩ := h.candidate g hg
    exact ⟨hmem, hel, by omega⟩
  pending_of_done := h.pending_of_done

/-- A fresh cursor over a listing. -/
theorem Inv.init (files : List FileInfo) (cur : Nat) :
    (⟨⟨files, none⟩, none, none, false⟩ : RestoreLevelCursor).Inv txID timestamp files cur where
  no_err := rfl
  split := ⟨[], rfl, fun _ hf => by cases hf⟩
  candidate := fun _ hg => by cases hg
  pending_of_done := fun h => by cases h

/-- Dropping a candidate that adds nothing past `cur` keeps the invariant. -/
theorem Inv.clear {files : List FileInfo} {cur : Nat} {c : RestoreLevelCursor} {info : FileInfo}
    (h : c.Inv txID timestamp files cur) (hc : c.candidate = some info)
    (hmax : info.maxTXID ≤ cur) :
    ({ c with candidate := none } : RestoreLevelCursor).Inv txID timestamp files cur where
  no_err := h.no_err
  split := by
    obtain ⟨seen, hfiles, hcov⟩ := h.split
    refine ⟨seen, hfiles, fun f hf hel => ?_⟩
    rcases hcov f hf hel with hf | ⟨g, hg, hfg⟩
    · exact Or.inl hf
    · rw [hc] at hg
      cases hg
      exact Or.inl (Nat.le_trans hfg hmax)
  candidate := fun _ hg => by cases hg
  pending_of_done := h.pending_of_done

/-- The loop of `refresh`, from the files evaluated so far. -/
theorem advance_spec {files : List FileInfo} {cur : Nat} :
    ∀ {rest seen : List FileInfo} {candidate : Option FileInfo},
      files = seen ++ rest → Covered txID timestamp cur seen candidate →
      CandidateOK txID timestamp cur files candidate →
      ∃ c, advance cur txID timestamp none rest candidate = .ok c ∧
        c.Inv txID timestamp files cur ∧ c.Settled cur ∧
        c.remaining ≤ rest.length + candidate.toList.length := by
  intro rest
  induction rest with
  | nil =>
      intro seen candidate hfiles hcov hcand
      refine ⟨_, rfl, ⟨rfl, ⟨seen, hfiles, hcov⟩, hcand, fun _ => rfl⟩, Or.inl rfl, ?_⟩
      simp [remaining, pending]
  | cons info rest ih =>
      intro seen candidate hfiles hcov hcand
      by_cases hgap : nextTXID cur < info.minTXID
      · refine ⟨⟨⟨rest, none⟩, some info, candidate, false⟩, by rw [advance, if_pos hgap],
          ⟨rfl, ⟨seen, hfiles, hcov⟩, hcand, fun h => by cases h⟩, Or.inr ⟨info, rfl, hgap⟩, ?_⟩
        simp [remaining, pending]
      · have hmin : info.minTXID ≤ cur + 1 := by
          have := nextTXID_le cur
          omega
        have hfiles' : files = (seen ++ [info]) ++ rest := by simp [hfiles]
        obtain ⟨c, hc, hinv, hset, hrem⟩ := ih hfiles'
          (hcov.consider info) (hcand.consider (by simp [hfiles]) hmin)
        refine ⟨c, by rw [advance, if_neg hgap, hc], hinv, hset, ?_⟩
        have := length_consider_le txID timestamp cur candidate info
        simp only [List.length_cons]
        omega

/-- `refresh` keeps the invariant, settles the cursor and offers no more candidates than
there were files to evaluate. -/
theorem refresh_spec {files : List FileInfo} {cur : Nat} {c : RestoreLevelCursor}
    (h : c.Inv txID timestamp files cur) :
    ∃ c', c.refresh cur txID timestamp = .ok c' ∧ c'.Inv txID timestamp files cur ∧
      c'.Settled cur ∧ c'.remaining ≤ c.remaining := by
  by_cases hdone : c.done = true
  · exact ⟨c, by rw [refresh, if_pos hdone], h, Or.inl (h.pending_of_done hdone), Nat.le_refl _⟩
  · obtain ⟨seen, hfiles, hcov⟩ := h.split
    have hcand : CandidateOK txID timestamp cur files (c.freshCandidate cur) := by
      intro g hg
      exact h.candidate g (Option.eq_some_of_filter_eq_some hg)
    obtain ⟨c', hc', hinv, hset, hrem⟩ := advance_spec hfiles hcov.filter hcand
    refine ⟨c', by rw [refresh, if_neg hdone, h.no_err]; exact hc', hinv, hset, ?_⟩
    have hle : (c.freshCandidate cur).toList.length ≤ c.candidate.toList.length := by
      unfold freshCandidate
      cases c.candidate with
      | none => simp
      | some g => by_cases hg : cur < g.maxTXID <;> simp [Option.filter, hg]
    exact Nat.le_trans hrem (Nat.add_le_add_left hle _)

/-- A settled cursor with no candidate has no file that extends `cur`. -/
theorem Inv.closed {files : List FileInfo} {cur : Nat} {c : RestoreLevelCursor}
    (h : c.Inv txID timestamp files cur) (hset : c.Settled cur) (hnone : c.candidate = none)
    (hsorted : files.Pairwise FileInfo.KeyLE) (hvalid : ∀ f ∈ files, f.Valid) :
    FileInfo.Closed (fun f => f ∈ files ∧ eligible txID timestamp f = true) cur := by
  intro f ⟨hf, hel⟩ hmin
  obtain ⟨seen, hfiles, hcov⟩ := h.split
  have hlt := (hvalid f hf).max_lt
  rw [hfiles] at hf hsorted
  rcases List.mem_append.mp hf with hf | hf
  · rcases hcov f hf hel with hmax | ⟨g, hg, -⟩
    · exact hmax
    · rw [hnone] at hg
      cases hg
  · rcases hset with hnil | ⟨info, hcur, hgap⟩
    · rw [hnil] at hf
      cases hf
    · -- `info` comes first, so everything pending starts after the gap
      have hge : info.minTXID ≤ f.minTXID := by
        have hp := (List.pairwise_append.mp hsorted).2.1
        rw [pending, hcur] at hf hp
        rcases List.mem_cons.mp hf with rfl | hf
        · exact Nat.le_refl _
        · exact (List.rel_of_pairwise_cons hp hf).min_le
      by_cases hwrap : cur + 1 < txidLimit
      · rw [nextTXID_eq hwrap] at hgap
        omega
      · omega

end RestoreLevelCursor

end Litestream
