import Mathlib
import Litestream.Plan.Rounds

/-!
# What the planner returns

For listings that keep the listing contract the planner ends in one state, described by
`PlanEnd`, and returns the plan of that state or an error (`calcRestorePlan_eq`).

* With a target TXID the planner returns a plan exactly when some chain of listed files
  reaches the target, and the plan is such a chain (`calcRestorePlan_txID`).
* Without targets a returned plan ends at the newest listed transaction, so a newer file
  that no chain reaches is an error (`calcRestorePlan_latest`).
* With a timestamp the plan reaches every eligible file that a chain of eligible files
  reaches (`calcRestorePlan_timestamp`).
-/

namespace Litestream

variable {txID timestamp : Nat}

/-! ## The snapshot -/

theorem findSnapshot_nil : findSnapshot txID timestamp [] = none := rfl

theorem findSnapshot_concat (infos : List FileInfo) (info : FileInfo) :
    findSnapshot txID timestamp (infos ++ [info]) =
      if eligible txID timestamp info then some info else findSnapshot txID timestamp infos := by
  simp [findSnapshot]

theorem findSnapshot_mem {infos : List FileInfo} {info : FileInfo}
    (h : findSnapshot txID timestamp infos = some info) :
    info ∈ infos ∧ eligible txID timestamp info = true := by
  induction infos using List.reverseRecOn with
  | nil => cases h
  | append_singleton infos last ih =>
      rw [findSnapshot_concat] at h
      split at h
      · next hel =>
          cases h
          exact ⟨by simp, hel⟩
      · obtain ⟨hmem, hel⟩ := ih h
        exact ⟨by simp [hmem], hel⟩

/-- Every eligible snapshot ends no later than the one that is picked. -/
theorem findSnapshot_max {infos : List FileInfo}
    (hsorted : infos.Pairwise fun f g => f.maxTXID ≤ g.maxTXID) {f : FileInfo} (hf : f ∈ infos)
    (hel : eligible txID timestamp f = true) :
    ∃ info, findSnapshot txID timestamp infos = some info ∧ f.maxTXID ≤ info.maxTXID := by
  induction infos using List.reverseRecOn with
  | nil => cases hf
  | append_singleton infos last ih =>
      obtain ⟨hinfos, -, hlast⟩ := List.pairwise_append.mp hsorted
      rw [findSnapshot_concat]
      by_cases hl : eligible txID timestamp last = true
      · refine ⟨last, by rw [if_pos hl], ?_⟩
        rcases List.mem_append.mp hf with hf | hf
        · exact hlast f hf last (by simp)
        · obtain rfl : f = last := by simpa using hf
          exact Nat.le_refl _
      · rw [if_neg hl]
        rcases List.mem_append.mp hf with hf | hf
        · exact ih hinfos hf
        · obtain rfl : f = last := by simpa using hf
          exact absurd hel hl

/-- Snapshots are listed in the order of the transactions they end at. -/
theorem Listings.snapshots_sorted (ls : Listings) :
    (ls.level snapshotLevel).files.Pairwise fun f g => f.maxTXID ≤ g.maxTXID := by
  refine (ls.level snapshotLevel).sorted.imp_of_mem fun {f g} hf hg h => ?_
  rcases h with hlt | ⟨-, hle⟩
  · have := ls.snapshot_min f hf
    have := ls.snapshot_min g hg
    omega
  · exact hle

/-! ## The cursors of a listing -/

/-- The listings of the levels below `n`, highest first. -/
def Listings.levelsBelow (ls : Listings) : Nat → List (List FileInfo)
  | 0 => []
  | n + 1 => (ls.level n).files :: ls.levelsBelow n

theorem Listings.mem_levelsBelow {ls : Listings} {files : List FileInfo} :
    ∀ {n : Nat}, files ∈ ls.levelsBelow n ↔ ∃ k < n, files = (ls.level k).files
  | 0 => by simp [levelsBelow]
  | n + 1 => by
      simp only [levelsBelow, List.mem_cons, mem_levelsBelow]
      constructor
      · rintro (rfl | ⟨k, hk, rfl⟩)
        · exact ⟨n, by omega, rfl⟩
        · exact ⟨k, by omega, rfl⟩
      · rintro ⟨k, hk, rfl⟩
        by_cases hkn : k = n
        · exact Or.inl (by rw [hkn])
        · exact Or.inr ⟨k, by omega, rfl⟩

theorem openCursors_client (txID timestamp : Nat) (ls : Listings) (useMetadata : Bool)
    (cur : Nat) :
    ∀ n, ∃ cursors, openCursors ls.client useMetadata n = .ok cursors ∧
      CursorsInv txID timestamp (ls.levelsBelow n) cur cursors
  | 0 => ⟨[], rfl, .nil⟩
  | n + 1 => by
      obtain ⟨cs, hcs, hinv⟩ := openCursors_client txID timestamp ls useMetadata cur n
      refine ⟨⟨⟨(ls.level n).files, none⟩, none, none, false⟩ :: cs, ?_, .cons (.init _ _) hinv⟩
      rw [openCursors, ls.client_ltxFiles, hcs]
      rfl

/-! ## The end of the rounds -/

/-- The state the rounds end in, over the listings `ls`. -/
structure PlanEnd (ls : Listings) (txID timestamp : Nat) (s : PlanState) : Prop where
  inv : s.Inv txID timestamp ls.Listed (ls.levelsBelow snapshotLevel)
  snapshot_le : ∀ f ∈ (ls.level snapshotLevel).files, eligible txID timestamp f = true →
    f.maxTXID ≤ s.currentMax
  exhausted : ¬ (txID ≠ 0 ∧ txID ≤ s.currentMax) → s.Exhausted

/-- The planner finishes from the state the rounds end in, or returns a snapshot that
already reaches the target. -/
theorem calcRestorePlan_eq (ls : Listings) (txID timestamp : Nat) (h : ¬ (txID ≠ 0 ∧ timestamp ≠ 0)) :
    (∃ info ∈ (ls.level snapshotLevel).files, eligible txID timestamp info = true ∧
      txID ≠ 0 ∧ txID ≤ info.maxTXID ∧ calcRestorePlan ls.client txID timestamp = .ok [info]) ∨
    ∃ s, PlanEnd ls txID timestamp s ∧
      calcRestorePlan ls.client txID timestamp = finishPlan txID timestamp s := by
  set files := (ls.level snapshotLevel).files with hfiles
  set snapshot := findSnapshot txID timestamp files with hsnap
  have hlisted : ∀ f ∈ files, ls.Listed f := fun f hf => ⟨snapshotLevel, Nat.le_refl _, hf⟩
  by_cases hearly : txID ≠ 0 ∧ txID ≤ FileInfo.sliceMaxTXID snapshot.toList
  · left
    cases hs : snapshot with
    | none =>
        rw [hs] at hearly
        exact absurd hearly.2 (by simp [FileInfo.sliceMaxTXID, hearly.1])
    | some info =>
        obtain ⟨hmem, hel⟩ := findSnapshot_mem (hsnap ▸ hs)
        rw [hs] at hearly
        refine ⟨info, hmem, hel, hearly.1, by simpa [FileInfo.sliceMaxTXID] using hearly.2, ?_⟩
        simp only [calcRestorePlan, if_neg h, ls.client_ltxFiles, liftClient, bind, Except.bind,
          ← hfiles, ← hsnap, hs, if_pos hearly, pure, Except.pure]
        rfl
  · right
    obtain ⟨cursors, hopen, hcursors⟩ := openCursors_client txID timestamp
      ls (timestamp != 0) (FileInfo.sliceMaxTXID snapshot.toList) snapshotLevel
    set start : PlanState := ⟨snapshot.toList, FileInfo.sliceMaxTXID snapshot.toList, cursors⟩
      with hstart
    have hinv : start.Inv txID timestamp ls.Listed (ls.levelsBelow snapshotLevel) := by
      refine ⟨hcursors, ?_, (FileInfo.sliceMaxTXID_eq_reach _).symm, ?_⟩
      · cases hs : snapshot with
        | none => simp [hstart, hs, FileInfo.Chain, Cover.Chain]
        | some info =>
            obtain ⟨hmem, -⟩ := findSnapshot_mem (hsnap ▸ hs)
            have hv := (ls.level snapshotLevel).valid info hmem
            have hmin := ls.snapshot_min info hmem
            have := hv.min_le_max
            simp only [hstart, hs, Option.toList, FileInfo.Chain, Cover.Chain, and_true]
            omega
      · intro f hf
        obtain ⟨hmem, hel⟩ := findSnapshot_mem (Option.mem_toList.mp hf)
        exact ⟨hlisted f hmem, hel⟩
    have hsource : ∀ fs ∈ ls.levelsBelow snapshotLevel, ∀ f ∈ fs, ls.Listed f := by
      intro fs hfs f hf
      obtain ⟨k, hk, rfl⟩ := Listings.mem_levelsBelow.mp hfs
      exact ⟨k, Nat.le_of_lt hk, hf⟩
    obtain ⟨s, hs, hsinv, hle, hend⟩ :=
      planLoop_spec hsource (show remainingAll start.cursors < planFuel cursors by
        rw [planFuel_eq]
        exact Nat.lt_succ_self _) hinv
    refine ⟨s, ⟨hsinv, ?_, hend.resolve_left⟩, ?_⟩
    · intro f hf hel
      obtain ⟨info, hinfo, hmax⟩ := findSnapshot_max ls.snapshots_sorted hf hel
      have hcur : start.currentMax = info.maxTXID := by
        rw [hstart, hsnap, hinfo]
        rfl
      omega
    · simp only [calcRestorePlan, if_neg h, ls.client_ltxFiles, liftClient, bind, Except.bind,
        ← hfiles, ← hsnap, if_neg hearly, pure, Except.pure, hopen, ← hstart, hs]

theorem PlanEnd.chain {ls : Listings} {s : PlanState} (h : PlanEnd ls txID timestamp s) :
    FileInfo.Chain 0 s.infos := h.inv.chain

/-- An exhausted plan ends where the eligible listed files are closed. -/
theorem PlanEnd.closed {ls : Listings} {s : PlanState} (h : PlanEnd ls txID timestamp s)
    (hex : s.Exhausted) :
    FileInfo.Closed (fun f => ls.Listed f ∧ eligible txID timestamp f = true) s.currentMax := by
  intro f ⟨⟨n, hn, hf⟩, hel⟩ hmin
  by_cases hsnap : n = snapshotLevel
  · subst hsnap
    exact h.snapshot_le f hf hel
  · refine hex.closed h.inv ?_ ?_ (ls.level n).files ?_ f ⟨hf, hel⟩ hmin
    · intro files hfiles
      obtain ⟨k, -, rfl⟩ := Listings.mem_levelsBelow.mp hfiles
      exact (ls.level k).sorted
    · intro files hfiles
      obtain ⟨k, -, rfl⟩ := Listings.mem_levelsBelow.mp hfiles
      exact (ls.level k).valid
    · exact Listings.mem_levelsBelow.mpr ⟨n, by omega, rfl⟩

/-! ## The plan that is returned -/

theorem finishPlan_eq_ok {s : PlanState} {p : List FileInfo} :
    finishPlan txID timestamp s = .ok p ↔
      p = s.infos ∧ s.infos ≠ [] ∧
        (txID = 0 → timestamp = 0 → checkGap s.currentMax s.cursors = .ok ()) ∧
        (txID ≠ 0 → txID ≤ FileInfo.reach 0 s.infos) := by
  rw [finishPlan, ← FileInfo.sliceMaxTXID_eq_reach]
  by_cases hne : s.infos = []
  · simp [hne, bind, Except.bind, throw, throwThe, MonadExceptOf.throw]
  · by_cases hlatest : txID = 0 ∧ timestamp = 0
    · obtain ⟨rfl, rfl⟩ := hlatest
      cases hgap : checkGap s.currentMax s.cursors with
      | error e => simp [hne, bind, Except.bind]
      | ok u => simp [hne, bind, Except.bind, pure, Except.pure, eq_comm]
    · by_cases htarget : txID ≠ 0 ∧ FileInfo.sliceMaxTXID s.infos < txID
      · simp [hne, htarget, bind, Except.bind, throw, throwThe, MonadExceptOf.throw]
      · have hle : txID ≠ 0 → txID ≤ FileInfo.sliceMaxTXID s.infos := by
          intro h0
          have := not_and.mp htarget h0
          omega
        have hno : txID = 0 → timestamp ≠ 0 := fun h0 ht => hlatest ⟨h0, ht⟩
        simp only [ne_eq, hne, not_false_eq_true, hlatest, and_false, if_false, htarget, bind,
          Except.bind, pure, Except.pure, Except.ok.injEq, true_and]
        constructor
        · rintro rfl
          exact ⟨rfl, fun h0 ht => absurd ht (hno h0), hle⟩
        · rintro ⟨rfl, -⟩
          rfl

/-- The ends of a chain of listed files are below the TXID limit. -/
theorem Listings.reach_lt {ls : Listings} {p : List FileInfo} (h : ∀ f ∈ p, ls.Listed f) :
    FileInfo.reach 0 p < txidLimit := by
  by_cases hne : p = []
  · subst hne
    exact (by decide : 0 < txidLimit)
  · rw [FileInfo.reach, Cover.reach_eq_getLast 0 hne]
    exact (h _ (List.getLast_mem hne)).valid.max_lt

/-! ## A target TXID -/

/-- A list of listed files, linked from TXID 1, that ends exactly at `target`. -/
structure RestoreChain (ls : Listings) (target : Nat) (p : List FileInfo) : Prop where
  ne_nil : p ≠ []
  listed : ∀ f ∈ p, ls.Listed f
  linked : FileInfo.Linked 0 p
  max_le : ∀ f ∈ p, f.maxTXID ≤ target
  reach : FileInfo.reach 0 p = target

theorem eligible_txID {t : Nat} (ht : t ≠ 0) {f : FileInfo} :
    eligible t 0 f = true ↔ f.maxTXID ≤ t := by
  simp [eligible, ht]

/-- The planner returns a plan for a target TXID exactly when some chain of listed files
ends at the target.  The plan is such a chain, and each of its files adds a transaction. -/
theorem calcRestorePlan_txID (ls : Listings) {t : Nat} (ht : 0 < t) :
    ((∃ p, calcRestorePlan ls.client t 0 = .ok p) ↔ ∃ p, RestoreChain ls t p) ∧
      (∀ p, calcRestorePlan ls.client t 0 = .ok p →
        RestoreChain ls t p ∧ p.Pairwise fun f g => f.maxTXID < g.maxTXID) ∧
      ((¬ ∃ p, RestoreChain ls t p) → ∃ e, calcRestorePlan ls.client t 0 = .error e) := by
  have ht0 : t ≠ 0 := Nat.pos_iff_ne_zero.mp ht
  have hsound : ∀ p, calcRestorePlan ls.client t 0 = .ok p →
      RestoreChain ls t p ∧ p.Pairwise fun f g => f.maxTXID < g.maxTXID := by
    intro p hp
    rcases calcRestorePlan_eq ls t 0 (by simp) with
      ⟨info, hmem, hel, -, hle, heq⟩ | ⟨s, hs, heq⟩
    · rw [heq] at hp
      cases hp
      have hmin := ls.snapshot_min info hmem
      have hmax := (eligible_txID ht0).mp hel
      refine ⟨⟨by simp, ?_, ⟨by omega, trivial⟩, by simpa using hmax, ?_⟩, by simp⟩
      · simpa using ⟨snapshotLevel, Nat.le_refl _, hmem⟩
      · exact Nat.le_antisymm hmax hle
    · rw [heq] at hp
      obtain ⟨rfl, hne, -, hle⟩ := finishPlan_eq_ok.mp hp
      have hmax : ∀ f ∈ s.infos, f.maxTXID ≤ t := fun f hf =>
        (eligible_txID ht0).mp (hs.inv.mem f hf).2
      refine ⟨⟨hne, fun f hf => (hs.inv.mem f hf).1, hs.chain.linked, hmax, ?_⟩,
        hs.chain.pairwise⟩
      refine Nat.le_antisymm ?_ (hle ht0)
      rw [FileInfo.reach, Cover.reach_eq_getLast 0 hne]
      exact hmax _ (List.getLast_mem hne)
  have hcomplete : ∀ p, RestoreChain ls t p → ∃ q, calcRestorePlan ls.client t 0 = .ok q := by
    intro p hp
    rcases calcRestorePlan_eq ls t 0 (by simp) with
      ⟨info, -, -, -, -, heq⟩ | ⟨s, hs, heq⟩
    · exact ⟨_, heq⟩
    · -- an exhausted plan is closed, so no chain goes past it
      have htarget : t ≤ s.currentMax := by
        by_contra hlt
        have hclosed := hs.closed (hs.exhausted fun h => hlt h.2)
        have hle : FileInfo.reach 0 p ≤ s.currentMax := hp.linked.reach_le_of_closed hclosed
          (fun f hf => ⟨hp.listed f hf, (eligible_txID ht0).mpr (hp.max_le f hf)⟩) (Nat.zero_le _)
        rw [hp.reach] at hle
        exact hlt hle
      have hreach : FileInfo.reach 0 s.infos = s.currentMax := hs.inv.reach
      refine ⟨s.infos, heq.trans (finishPlan_eq_ok.mpr ⟨rfl, ?_, fun h => absurd h ht0, ?_⟩)⟩
      · intro hnil
        rw [hnil, FileInfo.reach, Cover.reach_nil] at hreach
        omega
      · intro _
        omega
  refine ⟨⟨.imp fun p hp => (hsound p hp).1, Exists.rec hcomplete⟩, hsound, ?_⟩
  intro hno
  cases hp : calcRestorePlan ls.client t 0 with
  | error e => exact ⟨e, rfl⟩
  | ok p => exact absurd ⟨p, (hsound p hp).1⟩ hno

/-- A replica with a snapshot, two overlapping compacted files and three transactions. -/
def sampleListings : Listings where
  level
    | 0 => ⟨[⟨0, 5, 5, 0, 5⟩, ⟨0, 6, 6, 0, 6⟩, ⟨0, 7, 7, 0, 7⟩], by decide, by decide⟩
    | 1 => ⟨[⟨1, 1, 2, 0, 1⟩, ⟨1, 3, 6, 0, 3⟩], by decide, by decide⟩
    | 9 => ⟨[⟨9, 1, 3, 0, 5⟩], by decide, by decide⟩
    | _ => ⟨[], by decide, by decide⟩
  snapshot_min := by decide

theorem calcRestorePlan_txID_sample :
    RestoreChain sampleListings 7 [⟨9, 1, 3, 0, 5⟩, ⟨1, 3, 6, 0, 3⟩, ⟨0, 7, 7, 0, 7⟩] :=
  ((calcRestorePlan_txID sampleListings (by decide)).2.1 _ (by decide)).1

/-! ## The latest state -/

theorem eligible_latest (f : FileInfo) : eligible 0 0 f = true := by
  simp [eligible]

/-- A plan for the latest state is a chain from TXID 1 that no listed file goes past.
If some listed file is not reached by any linked list of listed files, there is no plan. -/
theorem calcRestorePlan_latest (ls : Listings) :
    (∀ p, calcRestorePlan ls.client 0 0 = .ok p →
      (∃ f rest, p = f :: rest ∧ f.minTXID = 1) ∧ FileInfo.Chain 0 p ∧
        (∀ f ∈ p, ls.Listed f) ∧ ∀ f, ls.Listed f → f.maxTXID ≤ FileInfo.reach 0 p) ∧
    ∀ f, ls.Listed f → (¬ ∃ q, (∀ g ∈ q, ls.Listed g) ∧ FileInfo.Linked 0 (q ++ [f])) →
      ∃ e, calcRestorePlan ls.client 0 0 = .error e := by
  have hsound : ∀ p, calcRestorePlan ls.client 0 0 = .ok p →
      (∃ f rest, p = f :: rest ∧ f.minTXID = 1) ∧ FileInfo.Chain 0 p ∧
        (∀ f ∈ p, ls.Listed f) ∧ ∀ f, ls.Listed f → f.maxTXID ≤ FileInfo.reach 0 p := by
    intro p hp
    rcases calcRestorePlan_eq ls 0 0 (by simp) with
      ⟨-, -, -, h0, -⟩ | ⟨s, hs, heq⟩
    · exact absurd rfl h0
    · rw [heq] at hp
      obtain ⟨rfl, hne, hgap, -⟩ := finishPlan_eq_ok.mp hp
      have hex : s.Exhausted := hs.exhausted (by simp)
      have hpending := (checkGap_ok hs.inv.cursors hex.settled).mp (hgap rfl rfl)
      refine ⟨?_, hs.chain, fun f hf => (hs.inv.mem f hf).1, ?_⟩
      · obtain ⟨f, rest, hinfos⟩ := List.exists_cons_of_ne_nil hne
        have hchain := hs.chain
        have hone := (hs.inv.mem f (by simp [hinfos])).1.valid.one_le
        rw [hinfos] at hchain
        have := hchain.1
        exact ⟨f, rest, hinfos, by omega⟩
      · rintro f ⟨n, hn, hf⟩
        have hreach : FileInfo.reach 0 s.infos = s.currentMax := hs.inv.reach
        rw [hreach]
        by_cases hsnap : n = snapshotLevel
        · subst hsnap
          exact hs.snapshot_le f hf (eligible_latest f)
        · -- the level has been read to its end, so the file has been evaluated
          obtain ⟨c, hc, hinv⟩ := hs.inv.cursors.exists_cursor
            (Listings.mem_levelsBelow.mpr ⟨n, by omega, rfl⟩)
          obtain ⟨seen, hfiles, hcov⟩ := hinv.split
          rw [hpending c hc, List.append_nil] at hfiles
          rcases hcov f (hfiles ▸ hf) (eligible_latest f) with hmax | ⟨g, hg, -⟩
          · exact hmax
          · rw [hex.candidate c hc] at hg
            cases hg
  refine ⟨hsound, fun f hf hno => ?_⟩
  cases hp : calcRestorePlan ls.client 0 0 with
  | error e => exact ⟨e, rfl⟩
  | ok p =>
      obtain ⟨-, hchain, hlisted, hmax⟩ := hsound p hp
      refine absurd ⟨p, hlisted, ?_⟩ hno
      have hmin := hf.valid.min_le_max
      have hle := hmax f hf
      exact Cover.Linked.concat hchain.linked (by simp only [FileInfo.reach] at hle; omega)

/-- If linked listed files reach a TXID that no listed file goes past, the latest state is
found and the plan ends there. -/
theorem calcRestorePlan_latest_of_linked {ls : Listings} {m : Nat} {q : List FileInfo}
    (hq : FileInfo.Linked 0 q) (hmem : ∀ f ∈ q, ls.Listed f) (hreach : m ≤ FileInfo.reach 0 q)
    (hmax : ∀ f, ls.Listed f → f.maxTXID ≤ m) (hpos : 0 < m) (hlt : m + 1 < txidLimit) :
    ∃ p, calcRestorePlan ls.client 0 0 = .ok p ∧ FileInfo.reach 0 p = m := by
  rcases calcRestorePlan_eq ls 0 0 (by simp) with
    ⟨-, -, -, h0, -⟩ | ⟨s, hs, heq⟩
  · exact absurd rfl h0
  have hex : s.Exhausted := hs.exhausted (by simp)
  have hsreach : FileInfo.reach 0 s.infos = s.currentMax := hs.inv.reach
  have hge : m ≤ s.currentMax := Nat.le_trans hreach
    (hq.reach_le_of_closed (hs.closed hex) (fun f hf => ⟨hmem f hf, eligible_latest f⟩)
      (Nat.zero_le _))
  have hne : s.infos ≠ [] := by
    intro hnil
    rw [hnil, FileInfo.reach, Cover.reach_nil] at hsreach
    omega
  have hle : s.currentMax ≤ m := by
    rw [← hsreach, FileInfo.reach, Cover.reach_eq_getLast 0 hne]
    exact hmax _ (hs.inv.mem _ (List.getLast_mem hne)).1
  have hcur : s.currentMax = m := Nat.le_antisymm hle hge
  refine ⟨s.infos, heq.trans (finishPlan_eq_ok.mpr ⟨rfl, hne, fun _ _ => ?_, by simp⟩),
    hsreach.trans hcur⟩
  refine (checkGap_ok hs.inv.cursors hex.settled).mpr fun c hc => ?_
  rcases hex.settled c hc with hnil | ⟨info, hinfo, hgap⟩
  · exact hnil
  · -- a file after a gap would go past `m`
    obtain ⟨files, hfiles, hinv⟩ := hs.inv.cursors.exists_listing hc
    obtain ⟨seen, hsplit, -⟩ := hinv.split
    obtain ⟨k, hk, rfl⟩ := Listings.mem_levelsBelow.mp hfiles
    have hlisted : ls.Listed info := ⟨k, Nat.le_of_lt hk, by
      rw [hsplit]
      simp [RestoreLevelCursor.pending, hinfo]⟩
    have := hmax info hlisted
    have := hlisted.valid.min_le_max
    rw [hcur, nextTXID_eq hlt] at hgap
    omega

/-! ## A timestamp -/

theorem eligible_timestamp {t : Nat} (ht : t ≠ 0) {f : FileInfo} :
    eligible 0 t f = true ↔ f.createdAt < t := by
  simp [eligible, ht]

/-- A plan for a timestamp is a chain of files created before it, and ends where the files
created before it are closed.  There is a plan as soon as one of them starts at TXID 1. -/
theorem calcRestorePlan_timestamp (ls : Listings) {t : Nat} (ht : t ≠ 0) :
    (∀ p, calcRestorePlan ls.client 0 t = .ok p →
      FileInfo.Chain 0 p ∧ (∀ f ∈ p, ls.Listed f ∧ f.createdAt < t) ∧
        FileInfo.Closed (fun f => ls.Listed f ∧ f.createdAt < t) (FileInfo.reach 0 p)) ∧
    ((∃ f, ls.Listed f ∧ f.createdAt < t ∧ f.minTXID = 1) →
      ∃ p, calcRestorePlan ls.client 0 t = .ok p) := by
  rcases calcRestorePlan_eq ls 0 t (by simp) with
    ⟨-, -, -, h0, -⟩ | ⟨s, hs, heq⟩
  · exact absurd rfl h0
  have hreach : FileInfo.reach 0 s.infos = s.currentMax := hs.inv.reach
  have hclosed := hs.closed (hs.exhausted (by simp))
  simp only [eligible_timestamp ht] at hclosed
  constructor
  · intro p hp
    rw [heq] at hp
    obtain ⟨rfl, -⟩ := finishPlan_eq_ok.mp hp
    refine ⟨hs.chain, fun f hf => ?_, hreach ▸ hclosed⟩
    exact ⟨(hs.inv.mem f hf).1, (eligible_timestamp ht).mp (hs.inv.mem f hf).2⟩
  · rintro ⟨f, hf, hel, hmin⟩
    have hmax := hclosed f ⟨hf, hel⟩ (by omega)
    have := hf.valid.min_le_max
    refine ⟨s.infos, heq.trans (finishPlan_eq_ok.mpr ⟨rfl, ?_, fun _ h0 => absurd h0 ht, by simp⟩)⟩
    intro hnil
    rw [hnil, FileInfo.reach, Cover.reach_nil] at hreach
    omega

end Litestream
