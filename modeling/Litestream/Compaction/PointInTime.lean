import Litestream.Compaction.Steps
import Litestream.Plan.RestorePlan

/-!
# Restoring to a point in time

Transactions are created at times that do not decrease.  A compacted file carries the
earliest time of its sources, which is the time of its first transaction
(`History.compacted_createdAt`), and the planner compares that time with the target.  So
a file that starts before the target and ends at or after it is restored as a whole.

`pointInTime_iff` says exactly when a restore keeps to its target: when no stored file
straddles it.
-/

namespace Litestream

namespace Maintenance

variable {cfg : Config} {s s' : State} {a : Action}

/-- Transactions are created in order of time, a merged file carries the earliest time of
its sources, and nothing is deleted. -/
def Timely (s : State) : Action → Prop
  | .sync now => s.created s.dbPos ≤ now
  | .compact _ merge => ∀ infos size timestamp, merge infos = some (size, timestamp) →
      (∃ f ∈ infos, timestamp = f.createdAt) ∧ ∀ f ∈ infos, timestamp ≤ f.createdAt
  | .upload _ | .snapshot _ _ => True
  | .enforceL0RetentionByTime _ _ _ | .enforceSnapshotRetention _ _
  | .enforceRetentionByTXID _ => False

/-- A stored file straddles a time: it counts as created before that time, but it holds a
transaction created at that time or after. -/
def Straddled (s : State) (timestamp : Nat) : Prop :=
  (∃ n < snapshotLevel, 0 < n ∧ ∃ f ∈ s.files n,
    s.created f.minTXID < timestamp ∧ timestamp ≤ s.created f.maxTXID) ∨
  ∃ f ∈ s.files snapshotLevel, f.createdAt < timestamp ∧ timestamp ≤ s.created f.maxTXID

instance (s : State) (timestamp : Nat) : Decidable (Straddled s timestamp) :=
  inferInstanceAs (Decidable (_ ∨ _))

/-- What the files of a replica say about the history of the database. -/
structure History (s : State) : Prop where
  inv : s.Inv
  created_mono : ∀ i j, i ≤ j → j ≤ s.dbPos → s.created i ≤ s.created j
  /-- Level 0 holds every transaction uploaded, with its own time. -/
  level_zero : ∀ t, 0 < t → t ≤ s.uploaded →
    ∃ f ∈ s.files 0, f.minTXID = t ∧ f.maxTXID = t ∧ f.createdAt = s.created t
  single : ∀ f ∈ s.files 0, f.minTXID = f.maxTXID
  /-- A file below the snapshot level carries the time of its first transaction. -/
  createdAt : ∀ n < snapshotLevel, ∀ f ∈ s.files n, f.createdAt = s.created f.minTXID

theorem History.empty : History State.empty where
  inv := State.empty_inv
  created_mono := fun _ _ _ _ => Nat.le_refl _
  level_zero := fun t hpos hle => absurd hle (by simp only [State.empty]; omega)
  single := fun _ hf => by cases hf
  createdAt := fun _ _ _ hf => by cases hf

/-- A transaction of a stored file is one of the database. -/
theorem History.maxTXID_le (h : History s) {n : Nat} (hn : n < snapshotLevel) {f : FileInfo}
    (hf : f ∈ s.files n) : f.maxTXID ≤ s.uploaded :=
  Nat.le_trans (FileInfo.le_top hf) (h.inv.top_le hn)

/-- The time of a merged file is the time of its first transaction. -/
theorem History.compacted_createdAt (h : History s) {dstLevel : Nat}
    {merge : List FileInfo → Option (Nat × Nat)} {merged : Nat × Nat} (hpos : 0 < dstLevel)
    (hlt : dstLevel < snapshotLevel) (hne : compactionSources s.files dstLevel ≠ [])
    (hmerge : merge (compactionSources s.files dstLevel) = some merged)
    (hG : Timely s (.compact dstLevel merge)) :
    (compacted s.files dstLevel merged).createdAt =
      s.created (compacted s.files dstLevel merged).minTXID := by
  have hmem : ∀ f ∈ compactionSources s.files dstLevel, f ∈ s.files (dstLevel - 1) :=
    fun f hf => (List.mem_filter.mp hf).1
  have hv : ∀ f ∈ compactionSources s.files dstLevel, f.Valid := fun f hf =>
    h.inv.levels.wf.valid _ f (hmem f hf)
  obtain ⟨⟨f, hf, hfirst⟩, hle, -⟩ := sourceRange_spec hne hv
  obtain ⟨⟨g, hg, hearliest⟩, hall⟩ := hG _ merged.1 merged.2 hmerge
  have hsrc : dstLevel - 1 < snapshotLevel := by omega
  have hfc := h.createdAt _ hsrc f (hmem f hf)
  have hgc := h.createdAt _ hsrc g (hmem g hg)
  have hgle := h.maxTXID_le hsrc (hmem g hg)
  have hgv := hv g hg
  have hup := h.inv.uploaded_le
  have hmin := hgv.min_le_max
  simp only [compacted]
  refine Nat.le_antisymm ?_ ?_
  · rw [hfirst, ← hfc]
    exact hall f hf
  · rw [hearliest, hgc]
    exact h.created_mono _ _ (hle g hg) (by omega)

theorem History.sync {now : Nat} (h : History s) (hG : s.created s.dbPos ≤ now)
    (hs : step cfg s (.sync now) = some s') : History s' := by
  have hinv := (step_effect h.inv hs).1
  simp only [step, Option.ite_none_right_eq_some, Option.some.injEq] at hs
  obtain ⟨-, rfl⟩ := hs
  have hup := h.inv.uploaded_le
  have hold : ∀ t ≤ s.dbPos,
      Function.update s.created (s.dbPos + 1) now t = s.created t := fun t ht =>
    Function.update_of_ne (by omega) _ _
  refine ⟨hinv, fun i j hij hj => ?_, fun t hpos hle => ?_, h.single, fun n hn f hf => ?_⟩
  · simp only at hj ⊢
    by_cases hj' : j = s.dbPos + 1
    · subst hj'
      rw [Function.update_self]
      by_cases hi : i = s.dbPos + 1
      · exact Nat.le_of_eq (hi ▸ Function.update_self _ _ _)
      · rw [hold i (by omega)]
        exact Nat.le_trans (h.created_mono i s.dbPos (by omega) (Nat.le_refl _)) hG
    · rw [hold j (by omega), hold i (by omega)]
      exact h.created_mono i j hij (by omega)
  · obtain ⟨f, hf, hmin, hmax, hc⟩ := h.level_zero t hpos hle
    exact ⟨f, hf, hmin, hmax, hc.trans (hold t (Nat.le_trans hle hup)).symm⟩
  · have := h.maxTXID_le hn hf
    have := h.inv.levels.min_le_max n f hf
    exact (h.createdAt n hn f hf).trans (hold f.minTXID (by omega)).symm

theorem History.upload {size : Nat} (h : History s)
    (hs : step cfg s (.upload size) = some s') : History s' := by
  have hinv := (step_effect h.inv hs).1
  simp only [step, Option.ite_none_right_eq_some, Option.some.injEq] at hs
  obtain ⟨-, rfl⟩ := hs
  set info : FileInfo := ⟨0, s.uploaded + 1, s.uploaded + 1, size, s.created (s.uploaded + 1)⟩
    with hinfo
  have hmin : FileInfo.top (s.files 0) < info.minTXID := by
    rw [h.inv.top_zero]
    exact Nat.lt_succ_self _
  have hzero : s.files.writeLTXFile info 0 = s.files 0 ++ [info] :=
    h.inv.levels.writeLTXFile_append rfl hmin
  have hother : ∀ n, n ≠ 0 → s.files.writeLTXFile info n = s.files n := fun n hn =>
    Files.writeLTXFile_other (Ne.symm hn)
  refine ⟨hinv, h.created_mono, fun t hpos hle => ?_, fun f hf => ?_, fun n hn f hf => ?_⟩
  · simp only [hzero] at hle ⊢
    by_cases ht : t = s.uploaded + 1
    · subst ht
      exact ⟨info, by simp, rfl, rfl, rfl⟩
    · obtain ⟨f, hf, hf'⟩ := h.level_zero t hpos (by omega)
      exact ⟨f, List.mem_append_left _ hf, hf'⟩
  · simp only [hzero] at hf
    rcases List.mem_append.mp hf with hf | hf
    · exact h.single f hf
    · obtain rfl := List.mem_singleton.mp hf
      rfl
  · by_cases h0 : n = 0
    · subst h0
      simp only [hzero] at hf
      rcases List.mem_append.mp hf with hf | hf
      · exact h.createdAt 0 hn f hf
      · obtain rfl := List.mem_singleton.mp hf
        rfl
    · simp only [hother n h0] at hf
      exact h.createdAt n hn f hf

/-- A step that changes neither the database, nor the uploads, nor level 0 keeps the
history, if the files it adds carry the time of their first transaction. -/
theorem History.of_files (h : History s) (hinv : s'.Inv) (hdb : s'.dbPos = s.dbPos)
    (huploaded : s'.uploaded = s.uploaded) (hcreated : s'.created = s.created)
    (hzero : s'.files 0 = s.files 0)
    (hadded : ∀ n < snapshotLevel, ∀ f ∈ s'.files n, f ∈ s.files n ∨
      f.createdAt = s.created f.minTXID) : History s' := by
  refine ⟨hinv, ?_, ?_, ?_, fun n hn f hf => ?_⟩
  · rw [hdb, hcreated]
    exact h.created_mono
  · rw [hzero, huploaded, hcreated]
    exact h.level_zero
  · rw [hzero]
    exact h.single
  · rw [hcreated]
    exact (hadded n hn f hf).elim (h.createdAt n hn f) id

theorem History.compact {dstLevel : Nat} {merge : List FileInfo → Option (Nat × Nat)}
    (h : History s) (hG : Timely s (.compact dstLevel merge))
    (hs : step cfg s (.compact dstLevel merge) = some s') : History s' := by
  obtain ⟨hinv, heffect⟩ := step_effect h.inv hs
  obtain ⟨hdb, huploaded, hcreated⟩ :
      s'.dbPos = s.dbPos ∧ s'.uploaded = s.uploaded ∧ s'.created = s.created := by
    simp only [step, Option.ite_none_right_eq_some, Option.some.injEq] at hs
    obtain ⟨-, rfl⟩ := hs
    exact ⟨rfl, rfl, rfl⟩
  cases heffect with
  | same hfiles =>
      exact h.of_files hinv hdb huploaded hcreated (hfiles 0 (by decide)) fun n hn f hf =>
        Or.inl (hfiles n hn ▸ hf)
  | @compacted _ _ merged hpos hlt hne hmerge hfiles =>
      have hother : ∀ n, n ≠ dstLevel → s'.files n = s.files n := fun n hn => by
        rw [hfiles]
        exact Files.writeLTXFile_other (Ne.symm hn)
      refine h.of_files hinv hdb huploaded hcreated (hother 0 (by omega)) fun n hn f hf => ?_
      by_cases hd : n = dstLevel
      · subst hd
        obtain ⟨-, hmin, -⟩ := h.inv.levels.compacted_spec hne merged
        rw [hfiles, h.inv.levels.writeLTXFile_append (n := n) rfl hmin] at hf
        rcases List.mem_append.mp hf with hf | hf
        · exact Or.inl hf
        · obtain rfl := List.mem_singleton.mp hf
          exact Or.inr (h.compacted_createdAt hpos hlt hne hmerge hG)
      · exact Or.inl (hother n hd ▸ hf)

theorem History.snapshot {size now : Nat} (h : History s)
    (hs : step cfg s (.snapshot size now) = some s') : History s' := by
  obtain ⟨hinv, heffect⟩ := step_effect h.inv hs
  cases heffect with
  | same hfiles =>
      simp only [step, Option.ite_none_right_eq_some, Option.some.injEq] at hs
      obtain ⟨-, rfl⟩ := hs
      exact h.of_files hinv rfl rfl rfl (hfiles 0 (by decide)) fun n hn f hf =>
        Or.inl (hfiles n hn ▸ hf)

theorem History.step (h : History s) (hG : Timely s a) (hs : step cfg s a = some s') :
    History s' := by
  cases a with
  | sync now => exact h.sync hG hs
  | upload size => exact h.upload hs
  | compact dstLevel merge => exact h.compact hG hs
  | snapshot size now => exact h.snapshot hs
  | enforceL0RetentionByTime threshold listedAt localModTime => exact hG.elim
  | enforceSnapshotRetention timestamp listedAt => exact hG.elim
  | enforceRetentionByTXID level => exact hG.elim

/-! ## Restoring to a time -/

/-- A plan for a time covers every file that counts as created before it and that starts at
the first transaction or at a transaction created before it. -/
theorem History.covered (h : History s) {timestamp : Nat} (ht : timestamp ≠ 0) {n : Nat}
    (hn : n ≤ snapshotLevel) {f : FileInfo} (hf : f ∈ s.files n)
    (hc : f.createdAt < timestamp)
    (hfirst : f.minTXID = 1 ∨ n < snapshotLevel ∧ s.created f.minTXID < timestamp) :
    ∃ p, calcRestorePlan s.files.client 0 timestamp = .ok p ∧
      ∃ g ∈ p, g.minTXID ≤ f.maxTXID ∧ f.maxTXID ≤ g.maxTXID := by
  set ls := s.files.listings h.inv.levels.wf with hls
  have hlisted : ls.Listed f := ⟨n, hn, hf⟩
  have hv := hlisted.valid
  have hone := hv.one_le
  have hmm := hv.min_le_max
  -- the transactions before `f` are in level 0, with times before the target
  have hbefore : ∀ t, 0 < t → t < f.minTXID → ∃ g, ls.Listed g ∧ g.createdAt < timestamp ∧
      g.minTXID = t ∧ g.maxTXID = t := by
    intro t hpos hlt
    rcases hfirst with hfirst | ⟨hlevel, hfirst⟩
    · omega
    · have hup := h.maxTXID_le hlevel hf
      have hdb := h.inv.uploaded_le
      obtain ⟨g, hg, hmin, hmax, hgc⟩ := h.level_zero t hpos (by omega)
      have := h.created_mono t f.minTXID (by omega) (by omega)
      exact ⟨g, ⟨0, Nat.zero_le _, hg⟩, by omega, hmin, hmax⟩
  obtain ⟨hsound, hexists⟩ := calcRestorePlan_timestamp ls ht
  obtain ⟨p, hp⟩ := hexists (by
    by_cases hmin : f.minTXID = 1
    · exact ⟨f, hlisted, hc, hmin⟩
    · obtain ⟨g, hg, hgc, hgmin, -⟩ := hbefore 1 (by omega) (by omega)
      exact ⟨g, hg, hgc, hgmin⟩)
  obtain ⟨hchain, -, hclosed⟩ := hsound p hp
  have hreach : f.minTXID ≤ FileInfo.reach 0 p + 1 := by
    by_contra hlt
    obtain ⟨g, hg, hgc, hgmin, hgmax⟩ := hbefore (FileInfo.reach 0 p + 1) (by omega) (by omega)
    have := hclosed g ⟨hg, hgc⟩ (by omega)
    omega
  have hmax := hclosed f ⟨hlisted, hc⟩ hreach
  exact ⟨p, hp, hchain.exists_cover (by omega) hmax⟩

/-- After any run of uploads, compactions and snapshots, a restore to a time includes only
transactions created before it exactly when no stored file straddles that time. -/
theorem pointInTime_iff {as : List Action} {timestamp : Nat}
    (hG : Run.Along (step cfg) Timely State.empty as)
    (hrun : Run.run (step cfg) State.empty as = some s) (ht : timestamp ≠ 0) :
    (∀ p, calcRestorePlan s.files.client 0 timestamp = .ok p →
      ∀ f ∈ p, ∀ t, f.minTXID ≤ t → t ≤ f.maxTXID → s.created t < timestamp) ↔
    ¬ Straddled s timestamp := by
  have h : History s := Run.run_induction (fun h hG hs => h.step hG hs) History.empty hG hrun
  set ls := s.files.listings h.inv.levels.wf with hls
  constructor
  · -- a file that straddles the target is covered by the plan
    intro hprop hstraddled
    have habsurd : ∀ n ≤ snapshotLevel, ∀ f ∈ s.files n, f.createdAt < timestamp →
        timestamp ≤ s.created f.maxTXID →
        (f.minTXID = 1 ∨ n < snapshotLevel ∧ s.created f.minTXID < timestamp) → False := by
      intro n hn f hf hc hlast hfirst
      obtain ⟨p, hp, g, hg, hmin, hmax⟩ := h.covered ht hn hf hc hfirst
      have := hprop p hp g hg f.maxTXID hmin hmax
      omega
    rcases hstraddled with ⟨n, hn, -, f, hf, hfirst, hlast⟩ | ⟨f, hf, hc, hlast⟩
    · exact habsurd n (Nat.le_of_lt hn) f hf (h.createdAt n hn f hf ▸ hfirst) hlast
        (Or.inr ⟨hn, hfirst⟩)
    · exact habsurd snapshotLevel (Nat.le_refl _) f hf hc hlast
        (Or.inl (h.inv.levels.wf.snapshot_min f hf))
  · intro hno p hp f hf t hmin hmax
    obtain ⟨-, hmem, -⟩ := (calcRestorePlan_timestamp ls ht).1 p hp
    obtain ⟨⟨n, hn, hfn⟩, hc⟩ := hmem f hf
    -- it is enough to bound the time of the last transaction of the file
    have hlast : s.created f.maxTXID < timestamp := by
      by_contra hge
      by_cases hsnap : n = snapshotLevel
      · subst hsnap
        exact hno (Or.inr ⟨f, hfn, hc, by omega⟩)
      · have hn' : n < snapshotLevel := by omega
        have hfirst := h.createdAt n hn' f hfn
        by_cases h0 : n = 0
        · subst h0
          have := h.single f hfn
          rw [this] at hfirst
          omega
        · exact hno (Or.inl ⟨n, hn', by omega, f, hfn, by omega, by omega⟩)
    have hdb : f.maxTXID ≤ s.dbPos := by
      have hle : f.maxTXID ≤ FileInfo.top (s.files n) := FileInfo.le_top hfn
      by_cases hsnap : n = snapshotLevel
      · subst hsnap
        rw [h.inv.top_snapshot] at hle
        exact Nat.le_trans hle h.inv.snapshotted_le
      · exact Nat.le_trans (h.maxTXID_le (by omega) hfn) h.inv.uploaded_le
    exact Nat.lt_of_le_of_lt (h.created_mono t f.maxTXID hmax hdb) hlast

/-- A merge that carries the earliest time of its sources. -/
def earliest : List FileInfo → Option (Nat × Nat)
  | [] => none
  | f :: fs => some (10, fs.foldl (fun t g => min t g.createdAt) f.createdAt)

theorem earliest_spec {infos : List FileInfo} {size timestamp : Nat}
    (h : earliest infos = some (size, timestamp)) :
    (∃ f ∈ infos, timestamp = f.createdAt) ∧ ∀ f ∈ infos, timestamp ≤ f.createdAt := by
  have hfold : ∀ (fs : List FileInfo) (t : Nat),
      let m := fs.foldl (fun t g => min t g.createdAt) t
      (m = t ∨ ∃ g ∈ fs, m = g.createdAt) ∧ m ≤ t ∧ ∀ g ∈ fs, m ≤ g.createdAt := by
    intro fs
    induction fs with
    | nil => intro t; simp
    | cons g fs ih =>
        intro t
        obtain ⟨hmem, hle, hall⟩ := ih (min t g.createdAt)
        simp only [List.foldl_cons]
        refine ⟨?_, Nat.le_trans hle (Nat.min_le_left _ _), fun f hf => ?_⟩
        · rcases hmem with hmem | ⟨f, hf, hmem⟩
          · rcases Nat.le_total t g.createdAt with hle' | hle'
            · exact Or.inl (hmem.trans (Nat.min_eq_left hle'))
            · exact Or.inr ⟨g, by simp, hmem.trans (Nat.min_eq_right hle')⟩
          · exact Or.inr ⟨f, by simp [hf], hmem⟩
        · rcases List.mem_cons.mp hf with rfl | hf
          · exact Nat.le_trans hle (Nat.min_le_right _ _)
          · exact hall f hf
  cases infos with
  | nil => cases h
  | cons f fs =>
      obtain ⟨-, rfl⟩ : 10 = size ∧ _ = timestamp := by simpa [earliest] using h
      obtain ⟨hmem, hle, hall⟩ := hfold fs f.createdAt
      refine ⟨?_, fun g hg => ?_⟩
      · rcases hmem with hmem | ⟨g, hg, hmem⟩
        · exact ⟨f, by simp, hmem⟩
        · exact ⟨g, by simp [hg], hmem⟩
      · rcases List.mem_cons.mp hg with rfl | hg
        · exact hle
        · exact hall g hg

/-- Transactions at times 10 and 20, compacted together. -/
def straddlingActions : List Action :=
  [.sync 10, .upload 10, .sync 20, .upload 10, .compact 1 earliest]

theorem straddlingActions_timely :
    Run.Along (step twoLevels) Timely State.empty straddlingActions := by
  refine (Run.along_cons_of_some rfl).mpr ⟨Nat.zero_le _, ?_⟩
  refine (Run.along_cons_of_some rfl).mpr ⟨trivial, ?_⟩
  refine (Run.along_cons_of_some rfl).mpr ⟨Nat.le_of_ble_eq_true rfl, ?_⟩
  refine (Run.along_cons_of_some rfl).mpr ⟨trivial, ?_⟩
  exact (Run.along_cons_of_some rfl).mpr ⟨fun _ _ _ h => earliest_spec h, trivial⟩

theorem pointInTime_iff_sample :
    ∃ s, Run.run (step twoLevels) State.empty straddlingActions = some s ∧
      ∀ p, calcRestorePlan s.files.client 0 25 = .ok p →
        ∀ f ∈ p, ∀ t, f.minTXID ≤ t → t ≤ f.maxTXID → s.created t < 25 := by
  obtain ⟨s, hrun, hno⟩ : ∃ s,
      Run.run (step twoLevels) State.empty straddlingActions = some s ∧
        ¬ Straddled s 25 := ⟨_, rfl, by decide⟩
  exact ⟨s, hrun, (pointInTime_iff straddlingActions_timely hrun (by decide)).mpr hno⟩

/-- A restore to time 15 includes the transaction of time 20, because a compacted file
holds both. -/
theorem pointInTime_lost : ¬ ∀ (cfg : Config) (as : List Action) (s : State) (timestamp : Nat),
    Run.Along (step cfg) Timely State.empty as →
      Run.run (step cfg) State.empty as = some s → timestamp ≠ 0 →
        ∀ p, calcRestorePlan s.files.client 0 timestamp = .ok p →
          ∀ f ∈ p, ∀ t, f.minTXID ≤ t → t ≤ f.maxTXID → s.created t < timestamp := by
  intro h
  obtain ⟨s, hrun, hp, hcreated⟩ : ∃ s,
      Run.run (step twoLevels) State.empty straddlingActions = some s ∧
        calcRestorePlan s.files.client 0 15 = .ok [⟨1, 1, 2, 10, 10⟩] ∧ s.created 2 = 20 :=
    ⟨_, rfl, by decide, by decide⟩
  have := h _ _ s 15 straddlingActions_timely hrun (by decide) _ hp _
    (List.mem_singleton_self _) 2 (by decide) (by decide)
  omega

end Maintenance

end Litestream
