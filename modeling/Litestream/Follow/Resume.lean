import Litestream.Compaction.Restorability
import Litestream.Follow.Progress

/-!
# Resuming a follower

A follower that is started again compares the TXID in its sidecar file with the newest
snapshot (`validateResume`).  Whether the follower can go on depends on the files at levels
`0` to `8` instead.

`Reachable` is every history of a replica under maintenance and of a follower that was
restored from it and polls it.  In each of them the newest snapshot, level 1 and level 0 lead
to the last upload (`Restorable.tail`), so a follower past the newest snapshot could always
go on, and it is always refused.  `resumesRight_iff` says when the check is right.
-/

namespace Litestream

inductive ResumeError where
  /-- The database exists, but it has no TXID. -/
  | noTXIDFile
  | listSnapshots (err : ClientError)
  | iterateSnapshots (err : ClientError)
  /-- The saved TXID is behind the earliest snapshot. -/
  | behindSnapshot (txID minTXID : Nat)
  /-- The saved TXID is ahead of the latest snapshot. -/
  | aheadOfSnapshot (txID maxTXID : Nat)
deriving DecidableEq, Repr

/-- The checks of `Replica.Restore` before it resumes follow mode at the TXID of the sidecar
file, zero if there is none. -/
def validateResume (client : ReplicaClient) (txID : Nat) : Except ResumeError Unit :=
  if txID = 0 then .error .noTXIDFile
  else
    match client.ltxFiles snapshotLevel 0 false with
    | .error err => .error (.listSnapshots err)
    | .ok itr =>
        match itr.err, itr.items.getLast? with
        | some err, _ => .error (.iterateSnapshots err)
        | none, none => .ok ()
        | none, some latestSnapshot =>
            if txID < latestSnapshot.minTXID then
              .error (.behindSnapshot txID latestSnapshot.minTXID)
            else if latestSnapshot.maxTXID < txID then
              .error (.aheadOfSnapshot txID latestSnapshot.maxTXID)
            else .ok ()

namespace Maintenance

/-! ## Histories of a replica and a follower -/

/-- A replica under maintenance, and the TXID that a follower of it has recorded, if there
is one. -/
inductive Reachable (cfg : Config) : State → Option Nat → Prop
  | empty : Reachable cfg .empty none
  | maintain {s s' : State} {t : Option Nat} {a : Action} (h : Reachable cfg s t)
      (hs : step cfg s a = some s') : Reachable cfg s' t
  | restore {s : State} {infos : List FileInfo} (h : Reachable cfg s none)
      (hplan : calcRestorePlan s.files.client 0 0 = .ok infos) :
      Reachable cfg s (some (FileInfo.sliceMaxTXID infos))
  | poll {s : State} {t t' pageSize : Nat} {poll : Poll pageSize}
      {f f' : Bytes} (h : Reachable cfg s (some t)) (hover : poll.Over s.files)
      (hpoll : poll.applyNewLTXFiles t f = (.ok t', f')) : Reachable cfg s (some t')

variable {cfg : Config} {s s' : State} {a : Action} {t : Nat}

/-- Uploads are made at growing positions. -/
theorem step_uploaded_le (h : s.Inv) (hs : step cfg s a = some s') : s.uploaded ≤ s'.uploaded := by
  obtain ⟨hinv, heffect⟩ := step_effect h hs
  rw [← h.top_zero, ← hinv.top_zero]
  cases heffect with
  | same hsame => rw [hsame 0 (by decide)]
  | uploaded hfiles =>
      rw [hfiles]
      have hmin : FileInfo.top (s.files 0) < s.uploaded + 1 := by
        rw [h.top_zero]
        exact Nat.lt_succ_self _
      rw [h.levels.top_writeLTXFile (n := 0) rfl hmin (Nat.le_refl _)]
      exact Nat.le_of_lt hmin
  | compacted hpos hlt hne hmerge hfiles =>
      rw [hfiles, Files.writeLTXFile_other (by simp only [Litestream.compacted]; omega)]
  | prunedZero hdel hsplit htop hother => exact htop.ge
  | prunedByTXID hpos hlt hdel hsplit htop hother => rw [hother 0 (by omega)]

/-- No file below the snapshots ends past the highest TXID. -/
theorem State.Inv.below_le (h : s.Inv) :
    ∀ level < snapshotLevel, ∀ f ∈ s.files level, f.maxTXID ≤ s.highest := fun level hl _ hf =>
  h.listed_le ⟨level, Nat.le_of_lt hl, hf⟩

theorem Reachable.restorable {t : Option Nat} (h : Reachable cfg s t) : Restorable s := by
  induction h with
  | empty => exact Restorable.empty
  | maintain _ hs ih => exact ih.step hs
  | restore _ _ ih => exact ih
  | poll _ _ _ ih => exact ih

/-- The TXID of a follower is one of the replica. -/
theorem Reachable.bounds {o : Option Nat} (h : Reachable cfg s o) :
    ∀ t, o = some t → 1 ≤ t ∧ t ≤ s.highest := by
  induction h with
  | empty =>
      rintro t ⟨⟩
  | maintain h hs ih =>
      intro t ht
      have hinv := h.restorable.inv
      have hup := step_uploaded_le hinv hs
      have hsnap := step_snapshotted_le hinv hs
      obtain ⟨hpos, hle⟩ := ih t ht
      refine ⟨hpos, hle.trans ?_⟩
      simp only [State.highest]
      omega
  | @restore s infos h hplan ih =>
      rintro t ⟨⟩
      have hinv := h.restorable.inv
      rw [← Files.listings_client s.files hinv.levels.wf] at hplan
      obtain ⟨⟨f, rest, rfl, -⟩, -, hlisted, -⟩ := (calcRestorePlan_latest _).1 infos hplan
      have hmem := List.getLast_mem (List.cons_ne_nil f rest)
      rw [FileInfo.sliceMaxTXID, List.getLast?_eq_some_getLast (List.cons_ne_nil f rest)]
      have hvalid := (hlisted _ hmem).valid
      exact ⟨hvalid.one_le.trans hvalid.min_le_max, hinv.listed_le (hlisted _ hmem)⟩
  | poll h hover hpoll ih =>
      rintro t ⟨⟩
      obtain ⟨hpos, hle⟩ := ih _ rfl
      have hreached := Poll.applyNewLTXFiles_ok hpoll
      refine ⟨hpos.trans (hreached.reach ▸ hreached.chain.le_reach), ?_⟩
      exact Poll.applyNewLTXFiles_le hover h.restorable.inv.below_le hle hpoll

/-! ## Whether the check is right -/

/-- A linked list of files at levels `0` to `8` leads from one TXID to another. -/
def Leads (files : Files) (t u : Nat) : Prop :=
  ∃ infos, (∀ f ∈ infos, ∃ level < snapshotLevel, f ∈ files level) ∧ FileInfo.Linked t infos ∧
    FileInfo.reach t infos = u

/-- Files that lead from a TXID to the last upload were deleted. -/
def Pruned (s : State) (t : Nat) : Prop := t < s.uploaded ∧ ¬ Leads s.files t s.uploaded

/-- The follower resumes when files lead on from its TXID to the last upload or its TXID is the
newest one, and not when they were deleted. -/
def ResumesRight (s : State) (t : Nat) : Prop :=
  (t < s.uploaded ∧ Leads s.files t s.uploaded ∨ t = s.highest →
    validateResume s.files.client t = .ok ()) ∧
  (Pruned s t → ∃ e, validateResume s.files.client t = .error e)

/-- A follower past the newest snapshot can go on. -/
theorem Restorable.leads (h : Restorable s) (hsnap : s.snapshotted ≤ t) (ht : t < s.uploaded) :
    Leads s.files t s.uploaded := by
  obtain ⟨infos, hlisted, hlinked, hup⟩ := h.tail
  refine ⟨infos, hlisted, hlinked.mono hsnap, Nat.le_antisymm ?_ ?_⟩
  · by_cases hnil : infos = []
    · rw [hnil]
      exact ht.le
    · rw [show FileInfo.reach t infos = _ from Cover.reach_eq_getLast _ hnil]
      obtain ⟨level, hlevel, hf⟩ := hlisted _ (List.getLast_mem hnil)
      exact (FileInfo.le_top hf).trans (h.inv.top_le hlevel)
  · exact hup.trans (Cover.reach_mono hsnap infos)

/-- The check compares the TXID with the end of the newest snapshot. -/
theorem State.Inv.validateResume_eq (h : s.Inv) (ht : 1 ≤ t) :
    validateResume s.files.client t =
      if s.snapshotted ≠ 0 ∧ s.snapshotted < t then .error (.aheadOfSnapshot t s.snapshotted)
      else .ok () := by
  have hall : ((s.files snapshotLevel).filter fun f => 0 ≤ f.minTXID) = s.files snapshotLevel := by
    simp
  unfold validateResume Files.client
  rw [if_neg (by omega)]
  simp only [hall]
  rcases List.eq_nil_or_concat (s.files snapshotLevel) with hnil | ⟨rest, last, hconcat⟩
  · have h0 : s.snapshotted = 0 := by
      rw [← h.top_snapshot, hnil]
      rfl
    rw [hnil, if_neg fun hc => hc.1 h0]
    rfl
  · rw [List.concat_eq_append] at hconcat
    have hlast : last ∈ s.files snapshotLevel := by
      rw [hconcat]
      exact List.mem_append_right _ List.mem_cons_self
    have hmin := h.levels.wf.snapshot_min last hlast
    have hvalid := h.levels.wf.valid _ last hlast
    -- snapshots all start at TXID 1, so the last one listed ends last
    have hmax : last.maxTXID = s.snapshotted := by
      rw [← h.top_snapshot]
      refine Nat.le_antisymm (FileInfo.le_top hlast) (Cover.top_le_iff.mpr fun f hf => ?_)
      have hsorted := h.levels.wf.sorted snapshotLevel
      rw [hconcat] at hf hsorted
      rcases List.mem_append.mp hf with hf' | hf'
      · have hlt := (List.pairwise_append.mp hsorted).2.2 f hf' last List.mem_cons_self
        have hfmin := h.levels.wf.snapshot_min f (hconcat ▸ hf)
        simp only [FileInfo.KeyLT] at hlt
        omega
      · rw [List.mem_singleton.mp hf']
    rw [hconcat, List.getLast?_append, List.getLast?_singleton]
    simp only [Option.some_or]
    rw [if_neg (by omega), hmax]
    have hne : s.snapshotted ≠ 0 := by
      rw [← hmax]
      have := hvalid.one_le.trans hvalid.min_le_max
      omega
    simp only [hne, ne_eq, not_false_eq_true, true_and]

/-- Whether the follower is past every snapshot, if there is one. -/
theorem State.Inv.past_iff (h : s.Inv) :
    s.snapshotted ≠ 0 ∧ s.snapshotted < t ↔
      s.files snapshotLevel ≠ [] ∧ ∀ f ∈ s.files snapshotLevel, f.maxTXID < t := by
  have hall : (∀ f ∈ s.files snapshotLevel, f.maxTXID < t) ↔
      s.files snapshotLevel = [] ∨ s.snapshotted < t := by
    rw [← h.top_snapshot]
    constructor
    · intro hlt
      by_cases hnil : s.files snapshotLevel = []
      · exact Or.inl hnil
      · obtain ⟨f, hf⟩ := List.exists_mem_of_ne_nil _ hnil
        have hpos := Nat.zero_lt_of_lt (hlt f hf)
        exact Or.inr (Nat.lt_of_le_pred hpos (Cover.top_le_iff.mpr fun f hf =>
          Nat.le_pred_of_lt (hlt f hf)))
    · rintro (hnil | hlt) f hf
      · rw [hnil] at hf
        exact (List.not_mem_nil hf).elim
      · exact (FileInfo.le_top hf).trans_lt hlt
  have hne : s.snapshotted ≠ 0 ↔ s.files snapshotLevel ≠ [] := by
    rw [← h.top_snapshot]
    refine not_congr ⟨fun h0 => ?_, fun hnil => by rw [hnil]; rfl⟩
    by_contra hnil
    obtain ⟨f, hf⟩ := List.exists_mem_of_ne_nil _ hnil
    have hvalid := h.levels.wf.valid _ f hf
    have hle := FileInfo.le_top hf
    have := hvalid.one_le.trans hvalid.min_le_max
    omega
  rw [hall, hne]
  exact and_congr_right fun hnil => (or_iff_right hnil).symm

/-- The check is right if and only if no snapshot is listed or one goes up to the TXID of the
follower, and the files that lead on from it were not deleted. -/
theorem resumesRight_iff (cfg : Config) (h : Reachable cfg s (some t)) :
    ResumesRight s t ↔
      (s.files snapshotLevel = [] ∨ ∃ f ∈ s.files snapshotLevel, t ≤ f.maxTXID) ∧
        ¬ Pruned s t := by
  have hres := h.restorable
  obtain ⟨hpos, hle⟩ := h.bounds t rfl
  have hcond : (s.files snapshotLevel = [] ∨ ∃ f ∈ s.files snapshotLevel, t ≤ f.maxTXID) ↔
      ¬ (s.snapshotted ≠ 0 ∧ s.snapshotted < t) := by
    rw [hres.inv.past_iff, not_and_or, not_not]
    simp only [not_forall, not_lt, exists_prop]
  rw [hcond, ResumesRight, hres.inv.validateResume_eq hpos]
  by_cases hpast : s.snapshotted ≠ 0 ∧ s.snapshotted < t
  · -- the follower is refused, although it could go on
    rw [if_pos hpast]
    refine iff_of_false (fun hright => ?_) fun hc => hc.1 hpast
    have hgo : t < s.uploaded ∧ Leads s.files t s.uploaded ∨ t = s.highest := by
      rcases Nat.lt_or_ge t s.uploaded with hlt | hge
      · exact Or.inl ⟨hlt, hres.leads hpast.2.le hlt⟩
      · refine Or.inr (Nat.le_antisymm hle ?_)
        exact Nat.max_le.mpr ⟨hge, hpast.2.le⟩
    cases hright.1 hgo
  · rw [if_neg hpast]
    constructor
    · intro hright
      refine ⟨hpast, fun hpruned => ?_⟩
      obtain ⟨e, he⟩ := hright.2 hpruned
      cases he
    · rintro ⟨-, hpruned⟩
      exact ⟨fun _ => rfl, fun h => absurd h hpruned⟩

/-- One transaction that is snapshotted, and a second one. -/
def twoTransactions : List Action := [.sync 1, .upload 10, .snapshot 10 2, .sync 3, .upload 10]

/-- The state after them. -/
def afterTwo : State := (Run.run (step twoLevels) .empty twoTransactions).getD .empty

theorem Reachable.run {o : Option Nat} {as : List Action} (h : Reachable cfg s o)
    (hrun : Run.run (step cfg) s as = some s') : Reachable cfg s' o := by
  have hstep : ∀ {r : State} {b : Action} {r' : State}, Reachable cfg r o →
      step cfg r b = some r' → Reachable cfg r' o := fun h hs => .maintain h hs
  exact Run.run_invariant hstep h hrun

/-- A follower that was restored at the newest snapshot resumes. -/
theorem resumesRight_iff_sample : ∃ s, Reachable twoLevels s (some 1) ∧ ResumesRight s 1 := by
  have hrun : Run.run (step twoLevels) .empty (twoTransactions.take 3) =
      some ((Run.run (step twoLevels) .empty (twoTransactions.take 3)).getD .empty) := rfl
  have hplan : calcRestorePlan ((Run.run (step twoLevels) .empty
      (twoTransactions.take 3)).getD .empty).files.client 0 0 =
        .ok [⟨snapshotLevel, 1, 1, 10, 2⟩] := by decide
  have hreach := (Reachable.empty.run hrun).restore hplan
  refine ⟨_, hreach, (resumesRight_iff twoLevels hreach).mpr ⟨Or.inr ?_, ?_⟩⟩
  · exact ⟨⟨snapshotLevel, 1, 1, 10, 2⟩, by decide, by decide⟩
  · exact fun h => absurd h.1 (by decide)

/-- A follower at the newest transaction, past the newest snapshot, is refused. -/
theorem resume_refused : ∃ s t, Reachable twoLevels s (some t) ∧ t = s.highest ∧
    validateResume s.files.client t = .error (.aheadOfSnapshot 2 1) := by
  have hrun : Run.run (step twoLevels) .empty twoTransactions = some afterTwo := rfl
  have hplan : calcRestorePlan afterTwo.files.client 0 0 =
      .ok [⟨snapshotLevel, 1, 1, 10, 2⟩, ⟨0, 2, 2, 10, 3⟩] := by decide
  have hreach := (Reachable.empty.run hrun).restore hplan
  exact ⟨afterTwo, 2, hreach, by decide, by decide⟩

end Maintenance

end Litestream
