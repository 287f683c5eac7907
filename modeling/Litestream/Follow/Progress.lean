import Litestream.Follow.Effect

/-!
# Progress of the follower

The follower stalls at a TXID only when no listed file covers the next one.  `fillLevel`
stops at a file that starts too late, and then every later file of the sorted level does
(`fillLevel_stuck`).  So no level is left while it could continue
(`fillLevels_stuck`), and a poll moves on whenever some chain of listed files does
(`applyNewLTXFiles_progress`).
-/

namespace Litestream

namespace Poll

variable {pageSize : Nat}

/-- The client lists what the levels have.  A listing may fail part way. -/
structure Over (poll : Poll pageSize) (files : Nat → List FileInfo) : Prop where
  items : ∀ txID level seek itr, level < snapshotLevel →
    (poll.client txID).ltxFiles level seek false = .ok itr →
    itr.items <+: (files level).filter fun f => seek ≤ f.minTXID
  complete : ∀ txID level seek itr, level < snapshotLevel →
    (poll.client txID).ltxFiles level seek false = .ok itr → itr.err = none →
    itr.items = (files level).filter fun f => seek ≤ f.minTXID

section Loops

variable {poll : Poll pageSize} {σ : Type*} {apply : FileInfo → σ → Option ApplyError × σ}
  {s s' : σ} {levels : Nat → Listing}

/-- The file starts in time and goes past a TXID. -/
def Continues (txID : Nat) (info : FileInfo) : Prop :=
  info.minTXID ≤ nextTXID txID ∧ txID < info.maxTXID

theorem closeLevel_eq_ok {α : Type*} {level : Nat} {closeErr : Option ClientError}
    {r : Except FollowError α} {a : α} (h : closeLevel level closeErr r = .ok a) : r = .ok a := by
  cases r with
  | ok b =>
      cases closeErr with
      | none => exact h
      | some err => cases h
  | error e => cases closeErr <;> cases h

theorem closeThen_eq_ok {α : Type*} {level : Nat} {closeErr : Option ClientError}
    {next : σ → Except FollowError α × σ} {a : α}
    (h : closeThen level closeErr next s = (.ok a, s')) : next s = (.ok a, s') := by
  cases closeErr with
  | none => exact h
  | some err => cases h

/-- A level is left at the same position only when its files up to there are covered. -/
theorem fillLevel_stuck {gapMinTXID : Nat} {infos : List FileInfo} {currentTXID : Nat}
    {levelEnd : LevelEnd}
    (h : fillLevel apply gapMinTXID infos currentTXID s = (.ok (levelEnd, currentTXID), s')) :
    (levelEnd = .exhausted ∧ ∀ info ∈ infos, info.maxTXID ≤ currentTXID) ∨
      levelEnd = .gap ∧ ∃ pre info post, infos = pre ++ info :: post ∧
        (∀ i ∈ pre, i.maxTXID ≤ currentTXID) ∧ nextTXID currentTXID < info.minTXID := by
  induction infos generalizing s with
  | nil =>
      cases h
      exact Or.inl ⟨rfl, fun _ hi => (List.not_mem_nil hi).elim⟩
  | cons info infos ih =>
      unfold fillLevel at h
      split at h
      · next hgap =>
          cases h
          exact Or.inr ⟨rfl, [], info, infos, rfl, fun _ hi => (List.not_mem_nil hi).elim, hgap⟩
      split at h
      · next hcovered =>
          rcases ih h with ⟨hend, hall⟩ | ⟨hend, pre, i, post, rfl, hpre, hgap⟩
          · exact Or.inl ⟨hend, List.forall_mem_cons.mpr ⟨hcovered, hall⟩⟩
          · exact Or.inr ⟨hend, info :: pre, i, post, rfl,
              List.forall_mem_cons.mpr ⟨hcovered, hpre⟩, hgap⟩
      next hcovered =>
        unfold applyThen at h
        split at h
        · cases h
        split at h
        · have := congrArg (fun r => r.1) h
          cases this
          exact absurd le_rfl hcovered
        · exact absurd (fillLevel_le h) (by omega)

/-- A sorted level where the loop stopped without progress has no file that continues. -/
theorem not_continues {levelEnd : LevelEnd} {items files : List FileInfo} {currentTXID : Nat}
    (hsorted : files.Pairwise FileInfo.KeyLE) (hitems : items <+: files)
    (hcomplete : levelEnd = .exhausted → items = files)
    (hstuck : (levelEnd = .exhausted ∧ ∀ info ∈ items, info.maxTXID ≤ currentTXID) ∨
      levelEnd = .gap ∧ ∃ pre info post, items = pre ++ info :: post ∧
        (∀ i ∈ pre, i.maxTXID ≤ currentTXID) ∧ nextTXID currentTXID < info.minTXID) :
    ∀ g ∈ files, ¬ Continues currentTXID g := by
  rintro g hg ⟨hmin, hmax⟩
  rcases hstuck with ⟨hend, hall⟩ | ⟨-, pre, info, post, rfl, hpre, hgap⟩
  · rw [hcomplete hend] at hall
    exact absurd (hall g hg) (Nat.not_le.mpr hmax)
  · obtain ⟨rest, rfl⟩ := hitems
    rw [List.append_assoc, List.cons_append, List.pairwise_append, List.pairwise_cons] at hsorted
    rw [List.append_assoc, List.cons_append, List.mem_append, List.mem_cons] at hg
    rcases hg with hg | rfl | hg
    · exact absurd (hpre g hg) (Nat.not_le.mpr hmax)
    · exact absurd hmin (Nat.not_le.mpr hgap)
    · exact absurd hmin (Nat.not_le.mpr (hgap.trans_le (hsorted.2.1.1 g hg).min_le))

/-- No level is left while it has a file that continues. -/
theorem fillLevels_stuck (hover : poll.Over fun n => (levels n).files) {afterTXID gapMinTXID : Nat}
    {numbers : List Nat} (hnumbers : ∀ level ∈ numbers, level < snapshotLevel)
    (h : fillLevels poll apply afterTXID gapMinTXID numbers s = (.ok afterTXID, s')) :
    ∀ level ∈ numbers, ∀ g ∈ (levels level).files, ¬ Continues afterTXID g := by
  induction numbers generalizing s with
  | nil => exact fun level hl => (List.not_mem_nil hl).elim
  | cons level numbers ih =>
      unfold fillLevels at h
      cases hlist : (poll.client afterTXID).ltxFiles level 0 false with
      | error err =>
          rw [hlist] at h
          cases h
      | ok itr =>
      have hlt := hnumbers level List.mem_cons_self
      have htake := hover.items _ _ _ _ hlt hlist
      have hfull := hover.complete _ _ _ _ hlt hlist
      rw [show ((levels level).files.filter fun f => 0 ≤ f.minTXID) = (levels level).files by
        simp] at htake hfull
      rw [hlist] at h
      simp only at h
      rcases hloop : fillLevel apply gapMinTXID itr.items afterTXID s with
        ⟨e | ⟨levelEnd, cur⟩, s₁⟩
      · rw [hloop] at h
        cases closeLevel_eq_ok (Prod.mk.inj h).1
      have hle := fillLevel_le hloop
      -- the level was left at the same position
      have hleft : (levelEnd = .exhausted → itr.err = none) → levelEnd ≠ .bridged →
          (if afterTXID < cur then (.ok cur, s₁)
            else fillLevels poll apply afterTXID gapMinTXID numbers s₁) =
            ((.ok afterTXID, s') : Except FollowError Nat × σ) →
          ∀ n ∈ level :: numbers, ∀ g ∈ (levels n).files, ¬ Continues afterTXID g := by
        intro herr _ hnext
        split at hnext
        · next hprogress =>
            cases (Prod.mk.inj hnext).1
            exact absurd hprogress (Nat.lt_irrefl _)
        · obtain rfl : afterTXID = cur := by omega
          have hhere := not_continues (levels level).sorted htake
            (fun hend => hfull (herr hend)) (fillLevel_stuck hloop)
          exact List.forall_mem_cons.mpr
            ⟨hhere, ih (fun n hn => hnumbers n (List.mem_cons_of_mem level hn)) hnext⟩
      rw [hloop] at h
      cases levelEnd with
      | bridged =>
          cases closeLevel_eq_ok (Prod.mk.inj h).1
          rcases fillLevel_stuck hloop with ⟨hend, -⟩ | ⟨hend, -⟩ <;> cases hend
      | gap => exact hleft (fun hend => by cases hend) (fun hend => by cases hend) (closeThen_eq_ok h)
      | exhausted =>
          cases herr : itr.err with
          | none =>
              rw [herr] at h
              exact hleft (fun _ => herr) (fun hend => by cases hend) (closeThen_eq_ok h)
          | some err =>
              rw [herr] at h
              cases closeLevel_eq_ok (Prod.mk.inj h).1

/-- The loops never go back. -/
theorem level0_le {infos : List FileInfo} {levelEnd : LevelEnd} {currentTXID cur : Nat}
    (hlisted : ∀ info ∈ infos, poll.Listed info)
    (h : level0 poll apply infos currentTXID s = (.ok (levelEnd, cur), s')) :
    currentTXID ≤ cur := by
  have hsame : ∀ cur (s t : σ), s = t ∧ currentTXID ≤ cur → s = t := fun _ _ _ h => h.1
  have hstart : s = s ∧ currentTXID ≤ currentTXID := ⟨rfl, le_rfl⟩
  have hrel := level0_related hsame (keeps_self apply _) hlisted hstart
  rw [h] at hrel
  exact hrel.2.2

theorem level0Apply_lt {info : FileInfo} {infos : List FileInfo} {levelEnd : LevelEnd}
    {txID currentTXID cur : Nat} (hlisted : ∀ info ∈ infos, poll.Listed info)
    (hmax : txID < info.maxTXID)
    (h : level0Apply apply info (level0 poll apply infos) currentTXID s =
      (.ok (levelEnd, cur), s')) : txID < cur := by
  unfold level0Apply at h
  split at h
  · next hcovered => exact hmax.trans_le (hcovered.trans (level0_le hlisted h))
  · unfold applyThen at h
    split at h
    · cases h
    · exact hmax.trans_le (level0_le hlisted h)

/-- Level 0 is left at the same position only when there is a gap, and no other level has a
file that continues. -/
theorem level0_stuck (hover : poll.Over fun n => (levels n).files) {infos : List FileInfo} {levelEnd : LevelEnd}
    {currentTXID : Nat} (hlisted : ∀ info ∈ infos, poll.Listed info)
    (hvalid : ∀ info ∈ infos, info.minTXID ≤ info.maxTXID)
    (hseek : ∀ info ∈ infos, currentTXID < info.minTXID)
    (h : level0 poll apply infos currentTXID s = (.ok (levelEnd, currentTXID), s')) :
    infos = [] ∨ (∃ info rest, infos = info :: rest ∧ nextTXID currentTXID < info.minTXID) ∧
      ∀ level ∈ fillLevelNumbers, ∀ g ∈ (levels level).files, ¬ Continues currentTXID g := by
  cases infos with
  | nil => exact Or.inl rfl
  | cons info infos =>
      have hmax : currentTXID < info.maxTXID :=
        (hseek info List.mem_cons_self).trans_le (hvalid info List.mem_cons_self)
      have hlisted' : ∀ i ∈ infos, poll.Listed i :=
        fun i hi => hlisted i (List.mem_cons_of_mem info hi)
      unfold level0 at h
      split at h
      · next hgap =>
          rcases hfill : fillFollowGap poll apply currentTXID info.minTXID s with ⟨e | cur, s₁⟩
          · rw [hfill] at h
            cases h
          rw [hfill] at h
          simp only at h
          split at h
          · cases (Prod.mk.inj h).1
            exact Or.inr ⟨⟨info, infos, rfl, hgap⟩,
              fillLevels_stuck hover lt_of_mem_fillLevelNumbers hfill⟩
          · exact absurd (level0Apply_lt hlisted' hmax h) (Nat.lt_irrefl _)
      · exact absurd (level0Apply_lt hlisted' hmax h) (Nat.lt_irrefl _)

/-- A poll that succeeds without progress leaves no file that continues, at any level. -/
theorem applyNewLTXFilesTo_stuck (hover : poll.Over fun n => (levels n).files)
    (hsingle : ∀ f ∈ (levels 0).files, f.minTXID = f.maxTXID) {txID : Nat}
    (hnext : nextTXID txID = txID + 1)
    (h : applyNewLTXFilesTo poll apply txID s = (.ok txID, s')) :
    ∀ level < snapshotLevel, ∀ g ∈ (levels level).files, ¬ Continues txID g := by
  unfold applyNewLTXFilesTo at h
  cases hlist : (poll.client txID).ltxFiles 0 (nextTXID txID) false with
  | error err =>
      rw [hlist] at h
      cases h
  | ok itr =>
  have htake := hover.items _ _ _ _ (by decide) hlist
  have hlisted : ∀ info ∈ itr.items, poll.Listed info :=
    fun info hi => ⟨txID, 0, _, itr, by decide, hlist, hi⟩
  have hfile : ∀ info ∈ itr.items, info ∈ (levels 0).files ∧ txID < info.minTXID := by
    intro info hi
    obtain ⟨hmem, hseek⟩ := List.mem_filter.mp (htake.subset hi)
    rw [decide_eq_true_eq, hnext] at hseek
    exact ⟨hmem, hseek⟩
  -- a file of level 0 that continues is among those listed
  have hzero : ∀ g ∈ (levels 0).files, Continues txID g →
      g.minTXID = txID + 1 ∧ g ∈ (levels 0).files.filter fun f => nextTXID txID ≤ f.minTXID := by
    rintro g hg ⟨hmin, hmax⟩
    have := hsingle g hg
    rw [hnext] at hmin
    refine ⟨by omega, List.mem_filter.mpr ⟨hg, ?_⟩⟩
    rw [decide_eq_true_eq, hnext]
    omega
  -- level 0 ends at the same position
  have hleft : ∀ {levelEnd : LevelEnd} {s₁ : σ},
      level0 poll apply itr.items txID s = (.ok (levelEnd, txID), s₁) → itr.items ≠ [] →
      ∀ level < snapshotLevel, ∀ g ∈ (levels level).files, ¬ Continues txID g := by
    intro levelEnd s₁ hloop hne level hlevel g hg hcontinues
    rcases level0_stuck hover hlisted (fun info hi => ((levels 0).valid info
      (hfile info hi).1).min_le_max) (fun info hi => (hfile info hi).2) hloop with
      hnil | ⟨⟨info, rest, hitems, hgap⟩, hlevels⟩
    · exact hne hnil
    cases level with
    | succ level => exact hlevels _ (mem_fillLevelNumbers.mpr ⟨by omega, hlevel⟩) g hg hcontinues
    | zero =>
        obtain ⟨hmin, hmem⟩ := hzero g hg hcontinues
        obtain ⟨more, hmore⟩ := htake
        have hsorted : ((levels 0).files.filter fun f => nextTXID txID ≤ f.minTXID).Pairwise
            FileInfo.KeyLE := (levels 0).sorted.filter _
        rw [← hmore, hitems, List.cons_append, List.pairwise_cons] at hsorted
        rw [← hmore, hitems, List.cons_append, List.mem_cons] at hmem
        rw [hnext] at hgap
        rcases hmem with rfl | hmem
        · omega
        · have := (hsorted.1 g hmem).min_le
          omega
  rw [hlist] at h
  simp only at h
  rcases hloop : level0 poll apply itr.items txID s with ⟨e | ⟨levelEnd, cur⟩, s₁⟩
  · rw [hloop] at h
    cases closeLevel_eq_ok (Prod.mk.inj h).1
  rw [hloop] at h
  have hle := level0_le hlisted hloop
  have hclosed : ∀ {levelEnd : LevelEnd}, levelEnd ≠ .exhausted →
      level0 poll apply itr.items txID s = (.ok (levelEnd, cur), s₁) →
      (closeLevel 0 (poll.closeErr txID 0) (.ok cur), s₁) = ((.ok txID, s') :
        Except FollowError Nat × σ) →
      ∀ level < snapshotLevel, ∀ g ∈ (levels level).files, ¬ Continues txID g := by
    intro levelEnd hend hloop hclose
    cases closeLevel_eq_ok (Prod.mk.inj hclose).1
    refine hleft hloop fun hnil => ?_
    rw [hnil] at hloop
    cases hloop
    exact hend rfl
  cases levelEnd with
  | bridged => exact hclosed (fun hend => by cases hend) hloop h
  | gap => exact hclosed (fun hend => by cases hend) hloop h
  | exhausted =>
      cases herr : itr.err with
      | some err =>
          rw [herr] at h
          cases closeLevel_eq_ok (Prod.mk.inj h).1
      | none =>
          rw [herr] at h
          have h := closeThen_eq_ok h
          split at h
          · next hnil =>
              -- nothing was listed, so no file of level 0 continues
              rw [hnil] at hloop
              cases hloop
              intro level hlevel g hg hcontinues
              cases level with
              | succ level =>
                  exact fillLevels_stuck hover lt_of_mem_fillLevelNumbers h _
                    (mem_fillLevelNumbers.mpr ⟨by omega, hlevel⟩) g hg hcontinues
              | zero =>
                  have hmem := (hzero g hg hcontinues).2
                  rw [← hover.complete _ _ _ _ (by decide) hlist herr, hnil] at hmem
                  exact List.not_mem_nil hmem
          · next hne =>
              cases (Prod.mk.inj h).1
              exact hleft hloop hne

end Loops

/-- A poll that succeeds goes no further than the files that are listed. -/
theorem applyNewLTXFiles_le {poll : Poll pageSize} {files : Nat → List FileInfo}
    {txID newTXID m : Nat} {f f' : Bytes} (hover : poll.Over files)
    (hm : ∀ level < snapshotLevel, ∀ f ∈ files level, f.maxTXID ≤ m) (htm : txID ≤ m)
    (h : poll.applyNewLTXFiles txID f = (.ok newTXID, f')) : newTXID ≤ m := by
  have hreached := applyNewLTXFiles_ok h
  rw [← hreached.reach]
  by_cases hnil : poll.tried txID = []
  · rw [hnil]
    exact htm
  · rw [show FileInfo.reach txID (poll.tried txID) = _ from Cover.reach_eq_getLast _ hnil]
    obtain ⟨⟨_, level, seek, itr, hlevel, hlist, hi⟩, -⟩ :=
      hreached.applied _ (List.getLast_mem hnil)
    exact hm level hlevel _
      (List.mem_of_mem_filter ((hover.items _ _ _ _ hlevel hlist).subset hi))

/-! ## Polls in a row -/

/-- The position after polls that all succeed. -/
def pollAll : List (Poll pageSize) → Nat → Bytes → Except FollowError Nat × Bytes
  | [], txID, f => (.ok txID, f)
  | poll :: polls, txID, f =>
      match poll.applyNewLTXFiles txID f with
      | (.error e, f) => (.error e, f)
      | (.ok txID, f) => pollAll polls txID f

/-- Every poll that succeeds moves the follower on while a linked list of files leads from it
to the last TXID that is listed, and the polls end there. -/
theorem applyNewLTXFiles_progress {levels : Nat → Listing} {infos : List FileInfo} {t m : Nat}
    (hsingle : ∀ f ∈ (levels 0).files, f.minTXID = f.maxTXID) (htm : t < m)
    (hlisted : ∀ f ∈ infos, ∃ level < snapshotLevel, f ∈ (levels level).files)
    (hlinked : FileInfo.Linked t infos) (hreach : FileInfo.reach t infos = m)
    (hm : ∀ level < snapshotLevel, ∀ f ∈ (levels level).files, f.maxTXID ≤ m) :
    (∀ (poll : Poll pageSize) (txID newTXID : Nat) (f f' : Bytes), poll.Over (fun n => (levels n).files) →
      t ≤ txID → txID < m → poll.applyNewLTXFiles txID f = (.ok newTXID, f') →
      txID < newTXID ∧ newTXID ≤ m) ∧
    ∀ (polls : List (Poll pageSize)) (newTXID : Nat) (f f' : Bytes),
      (∀ poll ∈ polls, poll.Over fun n => (levels n).files) → m - t ≤ polls.length →
      pollAll polls t f = (.ok newTXID, f') → newTXID = m := by
  have hstep : ∀ (poll : Poll pageSize) (txID newTXID : Nat) (f f' : Bytes), poll.Over (fun n => (levels n).files) →
      t ≤ txID → txID ≤ m → poll.applyNewLTXFiles txID f = (.ok newTXID, f') →
      (txID < m → txID < newTXID) ∧ newTXID ≤ m := by
    intro poll txID newTXID f f' hover hle hlt hpoll
    have hreached := applyNewLTXFiles_ok hpoll
    have hle' : txID ≤ newTXID := hreached.reach ▸ hreached.chain.le_reach
    refine ⟨fun hlt => ?_, ?_⟩
    · by_contra hnot
      obtain rfl : newTXID = txID := by omega
      obtain ⟨g, hg, hmin, hmax⟩ := hlinked.exists_cover (n := newTXID + 1) (by omega)
        (by rw [show Cover.reach FileInfo.maxTXID t infos = m from hreach]; omega)
      obtain ⟨level, hlevel, hmem⟩ := hlisted g hg
      have hnext : nextTXID newTXID = newTXID + 1 :=
        nextTXID_eq (hmax.trans_lt ((levels level).valid g hmem).max_lt)
      refine applyNewLTXFilesTo_stuck hover hsingle hnext hpoll level hlevel g hmem ⟨?_, hmax⟩
      rw [hnext]
      exact hmin
    · exact applyNewLTXFiles_le hover hm hlt hpoll
  refine ⟨fun poll txID newTXID f f' hover hle hlt hpoll => ?_, ?_⟩
  · obtain ⟨hprogress, hmax⟩ := hstep poll txID newTXID f f' hover hle hlt.le hpoll
    exact ⟨hprogress hlt, hmax⟩
  · have hrun : ∀ (polls : List (Poll pageSize)) (txID newTXID : Nat) (f f' : Bytes),
        (∀ poll ∈ polls, poll.Over fun n => (levels n).files) → t ≤ txID → txID ≤ m → m - txID ≤ polls.length →
        pollAll polls txID f = (.ok newTXID, f') → newTXID = m := by
      intro polls
      induction polls with
      | nil =>
          intro txID newTXID f f' _ _ hle hlen h
          cases h
          rw [List.length_nil] at hlen
          omega
      | cons poll polls ih =>
          intro txID newTXID f f' hover hle hlt hlen h
          unfold pollAll at h
          rcases hpoll : poll.applyNewLTXFiles txID f with ⟨e | txID', f₁⟩
          · rw [hpoll] at h
            cases h
          rw [hpoll] at h
          obtain ⟨hprogress, hmax⟩ := hstep poll txID txID' f f₁
            (hover poll List.mem_cons_self) hle hlt hpoll
          have hge : txID ≤ txID' :=
            (applyNewLTXFiles_ok hpoll).reach ▸ (applyNewLTXFiles_ok hpoll).chain.le_reach
          rw [List.length_cons] at hlen
          refine ih txID' newTXID f₁ f' (fun p hp => hover p (List.mem_cons_of_mem poll hp))
            (hle.trans hge) hmax ?_ h
          rcases hlt.lt_or_eq with hlt | rfl
          · have := hprogress hlt
            omega
          · omega
    intro polls newTXID f f' hover hlen h
    exact hrun polls t newTXID f f' hover le_rfl htm.le hlen h

/-! ## A gap in level 0 -/

namespace Bridged

theorem valid_nil : ∀ f ∈ ([] : List FileInfo), f.Valid := fun _ hf => absurd hf List.not_mem_nil

/-- Level 0 has lost two transactions that level 1 has in one file. -/
def levels : Nat → Listing
  | 0 => ⟨[⟨0, 4, 4, 0, 0⟩], by decide, by decide⟩
  | 1 => ⟨[⟨1, 2, 3, 0, 0⟩], by decide, by decide⟩
  | _ => ⟨[], List.Pairwise.nil, valid_nil⟩

def poll : Poll 512 where
  client := fun _ => ⟨fun level seek _ =>
    .ok ⟨(levels level).files.filter fun f => seek ≤ f.minTXID, none⟩⟩
  closeErr := fun _ _ => none
  stream := fun _ => OnePage.stream none

theorem poll_over : poll.Over (fun n => (levels n).files) where
  items := by
    rintro txID level seek itr - ⟨⟩
    exact List.prefix_refl _
  complete := by
    rintro txID level seek itr - ⟨⟩ -
    rfl

theorem le_four (level : Nat) (f : FileInfo) (hf : f ∈ (levels level).files) : f.maxTXID ≤ 4 := by
  unfold levels at hf
  split at hf
  · rw [List.mem_singleton.mp hf]
  · rw [List.mem_singleton.mp hf]
    decide
  · exact (List.not_mem_nil hf).elim

end Bridged

theorem applyNewLTXFiles_progress_sample : ∃ (newTXID : Nat) (f : Bytes),
    Bridged.poll.applyNewLTXFiles 1 OnePage.database = (.ok newTXID, f) ∧
      1 < newTXID ∧ newTXID ≤ 4 := by
  have hpoll : (Bridged.poll.applyNewLTXFiles 1 OnePage.database).1 = .ok 4 := by
    decide +kernel
  have hlisted : ∀ f ∈ [(⟨1, 2, 3, 0, 0⟩ : FileInfo), ⟨0, 4, 4, 0, 0⟩],
      ∃ level < snapshotLevel, f ∈ (Bridged.levels level).files := by
    intro f hf
    rcases List.mem_pair.mp hf with rfl | rfl
    · exact ⟨1, by decide, by decide⟩
    · exact ⟨0, by decide, by decide⟩
  have hpoll : Bridged.poll.applyNewLTXFiles 1 OnePage.database =
      (.ok 4, (Bridged.poll.applyNewLTXFiles 1 OnePage.database).2) := Prod.ext hpoll (Eq.refl _)
  exact ⟨4, _, hpoll, (applyNewLTXFiles_progress (by decide) (by decide) hlisted
    ⟨by decide, by decide, trivial⟩ rfl (fun level _ f hf => Bridged.le_four level f hf)).1
    Bridged.poll 1 4 _ _ Bridged.poll_over le_rfl (by decide) hpoll⟩

end Poll

end Litestream
