import Litestream.Vfs.Open
import Litestream.Vfs.Replication

/-!
# Polls of a healthy replica

A file that opens a plan seeds the cursor of level 1 from its position when the plan has no
level 1 file.  The position need not be the end of a level 1 file.  A later compaction may
write a file that straddles the cursor.  A poll then skips this file, since it starts before
the cursor, and takes the next one for a gap.

`accepts_iff` says that in every run the polls are accepted, and reach the newest TXID, if
and only if at each poll the first level 1 file past the cursor starts right after it.
`not_aligned_run` says that a file that was rejected once is rejected for good.
-/

namespace Litestream

namespace Vfs

open Cover Run State

variable {ps : PageSize} {s s' : State ps} {a : Action ps} {as : List (Action ps)}
  {plan : List (LTXFile ps)}

/-! ## Opening a valid replica -/

theorem maxLevelTXID_le {infos : List (LTXFile ps)} {level m : Nat}
    (h : ∀ file ∈ infos, file.maxTXID ≤ m) : VFSFile.maxLevelTXID infos level ≤ m := by
  have hfold : ∀ init ≤ m, infos.foldl
      (fun maxTXID file =>
        if file.info.level = level ∧ file.maxTXID > maxTXID then file.maxTXID
        else maxTXID) init ≤ m := by
    induction infos with
    | nil => exact fun init hinit => hinit
    | cons file infos ih =>
        intro init hinit
        rw [List.foldl_cons]
        refine ih (fun g hg => h g (List.mem_cons_of_mem _ hg)) _ ?_
        split
        · exact h file List.mem_cons_self
        · exact hinit
  exact hfold 0 (Nat.zero_le m)

/-- The replica is that of a history without gaps. -/
structure Healthy (history : List (LTXFile ps)) (replica : Replica ps) : Prop where
  tiled : Tiled LTXFile.minTXID LTXFile.maxTXID 0 history
  level_zero : replica.level 0 = history
  level_one : ∃ base, Tiled LTXFile.minTXID LTXFile.maxTXID base (replica.level 1)
  merges : ∀ file ∈ replica.level 1, Merges history file

/-- A file that opens a plan of a healthy replica, which ends where a file of the history
ends, is in a valid state. -/
theorem valid_open {history : List (LTXFile ps)} {replica : Replica ps}
    (h : Healthy history replica) {seen unseen : List (LTXFile ps)}
    (hhistory : history = seen ++ unseen) {last : LTXFile ps} (hlast : plan.getLast? = some last)
    (hpos : last.maxTXID = reach LTXFile.maxTXID 0 seen)
    (hplan : ∀ file ∈ plan, file.maxTXID ≤ reach LTXFile.maxTXID 0 history) (f : VFSFile) :
    Valid ⟨history, replica, f.rebuildIndex plan none⟩ := by
  have hle : (f.rebuildIndex plan none).pos ≤ reach LTXFile.maxTXID 0 history := by
    rw [VFSFile.rebuildIndex, hlast]
    exact hplan last (List.mem_of_getLast? hlast)
  refine ⟨h.tiled, h.level_zero ▸ List.suffix_rfl, h.level_one, h.merges,
    ⟨seen, unseen, hhistory, ?_, ?_⟩, ?_, rfl⟩
  · rw [VFSFile.rebuildIndex, hlast]
    exact hpos
  · rw [h.level_zero]
    exact ⟨seen, hhistory.symm⟩
  · rw [newest]
    change (if VFSFile.maxLevelTXID plan 1 = 0 then (f.rebuildIndex plan none).pos
      else VFSFile.maxLevelTXID plan 1) ≤ _
    split
    · exact hle
    · exact maxLevelTXID_le hplan

/-! ## Accepted polls -/

/-- A poll is accepted and reaches the newest TXID. -/
def Accepts (s : State ps) : Action ps → Prop
  | .poll => ∃ f, s.file.pollReplicaClient s.replica = .ok f ∧ f.pos = s.newest
  | _ => True

/-- At a poll the first level 1 file past the cursor starts right after it. -/
def AlignedAt (s : State ps) : Action ps → Prop
  | .poll => s.Aligned
  | _ => True

instance (s : State ps) (a : Action ps) : Decidable (AlignedAt s a) := by
  cases a with
  | poll => exact inferInstanceAs (Decidable s.Aligned)
  | upload file => exact Decidable.isTrue trivial
  | compact file => exact Decidable.isTrue trivial
  | lock elock => exact Decidable.isTrue trivial
  | unlock elock => exact Decidable.isTrue trivial

theorem accepts_iff_alignedAt (h : s.Valid) : Accepts s a ↔ AlignedAt s a := by
  cases a with
  | poll =>
      constructor
      · rintro ⟨f, hpoll, -⟩
        by_contra haligned
        obtain ⟨err, herr⟩ := h.poll_error haligned
        rw [hpoll] at herr
        cases herr
      · intro haligned
        obtain ⟨seen, unseen, p0, p1, -, -, -, -, -, hmax0, hmax1, hpoll⟩ := h.poll haligned
        refine ⟨_, hpoll, ?_⟩
        rw [(applyPoll_counters h.targetTime p0 p1).1, hmax0, Nat.max_eq_left hmax1]
  | upload file => exact Iff.rfl
  | compact file => exact Iff.rfl
  | lock elock => exact Iff.rfl
  | unlock elock => exact Iff.rfl

/-- All polls of a run are accepted if and only if level 1 is aligned at each of them. -/
theorem accepts_iff (h : s.Valid) :
    Along State.step Accepts s as ↔ Along State.step AlignedAt s as :=
  along_congr (fun hs _ hstep => Valid.step hs hstep) (fun hs => accepts_iff_alignedAt hs) h

/-! ## Rejection for good -/

theorem not_aligned_step (h : s.Valid) (haligned : ¬ s.Aligned) (hstep : State.step s a = some s') :
    ¬ s'.Aligned ∧ s'.file.pos = s.file.pos := by
  have hfile : ∀ f : VFSFile, f.maxTXID1 = s.file.maxTXID1 →
      ¬ (State.mk s.history s.replica f).Aligned := by
    intro f hmax
    rw [Aligned, hmax]
    exact haligned
  cases a with
  | upload file =>
      rw [State.step] at hstep
      split at hstep
      · next hup =>
          obtain rfl := Option.some.inj hstep
          refine ⟨?_, rfl⟩
          rw [Aligned, VFSFile.newFiles, level_put, hup.1, if_neg (by decide)]
          exact haligned
      · cases hstep
  | compact file =>
      rw [State.step] at hstep
      split at hstep
      · next hup =>
          obtain rfl := Option.some.inj hstep
          refine ⟨fun haligned' => haligned fun first hfirst => haligned' first ?_, rfl⟩
          rw [VFSFile.newFiles, level_put, hup.1, if_pos rfl, List.filter_append,
            List.head?_append]
          rw [Option.mem_def, VFSFile.newFiles] at hfirst
          rw [hfirst]
          rfl
      · cases hstep
  | poll =>
      obtain rfl := Option.some.inj hstep
      obtain ⟨err, herr⟩ := h.poll_error haligned
      rw [polled, herr]
      exact ⟨haligned, rfl⟩
  | lock elock =>
      obtain rfl := Option.some.inj hstep
      rw [VFSFile.Lock]
      split_ifs
      · exact ⟨haligned, rfl⟩
      · exact ⟨hfile _ rfl, rfl⟩
      · exact ⟨haligned, rfl⟩
      · exact ⟨hfile _ rfl, rfl⟩
  | unlock elock =>
      obtain rfl := Option.some.inj hstep
      rw [VFSFile.Unlock]
      split_ifs
      · exact ⟨haligned, rfl⟩
      · exact ⟨hfile _ rfl, rfl⟩

/-- Once level 1 is not aligned, no step aligns it, and the file keeps its position. -/
theorem not_aligned_run (h : s.Valid) (haligned : ¬ s.Aligned)
    (hrun : run State.step s as = some s') : ¬ s'.Aligned ∧ s'.file.pos = s.file.pos := by
  have hinv : s'.Valid ∧ ¬ s'.Aligned ∧ s'.file.pos = s.file.pos := by
    refine run_invariant (I := fun m => m.Valid ∧ ¬ m.Aligned ∧ m.file.pos = s.file.pos) ?_
      ⟨h, haligned, rfl⟩ hrun
    rintro m a m' ⟨hm, hnot, hpos⟩ hstep
    obtain ⟨hnot', hpos'⟩ := not_aligned_step hm hnot hstep
    exact ⟨hm.step hstep, hnot', hpos'.trans hpos⟩
  exact hinv.2

/-! ## A level 1 file that straddles the cursor -/

namespace Straddling

/-- A file of one page, which holds the number of its last transaction. -/
def file (level minTXID maxTXID : Nat) (h : FileInfo.Valid ⟨level, minTXID, maxTXID, 100, 1⟩) :
    LTXFile PageSize.min where
  info := ⟨level, minTXID, maxTXID, 100, 1⟩
  commit := 1
  frames := [⟨1, 0, 1, OnePage.page (UInt8.ofNat maxTXID)⟩]
  valid := h
  pgnos_nodup := by simp
  offsets_nodup := by simp
  bounds := by simp

def first : LTXFile PageSize.min := file 0 1 1 (by decide)

def second : LTXFile PageSize.min := file 0 2 2 (by decide)

def third : LTXFile PageSize.min := file 0 3 3 (by decide)

/-- A replica of the first transaction. -/
def replica : Replica PageSize.min where
  level k := if k = 0 then [first] else []
  level_eq k g hg := by
    split at hg
    · next h => rw [List.mem_singleton.mp hg, h]; rfl
    · cases hg
  names_nodup k := by split <;> simp

/-- The file is opened after the first transaction. -/
def opened : State PageSize.min := ⟨[first], replica, OnePage.file.rebuildIndex [first] none⟩

/-- The first level 1 file covers the transaction that the file was opened at. -/
def actions : List (Action PageSize.min) :=
  [.upload second, .compact (file 1 1 2 (by decide)), .upload third,
    .compact (file 1 3 3 (by decide))]

theorem healthy : Healthy [first] replica where
  tiled := ⟨rfl, trivial⟩
  level_zero := rfl
  level_one := ⟨0, show Tiled LTXFile.minTXID LTXFile.maxTXID 0 [] from trivial⟩
  merges := by rintro g ⟨⟩

theorem valid_opened : opened.Valid := by
  have hlast : [first].getLast? = some first := rfl
  have hpos : first.maxTXID = reach LTXFile.maxTXID 0 [first] := rfl
  refine valid_open healthy (List.append_nil [first]).symm hlast hpos ?_ OnePage.file
  intro g hg
  rw [List.mem_singleton.mp hg]
  decide

end Straddling

/-- A poll that finds one new file of each level. -/
theorem accepts_iff_sample : Along State.step Accepts Straddling.opened
    [.upload Straddling.second, .compact (Straddling.file 1 2 2 (by decide)), .poll] :=
  (accepts_iff Straddling.valid_opened).mpr (by decide +kernel)

/-- After the file that straddles the cursor every poll is rejected, in every later state. -/
theorem rejected_for_good : Straddling.opened.Valid ∧
    ∃ s, run State.step Straddling.opened Straddling.actions = some s ∧ s.newest = 3 ∧
      ∀ as s', run State.step s as = some s' → ¬ Accepts s' .poll ∧ s'.file.pos = 1 := by
  have hsome : ∃ s, run State.step Straddling.opened Straddling.actions = some s ∧
      s.newest = 3 ∧ s.file.pos = 1 ∧ ¬ s.Aligned := by
    have hany : (run State.step Straddling.opened Straddling.actions).any (fun s =>
        s.newest = 3 ∧ s.file.pos = 1 ∧ ¬ s.Aligned) = true := by decide +kernel
    rw [Option.any_eq_true] at hany
    obtain ⟨s, hs, hany⟩ := hany
    exact ⟨s, hs, of_decide_eq_true hany⟩
  obtain ⟨s, hs, hnewest, hpos, haligned⟩ := hsome
  have hvalid : s.Valid := run_invariant (fun hm hstep => Valid.step hm hstep)
    Straddling.valid_opened hs
  refine ⟨Straddling.valid_opened, s, hs, hnewest, fun as s' hrun => ?_⟩
  have hvalid' : s'.Valid := run_invariant (fun hm hstep => Valid.step hm hstep) hvalid hrun
  obtain ⟨hnot, hpos'⟩ := not_aligned_run hvalid haligned hrun
  exact ⟨fun h => hnot ((accepts_iff_alignedAt hvalid').mp h), hpos'.trans hpos⟩

end Vfs

end Litestream
