import Litestream.Follow.Landing
import Litestream.Follow.Resume

/-!
# Runs of a follower

A follower is restored once and polls until its process ends.  A process that is started
again goes on at the TXID in the sidecar file.  A poll may fail when some of its files are
written, the sidecar file may keep the TXID before a poll, and the machine may stop while a
poll writes.  So the database is often torn.

What is torn lies between the TXID in the sidecar file and the highest TXID that a poll has
attempted (`Inv.torn`), so a poll that gets as far heals it.  `follow_run` says this of
every run.  `Pair` puts the follower beside a replica under maintenance.  There no poll attempts
more than was uploaded, so the follower is healed for good once it has caught up
(`follow_catches_up`).
-/

namespace Litestream

open Bytes FileOp

/-! ## Parts of the operations of a file -/

section

variable {ps : PageSize} {S : Nat → Database ps} {info : FileInfo} {x : LTXStream ps.size}

/-- The operations of a stream are the writes of its pages, the last of them perhaps in part,
and the truncation to the commit size. -/
theorem LTXStream.mem_ops {op : FileOp} (h : op ∈ x.ops) :
    (∃ p ∈ x.pages, op.PartOf (.writeAt p.offset p.written)) ∨
      ∃ commit, x.header = .ok commit ∧ op = .truncate (commit.toNat * ps.size) := by
  have hpages : ∀ {pages : List (PageRead ps.size)}, op ∈ pageOps pages →
      ∃ p ∈ pages, op.PartOf (.writeAt p.offset p.written) := by
    intro pages hop
    induction pages with
    | nil => exact (List.not_mem_nil hop).elim
    | cons p pages ih =>
        unfold pageOps at hop
        split at hop
        · rw [List.mem_singleton.mp hop]
          exact ⟨p, List.mem_cons_self, rfl, List.take_prefix _ _⟩
        · rcases List.mem_cons.mp hop with rfl | hop
          · exact ⟨p, List.mem_cons_self, .refl _⟩
          · obtain ⟨q, hq, hpart⟩ := ih hop
            exact ⟨q, List.mem_cons_of_mem p hq, hpart⟩
  unfold LTXStream.ops LTXStream.truncateOps at h
  split at h
  · next commit hopen hheader hlock =>
      rcases List.mem_append.mp h with hop | hop
      · exact Or.inl (hpages hop)
      · split at hop
        · split at hop
          · exact Or.inr ⟨commit, hheader, List.mem_singleton.mp hop⟩
          · exact (List.not_mem_nil hop).elim
        · exact (List.not_mem_nil hop).elim
  · exact (List.not_mem_nil h).elim

/-- Whatever is made of an operation of a faithful file is a part of a delta. -/
theorem Faithful.touches_part (h : Faithful S info x) {op op' : FileOp} (hop : op' ∈ x.ops)
    (hpart : op.PartOf op') (f : Bytes) :
    Delta.Touches (cells S) info.maxTXID (view f) (view (op.run f)) := by
  rcases LTXStream.mem_ops hop with ⟨p, hp, hwrite⟩ | ⟨commit, hheader, rfl⟩
  · have hwrite := hpart.trans hwrite
    cases op with
    | truncate n => exact hwrite.elim
    | writeAt off data =>
        obtain ⟨rfl, hpre⟩ := hwrite
        intro i hi
        have hlt := not_le.mp fun hle => hi (List.getElem?_eq_none hle)
        rcases getElem?_writeAt_prefix hpre p.offset hlt with hkeep | hwritten
        · exact Or.inl hkeep
        · rcases (h.writes hp f).touches i hi with heq | heq
          · exact Or.inl (hwritten.trans heq)
          · exact Or.inr (hwritten.trans heq)
  · cases op with
    | writeAt off data => exact hpart.elim
    | truncate n =>
        obtain rfl : n = commit.toNat * ps.size := hpart
        rw [h.commit commit hheader]
        exact (cuts_truncate _ rfl f).touches

end

/-! ## What a poll tries -/

/-- The files are listed and go past a TXID. -/
def Poll.Due {pageSize : Nat} (poll : Poll pageSize) (afterTXID : Nat) (infos : List FileInfo) :
    Prop :=
  ∀ info ∈ infos, poll.Listed info ∧ afterTXID < info.maxTXID

/-- What a poll tries goes past the position of the follower, whether or not the poll fails. -/
theorem Poll.due_tried {pageSize : Nat} (poll : Poll pageSize) (afterTXID : Nat) :
    poll.Due afterTXID (poll.tried afterTXID) := by
  have hkeeps : poll.Keeps (fun info tried => ((poll.stream info).err, tried ++ [info]))
      (fun info tried => ((poll.stream info).err, tried ++ [info]))
      (fun cur infos infos' => infos = infos' ∧ afterTXID ≤ cur ∧ poll.Due afterTXID infos)
      (fun infos _ => poll.Due afterTXID infos) := by
    rintro info cur infos _ hlisted - hmax ⟨rfl, hle, hdue⟩
    have hconcat : poll.Due afterTXID (infos ++ [info]) := by
      intro i hi
      rcases List.mem_append.mp hi with hi | hi
      · exact hdue i hi
      · rw [List.mem_singleton.mp hi]
        exact ⟨hlisted, hle.trans_lt hmax⟩
    show Poll.Applies _ _ info ((poll.stream info).err, _) ((poll.stream info).err, _)
    cases (poll.stream info).err with
    | none => exact ⟨rfl, hle.trans hmax.le, hconcat⟩
    | some e => exact ⟨rfl, hconcat⟩
  have hrel := Poll.applyNewLTXFilesTo_related (fun cur infos infos' h => h.2.2) hkeeps
    (show [] = [] ∧ afterTXID ≤ afterTXID ∧ poll.Due afterTXID [] from
      ⟨rfl, le_rfl, fun _ h => (List.not_mem_nil h).elim⟩)
  unfold Poll.tried Poll.trace
  revert hrel
  rcases poll.applyNewLTXFilesTo _ afterTXID [] with ⟨e | cur, infos⟩ <;> intro hrel
  · exact hrel.2
  · exact hrel.2.2.2

/-- A chain goes as far as its files. -/
theorem FileInfo.Chain.max_top {t : Nat} {infos : List FileInfo} (h : FileInfo.Chain t infos) :
    max t (FileInfo.top infos) = FileInfo.reach t infos := by
  refine Nat.le_antisymm (Nat.max_le.mpr ⟨h.le_reach, ?_⟩) ?_
  · exact Cover.top_le_iff.mpr fun info hi => h.hi_le_reach info hi
  · by_cases hnil : infos = []
    · rw [hnil]
      exact Nat.le_max_left _ _
    · rw [show FileInfo.reach t infos = _ from Cover.reach_eq_getLast _ hnil]
      exact (FileInfo.le_top (List.getLast_mem hnil)).trans (Nat.le_max_right _ _)

/-! ## The process -/

namespace Following

/-- A follower that was restored. -/
structure State where
  follower : Follower
  /-- The process of `Replica.follow` runs.  What it has as `lastTXID` is in the sidecar file. -/
  running : Bool
  /-- The highest TXID that a poll has tried a file up to.  The code does not keep it. -/
  attempted : Nat
deriving DecidableEq

/-- How `WriteTXIDFile` ends: with an error before or after the file was renamed, or without. -/
inductive WriteTXIDFile where
  | ok
  | failed (err : ClientError) (renamed : Bool)
deriving DecidableEq, Repr

/-- The error, and what the sidecar file has then. -/
def WriteTXIDFile.result (txID : Nat) : WriteTXIDFile → Nat → Option ClientError × Nat
  | .ok, newTXID => (none, newTXID)
  | .failed err renamed, newTXID => (some err, if renamed then newTXID else txID)

inductive Action (pageSize : Nat) where
  /-- `Replica.Restore` finds the database and checks the TXID in the sidecar file. -/
  | start (client : ReplicaClient)
  /-- The ticker fires. -/
  | tick (poll : Poll pageSize) (write : WriteTXIDFile)
  /-- The context is cancelled. -/
  | stop
  /-- The machine stops during a poll.  `ops` is what the disk has got of it. -/
  | crash (poll : Poll pageSize) (ops : List FileOp)

/-- The operations are parts of those of a poll.  They may be reordered, since the file is not
synced while a poll writes it. -/
def PartsOf {pageSize : Nat} (poll : Poll pageSize) (afterTXID : Nat) (ops : List FileOp) : Prop :=
  ∀ op ∈ ops, ∃ op' ∈ poll.ops (poll.tried afterTXID), op.PartOf op'

instance {pageSize : Nat} (poll : Poll pageSize) (afterTXID : Nat) (ops : List FileOp) :
    Decidable (PartsOf poll afterTXID ops) :=
  inferInstanceAs (Decidable (∀ op ∈ ops, _))

/-- How far polls have gone after another one. -/
def State.attempt {pageSize : Nat} (s : State) (poll : Poll pageSize) : Nat :=
  max s.attempted (FileInfo.top (poll.tried s.follower.txID))

def step {pageSize : Nat} (s : State) : Action pageSize → Option State
  | .start client =>
      if s.running = false ∧ validateResume client s.follower.txID = .ok () then
        some { s with running := true }
      else none
  | .tick poll write =>
      if s.running then
        let (err, follower) := poll.tick (write.result s.follower.txID) s.follower
        some ⟨follower, err.isNone, s.attempt poll⟩
      else none
  | .stop => if s.running then some { s with running := false } else none
  | .crash poll ops =>
      if s.running ∧ PartsOf poll s.follower.txID ops then
        some ⟨{ s.follower with database := runAll s.follower.database ops }, false,
          s.attempt poll⟩
      else none

variable {ps : PageSize} {S : Nat → Database ps} {s s' : State} {a : Action ps.size}
  {poll : Poll ps.size}

/-- Polls find files that are faithful to the history. -/
def Action.Faithful (S : Nat → Database ps) : Action ps.size → Prop
  | .tick poll _ => poll.Faithful S
  | .crash poll _ => poll.Faithful S
  | _ => True

/-! ## The invariant -/

structure Inv (S : Nat → Database ps) (s : State) : Prop where
  le : s.follower.txID ≤ s.attempted
  torn : Delta.Torn (cells S) (pageOf ps) s.follower.txID s.attempted (view s.follower.database)
  settled : s.attempted = s.follower.txID →
    SameDatabase s.follower.database (S s.follower.txID).bytes

theorem Inv.restored {f : Bytes} {t : Nat} (h : SameDatabase f (S t).bytes) :
    Inv S ⟨⟨f, t⟩, true, t⟩ where
  le := le_rfl
  torn := by
    show Delta.Torn _ _ t t (view f)
    rw [h.view_eq]
    exact .refl t
  settled _ := h

theorem Inv.le_attempt (h : Inv S s) (poll : Poll ps.size) :
    s.follower.txID ≤ s.attempt poll := h.le.trans (Nat.le_max_left _ _)

/-- Parts of a poll leave the database torn, up to where the poll has gone. -/
theorem Inv.torn_parts (h : Inv S s) (hfaithful : poll.Faithful S) {ops : List FileOp}
    (hops : PartsOf poll s.follower.txID ops) :
    Delta.Torn (cells S) (pageOf ps) s.follower.txID (s.attempt poll)
      (view (runAll s.follower.database ops)) := by
  have hstep : ∀ {f : Bytes},
      Delta.Torn (cells S) (pageOf ps) s.follower.txID (s.attempt poll) (view f) →
      Delta.Torn (cells S) (pageOf ps) s.follower.txID (s.attempt poll) (view (runAll f ops)) := by
    induction ops with
    | nil => exact fun hf => hf
    | cons op ops ih =>
        intro f hf
        obtain ⟨op', hop', hpart⟩ := hops op List.mem_cons_self
        obtain ⟨info, hi, hop'⟩ := List.mem_flatMap.mp hop'
        obtain ⟨hlisted, hlt⟩ := poll.due_tried s.follower.txID info hi
        refine ih (fun o ho => hops o (List.mem_cons_of_mem op ho)) ?_
        exact hf.touches ((hfaithful info hlisted).touches_part hop' hpart f) hlt.le
          ((FileInfo.le_top hi).trans (Nat.le_max_right _ _))
  exact hstep (h.torn.mono le_rfl (Nat.le_max_left _ _))

/-- Nothing was tried if no poll has gone past the follower. -/
theorem tried_eq_nil (h : s.attempt poll = s.follower.txID) : poll.tried s.follower.txID = [] := by
  refine List.eq_nil_iff_forall_not_mem.mpr fun info hi => ?_
  have hlt := (poll.due_tried s.follower.txID info hi).2
  have hle := (FileInfo.le_top hi).trans (Nat.le_max_right s.attempted _)
  rw [State.attempt] at h
  omega

/-- The machine stops, or a poll fails. -/
theorem Inv.torn_state (h : Inv S s) (hfaithful : poll.Faithful S) {ops : List FileOp}
    (hops : PartsOf poll s.follower.txID ops) (running : Bool) :
    Inv S ⟨{ s.follower with database := runAll s.follower.database ops }, running,
      s.attempt poll⟩ where
  le := h.le_attempt poll
  torn := h.torn_parts hfaithful hops
  settled := by
    intro hattempt
    have hnil := tried_eq_nil hattempt
    have hops : ops = [] := by
      refine List.eq_nil_iff_forall_not_mem.mpr fun op hop => ?_
      obtain ⟨op', hop', -⟩ := hops op hop
      rw [hnil] at hop'
      exact List.not_mem_nil hop'
    rw [hops]
    refine h.settled (Nat.le_antisymm ?_ h.le)
    exact (Nat.le_max_left _ _).trans hattempt.le

/-- What a poll that succeeds does. -/
structure Lands (S : Nat → Database ps) (s : State) (poll : Poll ps.size) (newTXID : Nat)
    (f : Bytes) : Prop where
  le : s.follower.txID ≤ newTXID
  attempt : s.attempt poll = max s.attempted newTXID
  torn : Delta.Torn (cells S) (pageOf ps) newTXID (max s.attempted newTXID) (view f)
  settled : s.attempted ≤ newTXID → SameDatabase f (S newTXID).bytes

theorem Inv.lands (h : Inv S s) (hfaithful : poll.Faithful S) {newTXID : Nat} {f : Bytes}
    (hpoll : poll.applyNewLTXFiles s.follower.txID s.follower.database = (.ok newTXID, f)) :
    Lands S s poll newTXID f := by
  have hreached := Poll.applyNewLTXFiles_ok hpoll
  have hmax := FileInfo.Chain.max_top hreached.chain
  rw [hreached.reach] at hmax
  obtain ⟨happlies, heffect⟩ := hreached.appliesAll hfaithful
  have hchain := happlies.chain hreached.chain s.follower.database
  rw [← heffect, hreached.reach] at hchain
  refine ⟨hchain.le, ?_, h.torn.chain hchain, fun hattempted => ?_⟩
  · have hle := h.le
    rw [State.attempt]
    omega
  · rcases hchain.le.lt_or_eq with hlt | heq
    · exact sameDatabase_of_view (h.torn.heals hchain hlt hattempted)
    · -- the poll has tried nothing
      have hnil : poll.tried s.follower.txID = [] := by
        refine List.eq_nil_iff_forall_not_mem.mpr fun info hi => ?_
        have hlt := (poll.due_tried s.follower.txID info hi).2
        have hle := FileInfo.le_top hi
        omega
      have hf : f = s.follower.database := by
        rw [hreached.effect, hnil]
        rfl
      rw [hf, ← heq]
      exact h.settled (Nat.le_antisymm (heq ▸ hattempted) h.le)

/-- The TXID of the follower after a poll that succeeds is the one before or the one that the
poll has reached. -/
theorem Inv.tick_ok (h : Inv S s) (hfaithful : poll.Faithful S) {newTXID : Nat} {f : Bytes}
    (hpoll : poll.applyNewLTXFiles s.follower.txID s.follower.database = (.ok newTXID, f))
    {txID : Nat} (htxID : txID = s.follower.txID ∨ txID = newTXID) (running : Bool) :
    Inv S ⟨⟨f, txID⟩, running, s.attempt poll⟩ := by
  have hlands := h.lands hfaithful hpoll
  have hle : txID ≤ newTXID := htxID.elim (fun h => h ▸ hlands.le) fun h => h.le
  refine ⟨?_, ?_, fun hattempt => ?_⟩
  · show txID ≤ s.attempt poll
    rw [hlands.attempt]
    exact hle.trans (Nat.le_max_right _ _)
  · show Delta.Torn _ _ txID (s.attempt poll) (view f)
    rw [hlands.attempt]
    exact hlands.torn.mono hle le_rfl
  · have hattempt : s.attempt poll = txID := hattempt
    rw [hlands.attempt] at hattempt
    have hnew : newTXID = txID := Nat.le_antisymm (by omega) hle
    have hsettled := hlands.settled (by omega)
    rw [hnew] at hsettled
    exact hsettled

/-- The states that a tick may lead to. -/
theorem tick_cases (s : State) (poll : Poll ps.size) (write : WriteTXIDFile) :
    (∃ e, (poll.trace s.follower.txID).1 = .error e ∧
      poll.tick (write.result s.follower.txID) s.follower =
        (none, { s.follower with
          database := runAll s.follower.database (poll.ops (poll.tried s.follower.txID)) })) ∨
    ∃ newTXID f err txID,
      poll.applyNewLTXFiles s.follower.txID s.follower.database = (.ok newTXID, f) ∧
      (txID = s.follower.txID ∨ txID = newTXID) ∧
      (write = .ok → s.follower.txID ≤ newTXID → txID = newTXID ∧ err = none) ∧
      poll.tick (write.result s.follower.txID) s.follower = (err, ⟨f, txID⟩) := by
  have heq := poll.applyNewLTXFiles_eq s.follower.txID s.follower.database
  unfold Poll.tick
  rcases hpoll : poll.applyNewLTXFiles s.follower.txID s.follower.database with ⟨e | newTXID, f⟩
  · rw [hpoll] at heq
    obtain ⟨he, hf⟩ := Prod.mk.inj heq
    exact Or.inl ⟨e, he.symm, by rw [hf]⟩
  · right
    by_cases hlt : s.follower.txID < newTXID
    · refine ⟨newTXID, f, (write.result s.follower.txID newTXID).1,
        (write.result s.follower.txID newTXID).2, rfl, ?_, ?_, ?_⟩
      · cases write with
        | ok => exact Or.inr rfl
        | failed err renamed => cases renamed <;> simp [WriteTXIDFile.result]
      · rintro rfl -
        exact ⟨rfl, rfl⟩
      · simp only [if_pos hlt]
    · refine ⟨newTXID, f, none, s.follower.txID, rfl, Or.inl rfl, fun _ hle => ⟨by omega, rfl⟩, ?_⟩
      simp only [if_neg hlt]

theorem partsOf_self (poll : Poll ps.size) (afterTXID : Nat) :
    PartsOf poll afterTXID (poll.ops (poll.tried afterTXID)) := fun op hop => ⟨op, hop, .refl op⟩

theorem Inv.step (h : Inv S s) (hfaithful : a.Faithful S) (hs : step s a = some s') : Inv S s' := by
  cases a with
  | start client =>
      simp only [Following.step, Option.ite_none_right_eq_some, Option.some.injEq] at hs
      obtain ⟨-, rfl⟩ := hs
      exact { h with }
  | stop =>
      simp only [Following.step, Option.ite_none_right_eq_some, Option.some.injEq] at hs
      obtain ⟨-, rfl⟩ := hs
      exact { h with }
  | crash poll ops =>
      simp only [Following.step, Option.ite_none_right_eq_some, Option.some.injEq] at hs
      obtain ⟨⟨-, hops⟩, rfl⟩ := hs
      exact h.torn_state hfaithful hops false
  | tick poll write =>
      simp only [Following.step, Option.ite_none_right_eq_some, Option.some.injEq] at hs
      obtain ⟨-, rfl⟩ := hs
      rcases tick_cases s poll write with ⟨e, -, htick⟩ |
        ⟨newTXID, f, err, txID, hpoll, htxID, -, htick⟩
      · rw [htick]
        exact h.torn_state hfaithful (partsOf_self poll _) _
      · rw [htick]
        exact h.tick_ok hfaithful hpoll htxID _

theorem step_txID_le (hs : step s a = some s') : s.follower.txID ≤ s'.follower.txID := by
  cases a with
  | start client =>
      simp only [Following.step, Option.ite_none_right_eq_some, Option.some.injEq] at hs
      obtain ⟨-, rfl⟩ := hs
      exact le_rfl
  | stop =>
      simp only [Following.step, Option.ite_none_right_eq_some, Option.some.injEq] at hs
      obtain ⟨-, rfl⟩ := hs
      exact le_rfl
  | crash poll ops =>
      simp only [Following.step, Option.ite_none_right_eq_some, Option.some.injEq] at hs
      obtain ⟨-, rfl⟩ := hs
      exact le_rfl
  | tick poll write =>
      simp only [Following.step, Option.ite_none_right_eq_some, Option.some.injEq] at hs
      obtain ⟨-, rfl⟩ := hs
      rcases tick_cases s poll write with ⟨e, -, htick⟩ |
        ⟨newTXID, f, err, txID, hpoll, htxID, -, htick⟩
      · rw [htick]
      · rw [htick]
        have hreached := Poll.applyNewLTXFiles_ok hpoll
        have hle : s.follower.txID ≤ newTXID := hreached.reach ▸ hreached.chain.le_reach
        rcases htxID with rfl | rfl
        · exact le_rfl
        · exact hle

/-- In every run of a follower that was restored at a version its TXID never goes back.  Every
page that did not change between its TXID and a version from the highest one on that a poll has
attempted is as in that version, and if no poll has attempted more than its TXID the database
is the version there. -/
theorem follow_run {f : Bytes} {t : Nat} {as : List (Action ps.size)}
    (hf : SameDatabase f (S t).bytes)
    (hfaithful : Run.Along step (fun _ a => a.Faithful S) ⟨⟨f, t⟩, true, t⟩ as)
    (hrun : Run.run step ⟨⟨f, t⟩, true, t⟩ as = some s) :
    t ≤ s.follower.txID ∧ s.follower.txID ≤ s.attempted ∧
      (∀ v, s.attempted ≤ v → ∀ i : Kept, i.val < (S v).bytes.length →
        (∀ u, s.follower.txID < u → u ≤ v → ¬ ChangedPage S u (pageOf ps i)) →
          s.follower.database[i.val]? = (S v).bytes[i.val]?) ∧
      (s.attempted = s.follower.txID →
        SameDatabase s.follower.database (S s.follower.txID).bytes) := by
  have hinv : Inv S s := Run.run_induction (fun h hfaithful hs => h.step hfaithful hs)
    (.restored hf) hfaithful hrun
  have hle : t ≤ s.follower.txID := Run.run_invariant (I := fun s => t ≤ s.follower.txID)
    (fun h hs => h.trans (step_txID_le hs)) le_rfl hrun
  refine ⟨hle, hinv.le, fun v hv i hi hstill => ?_, hinv.settled⟩
  refine hinv.torn v hv i ?_ fun u hu huv hchanged => hstill u hu huv (.of_cells hchanged)
  exact fun hnone => absurd (List.getElem?_eq_none_iff.mp hnone) (Nat.not_le.mpr hi)

/-! ## A follower of a replica under maintenance -/

/-- Polls list what the replica has. -/
def Action.Over {pageSize : Nat} (files : Files) : Action pageSize → Prop
  | .tick poll _ => poll.Over files
  | .crash poll _ => poll.Over files
  | _ => True

/-- The poll of a tick succeeds, and so does writing the sidecar file. -/
def Completes {pageSize : Nat} (s : State) : Action pageSize → Bool
  | .tick poll .ok => (poll.trace s.follower.txID).1.isOk
  | _ => false

/-- How many ticks of a run complete. -/
def completed {pageSize : Nat} : State → List (Action pageSize) → Nat
  | _, [] => 0
  | s, a :: as =>
      match step s a with
      | none => 0
      | some s' => (if Completes s a then 1 else 0) + completed s' as

/-- A replica under maintenance, and a follower of it once there is one. -/
structure Pair where
  replica : Maintenance.State
  follower : Option State

inductive Event (pageSize : Nat) where
  | maintain (a : Maintenance.Action)
  /-- `Replica.Restore` puts a database in place that is not there yet. -/
  | restore (database : Bytes)
  | follow (a : Action pageSize)

def Pair.step {pageSize : Nat} (cfg : Maintenance.Config) (p : Pair) :
    Event pageSize → Option Pair
  | .maintain a => (Maintenance.step cfg p.replica a).map fun replica => { p with replica }
  | .restore database =>
      match p.follower, calcRestorePlan p.replica.files.client 0 0 with
      | none, .ok infos =>
          let txID := FileInfo.sliceMaxTXID infos
          some { p with follower := some ⟨⟨database, txID⟩, true, txID⟩ }
      | _, _ => none
  | .follow a => p.follower.bind fun s =>
      (Following.step s a).map fun s' => { p with follower := some s' }

/-- A restore puts the version in place that it was planned for, and polls find faithful files
of the replica. -/
def Pair.Faithful (S : Nat → Database ps) (p : Pair) : Event ps.size → Prop
  | .maintain _ => True
  | .restore database => ∀ infos, calcRestorePlan p.replica.files.client 0 0 = .ok infos →
      SameDatabase database (S (FileInfo.sliceMaxTXID infos)).bytes
  | .follow a => a.Faithful S ∧ a.Over p.replica.files

variable {r r' : Maintenance.State} {cfg : Maintenance.Config} {p p' : Pair}

/-- Level 0 has single transactions. -/
theorem single_step {b : Maintenance.Action} (h : r.Inv)
    (hsingle : ∀ f ∈ r.files 0, f.minTXID = f.maxTXID)
    (hs : Maintenance.step cfg r b = some r') : ∀ f ∈ r'.files 0, f.minTXID = f.maxTXID := by
  intro f hf
  cases (Maintenance.step_effect h hs).2 with
  | same hsame => exact hsingle f (hsame 0 (by decide) ▸ hf)
  | uploaded hfiles =>
      rw [hfiles, Files.writeLTXFile_same rfl] at hf
      rcases mem_insertFile hf with rfl | hf
      · rfl
      · exact hsingle f hf
  | compacted hpos hlt hne hmerge hfiles =>
      rw [hfiles, Files.writeLTXFile_other (by simp only [compacted]; omega)] at hf
      exact hsingle f hf
  | prunedZero hdel hsplit htop hother =>
      exact hsingle f (hsplit ▸ List.mem_append_right _ hf)
  | prunedByTXID hpos hlt hdel hsplit htop hother => exact hsingle f (hother 0 (by omega) ▸ hf)

/-- What a poll tries was uploaded. -/
theorem tried_le (h : r.Inv) (hover : poll.Over r.files) (afterTXID : Nat) :
    FileInfo.top (poll.tried afterTXID) ≤ r.uploaded := by
  refine Cover.top_le_iff.mpr fun info hi => ?_
  obtain ⟨⟨_, level, seek, itr, hlevel, hlist, hmem⟩, -⟩ := poll.due_tried afterTXID info hi
  have hfile := List.mem_of_mem_filter ((hover.items _ _ _ _ hlevel hlist).subset hmem)
  exact (FileInfo.le_top hfile).trans (h.top_le hlevel)

/-- Polls attempt no more than was uploaded, and go no further. -/
theorem step_le (h : r.Inv) (hover : a.Over r.files) (hs : step s a = some s')
    (hattempted : s.attempted ≤ max r.uploaded s.follower.txID) :
    s'.attempted ≤ max r.uploaded s'.follower.txID ∧
      s'.follower.txID ≤ max r.uploaded s.follower.txID := by
  have hattempt : ∀ {poll : Poll ps.size}, poll.Over r.files →
      s.attempt poll ≤ max r.uploaded s.follower.txID := fun hover =>
    Nat.max_le.mpr ⟨hattempted, (tried_le h hover _).trans (Nat.le_max_left _ _)⟩
  cases a with
  | start client =>
      simp only [Following.step, Option.ite_none_right_eq_some, Option.some.injEq] at hs
      obtain ⟨-, rfl⟩ := hs
      exact ⟨hattempted, Nat.le_max_right _ _⟩
  | stop =>
      simp only [Following.step, Option.ite_none_right_eq_some, Option.some.injEq] at hs
      obtain ⟨-, rfl⟩ := hs
      exact ⟨hattempted, Nat.le_max_right _ _⟩
  | crash poll ops =>
      simp only [Following.step, Option.ite_none_right_eq_some, Option.some.injEq] at hs
      obtain ⟨-, rfl⟩ := hs
      exact ⟨hattempt hover, Nat.le_max_right _ _⟩
  | tick poll write =>
      have hle := step_txID_le hs
      simp only [Following.step, Option.ite_none_right_eq_some, Option.some.injEq] at hs
      obtain ⟨-, rfl⟩ := hs
      refine ⟨(hattempt hover).trans (max_le_max le_rfl hle), ?_⟩
      rcases tick_cases s poll write with ⟨e, -, htick⟩ |
        ⟨newTXID, f, err, txID, hpoll, htxID, -, htick⟩
      · rw [htick]
        exact Nat.le_max_right _ _
      · rw [htick]
        rcases htxID with rfl | rfl
        · exact Nat.le_max_right _ _
        · exact Poll.applyNewLTXFiles_le hover (fun level hlevel g hg =>
            ((FileInfo.le_top hg).trans (h.top_le hlevel)).trans (Nat.le_max_left _ _))
            (Nat.le_max_right _ _) hpoll

/-- A poll that succeeds does not end where it was while the replica has files that lead on. -/
theorem poll_progress (h : Maintenance.Restorable r)
    (hsingle : ∀ f ∈ r.files 0, f.minTXID = f.maxTXID) (hover : poll.Over r.files)
    {txID newTXID : Nat} {f f' : Bytes} (hretained : r.snapshotted ≤ txID)
    (hlt : txID < r.uploaded) (hpoll : poll.applyNewLTXFiles txID f = (.ok newTXID, f')) :
    txID < newTXID := by
  have hreached := Poll.applyNewLTXFiles_ok hpoll
  have hle : txID ≤ newTXID := hreached.reach ▸ hreached.chain.le_reach
  refine lt_of_le_of_ne hle fun heq => ?_
  subst heq
  obtain ⟨infos, hlisted, hlinked, hreach⟩ := h.leads hretained hlt
  have hreach : Cover.reach FileInfo.maxTXID txID infos = r.uploaded := hreach
  obtain ⟨g, hg, hmin, hmax⟩ := hlinked.exists_cover (n := txID + 1) (by omega) (by omega)
  obtain ⟨level, hlevel, hmem⟩ := hlisted g hg
  have hnext : nextTXID txID = txID + 1 :=
    nextTXID_eq (Nat.lt_of_le_of_lt hmax (h.inv.levels.wf.valid level g hmem).max_lt)
  have hover : poll.Over fun n => ((r.files.listings h.inv.levels.wf).level n).files := hover
  refine Poll.applyNewLTXFilesTo_stuck hover hsingle hnext hpoll level hlevel g hmem ⟨?_, hmax⟩
  rw [hnext]
  exact hmin

/-- A tick that completes moves such a follower on. -/
theorem step_progress (h : Maintenance.Restorable r)
    (hsingle : ∀ f ∈ r.files 0, f.minTXID = f.maxTXID) (hover : a.Over r.files)
    (hretained : r.snapshotted ≤ s.follower.txID) (hlt : s.follower.txID < r.uploaded)
    (hs : step s a = some s') (hcompletes : Completes s a) :
    s.follower.txID < s'.follower.txID := by
  cases a with
  | start client => cases hcompletes
  | stop => cases hcompletes
  | crash poll ops => cases hcompletes
  | tick poll write =>
      cases write with
      | failed err renamed => cases hcompletes
      | ok =>
          simp only [Following.step, Option.ite_none_right_eq_some, Option.some.injEq] at hs
          obtain ⟨-, rfl⟩ := hs
          rcases tick_cases s poll .ok with ⟨e, he, -⟩ |
            ⟨newTXID, f, err, txID, hpoll, -, hok, htick⟩
          · rw [Completes, he] at hcompletes
            cases hcompletes
          · have hlt := poll_progress h hsingle hover hretained hlt hpoll
            rw [htick, (hok rfl hlt.le).1]
            exact hlt

structure Pair.Inv (S : Nat → Database ps) (p : Pair) : Prop where
  restorable : Maintenance.Restorable p.replica
  single : ∀ f ∈ p.replica.files 0, f.minTXID = f.maxTXID
  follower : ∀ s, p.follower = some s →
    Following.Inv S s ∧ s.attempted ≤ max p.replica.uploaded s.follower.txID

theorem Pair.Inv.step {e : Event ps.size} (h : p.Inv S) (hfaithful : p.Faithful S e)
    (hs : p.step cfg e = some p') : p'.Inv S := by
  cases e with
  | maintain b =>
      obtain ⟨replica, hreplica, rfl⟩ := Option.map_eq_some_iff.mp hs
      refine ⟨h.restorable.step hreplica, single_step h.restorable.inv h.single hreplica,
        fun s hs => ?_⟩
      obtain ⟨hinv, hle⟩ := h.follower s hs
      have hup := Maintenance.step_uploaded_le h.restorable.inv hreplica
      exact ⟨hinv, hle.trans (max_le_max hup le_rfl)⟩
  | restore database =>
      rw [Pair.step] at hs
      split at hs
      · next infos hnone hplan =>
          cases hs
          refine ⟨h.restorable, h.single, ?_⟩
          rintro s ⟨⟩
          exact ⟨.restored (hfaithful infos hplan), Nat.le_max_right _ _⟩
      · cases hs
  | follow a =>
      obtain ⟨s, hfollower, hs⟩ := Option.bind_eq_some_iff.mp hs
      obtain ⟨s', hstep, rfl⟩ := Option.map_eq_some_iff.mp hs
      obtain ⟨hinv, hle⟩ := h.follower s hfollower
      refine ⟨h.restorable, h.single, ?_⟩
      rintro _ ⟨⟩
      exact ⟨hinv.step hfaithful.1 hstep,
        (step_le h.restorable.inv hfaithful.2 hstep hle).1⟩

/-- Every tick that completes takes the follower one transaction closer to the last upload. -/
theorem catch_up (h : Maintenance.Restorable r)
    (hsingle : ∀ f ∈ r.files 0, f.minTXID = f.maxTXID) {as : List (Action ps.size)}
    (hinv : Inv S s) (hattempted : s.attempted ≤ max r.uploaded s.follower.txID)
    (hretained : r.snapshotted ≤ s.follower.txID)
    (has : Run.Along step (fun _ a => a.Faithful S ∧ a.Over r.files) s as)
    (hrun : Run.run step s as = some s') :
    Inv S s' ∧ s'.attempted ≤ max r.uploaded s'.follower.txID ∧
      s'.follower.txID ≤ max r.uploaded s.follower.txID ∧
      s.follower.txID ≤ s'.follower.txID ∧
      min r.uploaded (s.follower.txID + completed s as) ≤ s'.follower.txID := by
  induction as generalizing s with
  | nil =>
      cases hrun
      exact ⟨hinv, hattempted, Nat.le_max_right _ _, le_rfl, Nat.min_le_right _ _⟩
  | cons a as ih =>
      obtain ⟨m, hm, hrun⟩ := Run.run_cons_eq_some.mp hrun
      obtain ⟨⟨hfaithful, hover⟩, has⟩ := (Run.along_cons_of_some hm).mp has
      have hle := step_txID_le hm
      obtain ⟨hattempted', hup⟩ := step_le h.inv hover hm hattempted
      obtain ⟨hinv', hattempted'', hup', hle', hmin⟩ :=
        ih (hinv.step hfaithful hm) hattempted' (hretained.trans hle) has hrun
      refine ⟨hinv', hattempted'', hup'.trans (Nat.max_le.mpr ⟨Nat.le_max_left _ _, hup⟩),
        hle.trans hle', ?_⟩
      have hcompleted : completed s (a :: as) =
          (if Completes s a then 1 else 0) + completed m as := by
        rw [completed, hm]
      rw [hcompleted]
      split
      · next hcompletes =>
          rcases Nat.lt_or_ge s.follower.txID r.uploaded with hlt | hge
          · have := step_progress h hsingle hover hretained hlt hm hcompletes
            omega
          · omega
      · omega

/-- Whatever has happened to a follower and to its replica, once as many ticks complete as the
follower is behind, and the replica keeps the files that it needs, it has the database as of
the last upload. -/
theorem follow_catches_up (cfg : Maintenance.Config) (S : Nat → Database ps)
    {events : List (Event ps.size)} {as : List (Action ps.size)}
    (hevents : Run.Along (Pair.step cfg) (Pair.Faithful S) ⟨.empty, none⟩ events)
    (hpair : Run.run (Pair.step cfg) ⟨.empty, none⟩ events = some p)
    (hfollower : p.follower = some s) (hretained : p.replica.snapshotted ≤ s.follower.txID)
    (has : Run.Along step (fun _ a => a.Faithful S ∧ a.Over p.replica.files) s as)
    (hrun : Run.run step s as = some s')
    (hcompleted : p.replica.uploaded - s.follower.txID ≤ completed s as) :
    s'.follower.txID = max p.replica.uploaded s.follower.txID ∧
      SameDatabase s'.follower.database (S s'.follower.txID).bytes := by
  have hempty : Pair.Inv S ⟨.empty, none⟩ :=
    ⟨.empty, fun _ hf => (List.not_mem_nil hf).elim, fun _ hs => by cases hs⟩
  have hp : p.Inv S := Run.run_induction (fun h hfaithful hs => h.step hfaithful hs) hempty
    hevents hpair
  obtain ⟨hinv, hattempted⟩ := hp.follower s hfollower
  obtain ⟨hinv', hattempted', hup, hle, hmin⟩ :=
    catch_up hp.restorable hp.single hinv hattempted hretained has hrun
  have htxID : s'.follower.txID = max p.replica.uploaded s.follower.txID := by omega
  refine ⟨htxID, hinv'.settled (Nat.le_antisymm ?_ hinv'.le)⟩
  omega

/-! ## A crash in the middle of a page -/

namespace Grown

/-- The machine stops when a hundred bytes of the second page are written.  The process that is
started again applies the file once more. -/
def actions : List (Action PageSize.min.size) :=
  [.crash OnePage.growing [.writeAt 512 (List.replicate 100 1)], .start (OnePage.client []),
    .tick OnePage.growing .ok]

theorem along (s : State) :
    Run.Along step (fun _ a => a.Faithful OnePage.history) s actions :=
  ⟨OnePage.growing_faithful, fun _ _ => ⟨trivial, fun _ _ =>
    ⟨OnePage.growing_faithful, fun _ _ => trivial⟩⟩⟩

end Grown

theorem follow_run_sample : ∃ s,
    Run.run step ⟨⟨OnePage.database, 1⟩, true, 1⟩ Grown.actions = some s ∧
      SameDatabase s.follower.database (OnePage.history 2).bytes := by
  have hrun : (Run.run step ⟨⟨OnePage.database, 1⟩, true, 1⟩ Grown.actions).map
      (fun s => (s.follower.txID, s.attempted)) = some (2, 2) := by
    decide +kernel
  obtain ⟨s, hs, heq⟩ := Option.map_eq_some_iff.mp hrun
  obtain ⟨htxID, hattempted⟩ := Prod.mk.inj heq
  have hf : SameDatabase OnePage.database (OnePage.history 1).bytes := ⟨rfl, fun _ _ => rfl⟩
  have hsettled := (follow_run hf (Grown.along _) hs).2.2.2 (hattempted.trans htxID.symm)
  rw [htxID] at hsettled
  exact ⟨s, hs, hsettled⟩

namespace Grown

/-- A follower is restored from a snapshot, and then the second transaction is uploaded. -/
def events : List (Event PageSize.min.size) :=
  [.maintain (.sync 1), .maintain (.upload 10), .maintain (.snapshot 10 2),
    .restore OnePage.database, .maintain (.sync 3), .maintain (.upload 10)]

def pair : Pair := (Run.run (Pair.step Maintenance.twoLevels) ⟨.empty, none⟩ events).getD
  ⟨.empty, none⟩

/-- The first transaction, which changes nothing. -/
def first : LTXStream PageSize.min.size := { OnePage.stream none with header := .ok 1, pages := [] }

def uploads : Poll PageSize.min.size where
  client := fun _ => pair.replica.files.client
  closeErr := fun _ _ => none
  stream := fun info => if info.maxTXID = 1 then first else OnePage.stream none

theorem faithful_first : Faithful OnePage.history ⟨0, 1, 1, 10, 1⟩ first where
  commit := by
    rintro commit ⟨⟩
    rfl
  sound := fun p hp => (List.not_mem_nil hp).elim
  complete := by
    rintro - t k hmin hmax ⟨hle, hchanged⟩ -
    obtain rfl : t = 1 := Nat.le_antisymm hmax hmin
    rcases hchanged with hlt | hne
    · exact absurd hle (Nat.not_le.mpr hlt)
    · exact absurd (Eq.refl _) hne

theorem uploads_over : uploads.Over pair.replica.files where
  items := by
    rintro txID level seek itr - ⟨⟩
    exact List.prefix_refl _
  complete := by
    rintro txID level seek itr - ⟨⟩ -
    rfl

theorem uploads_faithful : uploads.Faithful OnePage.history := by
  rintro info ⟨_, level, seek, itr, hlevel, ⟨⟩, hi⟩
  have hfiles : ∀ level < snapshotLevel, ∀ info ∈ pair.replica.files level,
      info = ⟨0, 1, 1, 10, 1⟩ ∨ info = ⟨0, 2, 2, 10, 3⟩ := by decide
  rcases hfiles level hlevel info (List.mem_of_mem_filter hi) with rfl | rfl
  · exact faithful_first
  · exact ⟨OnePage.faithful.commit, OnePage.faithful.sound, OnePage.faithful.complete⟩

theorem along_events : Run.Along (Pair.step Maintenance.twoLevels) (Pair.Faithful OnePage.history)
    ⟨.empty, none⟩ events := by
  have hf : SameDatabase OnePage.database (OnePage.history 1).bytes := ⟨rfl, fun _ _ => rfl⟩
  refine (Run.along_cons_of_some rfl).mpr ⟨trivial, (Run.along_cons_of_some rfl).mpr ⟨trivial,
    (Run.along_cons_of_some rfl).mpr ⟨trivial, fun infos hplan => ?_, fun _ _ =>
      ⟨trivial, fun _ _ => ⟨trivial, fun _ _ => trivial⟩⟩⟩⟩⟩
  have hsnapshot : Except.ok infos =
      (.ok [⟨snapshotLevel, 1, 1, 10, 2⟩] : Except RestoreError (List FileInfo)) :=
    hplan.symm.trans (by decide)
  cases hsnapshot
  exact hf

end Grown

theorem follow_catches_up_sample : ∃ s, Run.run step ⟨⟨OnePage.database, 1⟩, true, 1⟩
    [Action.tick Grown.uploads .ok] = some s ∧
      SameDatabase s.follower.database (OnePage.history 2).bytes := by
  have hrun : (Run.run step ⟨⟨OnePage.database, 1⟩, true, 1⟩ [Action.tick Grown.uploads .ok]).map
      (fun s => s.follower.txID) = some 2 := by
    decide +kernel
  obtain ⟨s, hs, htxID⟩ := Option.map_eq_some_iff.mp hrun
  have hpair : Run.run (Pair.step Maintenance.twoLevels) ⟨.empty, none⟩ Grown.events =
      some Grown.pair := rfl
  have hcompleted : Grown.pair.replica.uploaded - 1 ≤
      completed ⟨⟨OnePage.database, 1⟩, true, 1⟩ [Action.tick Grown.uploads .ok] := by
    decide +kernel
  have hfollower : Grown.pair.follower = some ⟨⟨OnePage.database, 1⟩, true, 1⟩ := rfl
  have halong : Run.Along step
      (fun _ a => a.Faithful OnePage.history ∧ a.Over Grown.pair.replica.files)
      ⟨⟨OnePage.database, 1⟩, true, 1⟩ [Action.tick Grown.uploads .ok] :=
    ⟨⟨Grown.uploads_faithful, Grown.uploads_over⟩, fun _ _ => trivial⟩
  have hsettled := (follow_catches_up Maintenance.twoLevels OnePage.history Grown.along_events
    hpair hfollower (by decide) halong hs hcompleted).2
  rw [htxID] at hsettled
  exact ⟨s, hs, hsettled⟩

end Following

end Litestream
