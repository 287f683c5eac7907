import Litestream.Follow.History

/-!
# Where a poll lands

Faithful files that form a chain are a chain of deltas, so a poll that succeeds from one state
of the source lands on another (`applyNewLTXFiles_lands`).  The same holds from a database
that was torn by a part of another chain (`chain_heals`), so applying a batch again after a
crash does no harm.
-/

namespace Litestream

open Bytes FileOp

section

variable {ps : PageSize} {S : Nat → Database ps} {info : FileInfo} {x : LTXStream ps.size}

/-! ## One file -/

theorem Faithful.writesAll (h : Faithful S info x) {pages : List (PageRead ps.size)}
    (hpages : ∀ p ∈ pages, p ∈ x.pages) (f : Bytes) :
    Delta.Writes (cells S) (pageOf ps) info.maxTXID (pages.map fun p => p.pgno.toNat) (view f)
      (view (runAll f (pages.map fun p => .writeAt p.offset p.written))) := by
  induction pages generalizing f with
  | nil => exact .refl _ _
  | cons p pages ih =>
      have hp := hpages p List.mem_cons_self
      refine (h.writes hp f).cons (ih (fun q hq => hpages q (List.mem_cons_of_mem p hq)) _) ?_
      intro i hi
      rw [view_ne_none, hi]
      exact (h.sound p hp).2.1

/-- What a faithful file does when it is applied without an error. -/
theorem Faithful.ops_eq (h : Faithful S info x) (herr : x.err = none) :
    x.decodeErr = none ∧ x.ops = (x.pages.map fun p => .writeAt p.offset p.written) ++
      [.truncate ((S info.maxTXID).count * ps.size)] := by
  obtain ⟨commit, hsucceeds⟩ := LTXStream.succeeds_of_err_eq_none herr
  have hcommit := h.commit commit hsucceeds.header
  have hpos : 0 < commit := by
    rw [UInt32.lt_iff_toNat_lt, hcommit]
    exact (S info.maxTXID).count_pos
  exact ⟨hsucceeds.decodeErr, hcommit ▸ hsucceeds.ops_eq hpos⟩

/-- Applying a faithful file is a delta. -/
theorem Faithful.applies (h : Faithful S info x) (herr : x.err = none) (f : Bytes) :
    Delta.Applies (cells S) (pageOf ps) info.minTXID info.maxTXID (view f)
      (view (runAll f x.ops)) := by
  obtain ⟨hdecode, hops⟩ := h.ops_eq herr
  rw [hops, runAll_append]
  refine (h.writesAll (fun p hp => hp) f).applies (cuts_truncate _ rfl _) ?_
  -- a page that changed is among those written
  intro i hlive hmem t hmin hmax hchanged
  obtain ⟨p, hp, hpgno⟩ := h.complete hdecode t _ (by omega) hmax (.of_cells hchanged)
    (view_ne_none.mp hlive)
  exact hmem (List.mem_map.mpr ⟨p, hp, hpgno⟩)

/-- Every operation of a faithful file is a part of a delta. -/
theorem Faithful.touches (h : Faithful S info x) (herr : x.err = none) {op : FileOp}
    (hop : op ∈ x.ops) (f : Bytes) :
    Delta.Touches (cells S) info.maxTXID (view f) (view (op.run f)) := by
  rw [(h.ops_eq herr).2] at hop
  rcases List.mem_append.mp hop with hop | hop
  · obtain ⟨p, hp, rfl⟩ := List.mem_map.mp hop
    exact (h.writes hp f).touches
  · rw [List.mem_singleton.mp hop]
    exact (cuts_truncate _ rfl f).touches

/-! ## Chains of files -/

/-- Files are opened as streams that are faithful and are applied without an error. -/
def AppliesAll (S : Nat → Database ps) (stream : FileInfo → LTXStream ps.size)
    (infos : List FileInfo) : Prop :=
  ∀ info ∈ infos, Faithful S info (stream info) ∧ (stream info).err = none

/-- The database after applying files one after the other. -/
def applyAll (stream : FileInfo → LTXStream ps.size) (infos : List FileInfo) (f : Bytes) : Bytes :=
  infos.foldl (fun f info => (applyLTXFile (stream info) f).2) f

variable {stream : FileInfo → LTXStream ps.size} {infos : List FileInfo} {t u : Nat}

theorem applyAll_eq (f : Bytes) : applyAll stream infos f =
    runAll f (infos.flatMap fun info => (stream info).ops) := by
  induction infos generalizing f with
  | nil => rfl
  | cons info infos ih =>
      rw [List.flatMap_cons, runAll_append, ← ih, applyAll, List.foldl_cons,
        LTXStream.applyLTXFile_eq]
      rfl

theorem AppliesAll.chain (h : AppliesAll S stream infos) (hchain : FileInfo.Chain t infos)
    (f : Bytes) : Delta.Chain (cells S) (pageOf ps) t (view f) (FileInfo.reach t infos)
      (view (applyAll stream infos f)) := by
  induction infos generalizing t f with
  | nil => exact .nil t _
  | cons info infos ih =>
      obtain ⟨hfaithful, herr⟩ := h info List.mem_cons_self
      obtain ⟨hmin, hmax, hchain⟩ := hchain
      refine .cons hmin hmax.le (hfaithful.applies herr f) ?_
      have heq : applyAll stream (info :: infos) f =
          applyAll stream infos (runAll f (stream info).ops) := by
        rw [applyAll, List.foldl_cons, LTXStream.applyLTXFile_eq]
        rfl
      rw [heq]
      exact ih (fun i hi => h i (List.mem_cons_of_mem info hi)) hchain _

/-- A part of a chain does not disturb the pages that do not change. -/
theorem AppliesAll.still (h : AppliesAll S stream infos) (hchain : FileInfo.Chain t infos)
    {v : Nat} (hv : FileInfo.reach t infos ≤ v) {ops : List FileOp}
    (hops : ∀ op ∈ ops, ∃ info ∈ infos, op ∈ (stream info).ops) {f : Bytes} {i : Kept}
    (hlive : cells S v i ≠ none) (hstill : Delta.Still (cells S) (pageOf ps) t v (pageOf ps i))
    (hf : view f i = cells S v i) : view (runAll f ops) i = cells S v i := by
  induction ops generalizing f with
  | nil => exact hf
  | cons op ops ih =>
      obtain ⟨info, hi, hop⟩ := hops op List.mem_cons_self
      obtain ⟨hfaithful, herr⟩ := h info hi
      refine ih (fun o ho => hops o (List.mem_cons_of_mem op ho)) ?_
      exact (hfaithful.touches herr hop f).eq ((hchain.hi_le_reach info hi).trans hv)
        (hchain.lt_hi info hi).le hstill hlive hf

/-! ## Polls -/

/-- Every listed file is stored faithfully. -/
def Poll.Faithful (S : Nat → Database ps) (poll : Poll ps.size) : Prop :=
  ∀ info, poll.Listed info → Litestream.Faithful S info (poll.stream info)

variable {poll : Poll ps.size} {afterTXID txID : Nat} {f f' : Bytes}

theorem Poll.Reached.appliesAll (h : poll.Reached afterTXID f txID f' infos)
    (hfaithful : poll.Faithful S) :
    AppliesAll S poll.stream infos ∧ f' = applyAll poll.stream infos f := by
  refine ⟨fun info hi => ⟨hfaithful info (h.applied info hi).1, (h.applied info hi).2⟩, ?_⟩
  rw [applyAll_eq]
  exact h.effect

/-- A poll that succeeds from a state of the source applies a chain of files and lands on
another state of the source. -/
theorem applyNewLTXFiles_lands (S : Nat → Database ps) (poll : Poll ps.size)
    (hfaithful : poll.Faithful S) (hf : SameDatabase f (S afterTXID).bytes)
    (h : poll.applyNewLTXFiles afterTXID f = (.ok txID, f')) :
    FileInfo.Chain afterTXID (poll.tried afterTXID) ∧
      FileInfo.reach afterTXID (poll.tried afterTXID) = txID ∧ afterTXID ≤ txID ∧
      SameDatabase f' (S txID).bytes := by
  have hreached := Poll.applyNewLTXFiles_ok h
  obtain ⟨happlies, heffect⟩ := hreached.appliesAll hfaithful
  have hdelta := happlies.chain hreached.chain f
  rw [← heffect, hreached.reach, hf.view_eq] at hdelta
  exact ⟨hreached.chain, hreached.reach, hdelta.le, sameDatabase_of_view hdelta.eq⟩

/-- A database that a part of a chain tore has the pages that do not change. -/
theorem AppliesAll.torn (h : AppliesAll S stream infos) (hchain : FileInfo.Chain t infos)
    (hf : SameDatabase f (S t).bytes) {ops : List FileOp}
    (hops : ops <+: infos.flatMap fun info => (stream info).ops) {v : Nat}
    (hv : FileInfo.reach t infos ≤ v) (i : Kept) (hlive : cells S v i ≠ none)
    (hstill : Delta.Still (cells S) (pageOf ps) t v (pageOf ps i)) :
    view (runAll f ops) i = cells S v i := by
  refine h.still hchain hv (fun op hop => ?_) hlive hstill ?_
  · exact List.mem_flatMap.mp (hops.subset hop)
  · rw [hf.view_eq]
    exact hstill.eq (hchain.le_reach.trans hv) hlive

/-- Faithful files that reach as far heal a database that a part of a chain tore, whether as
another chain or in a poll. -/
theorem chain_heals (S : Nat → Database ps) {ops : List FileOp} {t' : Nat} (htt' : t < t')
    (hf : SameDatabase f (S t).bytes) (happlies : AppliesAll S stream infos)
    (hchain : FileInfo.Chain t infos) (hreach : FileInfo.reach t infos = t')
    (hops : ops <+: infos.flatMap fun info => (stream info).ops) :
    (∀ stream' infos' t'', t' ≤ t'' → AppliesAll S stream' infos' → FileInfo.Chain t infos' →
      FileInfo.reach t infos' = t'' →
      SameDatabase (applyAll stream' infos' (runAll f ops)) (S t'').bytes) ∧
    ∀ (poll : Poll ps.size) txID f', t' ≤ txID → poll.Faithful S →
      poll.applyNewLTXFiles t (runAll f ops) = (.ok txID, f') →
      SameDatabase f' (S txID).bytes := by
  have hchains : ∀ stream' infos' t'', t' ≤ t'' → AppliesAll S stream' infos' →
      FileInfo.Chain t infos' → FileInfo.reach t infos' = t'' →
      SameDatabase (applyAll stream' infos' (runAll f ops)) (S t'').bytes := by
    intro stream' infos' t'' hle happlies' hchain' hreach'
    have hdelta := happlies'.chain hchain' (runAll f ops)
    rw [hreach'] at hdelta
    exact sameDatabase_of_view (hdelta.heals (htt'.trans_le hle)
      (happlies.torn hchain hf hops (hreach.le.trans hle)))
  refine ⟨hchains, fun poll txID f' hle hfaithful hpoll => ?_⟩
  have hreached := Poll.applyNewLTXFiles_ok hpoll
  obtain ⟨happlies', rfl⟩ := hreached.appliesAll hfaithful
  exact hchains poll.stream _ txID hle happlies' hreached.chain hreached.reach

end

/-! ## A database that grows by a page -/

namespace OnePage

def before : Database .min := ⟨database, 1, length_database, by decide⟩

def after : Database .min where
  bytes := database ++ List.replicate 512 1
  count := 2
  length_bytes := by
    rw [List.length_append, length_database, List.length_replicate]
    rfl
  count_pos := by decide

/-- One page, and two pages from TXID 2 on. -/
def history (txID : Nat) : Database .min := if txID ≤ 1 then before else after

/-- A poll that finds one file. -/
def growing : Poll PageSize.min.size where
  client := fun _ => client [file 2]
  closeErr := fun _ _ => none
  stream := fun _ => stream none

theorem faithful : Faithful history (file 2) (stream none) where
  commit := by
    rintro commit ⟨⟩
    rfl
  sound := by
    intro p hp
    rw [List.mem_singleton.mp hp]
    exact ⟨by decide, by decide, by decide +kernel⟩
  complete := by
    rintro - t k hmin hmax ⟨-, hchanged⟩ hk
    obtain rfl : t = 2 := Nat.le_antisymm hmax hmin
    have hk : k ≤ 2 := hk
    refine ⟨_, List.mem_singleton.mpr rfl, ?_⟩
    interval_cases k
    · exact absurd hchanged (by decide +kernel)
    · exact absurd hchanged (by decide +kernel)
    · rfl

theorem growing_faithful : growing.Faithful history := by
  rintro info ⟨_, level, seek, itr, -, hlist, hi⟩
  cases hlist
  have hi : info ∈ [file 2].filter fun f => f.level = level ∧ seek ≤ f.minTXID := hi
  obtain rfl : info = file 2 := List.mem_singleton.mp (List.mem_of_mem_filter hi)
  exact faithful

end OnePage

theorem applyNewLTXFiles_lands_sample :
    SameDatabase (OnePage.growing.applyNewLTXFiles 1 OnePage.database).2
      (OnePage.history 2).bytes := by
  have hpoll : (OnePage.growing.applyNewLTXFiles 1 OnePage.database).1 = .ok 2 := by
    decide +kernel
  have hf : SameDatabase OnePage.database (OnePage.history 1).bytes := ⟨rfl, fun _ _ => rfl⟩
  exact (applyNewLTXFiles_lands OnePage.history OnePage.growing OnePage.growing_faithful hf
    (Prod.ext hpoll (Eq.refl _))).2.2.2

/-- Page 2 was written before a crash. -/
theorem chain_heals_sample :
    SameDatabase (applyAll OnePage.growing.stream [OnePage.file 2]
      (runAll OnePage.database ((OnePage.growing.ops [OnePage.file 2]).take 1)))
      (OnePage.history 2).bytes := by
  have hf : SameDatabase OnePage.database (OnePage.history 1).bytes := ⟨rfl, fun _ _ => rfl⟩
  have happlies : AppliesAll OnePage.history OnePage.growing.stream [OnePage.file 2] := by
    intro info hi
    rw [List.mem_singleton.mp hi]
    exact ⟨OnePage.faithful, by decide +kernel⟩
  have hchain : FileInfo.Chain 1 [OnePage.file 2] := ⟨by decide, by decide, trivial⟩
  exact (chain_heals OnePage.history (by decide) hf happlies hchain rfl
    (List.take_prefix _ _)).1 _ _ 2 le_rfl happlies hchain rfl

end Litestream
