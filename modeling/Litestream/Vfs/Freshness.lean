import Litestream.Vfs.Contiguity
import Litestream.Vfs.Shrink

/-!
# The freshness of the index

A poll reads level 0 from the position of the file on, and level 1 from a cursor of its own,
which may lag behind.  The entries of level 1 go over those of level 0.  So an entry of level
1 may hide a newer one.

`fresh_run_iff` says when every page that the index maps, up to the commit size, has its newest
version in every state of a run: if each poll takes from level 1 only pages that no later
transaction has written, and no page that was cut off comes back unwritten.
-/

namespace Litestream

namespace Vfs

open Overlay Cover Resize Run State

variable {ps : PageSize}

/-! ## Entries -/

/-- No file of the history past the TXID holds the page. -/
def Newest (history : List (LTXFile ps)) (k maxTXID : Nat) : Prop :=
  ∀ file ∈ history, Holds [file] k → file.maxTXID ≤ maxTXID

instance (history : List (LTXFile ps)) (k maxTXID : Nat) :
    Decidable (Newest history k maxTXID) :=
  inferInstanceAs (Decidable (∀ file ∈ history, _))

/-- The entry names a file that reaches the newest transaction that wrote the page, and reads
the version of this transaction. -/
structure FreshEntry (replica : Replica ps) (history : List (LTXFile ps)) (k : Nat)
    (e : PageIndexElem) : Prop where
  stored : replica.fetch e ≠ none
  version : replica.fetch e = lastWrite (mergePages history) k
  newest : Newest history k e.maxTXID

instance (replica : Replica ps) (history : List (LTXFile ps)) (k : Nat) (e : PageIndexElem) :
    Decidable (FreshEntry replica history k e) :=
  decidable_of_iff (replica.fetch e ≠ none ∧ replica.fetch e = lastWrite (mergePages history) k ∧
      Newest history k e.maxTXID)
    ⟨fun h => ⟨h.1, h.2.1, h.2.2⟩, fun h => ⟨h.stored, h.version, h.newest⟩⟩

section

variable {replica : Replica ps} {history seen unseen files : List (LTXFile ps)}
  {file g : LTXFile ps} {k n : Nat} {e : PageIndexElem}

theorem holds_singleton : Holds [file] k ↔ ∃ frame ∈ file.frames, frame.pgno = k := by
  simp [Holds]

theorem holds_iff_pages : Holds files k ↔ k ∈ (mergePages files).map Prod.fst := by
  rw [holds_iff, keys_mergeIndex]

theorem holds_append {xs ys : List (LTXFile ps)} :
    Holds (xs ++ ys) k ↔ Holds xs k ∨ Holds ys k := by
  simp only [Holds, List.mem_append, or_and_right, exists_or]

theorem not_holds_iff : ¬ Holds files k ↔ ∀ file ∈ files, ¬ Holds [file] k := by
  simp [Holds]

theorem elem_of_lastWrite (h : lastWrite (mergeIndex files) k = some e) :
    ∃ file ∈ files, ∃ frame ∈ file.frames, frame.pgno = k ∧ file.elem frame = e := by
  have hmem := mem_of_lastWrite h
  rw [mergeIndex, List.mem_flatMap] at hmem
  obtain ⟨file, hfile, hmem⟩ := hmem
  obtain ⟨frame, hframe, heq⟩ := List.mem_map.mp hmem
  exact ⟨file, hfile, frame, hframe, Prod.mk.inj heq⟩

/-- A file writes each page once. -/
theorem lastWrite_pages {frame : PageFrame ps} (h : frame ∈ file.frames) :
    lastWrite file.pages frame.pgno = some frame.page.data := by
  refine lastWrite_of_mem ?_ (List.mem_map.mpr ⟨frame, h, rfl⟩)
  rw [LTXFile.pages, List.map_map]
  exact file.pgnos_nodup

/-- Files that do not hold a page do not matter for it. -/
theorem lastWrite_mergePages_filter (P : LTXFile ps → Bool) (files : List (LTXFile ps))
    (h : ∀ file ∈ files, ¬ P file = true → ¬ Holds [file] k) :
    lastWrite (mergePages (files.filter P)) k = lastWrite (mergePages files) k := by
  induction files with
  | nil => rfl
  | cons file files ih =>
      have htail := ih fun g hg => h g (List.mem_cons_of_mem file hg)
      rw [List.filter_cons]
      split
      · rw [mergePages, mergePages, List.flatMap_cons, List.flatMap_cons, lastWrite_append,
          lastWrite_append]
        exact congrArg (Option.or · _) htail
      · next hP =>
          have hnone : lastWrite file.pages k = none := by
            rw [lastWrite_eq_none_iff]
            refine fun hmem => h file List.mem_cons_self hP (holds_iff_pages.mpr ?_)
            simpa [mergePages] using hmem
          rw [htail, mergePages, mergePages, List.flatMap_cons, lastWrite_append, hnone,
            Option.or_none]

/-! ## Merged files -/

/-- A level 0 file merges itself. -/
theorem merges_self (htiled : Tiled LTXFile.minTXID LTXFile.maxTXID 0 history)
    (h : file ∈ history) : Merges history file := by
  obtain ⟨before, after, rfl⟩ := List.append_of_mem h
  obtain ⟨hbefore, hfile, hafter⟩ := tiled_append.mp htiled
  have hsources : sources (before ++ file :: after) file = [file] := by
    have hnone : before.filter (fun g => file.minTXID ≤ g.minTXID ∧ g.maxTXID ≤ file.maxTXID) = [] := by
      refine List.filter_eq_nil_iff.mpr fun g hg => ?_
      have hle := (hbefore.chain (forall_minTXID_le _)).hi_le_reach g hg
      have := g.minTXID_le
      simp only [decide_eq_true_eq]
      omega
    have hnone' : after.filter (fun g => file.minTXID ≤ g.minTXID ∧ g.maxTXID ≤ file.maxTXID) = [] := by
      refine List.filter_eq_nil_iff.mpr fun g hg => ?_
      have hlt := hafter.lt_lo (forall_minTXID_le _) g hg
      have := g.minTXID_le
      simp only [decide_eq_true_eq]
      omega
    rw [sources, List.filter_append, hnone, List.filter_cons_of_pos (by simp), hnone']
    rfl
  refine ⟨?_, ?_, ?_⟩
  · rw [hsources]
    rfl
  · rw [hsources]
    rfl
  · rw [hsources]
    exact ⟨rfl, fun k _ => by simp [mergePages]⟩

/-- A merged file has the newest version of a page if no later transaction writes it. -/
theorem lastWrite_of_merges (htiled : Tiled LTXFile.minTXID LTXFile.maxTXID 0 (seen ++ unseen))
    (hmerges : Merges (seen ++ unseen) file) (hle : file.maxTXID ≤ reach LTXFile.maxTXID 0 seen)
    (hnewest : Newest seen k file.maxTXID) (hk : lastWrite file.pages k ≠ none) :
    lastWrite (mergePages seen) k = lastWrite file.pages k := by
  obtain ⟨hseen, hunseen⟩ := tiled_append.mp htiled
  -- the files that are merged are all seen
  have hsources : sources (seen ++ unseen) file = sources seen file := by
    have hnone : unseen.filter (fun g => file.minTXID ≤ g.minTXID ∧ g.maxTXID ≤ file.maxTXID) = [] := by
      refine List.filter_eq_nil_iff.mpr fun g hg => ?_
      have hlt := hunseen.lt_lo (forall_minTXID_le _) g hg
      have := g.minTXID_le
      simp only [decide_eq_true_eq]
      omega
    rw [sources, List.filter_append, hnone, List.append_nil, sources]
  have hcommit : k ≤ file.commit :=
    (LTXFile.mem_pages_bounds (lastWrite_eq_none_iff.not_left.mp hk)).2
  have hpages := hmerges.2.2.pages k hcommit
  rw [hsources] at hpages
  -- those from the first merged file on are a suffix, in which only merged files hold the page
  obtain ⟨old, hold⟩ := hseen.filter_suffix (forall_minTXID_le _) file.minTXID
  have hfilter : (seen.filter fun g => file.minTXID ≤ g.minTXID).filter
      (fun g => g.maxTXID ≤ file.maxTXID) = sources seen file := by
    rw [List.filter_filter, sources]
    exact List.filter_congr fun g _ => by rw [Bool.and_comm, ← Bool.decide_and]
  have hlast : lastWrite (mergePages ((seen.filter fun g => file.minTXID ≤ g.minTXID).filter
      fun g => g.maxTXID ≤ file.maxTXID)) k =
        lastWrite (mergePages (seen.filter fun g => file.minTXID ≤ g.minTXID)) k :=
    lastWrite_mergePages_filter _ _ fun g hg hgt hholds =>
      hgt (decide_eq_true (hnewest g (List.mem_filter.mp hg).1 hholds))
  rw [hfilter, ← hpages] at hlast
  obtain ⟨d, hd⟩ := Option.ne_none_iff_exists'.mp hk
  rw [← hold, mergePages_append, lastWrite_append, ← hlast, hd, Option.some_or]

/-- The entries of files that follow each other name the last file that holds the page. -/
theorem newest_of_lastWrite {m : Nat} (htiled : Tiled LTXFile.minTXID LTXFile.maxTXID m files)
    (he : lastWrite (mergeIndex files) k = some e) : Newest files k e.maxTXID := by
  induction files generalizing m with
  | nil => cases he
  | cons file files ih =>
      rw [mergeIndex, List.flatMap_cons, lastWrite_append] at he
      intro g hg hholds
      cases hlater : lastWrite (files.flatMap FetchPageIndex) k with
      | some e' =>
          rw [hlater, Option.some_or] at he
          obtain rfl := Option.some.inj he
          rcases List.mem_cons.mp hg with rfl | hg
          · -- a later file holds the page too
            obtain ⟨file', hfile', frame, -, -, rfl⟩ := elem_of_lastWrite hlater
            have hlt := htiled.2.lt_lo (forall_minTXID_le _) file' hfile'
            exact (hlt.trans_le file'.minTXID_le).le
          · exact ih htiled.2 hlater g hg hholds
      | none =>
          rw [hlater, Option.none_or] at he
          have hsingle : lastWrite (mergeIndex [file]) k = some e := by
            simpa [mergeIndex] using he
          obtain ⟨file', hfile', frame, -, -, rfl⟩ := elem_of_lastWrite hsingle
          obtain rfl := List.mem_singleton.mp hfile'
          rcases List.mem_cons.mp hg with rfl | hg
          · exact le_rfl
          · have hnot : ¬ Holds files k := fun h =>
              lastWrite_eq_none_iff.mp hlater (holds_iff.mp h)
            exact absurd hholds (not_holds_iff.mp hnot g hg)

/-- An entry of merged files is fresh if no later transaction writes the page. -/
theorem freshEntry_of_merges
    (htiled : Tiled LTXFile.minTXID LTXFile.maxTXID 0 (seen ++ unseen))
    (hstored : ∀ file ∈ files, replica.Stored file)
    (hmerges : ∀ file ∈ files, Merges (seen ++ unseen) file)
    (hle : ∀ file ∈ files, file.maxTXID ≤ reach LTXFile.maxTXID 0 seen)
    (he : lastWrite (mergeIndex files) k = some e) (hnewest : Newest seen k e.maxTXID) :
    FreshEntry replica seen k e := by
  obtain ⟨file, hfile, frame, hframe, rfl, rfl⟩ := elem_of_lastWrite he
  have hfetch := (hstored file hfile).fetch_elem hframe
  have hpages := lastWrite_pages hframe
  refine ⟨by rw [hfetch]; exact Option.some_ne_none _, ?_, hnewest⟩
  rw [hfetch, lastWrite_of_merges htiled (hmerges file hfile) (hle file hfile) hnewest
    (by rw [hpages]; exact Option.some_ne_none _), hpages]

theorem freshEntry_of_history (htiled : Tiled LTXFile.minTXID LTXFile.maxTXID 0 history)
    (hfiles : ∀ file ∈ files, replica.Stored file ∧ Merges history file)
    (he : lastWrite (mergeIndex files) k = some e) (hnewest : Newest history k e.maxTXID) :
    FreshEntry replica history k e := by
  rw [← List.append_nil history] at htiled hfiles
  refine freshEntry_of_merges htiled (fun file hfile => (hfiles file hfile).1)
    (fun file hfile => (hfiles file hfile).2) (fun file hfile => ?_) he hnewest
  have hle := Merges.maxTXID_le (hfiles file hfile).2 htiled
  rwa [List.append_nil] at hle

/-- Files that do not hold the page keep an entry fresh. -/
theorem FreshEntry.append (h : FreshEntry replica seen k e) (hnot : ¬ Holds unseen k) :
    FreshEntry replica (seen ++ unseen) k e := by
  have hnone : lastWrite (mergePages unseen) k = none :=
    lastWrite_eq_none_iff.mpr fun hmem => hnot (holds_iff_pages.mpr hmem)
  refine ⟨h.stored, ?_, fun file hfile hholds => ?_⟩
  · rw [mergePages_append, lastWrite_append, hnone, Option.none_or]
    exact h.version
  · rcases List.mem_append.mp hfile with hfile | hfile
    · exact h.newest file hfile hholds
    · exact absurd hholds (not_holds_iff.mp hnot file hfile)

/-- A file that is added to the replica does not change what an entry reads. -/
theorem fetch_put (hfresh : replica.Fresh file) (h : replica.fetch e ≠ none) :
    (replica.put file hfresh).fetch e = replica.fetch e := by
  rw [Replica.fetch, Replica.fetchPage, level_put]
  split
  · rw [List.find?_append]
    cases hfind : (replica.level e.level).find? fun g => g.Named e.level e.minTXID e.maxTXID with
    | some g => simp only [Option.some_or, Replica.fetch, Replica.fetchPage, hfind]
    | none => exact absurd (by rw [Replica.fetch, Replica.fetchPage, hfind]; rfl) h
  · rfl

theorem FreshEntry.put (h : FreshEntry replica history k e) (hfresh : replica.Fresh file) :
    FreshEntry (replica.put file hfresh) history k e where
  stored := by
    rw [fetch_put hfresh h.stored]
    exact h.stored
  version := by
    rw [fetch_put hfresh h.stored]
    exact h.version
  newest := h.newest

end

/-! ## The index without a lock -/

section

variable {f f' : VFSFile} {elock : LockType}

/-- Without a lock nothing is pending. -/
def Idle (f : VFSFile) : Prop :=
  f.lockType.toNat < LockType.shared.toNat → f.pending = [] ∧ f.pendingReplace = false

theorem Idle.applied (h : Idle f) : f.applied = f.settled := by
  rw [VFSFile.settled]
  split
  · rfl
  · next hlock =>
      obtain ⟨hpending, hreplace⟩ := h (Nat.not_le.mp hlock)
      rw [VFSFile.applied, hpending, hreplace, List.append_nil]
      rfl

theorem Idle.of_lockType (h : Idle f) (hle : f.lockType.toNat ≤ elock.toNat) (b : Bool) :
    Idle { f with inTransaction := b, lockType := elock } ∧
      VFSFile.settled { f with inTransaction := b, lockType := elock } = f.settled := by
  refine ⟨fun hlt => h (hle.trans_lt hlt), ?_⟩
  rw [VFSFile.settled]
  split
  · exact h.applied
  · next hlock =>
      have hf : ¬ f.lockType.toNat ≥ LockType.shared.toNat := fun hge => hlock (hge.trans hle)
      rw [VFSFile.settled, if_neg hf]

/-- A lock does not change the index. -/
theorem Idle.lock (h : Idle f) (hlock : f.Lock elock = .ok f') :
    Idle f' ∧ f'.settled = f.settled ∧ f'.pos = f.pos ∧ f'.commit = f.commit := by
  rw [VFSFile.Lock] at hlock
  split_ifs at hlock with hdown hreserved hwrite
  · obtain rfl := Except.ok.inj hlock
    obtain ⟨hidle, hsettled⟩ := h.of_lockType (not_lt.mp hdown) true
    exact ⟨hidle, hsettled, rfl, rfl⟩
  · obtain rfl := Except.ok.inj hlock
    obtain ⟨hidle, hsettled⟩ := h.of_lockType (not_lt.mp hdown) f.inTransaction
    exact ⟨hidle, hsettled, rfl, rfl⟩

/-- Releasing a lock applies what is pending. -/
theorem Idle.unlock (h : Idle f) (hunlock : f.Unlock elock = .ok f') :
    Idle f' ∧ f'.settled = f.settled ∧ f'.pos = f.pos ∧ f'.commit = f.commit := by
  rw [VFSFile.Unlock] at hunlock
  split at hunlock
  · cases hunlock
  · obtain rfl := Except.ok.inj hunlock
    refine ⟨fun _ => ⟨rfl, rfl⟩, ?_, rfl, rfl⟩
    rw [← h.applied, VFSFile.settled]
    split
    · exact List.append_nil _
    · rfl

/-- A poll keeps a file without pending entries so. -/
theorem Idle.poll {replica : Replica ps} (h : Idle f)
    (hpoll : f.pollReplicaClient replica = .ok f') : Idle f' := by
  obtain ⟨p0, p1, -, -, rfl⟩ := pollReplicaClient_eq_ok hpoll
  rw [VFSFile.applyPoll]
  split
  · exact h
  · dsimp only
    split
    · next hlock => exact fun hlt => absurd hlt (Nat.not_lt.mpr hlock)
    · next hlock => exact fun hlt => ⟨(h hlt).1, rfl⟩

end

/-! ## The result of a poll -/

section

variable {f f' : VFSFile} {replica : Replica ps} {files files0 files1 : List (LTXFile ps)}
  {k m : Nat} {e : PageIndexElem} {index : Index} {p0 p1 : VFSFile.LevelPoll}

theorem contiguous_tiled (h : Tiled LTXFile.minTXID LTXFile.maxTXID m files) :
    VFSFile.contiguous m files = files := by
  induction files generalizing m with
  | nil => rfl
  | cons file files ih => rw [VFSFile.contiguous, if_neg (not_not.mpr h.1), ih h.2]

/-- What a page maps to after a poll: its newest entry of level 1, else that of level 0, else
the one before, unless the index was replaced. -/
theorem lastWrite_polled (he : lastWrite (if Replaces m files0 files1
      then mergeIndex (sinceShrink LTXFile.commit (files0 ++ files1))
      else index ++ mergeIndex (files0 ++ files1)) k = some e) :
    lastWrite (mergeIndex (sinceShrink LTXFile.commit files1)) k = some e ∨
      ¬ Holds (sinceShrink LTXFile.commit files1) k ∧
        (lastWrite (mergeIndex files0) k = some e ∨
          ¬ Replaces m files0 files1 ∧ ¬ Holds (files0 ++ files1) k ∧
            lastWrite index k = some e) := by
  rw [← combined_eq index (decide_eq_true_iff (p := Shrinks LTXFile.commit m files0))
    (decide_eq_true_iff (p := Shrinks LTXFile.commit (comparedCommit m files0) files1)),
    lastWrite_append] at he
  by_cases h1 : Shrinks LTXFile.commit (comparedCommit m files0) files1
  · rw [decide_eq_true h1, Bool.or_true, if_pos rfl, if_pos rfl, lastWrite_nil, Option.or_none] at he
    exact Or.inl he
  · rw [decide_eq_false h1, Bool.or_false, if_neg Bool.false_ne_true, lastWrite_append,
      Option.or_assoc, Option.or_eq_some_iff] at he
    refine he.imp_right fun ⟨hnone, he⟩ => ⟨?_, ?_⟩
    · exact fun hk => lastWrite_eq_none_iff.mp hnone (holds_iff.mp hk)
    rw [sinceShrink_of_not h1, lastWrite_eq_none_iff, ← holds_iff] at hnone
    rw [Option.or_eq_some_iff] at he
    by_cases h0 : Shrinks LTXFile.commit m files0
    · rw [decide_eq_true h0, if_pos rfl] at he
      rcases he with he | ⟨-, he⟩
      · -- what is kept of level 0 are its last files
        obtain ⟨before, hbefore⟩ := sinceShrink_suffix LTXFile.commit files0
        rw [← hbefore, mergeIndex_append, lastWrite_append, hbefore, he]
        exact Or.inl rfl
      · cases he
    · rw [sinceShrink_of_not h0, decide_eq_false h0, if_neg Bool.false_ne_true,
        lastWrite_eq_none_iff, ← holds_iff] at he
      refine he.imp_right fun ⟨hnot, he⟩ => ⟨not_or.mpr ⟨h0, h1⟩, ?_, he⟩
      exact fun hk => (holds_append.mp hk).elim hnot hnone

/-- The entries that a poll takes from level 1 go over all others. -/
theorem lastWrite_polled_of_taken
    (he : lastWrite (mergeIndex (sinceShrink LTXFile.commit files1)) k = some e) :
    lastWrite (if Replaces m files0 files1
      then mergeIndex (sinceShrink LTXFile.commit (files0 ++ files1))
      else index ++ mergeIndex (files0 ++ files1)) k = some e := by
  rw [← combined_eq index (decide_eq_true_iff (p := Shrinks LTXFile.commit m files0))
    (decide_eq_true_iff (p := Shrinks LTXFile.commit (comparedCommit m files0) files1)),
    lastWrite_append]
  split_ifs <;> simp [lastWrite_append, he]

/-- The commit size after a poll. -/
theorem commit_applyPoll (htarget : f.targetTime = none) (p0 p1 : VFSFile.LevelPoll) :
    (f.applyPoll p0 p1).commit =
      if (p0.replaceIndex || p1.replaceIndex) = true ∨ VFSFile.combined p0 p1 ≠ [] ∧
          VFSFile.newCommit f.commit p0 p1 > f.commit
      then VFSFile.newCommit f.commit p0 p1 else f.commit := by
  rw [VFSFile.applyPoll, if_neg (not_not.mpr htarget)]
  dsimp only
  split <;> rfl

theorem le_newCommit (commit : Nat) (p0 p1 : VFSFile.LevelPoll) :
    p1.commit ≤ VFSFile.newCommit commit p0 p1 := by
  rw [VFSFile.newCommit]
  split
  · exact le_rfl
  · exact le_max_right _ _

/-- Every page that a poll takes from level 1 is within the commit size after it. -/
theorem le_commit_of_holds (hpoll : f.pollReplicaClient replica = .ok f')
    (htarget : f.targetTime = none)
    (hk : Holds (sinceShrink LTXFile.commit (VFSFile.levelFiles replica 1 f.maxTXID1)) k) :
    k ≤ f'.commit := by
  obtain ⟨p0, p1, -, h1, rfl⟩ := pollReplicaClient_eq_ok hpoll
  obtain ⟨hindex1, hcommit1, -⟩ := pollLevel_eq_ok h1
  have hle : k ≤ VFSFile.newCommit f.commit p0 p1 := by
    obtain ⟨file, hfile, frame, hframe, rfl⟩ := hk
    refine ((file.bounds frame hframe).2.trans ?_).trans (le_newCommit f.commit p0 p1)
    rw [hcommit1]
    exact size_le_finalSize hfile
  have hne : VFSFile.combined p0 p1 ≠ [] := by
    have hindex : p1.index ≠ [] := by
      rw [hindex1]
      intro hnil
      rw [holds_iff, hnil] at hk
      cases hk
    rw [VFSFile.combined]
    split
    · exact hindex
    · exact List.append_ne_nil_of_right_ne_nil _ hindex
  rw [commit_applyPoll htarget]
  split
  · exact hle
  · next hnot =>
      have hcommit : ¬ VFSFile.newCommit f.commit p0 p1 > f.commit := fun h => hnot (Or.inr ⟨hne, h⟩)
      omega

/-- A poll that extends the index extends the commit size to that of a file. -/
theorem le_commit_iff (hpoll : f.pollReplicaClient replica = .ok f') (htarget : f.targetTime = none)
    (hextends : ¬ Replaces f.commit (VFSFile.levelFiles replica 0 f.pos)
      (VFSFile.levelFiles replica 1 f.maxTXID1)) (hk : f.commit < k) :
    k ≤ f'.commit ↔ mergeIndex (f.polledFiles replica) ≠ [] ∧
      ∃ file ∈ f.polledFiles replica, k ≤ file.commit := by
  obtain ⟨p0, p1, h0, h1, rfl⟩ := pollReplicaClient_eq_ok hpoll
  obtain ⟨hindex0, hcommit0, hreplace0⟩ := pollLevel_eq_ok h0
  obtain ⟨hindex1, hcommit1, -⟩ := pollLevel_eq_ok h1
  have hreplace1 := replaceIndex_iff h0 h1
  obtain ⟨hs0, hs1⟩ := not_or.mp hextends
  have hb0 : p0.replaceIndex = false := Bool.eq_false_iff.mpr (hreplace0.not.mpr hs0)
  have hb1 : p1.replaceIndex = false := Bool.eq_false_iff.mpr (hreplace1.not.mpr hs1)
  have hentries : VFSFile.combined p0 p1 = mergeIndex (f.polledFiles replica) := by
    rw [VFSFile.combined, hb1, if_neg Bool.false_ne_true, hindex0, hindex1,
      sinceShrink_of_not hs0, sinceShrink_of_not hs1, VFSFile.polledFiles, mergeIndex_append]
  have hcommit : VFSFile.newCommit f.commit p0 p1 = max (max f.commit p0.commit) p1.commit := by
    rw [VFSFile.newCommit, hb0, hb1, if_neg Bool.false_ne_true, if_neg Bool.false_ne_true]
  have hexists : k ≤ max (max f.commit p0.commit) p1.commit ↔
      ∃ file ∈ f.polledFiles replica, k ≤ file.commit := by
    rw [VFSFile.polledFiles, hcommit0, hcommit1, baseCommit_eq h0, le_max_iff, le_max_iff,
      or_iff_right (Nat.not_le.mpr hk)]
    have hlast : ∀ file ∈ VFSFile.levelFiles replica 0 f.pos, k ≤ file.commit →
        k ≤ finalSize LTXFile.commit f.commit (VFSFile.levelFiles replica 0 f.pos) :=
      fun file hfile hle => hle.trans (size_le_finalSize ((sinceShrink_of_not hs0).symm ▸ hfile))
    constructor
    · rintro (hle | hle)
      · obtain ⟨file, hfile, hle⟩ := exists_le_size hk hle
        exact ⟨file, List.mem_append_left _ hfile, hle⟩
      · rcases Nat.lt_or_ge (comparedCommit f.commit (VFSFile.levelFiles replica 0 f.pos)) k with
          hlt | hge
        · obtain ⟨file, hfile, hle⟩ := exists_le_size hlt hle
          exact ⟨file, List.mem_append_right _ hfile, hle⟩
        · obtain ⟨file, hfile, hle⟩ := exists_le_size hk (hge.trans (comparedCommit_le hs0))
          exact ⟨file, List.mem_append_left _ hfile, hle⟩
    · rintro ⟨file, hfile, hle⟩
      rcases List.mem_append.mp hfile with hfile | hfile
      · exact Or.inl (hlast file hfile hle)
      · exact Or.inr (hle.trans (size_le_finalSize ((sinceShrink_of_not hs1).symm ▸ hfile)))
  rw [commit_applyPoll htarget, hb0, hb1, hentries, hcommit, ← hexists]
  split
  · next h => exact (and_iff_right (h.resolve_left Bool.false_ne_true).1).symm
  · next h =>
      rw [iff_false_intro (Nat.not_le.mpr hk), false_iff]
      rintro ⟨hne, hle⟩
      exact h (Or.inr ⟨hne, hk.trans_le hle⟩)

end

/-! ## Fresh states -/

namespace State

/-- The transactions up to the position of the file. -/
def seen (s : State ps) : List (LTXFile ps) :=
  s.history.filter fun file => file.maxTXID ≤ s.file.pos

/-- Every page up to the commit size that the index maps has its newest version. -/
def Fresh (s : State ps) : Prop :=
  ∀ k e, 1 ≤ k → k ≤ s.file.commit → lastWrite s.file.settled k = some e →
    FreshEntry s.replica s.seen k e

/-- The level 1 files that a poll takes pages from. -/
def taken (s : State ps) : List (LTXFile ps) :=
  sinceShrink LTXFile.commit (VFSFile.levelFiles s.replica 1 s.file.maxTXID1)

/-- No transaction has written a page past the level 1 file that a poll takes it from.  A page
that comes back into the database is in a polled file, or has kept its newest version. -/
structure CurrentPoll (s : State ps) : Prop where
  taken : ∀ w ∈ mergeIndex s.taken, lastWrite (mergeIndex s.taken) w.1 = some w.2 →
    Newest s.history w.1 w.2.maxTXID
  back : ¬ Replaces s.file.commit (VFSFile.levelFiles s.replica 0 s.file.pos)
      (VFSFile.levelFiles s.replica 1 s.file.maxTXID1) →
    mergeIndex (s.file.polledFiles s.replica) ≠ [] →
    ∀ w ∈ s.file.settled, lastWrite s.file.settled w.1 = some w.2 → s.file.commit < w.1 →
      (∃ file ∈ s.file.polledFiles s.replica, w.1 ≤ file.commit) →
      ¬ Holds (s.file.polledFiles s.replica) w.1 → FreshEntry s.replica s.history w.1 w.2

instance (s : State ps) : Decidable s.CurrentPoll :=
  decidable_of_iff (_ ∧ _) ⟨fun h => ⟨h.1, h.2⟩, fun h => ⟨h.taken, h.back⟩⟩

section

variable {s s' : State ps} {a : Action ps} {f' : VFSFile} {file : LTXFile ps}

theorem seen_eq {seen unseen : List (LTXFile ps)}
    (htiled : Tiled LTXFile.minTXID LTXFile.maxTXID 0 s.history)
    (hhistory : s.history = seen ++ unseen)
    (hpos : s.file.pos = reach LTXFile.maxTXID 0 seen) : s.seen = seen := by
  rw [hhistory] at htiled
  obtain ⟨hseen, hunseen⟩ := tiled_append.mp htiled
  rw [State.seen, hhistory, hpos, List.filter_append, List.filter_eq_self.mpr,
    List.filter_eq_nil_iff.mpr, List.append_nil]
  · intro file hfile
    have hlt := hunseen.lt_lo (forall_minTXID_le _) file hfile
    have := file.minTXID_le
    simp only [decide_eq_true_eq]
    omega
  · exact fun file hfile => decide_eq_true
      ((hseen.chain (forall_minTXID_le _)).hi_le_reach file hfile)

/-- The files that a poll reads of level 0. -/
theorem Valid.levelFiles_zero (h : s.Valid) : ∃ unseen, s.history = s.seen ++ unseen ∧
    s.file.pos = reach LTXFile.maxTXID 0 s.seen ∧ unseen <:+ s.replica.level 0 ∧
    VFSFile.levelFiles s.replica 0 s.file.pos = unseen := by
  obtain ⟨seen, unseen, hhistory, hpos, hunseen, hnew⟩ := h.newFiles_zero
  have hseen := seen_eq h.tiled hhistory hpos
  refine ⟨unseen, hseen.symm ▸ hhistory, hseen.symm ▸ hpos, hunseen, ?_⟩
  rw [VFSFile.levelFiles, hnew, hpos]
  exact contiguous_tiled (tiled_append.mp (hhistory ▸ h.tiled)).2

/-- The pages that a poll takes from level 1 come from merged files. -/
theorem Valid.taken_merges (h : s.Valid) : ∀ file ∈ s.taken,
    s.replica.Stored file ∧ Merges s.history file := by
  intro file hfile
  have hlevel : file ∈ s.replica.level 1 := by
    have hcontiguous : ∀ (files : List (LTXFile ps)) (m : Nat), ∀ g ∈ VFSFile.contiguous m files,
        g ∈ files := by
      intro files
      induction files with
      | nil => exact fun m g hg => hg
      | cons first files ih =>
          intro m g hg
          rw [VFSFile.contiguous] at hg
          split at hg
          · cases hg
          · rcases List.mem_cons.mp hg with rfl | hg
            · exact List.mem_cons_self
            · exact List.mem_cons_of_mem first (ih first.maxTXID g hg)
    exact (List.mem_filter.mp (hcontiguous _ _ file ((sinceShrink_suffix LTXFile.commit _).mem hfile))).1
  refine ⟨?_, h.merges file hlevel⟩
  rw [Replica.Stored, s.replica.level_eq 1 file hlevel]
  exact hlevel

/-- The entries of level 0 that the file has not seen are fresh. -/
theorem Valid.freshEntry_unseen {unseen : List (LTXFile ps)} {k : Nat} {e : PageIndexElem}
    (h : s.Valid) (hhistory : s.history = s.seen ++ unseen)
    (hpos : s.file.pos = reach LTXFile.maxTXID 0 s.seen) (hunseen : unseen <:+ s.replica.level 0)
    (he : lastWrite (mergeIndex unseen) k = some e) : FreshEntry s.replica s.history k e := by
  obtain ⟨-, htail⟩ := tiled_append.mp (hhistory ▸ h.tiled)
  refine freshEntry_of_history h.tiled (fun file hfile => ⟨?_, merges_self h.tiled ?_⟩) he ?_
  · have hlevel := s.replica.level_eq 0 file (hunseen.mem hfile)
    rw [Replica.Stored, hlevel]
    exact hunseen.mem hfile
  · rw [hhistory]
    exact List.mem_append_right _ hfile
  · intro file hfile hholds
    rw [hhistory] at hfile
    rcases List.mem_append.mp hfile with hfile | hfile
    · -- what was seen comes before
      obtain ⟨last, hlast, frame, -, -, rfl⟩ := elem_of_lastWrite he
      have hle := of_decide_eq_true (List.mem_filter.mp hfile).2
      have hlt := htail.lt_lo (forall_minTXID_le _) last hlast
      exact (hle.trans_lt (hpos ▸ hlt)).le.trans last.minTXID_le
    · exact newest_of_lastWrite htail he file hfile hholds

/-- A poll keeps a fresh state fresh if and only if what it takes from level 1 is current. -/
theorem Valid.fresh_poll_iff (h : s.Valid) (hfresh : s.Fresh) (haligned : s.Aligned)
    (hpoll : s.file.pollReplicaClient s.replica = .ok f') :
    Fresh ⟨s.history, s.replica, f'⟩ ↔ s.CurrentPoll := by
  obtain ⟨unseen, hhistory, hpos, hunseen, hlevel⟩ := h.levelFiles_zero
  have htiled := h.tiled
  rw [hhistory] at htiled
  -- after the poll everything is seen
  have hseen' : State.seen ⟨s.history, s.replica, f'⟩ = s.history := by
    refine seen_eq h.tiled (List.append_nil _).symm ?_
    obtain ⟨-, -, p0, p1, -, -, -, -, -, hmax0, hmax1, hpoll'⟩ := h.poll haligned
    obtain rfl := Except.ok.inj (hpoll.symm.trans hpoll')
    rw [(applyPoll_counters h.targetTime p0 p1).1, hmax0, Nat.max_eq_left hmax1, newest]
  have hsettled := settled_poll hpoll h.targetTime
  constructor
  · intro hfresh'
    refine ⟨fun w hw he => ?_, fun hextends hne w hw he hlt hback hnot => ?_⟩
    · have hheld : Holds s.taken w.1 := holds_iff.mpr (List.mem_map_of_mem hw)
      have hbound : 1 ≤ w.1 := by
        obtain ⟨file, -, frame, hframe, hpgno⟩ := hheld
        exact hpgno ▸ (file.bounds frame hframe).1
      have hentry := hfresh' w.1 w.2 hbound (le_commit_of_holds hpoll h.targetTime hheld)
        (hsettled ▸ lastWrite_polled_of_taken he)
      exact hseen' ▸ hentry.newest
    · rw [← hseen']
      refine hfresh' w.1 w.2 (Nat.succ_le_of_lt (Nat.zero_lt_of_lt hlt))
        ((le_commit_iff hpoll h.targetTime hextends hlt).mpr ⟨hne, hback⟩) ?_
      have hnone := lastWrite_eq_none_iff.mpr fun hmem => hnot (holds_iff.mpr hmem)
      dsimp only
      rw [hsettled, if_neg hextends, lastWrite_append, hnone, Option.none_or]
      exact he
  · intro hcurrent k e hone hle he
    rw [hseen']
    dsimp only at he hle ⊢
    rw [hsettled] at he
    rcases lastWrite_polled he with he | ⟨-, he | ⟨hextends, hnot, he⟩⟩
    · exact freshEntry_of_history h.tiled h.taken_merges he
        (hcurrent.taken (k, e) (mem_of_lastWrite he) he)
    · rw [hlevel] at he
      exact h.freshEntry_unseen hhistory hpos hunseen he
    · rcases Nat.lt_or_ge s.file.commit k with hlt | hge
      · obtain ⟨hne, hback⟩ := (le_commit_iff hpoll h.targetTime hextends hlt).mp hle
        exact hcurrent.back hextends hne (k, e) (mem_of_lastWrite he) he hlt hback hnot
      · rw [hhistory]
        refine (hfresh k e hone hge he).append fun hheld => hnot ?_
        rw [hlevel]
        exact holds_append.mpr (Or.inl hheld)

/-! ## Fresh runs -/

/-- The step leads to a fresh state. -/
def FreshAfter (s : State ps) (a : Action ps) : Prop := ∀ s', State.step s a = some s' → s'.Fresh

/-- A poll that is not rejected is current. -/
def CurrentAt (s : State ps) : Action ps → Prop
  | .poll => s.Aligned → s.CurrentPoll
  | _ => True

instance decidableCurrentAt (s : State ps) : (a : Action ps) → Decidable (s.CurrentAt a)
  | .poll => inferInstanceAs (Decidable (s.Aligned → s.CurrentPoll))
  | .upload _ | .compact _ | .lock _ | .unlock _ => .isTrue trivial

/-- A file that shows the same keeps a fresh state fresh. -/
theorem Fresh.of_file (h : s.Fresh)
    (hfile : f'.settled = s.file.settled ∧ f'.pos = s.file.pos ∧ f'.commit = s.file.commit) :
    Fresh ⟨s.history, s.replica, f'⟩ := by
  obtain ⟨hsettled, hpos, hcommit⟩ := hfile
  intro k e hone hle he
  dsimp only at hle he ⊢
  rw [hcommit] at hle
  rw [hsettled] at he
  have hentry := h k e hone hle he
  rw [State.seen] at hentry ⊢
  dsimp only
  rwa [hpos]

/-- New files do not change what was seen. -/
theorem Fresh.upload (h : s.Fresh) (hvalid : s.Valid) (hfile : s.Uploads file) :
    Fresh ⟨s.history ++ [file], s.replica.put file hfile.2.2, s.file⟩ := by
  have hseen : State.seen ⟨s.history ++ [file], s.replica.put file hfile.2.2, s.file⟩ = s.seen := by
    obtain ⟨unseen, hhistory, hpos, -, -⟩ := hvalid.levelFiles_zero
    have happend : s.history ++ [file] = s.seen ++ (unseen ++ [file]) := by
      rw [← List.append_assoc, ← hhistory]
    exact seen_eq (hvalid.upload hfile).tiled happend hpos
  intro k e hone hle he
  rw [hseen]
  exact (h k e hone hle he).put hfile.2.2

theorem Fresh.compact (h : s.Fresh) (hfile : s.Compactable file) :
    Fresh ⟨s.history, s.replica.put file hfile.2.2.2, s.file⟩ :=
  fun k e hone hle he => (h k e hone hle he).put hfile.2.2.2

theorem freshAfter_iff (h : s.Valid) (hidle : Idle s.file) (hfresh : s.Fresh) :
    s.FreshAfter a ↔ s.CurrentAt a := by
  cases a with
  | upload file =>
      refine iff_of_true (fun s' hstep => ?_) trivial
      rw [State.step] at hstep
      split at hstep
      · next hfile =>
          obtain rfl := Option.some.inj hstep
          exact hfresh.upload h hfile
      · cases hstep
  | compact file =>
      refine iff_of_true (fun s' hstep => ?_) trivial
      rw [State.step] at hstep
      split at hstep
      · next hfile =>
          obtain rfl := Option.some.inj hstep
          exact hfresh.compact hfile
      · cases hstep
  | poll =>
      by_cases haligned : s.Aligned
      · obtain ⟨-, -, p0, p1, -, -, -, -, -, -, -, hpoll⟩ := h.poll haligned
        have hstep : State.step s .poll = some ⟨s.history, s.replica, s.file.applyPoll p0 p1⟩ := by
          rw [State.step, polled, hpoll]
        rw [FreshAfter, hstep]
        simp only [Option.some.injEq, forall_eq']
        exact (h.fresh_poll_iff hfresh haligned hpoll).trans
          ⟨fun hcurrent _ => hcurrent, fun hcurrent => hcurrent haligned⟩
      · refine iff_of_true (fun s' hstep => ?_) fun h => absurd h haligned
        obtain rfl := Option.some.inj hstep
        obtain ⟨err, herr⟩ := h.poll_error haligned
        rw [polled, herr]
        exact hfresh
  | lock elock =>
      refine iff_of_true (fun s' hstep => ?_) trivial
      obtain rfl := Option.some.inj hstep
      cases hlock : s.file.Lock elock with
      | ok f' => exact hfresh.of_file (hidle.lock hlock).2
      | error err => exact hfresh
  | unlock elock =>
      refine iff_of_true (fun s' hstep => ?_) trivial
      obtain rfl := Option.some.inj hstep
      cases hunlock : s.file.Unlock elock with
      | ok f' => exact hfresh.of_file (hidle.unlock hunlock).2
      | error err => exact hfresh

theorem idle_step (hidle : Idle s.file) (hstep : State.step s a = some s') :
    Idle s'.file := by
  cases a with
  | upload file =>
      rw [State.step] at hstep
      split at hstep
      · obtain rfl := Option.some.inj hstep
        exact hidle
      · cases hstep
  | compact file =>
      rw [State.step] at hstep
      split at hstep
      · obtain rfl := Option.some.inj hstep
        exact hidle
      · cases hstep
  | poll =>
      obtain rfl := Option.some.inj hstep
      cases hpoll : s.file.pollReplicaClient s.replica with
      | ok f' =>
          rw [polled, hpoll]
          exact hidle.poll hpoll
      | error err =>
          rw [polled, hpoll]
          exact hidle
  | lock elock =>
      obtain rfl := Option.some.inj hstep
      cases hlock : s.file.Lock elock with
      | ok f' => exact (hidle.lock hlock).1
      | error err => exact hidle
  | unlock elock =>
      obtain rfl := Option.some.inj hstep
      cases hunlock : s.file.Unlock elock with
      | ok f' => exact (hidle.unlock hunlock).1
      | error err => exact hidle

/-! ## From the opening on -/

/-- The file has opened a plan of the replica. -/
structure Opens (s : State ps) (plan : List (LTXFile ps)) : Prop where
  valid : s.Valid
  opened : ∃ f : VFSFile, s.file = f.rebuildIndex plan none
  stored : ∀ file ∈ plan, s.replica.Stored file
  merges : ∀ file ∈ plan, Merges s.history file
  le_pos : ∀ file ∈ plan, file.maxTXID ≤ s.file.pos

/-- No transaction up to the position has written a page, up to the commit size, past the file
of the plan that the index takes it from. -/
def CurrentPlan (s : State ps) (plan : List (LTXFile ps)) : Prop :=
  ∀ w ∈ mergeIndex plan, w.1 ≤ VFSFile.lastCommit plan →
    lastWrite (mergeIndex plan) w.1 = some w.2 → Newest s.seen w.1 w.2.maxTXID

instance (s : State ps) (plan : List (LTXFile ps)) : Decidable (s.CurrentPlan plan) :=
  inferInstanceAs (Decidable (∀ w ∈ mergeIndex plan, _))

variable {plan : List (LTXFile ps)} {as : List (Action ps)}

theorem Opens.idle (h : s.Opens plan) : Idle s.file := by
  obtain ⟨f, hf⟩ := h.opened
  rw [hf]
  exact fun _ => ⟨rfl, rfl⟩

theorem Opens.settled (h : s.Opens plan) : s.file.settled = mergeIndex plan := by
  rw [← h.idle.applied]
  obtain ⟨f, hf⟩ := h.opened
  rw [hf]
  exact List.append_nil _

theorem Opens.fresh_iff (h : s.Opens plan) : s.Fresh ↔ s.CurrentPlan plan := by
  have hcommit : s.file.commit = VFSFile.lastCommit plan := by
    obtain ⟨f, hf⟩ := h.opened
    rw [hf]
    rfl
  constructor
  · intro hfresh w hw hle he
    have hone : 1 ≤ w.1 := by
      obtain ⟨file, -, frame, hframe, hpgno, -⟩ := elem_of_lastWrite he
      exact hpgno ▸ (file.bounds frame hframe).1
    exact (hfresh w.1 w.2 hone (hcommit ▸ hle) (h.settled ▸ he)).newest
  · intro hcurrent k e _ hle he
    rw [h.settled] at he
    obtain ⟨unseen, hhistory, hpos, -, -⟩ := h.valid.levelFiles_zero
    refine freshEntry_of_merges (hhistory ▸ h.valid.tiled) h.stored (hhistory ▸ h.merges)
      (hpos ▸ h.le_pos) he (hcurrent (k, e) (mem_of_lastWrite he) (hcommit ▸ hle) he)

/-- The index of a file is fresh in every state of a run from its opening on, if and only if
the plan was current and each poll that is not rejected is. -/
theorem fresh_run_iff (h : s.Opens plan) :
    (s.Fresh ∧ Along State.step FreshAfter s as) ↔
      (s.CurrentPlan plan ∧ Along State.step CurrentAt s as) := by
  have hrun : s.Fresh → (Along State.step FreshAfter s as ↔ Along State.step CurrentAt s as) := by
    intro hfresh
    refine along_congr (I := fun m => m.Valid ∧ Idle m.file ∧ m.Fresh) ?_ ?_
      ⟨h.valid, h.idle, hfresh⟩
    · rintro m a m' ⟨hvalid, hidle, -⟩ hafter hstep
      exact ⟨hvalid.step hstep, idle_step hidle hstep, hafter m' hstep⟩
    · rintro m a ⟨hvalid, hidle, hfresh⟩
      exact freshAfter_iff hvalid hidle hfresh
  rw [← h.fresh_iff]
  exact and_congr_right hrun

end

/-! ## A level 1 file that lags behind level 0 -/

theorem opens_straddling : Straddling.opened.Opens [Straddling.first] where
  valid := Straddling.valid_opened
  opened := ⟨OnePage.file, rfl⟩
  stored := by
    intro file hfile
    rw [List.mem_singleton.mp hfile]
    exact List.mem_singleton_self _
  merges := by decide +kernel
  le_pos := by decide

/-- Level 1 catches up with level 0 while a read lock is held. -/
theorem fresh_run_iff_sample : Straddling.opened.Fresh ∧ Along State.step FreshAfter
    Straddling.opened [.upload Straddling.second, .lock .shared,
      .compact (Straddling.file 1 2 2 (by decide)), .poll, .unlock .none,
      .upload Straddling.third, .poll] :=
  (fresh_run_iff opens_straddling).mpr (by decide +kernel)

/-- A level 1 file of the second transaction hides the third. -/
theorem stale_entry : Straddling.opened.Opens [Straddling.first] ∧
    ∃ s, run State.step Straddling.opened [.upload Straddling.second, .upload Straddling.third,
        .compact (Straddling.file 1 2 2 (by decide)), .poll] = some s ∧
      s.file.pos = 3 ∧ s.file.commit = 1 ∧
      (lastWrite s.file.settled 1).bind s.replica.fetch = some (OnePage.page 2).data ∧
      lastWrite (mergePages s.seen) 1 = some (OnePage.page 3).data := by
  refine ⟨opens_straddling, ?_⟩
  have hany : (run State.step Straddling.opened [.upload Straddling.second,
      .upload Straddling.third, .compact (Straddling.file 1 2 2 (by decide)), .poll]).any (fun s =>
        s.file.pos = 3 ∧ s.file.commit = 1 ∧
        (lastWrite s.file.settled 1).bind s.replica.fetch = some (OnePage.page 2).data ∧
        lastWrite (mergePages s.seen) 1 = some (OnePage.page 3).data) = true := by
    decide +kernel
  rw [Option.any_eq_true] at hany
  obtain ⟨s, hs, hany⟩ := hany
  exact ⟨s, hs, of_decide_eq_true hany⟩

end State

end Vfs

end Litestream
