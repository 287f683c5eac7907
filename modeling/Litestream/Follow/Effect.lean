import Litestream.Follow.Poll

/-!
# What a poll does to the follower

A poll applies the operations of the files that it tries, one after the other
(`applyNewLTXFiles_eq`).  If it succeeds, these files are a chain from the position of the
follower to the one returned (`applyNewLTXFiles_ok`).

The operations are made on the live database.  So a poll that fails leaves the follower as
it was only if it fails before the first write, and `tick_keeps_iff` says so exactly.
-/

namespace Litestream

open Bytes FileOp

namespace Poll

variable {pageSize : Nat} (poll : Poll pageSize)

/-- The operations that files make on the database, one after the other. -/
def ops (infos : List FileInfo) : List FileOp := infos.flatMap fun info => (poll.stream info).ops

theorem ops_concat (infos : List FileInfo) (info : FileInfo) :
    poll.ops (infos ++ [info]) = poll.ops infos ++ (poll.stream info).ops := by
  simp [ops]

/-- The files of a poll that has reached a position. -/
structure Reached (afterTXID : Nat) (f : Bytes) (currentTXID : Nat) (f' : Bytes)
    (infos : List FileInfo) : Prop where
  effect : f' = runAll f (poll.ops infos)
  chain : FileInfo.Chain afterTXID infos
  reach : FileInfo.reach afterTXID infos = currentTXID
  applied : ∀ info ∈ infos, poll.Listed info ∧ (poll.stream info).err = none

variable {poll}

/-- Applying a file that is due goes on with the chain. -/
theorem Reached.apply {afterTXID currentTXID : Nat} {f f' : Bytes} {infos : List FileInfo}
    {info : FileInfo} (h : poll.Reached afterTXID f currentTXID f' infos)
    (hlisted : poll.Listed info) (hmin : info.minTXID ≤ nextTXID currentTXID)
    (hmax : currentTXID < info.maxTXID) (herr : (poll.stream info).err = none) :
    poll.Reached afterTXID f info.maxTXID (runAll f' (poll.stream info).ops) (infos ++ [info]) where
  effect := by rw [ops_concat, runAll_append, ← h.effect]
  chain := by
    have hreach : Cover.reach FileInfo.maxTXID afterTXID infos = currentTXID := h.reach
    exact h.chain.concat (by rw [hreach]; exact hmin.trans (nextTXID_le _)) (by rwa [hreach])
  reach := Cover.reach_concat afterTXID infos info
  applied := by
    intro i hi
    rcases List.mem_append.mp hi with hi | hi
    · exact h.applied i hi
    · rw [List.mem_singleton.mp hi]
      exact ⟨hlisted, herr⟩

variable (poll)

theorem applyNewLTXFiles_related (afterTXID : Nat) (f : Bytes) :
    Related (poll.Reached afterTXID f) (fun f' infos => f' = runAll f (poll.ops infos)) id
      (poll.applyNewLTXFiles afterTXID f) (poll.trace afterTXID) := by
  refine applyNewLTXFilesTo_related (fun cur f' infos h => h.effect) ?_
    ⟨rfl, trivial, rfl, fun _ h => (List.not_mem_nil h).elim⟩
  intro info cur f' infos hlisted hmin hmax h
  show Applies _ _ info (applyLTXFile (poll.stream info) f')
    ((poll.stream info).err, infos ++ [info])
  rw [LTXStream.applyLTXFile_eq]
  cases herr : (poll.stream info).err with
  | none => exact h.apply hlisted hmin hmax herr
  | some e =>
      refine ⟨rfl, ?_⟩
      show _ = runAll f (poll.ops (infos ++ [info]))
      rw [ops_concat, runAll_append, ← h.effect]

/-- What a poll returns does not depend on the database, and its effect is that of the
files it tries. -/
theorem applyNewLTXFiles_eq (afterTXID : Nat) (f : Bytes) :
    poll.applyNewLTXFiles afterTXID f =
      ((poll.trace afterTXID).1, runAll f (poll.ops (poll.tried afterTXID))) := by
  have h := poll.applyNewLTXFiles_related afterTXID f
  unfold tried
  revert h
  rcases poll.applyNewLTXFiles afterTXID f with ⟨e | cur, f'⟩ <;>
    rcases poll.trace afterTXID with ⟨e' | cur', infos⟩ <;> intro h
  · obtain ⟨rfl, rfl⟩ := h
    rfl
  · exact h.elim
  · exact h.elim
  · obtain ⟨rfl, h⟩ := h
    rw [h.effect]

variable {poll}

/-- The files of a poll that succeeds are a chain. -/
theorem applyNewLTXFiles_ok {afterTXID txID : Nat} {f f' : Bytes}
    (h : poll.applyNewLTXFiles afterTXID f = (.ok txID, f')) :
    poll.Reached afterTXID f txID f' (poll.tried afterTXID) := by
  have hrel := poll.applyNewLTXFiles_related afterTXID f
  unfold tried
  rw [h] at hrel
  revert hrel
  rcases poll.trace afterTXID with ⟨e | cur, infos⟩ <;> intro hrel
  · exact hrel.elim
  · obtain ⟨rfl, hreached⟩ := hrel
    exact hreached

end Poll

/-! ## One tick of the follower -/

/-- The database and the TXID in its sidecar file. -/
structure Follower where
  database : Bytes
  txID : Nat
deriving DecidableEq

namespace Poll

variable {pageSize : Nat} (poll : Poll pageSize)

/-- One tick of `Replica.follow`, with the error that ends the loop.  `writeTXIDFile` is the
error of writing a TXID to the sidecar file and what the sidecar file has then. -/
def tick (writeTXIDFile : Nat → Option ClientError × Nat) (s : Follower) :
    Option ClientError × Follower :=
  match poll.applyNewLTXFiles s.txID s.database with
  | (.error _, f) => (none, { s with database := f })
  | (.ok newTXID, f) =>
      if s.txID < newTXID then
        match writeTXIDFile newTXID with
        | (err, txID) => (err, ⟨f, txID⟩)
      else (none, { s with database := f })

/-- The poll fails, whatever the database is. -/
def Fails (afterTXID : Nat) : Prop := ∃ e, (poll.trace afterTXID).1 = .error e

/-- A failing poll leaves every follower as it was if and only if the files that it tries
write and truncate nothing before it fails. -/
theorem tick_keeps_iff (writeTXIDFile : Nat → Option ClientError × Nat) (afterTXID : Nat) :
    (∀ (s : Follower) (e : FollowError) (f : Bytes), s.txID = afterTXID →
      poll.applyNewLTXFiles s.txID s.database = (.error e, f) →
        poll.tick writeTXIDFile s = (none, s)) ↔
    (poll.Fails afterTXID →
      ∀ info ∈ poll.tried afterTXID, ∀ op ∈ (poll.stream info).ops, ¬ op.Effective) := by
  have hops : (∀ info ∈ poll.tried afterTXID, ∀ op ∈ (poll.stream info).ops, ¬ op.Effective) ↔
      ∀ f, runAll f (poll.ops (poll.tried afterTXID)) = f := by
    rw [runAll_eq_self_iff]
    simp only [ops, List.mem_flatMap, forall_exists_index, and_imp]
    exact ⟨fun h op info hi hop => h info hi op hop, fun h info hi op hop => h op info hi hop⟩
  rw [hops]
  constructor
  · rintro h ⟨e, he⟩ f
    have hpoll := poll.applyNewLTXFiles_eq afterTXID f
    rw [he] at hpoll
    have hkeep := h ⟨f, afterTXID⟩ e _ rfl hpoll
    unfold tick at hkeep
    simp only [hpoll] at hkeep
    exact congrArg Follower.database (Prod.mk.inj hkeep).2
  · rintro h ⟨f, txID⟩ e f' rfl hpoll
    have heq := poll.applyNewLTXFiles_eq txID f
    simp only at hpoll
    rw [hpoll] at heq
    obtain ⟨he, hf'⟩ := Prod.mk.inj heq
    rw [h ⟨e, he.symm⟩ f] at hf'
    unfold tick
    simp only [hpoll, hf']

end Poll

/-! ## A follower with one page -/

namespace OnePage

/-- A database with one empty page. -/
def database : Bytes := List.replicate 512 0

theorem length_database : database.length = 512 := List.length_replicate

/-- A level 0 file of one transaction. -/
def file (txID : Nat) : FileInfo := ⟨0, txID, txID, 0, 0⟩

/-- A file that adds page 2. -/
def stream (openErr : Option ClientError) : LTXStream 512 where
  openErr := openErr
  header := .ok 2
  lockErr := none
  pages := [⟨2, List.replicate 512 1, List.length_replicate, [0, 0, 0, 0], rfl, none⟩]
  decodeErr := none
  truncateErr := none
  closeErr := none
  syncErr := none

def client (infos : List FileInfo) : ReplicaClient where
  ltxFiles level seek _ := .ok ⟨infos.filter fun f => f.level = level ∧ seek ≤ f.minTXID, none⟩

/-- A poll that finds two files, the second of which is missing when it is opened. -/
def poll : Poll 512 where
  client := fun _ => client [file 2, file 3]
  closeErr := fun _ _ => none
  stream := fun info => stream (if info = file 3 then some "not found" else none)

end OnePage

/-- The first file of a poll stays applied when the second one fails. -/
theorem tick_tears : ∃ (s : Follower) (e : FollowError) (f : Bytes),
    OnePage.poll.applyNewLTXFiles s.txID s.database = (.error e, f) ∧
      OnePage.poll.tick (fun txID => (none, txID)) s ≠ (none, s) := by
  have herr : (OnePage.poll.applyNewLTXFiles 1 OnePage.database).1 =
      .error (.applyLTXFile (OnePage.file 3) (.openLTXFile "not found")) := by
    decide +kernel
  have hlen : (OnePage.poll.tick (fun txID => (none, txID))
      ⟨OnePage.database, 1⟩).2.database.length = 1024 := by
    decide +kernel
  refine ⟨⟨OnePage.database, 1⟩, _, _, Prod.ext herr (Eq.refl _), fun h => ?_⟩
  rw [h] at hlen
  exact absurd hlen (by decide +kernel)

end Litestream
