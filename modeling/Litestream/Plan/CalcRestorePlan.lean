import Litestream.Ltx.FileInfo

/-!
# The restore planner

`calcRestorePlan` picks the files a restore reads.  It starts from the latest usable
snapshot and keeps one cursor for each level `8` down to `0`.  A round refreshes every
cursor, takes the best candidate over all of them and appends it to the plan.  The rounds
stop when no cursor has a candidate or the target TXID is reached.

A target TXID of zero and a zero timestamp stand for an absent target, as in the source.

The loop over rounds takes fuel.  `planFuel` is enough fuel for every client: a round
that goes on uses up one candidate, and a candidate is one listed file.
-/

namespace Litestream

/-- Why no plan is returned. -/
inductive RestoreError where
  /-- Both a TXID and a timestamp are given. -/
  | txIDAndTimestamp
  /-- `ErrTxNotAvailable`. -/
  | txNotAvailable
  /-- The listed files go on after a gap: the end of the plan and the next file's start. -/
  | nonContiguous (currentMax minTXID : Nat)
  /-- A listing failed. -/
  | client (err : ClientError)
deriving DecidableEq, Repr

/-- A file no later than the targets: the filter of snapshots and of candidates. -/
def eligible (txID timestamp : Nat) (info : FileInfo) : Bool :=
  !(txID != 0 && txID < info.maxTXID) && !(timestamp != 0 && timestamp ≤ info.createdAt)

/-- Whether `next` is a better candidate than `curr`. -/
def restoreCandidateBetter (curr next : FileInfo) : Bool :=
  if next.maxTXID ≠ curr.maxTXID then curr.maxTXID < next.maxTXID
  else if next.minTXID ≠ curr.minTXID then next.minTXID < curr.minTXID
  else if next.level ≠ curr.level then curr.level < next.level
  else next.createdAt < curr.createdAt

/-! ## Cursors -/

/-- The position in the listing of one level. -/
structure RestoreLevelCursor where
  /-- What the iterator has not returned yet. -/
  itr : FileIterator
  /-- The last item read from the iterator but not yet evaluated. -/
  current : Option FileInfo := none
  /-- The best eligible file seen so far. -/
  candidate : Option FileInfo := none
  /-- The iterator is exhausted. -/
  done : Bool := false
deriving DecidableEq

namespace RestoreLevelCursor

/-- Reads the next item into `current`, or marks the cursor done. -/
def ensureCurrent (c : RestoreLevelCursor) : Except RestoreError RestoreLevelCursor :=
  if c.done || c.current.isSome then .ok c
  else
    match c.itr.items, c.itr.err with
    | info :: rest, _ => .ok { c with itr := ⟨rest, c.itr.err⟩, current := some info }
    | [], some err => .error (.client err)
    | [], none => .ok { c with done := true }

/-- The candidate after evaluating one file that is contiguous with `currentMax`. -/
def consider (currentMax txID timestamp : Nat) (candidate : Option FileInfo) (info : FileInfo) :
    Option FileInfo :=
  if info.maxTXID ≤ currentMax then candidate
  else if !eligible txID timestamp info then candidate
  else
    match candidate with
    | none => some info
    | some curr => if restoreCandidateBetter curr info then some info else some curr

/-- The loop of `refresh` over the files not yet evaluated, `current` first. -/
def advance (currentMax txID timestamp : Nat) (err : Option ClientError) :
    List FileInfo → Option FileInfo → Except RestoreError RestoreLevelCursor
  | [], candidate =>
      match err with
      | some err => .error (.client err)
      | none => .ok { itr := ⟨[], none⟩, candidate, done := true }
  | info :: rest, candidate =>
      if nextTXID currentMax < info.minTXID then
        .ok { itr := ⟨rest, err⟩, current := some info, candidate }
      else
        advance currentMax txID timestamp err rest
          (consider currentMax txID timestamp candidate info)

/-- The files not yet evaluated. -/
def pending (c : RestoreLevelCursor) : List FileInfo := c.current.toList ++ c.itr.items

/-- The candidate, unless `currentMax` has overtaken it. -/
def freshCandidate (c : RestoreLevelCursor) (currentMax : Nat) : Option FileInfo :=
  c.candidate.filter fun info => currentMax < info.maxTXID

/-- Evaluates every file that could be contiguous with `currentMax` and keeps the best. -/
def refresh (currentMax txID timestamp : Nat) (c : RestoreLevelCursor) :
    Except RestoreError RestoreLevelCursor :=
  if c.done then .ok c
  else advance currentMax txID timestamp c.itr.err c.pending (c.freshCandidate currentMax)

end RestoreLevelCursor

/-- Refreshes every cursor, stopping at the first error. -/
def refreshAll (currentMax txID timestamp : Nat) :
    List RestoreLevelCursor → Except RestoreError (List RestoreLevelCursor)
  | [] => .ok []
  | c :: cs => do
      let c ← c.refresh currentMax txID timestamp
      let cs ← refreshAll currentMax txID timestamp cs
      return c :: cs

/-- The position and candidate of the cursor to take: the first of the best. -/
def selectNext : List RestoreLevelCursor → Nat → Option (Nat × FileInfo) → Option (Nat × FileInfo)
  | [], _, next => next
  | c :: cs, i, next =>
      match c.candidate, next with
      | none, _ => selectNext cs (i + 1) next
      | some info, none => selectNext cs (i + 1) (some (i, info))
      | some info, some (j, best) =>
          if restoreCandidateBetter best info then selectNext cs (i + 1) (some (i, info))
          else selectNext cs (i + 1) (some (j, best))

/-- Drops the candidate of the cursor at position `i`. -/
def clearCandidate (cursors : List RestoreLevelCursor) (i : Nat) : List RestoreLevelCursor :=
  cursors.modify i fun c => { c with candidate := none }

/-! ## The plan -/

/-- The plan so far, its last TXID and the cursors. -/
structure PlanState where
  infos : List FileInfo
  currentMax : Nat
  cursors : List RestoreLevelCursor

/-- The rounds of the planner. -/
def planLoop (txID timestamp : Nat) : Nat → PlanState → Except RestoreError PlanState
  | 0, s => .ok s
  | fuel + 1, s => do
      let cursors ← refreshAll s.currentMax txID timestamp s.cursors
      match selectNext cursors 0 none with
      | none => return { s with cursors }
      | some (i, info) =>
          let cursors := clearCandidate cursors i
          if info.maxTXID ≤ s.currentMax then
            planLoop txID timestamp fuel { s with cursors }
          else
            let s : PlanState := ⟨s.infos ++ [info], info.maxTXID, cursors⟩
            if txID ≠ 0 ∧ txID ≤ info.maxTXID then return s
            else planLoop txID timestamp fuel s

/-- One more than the number of candidates the cursors can still offer. -/
def planFuel (cursors : List RestoreLevelCursor) : Nat :=
  (cursors.map fun c => c.pending.length + c.candidate.toList.length).sum + 1

/-- The check that no level goes on after a gap. -/
def checkGap (currentMax : Nat) : List RestoreLevelCursor → Except RestoreError Unit
  | [] => .ok ()
  | c :: cs => do
      let c ← c.ensureCurrent
      match c.current with
      | some info =>
          if nextTXID currentMax < info.minTXID then
            .error (.nonContiguous currentMax info.minTXID)
          else checkGap currentMax cs
      | none => checkGap currentMax cs

/-- The last usable snapshot of a listing. -/
def findSnapshot (txID timestamp : Nat) (infos : List FileInfo) : Option FileInfo :=
  infos.foldl (fun snapshot info => if eligible txID timestamp info then some info else snapshot)
    none

/-- A client error as an error of the planner. -/
def liftClient {α : Type} : Except ClientError α → Except RestoreError α
  | .ok a => .ok a
  | .error err => .error (.client err)

/-- One cursor for each level from `n - 1` down to zero. -/
def openCursors (client : ReplicaClient) (useMetadata : Bool) :
    Nat → Except RestoreError (List RestoreLevelCursor)
  | 0 => .ok []
  | n + 1 => do
      let itr ← liftClient (client.ltxFiles n 0 useMetadata)
      let cursors ← openCursors client useMetadata n
      return { itr } :: cursors

/-- The checks after the last round. -/
def finishPlan (txID timestamp : Nat) (s : PlanState) : Except RestoreError (List FileInfo) := do
  if s.infos ≠ [] ∧ txID = 0 ∧ timestamp = 0 then
    checkGap s.currentMax s.cursors
  if s.infos = [] then throw .txNotAvailable
  if txID ≠ 0 ∧ FileInfo.sliceMaxTXID s.infos < txID then throw .txNotAvailable
  return s.infos

/-- The files to restore a database from, in order. -/
def calcRestorePlan (client : ReplicaClient) (txID timestamp : Nat) :
    Except RestoreError (List FileInfo) := do
  if txID ≠ 0 ∧ timestamp ≠ 0 then throw .txIDAndTimestamp
  let useMetadata := timestamp != 0
  let itr ← liftClient (client.ltxFiles snapshotLevel 0 useMetadata)
  if let some err := itr.err then throw (.client err)
  let infos := (findSnapshot txID timestamp itr.items).toList
  let currentMax := FileInfo.sliceMaxTXID infos
  if txID ≠ 0 ∧ txID ≤ currentMax then return infos
  let cursors ← openCursors client useMetadata snapshotLevel
  let s ← planLoop txID timestamp (planFuel cursors) ⟨infos, currentMax, cursors⟩
  finishPlan txID timestamp s

end Litestream
