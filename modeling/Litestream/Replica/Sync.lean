import Litestream.Lib.Run

/-!
# Replicating level 0

A database writes level 0 files locally, one for each transaction, and `Replica.Sync`
uploads those past its own position.  The replica computes its position from a listing
once and caches it until an error.  The local files can be reset at any time, and the
database then starts over at TXID 1.

A run of `Replica.Sync` is several steps, because the database syncs and is reset while
an upload is under way.  The file contents are of any type `β`.

`State.lineage` is a ghost.  It holds the files written since the database last started
over, with the replica's own files before those when the database took over the
position of the replica (`checkDatabaseBehindReplica`).
-/

namespace Litestream

/-! ## Level 0 files -/

/-- The contents of level 0 files by TXID.  The first entry for a TXID counts. -/
abbrev L0Files (β : Type) := List (Nat × β)

namespace L0Files

variable {β : Type} {l : L0Files β} {t u : Nat} {b : β}

def get (l : L0Files β) (t : Nat) : Option β := l.lookup t

/-- Writes a file, in place of one of the same TXID. -/
def put (l : L0Files β) (t : Nat) (b : β) : L0Files β := (t, b) :: l

/-- The largest TXID, zero if there is no file. -/
def maxTXID : L0Files β → Nat
  | [] => 0
  | e :: l => max e.1 (maxTXID l)

@[simp] theorem get_nil : get ([] : L0Files β) t = none := rfl

theorem get_put : get (l.put t b) u = if u = t then some b else l.get u := by
  by_cases h : u = t
  · simp [get, put, h]
  · have hbeq : (u == t) = false := by simpa using h
    simp [get, put, List.lookup, h, hbeq]

@[simp] theorem maxTXID_nil : maxTXID ([] : L0Files β) = 0 := rfl

@[simp] theorem maxTXID_put : (l.put t b).maxTXID = max t l.maxTXID := rfl

theorem le_maxTXID (h : l.get t = some b) : t ≤ l.maxTXID := by
  induction l with
  | nil => cases h
  | cons e l ih =>
      have hget : get (e :: l) t = if t = e.1 then some e.2 else get l t := get_put
      rw [hget] at h
      rw [maxTXID]
      split at h
      · omega
      · have := ih h
        omega

/-- The file with the largest TXID is there. -/
theorem exists_get_maxTXID (h : l.maxTXID ≠ 0) : ∃ b, l.get l.maxTXID = some b := by
  induction l with
  | nil => exact absurd rfl h
  | cons e l ih =>
      have hget : ∀ u, get (e :: l) u = if u = e.1 then some e.2 else get l u := fun _ => get_put
      rw [maxTXID, hget]
      rw [maxTXID] at h
      by_cases he : maxTXID l ≤ e.1
      · exact ⟨e.2, if_pos (Nat.max_eq_left he)⟩
      · obtain ⟨b, hb⟩ := ih (by omega)
        refine ⟨b, ?_⟩
        rw [Nat.max_eq_right (by omega), if_neg (by omega)]
        exact hb

end L0Files

/-! ## The system -/

namespace ReplicaSync

variable {β : Type}

/-- Where a run of `Replica.Sync` is. -/
inductive Phase (β : Type) where
  | idle
  /-- The position of the replica is known. -/
  | located
  /-- The position of the database has been read. -/
  | uploading (dpos : Nat)
  /-- A local file has been opened and is being written to the replica. -/
  | storing (dpos txID : Nat) (bytes : β)

structure State (β : Type) where
  /-- The local level 0 files. -/
  db : L0Files β
  /-- The level 0 files of the current local lineage. -/
  lineage : L0Files β
  /-- The level 0 files of the replica. -/
  remote : L0Files β
  /-- The cached position of the replica, zero if unknown. -/
  pos : Nat
  phase : Phase β

/-- A new database with an empty replica. -/
def State.empty : State β := ⟨[], [], [], 0, .idle⟩

inductive Action (β : Type) where
  /-- `DB.sync` writes the next level 0 file. -/
  | dbSync (bytes : β)
  | resetLocalState
  /-- Runs before the replica is started, and may fail to fetch the file. -/
  | checkDatabaseBehindReplica (fetched : Bool)
  /-- The process restarts. -/
  | restart
  /-- `Replica.Sync` starts and computes its position if it is unknown. -/
  | start (listed : Bool)
  /-- `Replica.Sync` reads the position of the database. -/
  | readPos (read : Bool)
  /-- `Replica.Sync` opens the next local file. -/
  | openFile
  | store
  /-- The upload fails, with or without the object stored. -/
  | failStore (stored : Bool)
  /-- `Replica.Sync` returns nil. -/
  | finish

/-- An error clears the cached position. -/
def State.fail (s : State β) : State β := { s with pos := 0, phase := .idle }

def step (s : State β) : Action β → Option (State β)
  | .dbSync bytes =>
      let txID := s.db.maxTXID + 1
      some { s with
        db := s.db.put txID bytes
        lineage := if s.db.maxTXID = 0 then [(txID, bytes)] else s.lineage.put txID bytes }
  | .resetLocalState => some { s with db := [] }
  | .checkDatabaseBehindReplica fetched =>
      match s.phase with
      | .idle =>
          let maxTXID := s.remote.maxTXID
          if maxTXID = 0 ∨ maxTXID ≤ s.db.maxTXID then some s
          else
            match s.remote.get maxTXID, fetched with
            | some bytes, true => some { s with db := [(maxTXID, bytes)], lineage := s.remote }
            | _, _ => some { s with db := [] }
      | _ => none
  | .restart => some s.fail
  | .start listed =>
      match s.phase with
      | .idle =>
          if s.pos ≠ 0 then some { s with phase := .located }
          else if listed then some { s with pos := s.remote.maxTXID, phase := .located }
          else some s.fail
      | _ => none
  | .readPos read =>
      match s.phase with
      | .located =>
          if read ∧ s.db.maxTXID ≠ 0 then some { s with phase := .uploading s.db.maxTXID }
          else some s.fail
      | _ => none
  | .openFile =>
      match s.phase with
      | .uploading dpos =>
          if s.pos + 1 ≤ dpos then
            match s.db.get (s.pos + 1) with
            | some bytes => some { s with phase := .storing dpos (s.pos + 1) bytes }
            | none => some s.fail
          else none
      | _ => none
  | .store =>
      match s.phase with
      | .storing dpos txID bytes =>
          some { s with remote := s.remote.put txID bytes, pos := txID, phase := .uploading dpos }
      | _ => none
  | .failStore stored =>
      match s.phase with
      | .storing _ txID bytes =>
          some ({ s with
            remote := if stored then s.remote.put txID bytes else s.remote } : State β).fail
      | _ => none
  | .finish =>
      match s.phase with
      | .uploading dpos => if dpos < s.pos + 1 then some { s with phase := .idle } else none
      | _ => none

/-! ## One lineage -/

/-- An upload is under way. -/
def Phase.InFlight (p : Phase β) : Prop := ∃ dpos txID bytes, p = .storing dpos txID bytes

instance (p : Phase β) : Decidable p.InFlight :=
  match p with
  | .idle => isFalse (fun h => by obtain ⟨_, _, _, h⟩ := h; cases h)
  | .located => isFalse (fun h => by obtain ⟨_, _, _, h⟩ := h; cases h)
  | .uploading _ => isFalse (fun h => by obtain ⟨_, _, _, h⟩ := h; cases h)
  | .storing dpos txID bytes => isTrue ⟨dpos, txID, bytes, rfl⟩

/-- The database starts a new lineage only while the replica has no level 0 file and none
is being uploaded. -/
def StartsClean (s : State β) : Action β → Prop
  | .dbSync _ => s.db.maxTXID = 0 → s.remote = [] ∧ ¬ s.phase.InFlight
  | _ => True

instance [DecidableEq β] (s : State β) (a : Action β) : Decidable (StartsClean s a) :=
  match a with
  | .dbSync _ =>
      inferInstanceAs (Decidable (s.db.maxTXID = 0 → s.remote = [] ∧ ¬ s.phase.InFlight))
  | .resetLocalState | .checkDatabaseBehindReplica _ | .restart | .start _ | .readPos _
  | .openFile | .store | .failStore _ | .finish => isTrue trivial

/-- What holds of the phase of a run. -/
def PhaseInv (s : State β) : Prop :=
  match s.phase with
  | .idle | .located => True
  | .uploading dpos => s.pos ≤ dpos
  | .storing dpos txID bytes =>
      txID = s.pos + 1 ∧ txID ≤ dpos ∧ s.lineage.get txID = some bytes

/-- Every file, local, remote or on its way, is one of the current lineage. -/
structure Agrees (s : State β) : Prop where
  remote : ∀ t b, s.remote.get t = some b → s.lineage.get t = some b
  db : ∀ t b, s.db.get t = some b → s.lineage.get t = some b
  db_max : s.db.maxTXID ≠ 0 → s.db.maxTXID = s.lineage.maxTXID
  db_nil : s.db.maxTXID = 0 → s.db = []
  pos : s.pos = 0 ∨ ∃ b, s.remote.get s.pos = some b
  phase : PhaseInv s

theorem Agrees.empty : Agrees (State.empty : State β) where
  remote := fun _ _ h => by cases h
  db := fun _ _ h => by cases h
  db_max := fun h => absurd rfl h
  db_nil := fun _ => rfl
  pos := Or.inl rfl
  phase := trivial

theorem Agrees.fail {s : State β} (h : Agrees s) : Agrees s.fail where
  remote := h.remote
  db := h.db
  db_max := h.db_max
  db_nil := h.db_nil
  pos := Or.inl rfl
  phase := trivial

variable {s s' : State β}

/-- A file of the current lineage keeps its content when the next one is written. -/
theorem get_put_next {l : L0Files β} {t : Nat} {b b' : β} (h : l.get t = some b) :
    (l.put (l.maxTXID + 1) b').get t = some b := by
  rw [L0Files.get_put, if_neg]
  · exact h
  · have := L0Files.le_maxTXID h
    omega

theorem Agrees.dbSync {bytes : β} (h : Agrees s) (hG : StartsClean s (.dbSync bytes))
    (hs : step s (.dbSync bytes) = some s') : Agrees s' := by
  simp only [step, Option.some.injEq] at hs
  subst hs
  by_cases h0 : s.db.maxTXID = 0
  · -- a new lineage, on an empty replica
    obtain ⟨hremote, hflight⟩ := hG h0
    have hdb := h.db_nil h0
    have hpos : s.pos = 0 := by
      rcases h.pos with hpos | ⟨b, hb⟩
      · exact hpos
      · rw [hremote] at hb
        cases hb
    refine ⟨?_, ?_, ?_, ?_, Or.inl hpos, ?_⟩
    · simp [hremote]
    · simp [hdb, L0Files.put]
    · simp [hdb, L0Files.put, L0Files.maxTXID]
    · simp
    · have hphase := h.phase
      simp only [PhaseInv] at hphase ⊢
      cases hp : s.phase with
      | idle => trivial
      | located => trivial
      | uploading dpos =>
          rw [hp] at hphase
          exact hphase
      | storing dpos txID bytes' => exact absurd ⟨dpos, txID, bytes', hp⟩ hflight
  · have hmax := h.db_max h0
    have h0' : s.lineage.maxTXID ≠ 0 := hmax ▸ h0
    simp only [hmax, if_neg h0']
    refine ⟨fun t b ht => get_put_next (h.remote t b ht), fun t b ht => ?_, ?_, ?_, h.pos, ?_⟩
    · rw [L0Files.get_put] at ht ⊢
      split at ht
      · next heq => rwa [if_pos heq]
      · next hne =>
          rw [if_neg hne]
          exact h.db t b ht
    · simp [hmax]
    · simp
    · have hphase := h.phase
      simp only [PhaseInv] at hphase ⊢
      cases hp : s.phase with
      | idle => trivial
      | located => trivial
      | uploading dpos =>
          rw [hp] at hphase
          exact hphase
      | storing dpos txID bytes' =>
          rw [hp] at hphase
          exact ⟨hphase.1, hphase.2.1, get_put_next hphase.2.2⟩

theorem Agrees.resetLocalState (h : Agrees s) (hs : step s .resetLocalState = some s') :
    Agrees s' := by
  simp only [step, Option.some.injEq] at hs
  subst hs
  exact ⟨h.remote, fun _ _ ht => (by cases ht), fun h0 => absurd rfl h0, fun _ => rfl, h.pos,
    h.phase⟩

theorem Agrees.checkDatabaseBehindReplica {fetched : Bool} (h : Agrees s)
    (hs : step s (.checkDatabaseBehindReplica fetched) = some s') : Agrees s' := by
  cases hp : s.phase with
  | idle =>
      simp only [step, hp] at hs
      have hcleared : Agrees ({ s with db := [], phase := .idle } : State β) := by
        rw [← hp]
        exact h.resetLocalState rfl
      split at hs
      · cases hs
        exact h
      · next hbehind =>
          cases hget : s.remote.get s.remote.maxTXID with
          | none =>
              simp only [hget, Option.some.injEq] at hs
              subst hs
              exact hcleared
          | some bytes =>
              cases fetched with
              | false =>
                  simp only [hget, Option.some.injEq] at hs
                  subst hs
                  exact hcleared
              | true =>
                  -- the lineage goes on from that of the replica
                  simp only [hget, Option.some.injEq] at hs
                  subst hs
                  refine ⟨fun _ _ ht => ht, fun t b ht => ?_, fun _ => ?_, fun h0 => ?_, h.pos,
                    by simp [PhaseInv]⟩
                  · have ht : L0Files.get (L0Files.put [] s.remote.maxTXID bytes) t = some b := ht
                    rw [L0Files.get_put] at ht
                    split at ht
                    · next heq =>
                        rw [heq]
                        exact hget.trans ht
                    · cases ht
                  · simp [L0Files.maxTXID]
                  · exact absurd h0 (by simp [L0Files.maxTXID]; omega)
  | located => simp [step, hp] at hs
  | uploading dpos => simp [step, hp] at hs
  | storing dpos txID bytes => simp [step, hp] at hs

theorem Agrees.start {listed : Bool} (h : Agrees s) (hs : step s (.start listed) = some s') :
    Agrees s' := by
  cases hp : s.phase with
  | idle =>
      simp only [step, hp] at hs
      split at hs
      · cases hs
        exact { h with phase := trivial }
      · split at hs
        · cases hs
          refine { h with pos := ?_, phase := trivial }
          by_cases h0 : s.remote.maxTXID = 0
          · exact Or.inl h0
          · exact Or.inr (L0Files.exists_get_maxTXID h0)
        · cases hs
          exact h.fail
  | located => simp [step, hp] at hs
  | uploading dpos => simp [step, hp] at hs
  | storing dpos txID bytes => simp [step, hp] at hs

theorem Agrees.readPos {read : Bool} (h : Agrees s) (hs : step s (.readPos read) = some s') :
    Agrees s' := by
  cases hp : s.phase with
  | located =>
      simp only [step, hp] at hs
      split at hs
      · next hread =>
          cases hs
          refine { h with phase := ?_ }
          -- the position of the replica is one of the lineage, which the database is at
          rcases h.pos with hpos | ⟨b, hb⟩
          · simp [PhaseInv, hpos]
          · have := L0Files.le_maxTXID (h.remote _ _ hb)
            rw [← h.db_max hread.2] at this
            exact this
      · cases hs
        exact h.fail
  | idle => simp [step, hp] at hs
  | uploading dpos => simp [step, hp] at hs
  | storing dpos txID bytes => simp [step, hp] at hs

theorem Agrees.openFile (h : Agrees s) (hs : step s .openFile = some s') : Agrees s' := by
  cases hp : s.phase with
  | uploading dpos =>
      simp only [step, hp] at hs
      split at hs
      · next hle =>
          cases hget : s.db.get (s.pos + 1) with
          | none =>
              rw [hget] at hs
              cases hs
              exact h.fail
          | some bytes =>
              rw [hget] at hs
              cases hs
              exact { h with phase := ⟨rfl, hle, h.db _ _ hget⟩ }
      · cases hs
  | idle => simp [step, hp] at hs
  | located => simp [step, hp] at hs
  | storing dpos txID bytes => simp [step, hp] at hs

/-- The replica stays within the lineage when the file in flight is stored. -/
theorem Agrees.put_remote (h : Agrees s) {dpos txID : Nat} {bytes : β}
    (hp : s.phase = .storing dpos txID bytes) :
    ∀ t b, (s.remote.put txID bytes).get t = some b → s.lineage.get t = some b := by
  intro t b ht
  have hphase := h.phase
  simp only [PhaseInv, hp] at hphase
  rw [L0Files.get_put] at ht
  split at ht
  · next heq =>
      rw [heq, hphase.2.2]
      exact ht
  · exact h.remote t b ht

theorem Agrees.store (h : Agrees s) (hs : step s .store = some s') : Agrees s' := by
  cases hp : s.phase with
  | storing dpos txID bytes =>
      have hphase := h.phase
      simp only [PhaseInv, hp] at hphase
      simp only [step, hp, Option.some.injEq] at hs
      subst hs
      exact ⟨h.put_remote hp, h.db, h.db_max, h.db_nil,
        Or.inr ⟨bytes, by rw [L0Files.get_put, if_pos rfl]⟩, hphase.2.1⟩
  | idle => simp [step, hp] at hs
  | located => simp [step, hp] at hs
  | uploading dpos => simp [step, hp] at hs

theorem Agrees.failStore {stored : Bool} (h : Agrees s)
    (hs : step s (.failStore stored) = some s') : Agrees s' := by
  cases hp : s.phase with
  | storing dpos txID bytes =>
      simp only [step, hp, Option.some.injEq] at hs
      subst hs
      refine ⟨?_, h.db, h.db_max, h.db_nil, Or.inl rfl, trivial⟩
      cases stored with
      | true => exact h.put_remote hp
      | false => exact h.remote
  | idle => simp [step, hp] at hs
  | located => simp [step, hp] at hs
  | uploading dpos => simp [step, hp] at hs

theorem Agrees.finish (h : Agrees s) (hs : step s .finish = some s') : Agrees s' := by
  cases hp : s.phase with
  | uploading dpos =>
      simp only [step, hp, Option.ite_none_right_eq_some, Option.some.injEq] at hs
      obtain ⟨-, rfl⟩ := hs
      exact { h with phase := trivial }
  | idle => simp [step, hp] at hs
  | located => simp [step, hp] at hs
  | storing dpos txID bytes => simp [step, hp] at hs

theorem Agrees.step {a : Action β} (h : Agrees s) (hG : StartsClean s a)
    (hs : ReplicaSync.step s a = some s') : Agrees s' := by
  cases a with
  | dbSync bytes => exact h.dbSync hG hs
  | resetLocalState => exact h.resetLocalState hs
  | checkDatabaseBehindReplica fetched => exact h.checkDatabaseBehindReplica hs
  | restart =>
      cases hs
      exact h.fail
  | start listed => exact h.start hs
  | readPos read => exact h.readPos hs
  | openFile => exact h.openFile hs
  | store => exact h.store hs
  | failStore stored => exact h.failStore hs
  | finish => exact h.finish hs

/-- Along a run in which the database starts a lineage only on an empty replica, every
file of the replica is one of the current lineage.  When `Replica.Sync` returns nil its
position is the position of the database that it read. -/
theorem sync_agrees {as : List (Action β)}
    (hG : Run.Along ReplicaSync.step StartsClean State.empty as)
    (hrun : Run.run ReplicaSync.step State.empty as = some s) :
    (∀ t b, s.remote.get t = some b → s.lineage.get t = some b) ∧
      ∀ s', ReplicaSync.step s .finish = some s' → s.phase = .uploading s.pos := by
  have h : Agrees s := Run.run_induction (fun h hG hs => h.step hG hs) Agrees.empty hG hrun
  refine ⟨h.remote, fun s' hs => ?_⟩
  cases hp : s.phase with
  | uploading dpos =>
      have hphase := h.phase
      simp only [PhaseInv, hp] at hphase
      simp only [ReplicaSync.step, hp, Option.ite_none_right_eq_some] at hs
      have : dpos = s.pos := by omega
      rw [this]
  | idle => simp [ReplicaSync.step, hp] at hs
  | located => simp [ReplicaSync.step, hp] at hs
  | storing dpos txID bytes => simp [ReplicaSync.step, hp] at hs

/-- Two transactions are uploaded, the local state is reset with the process restarted, and
the database takes over the position of the replica before it writes again. -/
def resumedActions : List (Action Nat) :=
  [.dbSync 1, .dbSync 2, .start true, .readPos true, .openFile, .store, .openFile, .store, .finish,
    .resetLocalState, .restart, .checkDatabaseBehindReplica true, .dbSync 3, .start true,
    .readPos true, .openFile, .store]

theorem sync_agrees_sample : ∃ s, Run.run step State.empty resumedActions = some s ∧
    s.remote.maxTXID = 3 ∧ s.phase = .uploading s.pos := by
  obtain ⟨s, hrun, hmax, s', hfinish⟩ : ∃ s,
      Run.run step State.empty resumedActions = some s ∧ s.remote.maxTXID = 3 ∧
        ∃ s', step s .finish = some s' := ⟨_, rfl, rfl, _, rfl⟩
  exact ⟨s, hrun, hmax, (sync_agrees (by decide) hrun).2 s' hfinish⟩

/-- The local state is reset while the replica is at TXID 2, and the database starts over
at TXID 1. -/
def stalledActions : List (Action Nat) :=
  [.dbSync 1, .dbSync 2, .start true, .readPos true, .openFile, .store, .openFile, .store, .finish,
    .resetLocalState, .dbSync 3, .start true, .readPos true]

/-- After a reset `Replica.Sync` returns nil with its position above that of the database
and without uploading anything. -/
theorem sync_stalls : ¬ ∀ (as : List (Action Nat)) (s s' : State Nat),
    Run.run step State.empty as = some s → step s .finish = some s' →
      s.phase = .uploading s.pos ∧ ∀ t b, s.remote.get t = some b → s.lineage.get t = some b := by
  intro h
  obtain ⟨s, s', hrun, hfinish, hphase, hpos⟩ : ∃ s s',
      Run.run step State.empty stalledActions = some s ∧ step s .finish = some s' ∧
        s.phase = .uploading 1 ∧ s.pos = 2 := ⟨_, _, rfl, rfl, rfl, rfl⟩
  have := (h stalledActions s s' hrun hfinish).1
  rw [hphase, hpos] at this
  cases this

end ReplicaSync

end Litestream
