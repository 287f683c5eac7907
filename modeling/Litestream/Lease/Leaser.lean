import Litestream.Lib.Conditional
import Litestream.Lib.Run

/-!
# Leases in an object store

Clients share a lease that is kept in the object `lock.json`.  A call of `AcquireLease`,
`RenewLease` or `ReleaseLease` makes its requests one after the other, and those of different
clients come in any order.  A request may fail, and the answer to one that took effect may be
lost.  All clients read one clock.

`step` is the system.  `State.Inv` says that a lease that a client was given and that is not
expired is covered by the object, which that client has written.
-/

namespace Litestream.Leaser

open Run
open Function (update)

/-! ## Leases -/

/-- The content of `lock.json`. -/
structure LockFile where
  generation : Int64
  expiresAt : Int
  owner : String
deriving DecidableEq

/-- A lease as it is returned, with the ETag of the write.  There is none for the empty one. -/
structure Lease extends LockFile where
  etag : Option Nat
deriving DecidableEq

inductive LeaseError where
  | leaseRequired
  | leaseETagRequired
  /-- `LeaseExistsError`, with the owner and the expiry if they are known. -/
  | leaseExists (existing : Option (String × Int))
  | leaseNotHeld
  | leaseAlreadyReleased
  /-- A request has failed for another reason. -/
  | request
deriving DecidableEq

/-- What a call returns.  A release returns no lease. -/
abbrev Result := Except LeaseError (Option Lease)

/-- How far the call of a client is. -/
inductive Call where
  | idle (last : Option Result)
  | acquiring
  /-- The lease was read. -/
  | found (existing : Option (LockFile × Nat))
  /-- There is no lease, or an expired one with this ETag. -/
  | unheld (generation : Int64) (etag : Option Nat)
  | writing (lease : LockFile) (etag : Option Nat) (renewal : Bool)
  /-- Another client has written first, and its lease is read for the error. -/
  | conflicting
  | releasing (etag : Nat)
  /-- The result is known, and not yet returned. -/
  | answered (result : Result)

inductive Event (ι : Type*) where
  | acquired (i : ι) (generation : Int64)
  | released (i : ι)
deriving DecidableEq

structure State (ι : Type*) where
  now : Int
  /-- What is written to `lock.json`, and by whom.  The store does not tell the latter. -/
  lock : Conditional (LockFile × ι)
  call : ι → Call
  /-- The leases that were returned to a client. -/
  given : ι → List Lease
  /-- The last one of them, until the client begins to release it. -/
  held : ι → Option Lease
  /-- Acquisitions and releases in the order in which they took effect. -/
  history : List (Event ι)

inductive Action (ι : Type*) where
  | tick (n : Nat)
  | acquireLease (i : ι)
  | renewLease (i : ι) (lease : Option Lease)
  | releaseLease (i : ι) (lease : Option Lease)
  | get (i : ι)
  /-- Looks at the clock for the expiry of the lease that was read. -/
  | decide (i : ι)
  /-- Looks at the clock for the expiry of the new lease. -/
  | prepare (i : ι)
  | put (i : ι)
  | reread (i : ι)
  | delete (i : ι)
  /-- A request fails and has no effect. -/
  | fail (i : ι)
  | answer (i : ι)
  /-- The answer to a request is lost. -/
  | lose (i : ι)

section
variable {ι : Type*} [DecidableEq ι] (ttl : ι → Int) (owner : ι → String)

/-- The call of a client gets to a stage. -/
def State.to (s : State ι) (i : ι) (c : Call) : State ι := { s with call := update s.call i c }

/-- `readLease`. -/
def State.readLease (s : State ι) : Option (LockFile × Nat) :=
  s.lock.get.map fun v => (v.1.1, v.2)

/-- What `AcquireLease` does with the lease that it has read. -/
def State.decided (s : State ι) : Option (LockFile × Nat) → Call
  | none => .unheld 1 none
  | some (existing, etag) =>
      if existing.expiresAt < s.now then .unheld (existing.generation + 1) (some etag)
      else .answered (.error (.leaseExists (some (existing.owner, existing.expiresAt))))

/-- `writeLease`, and what the caller makes of its error. -/
def State.put (s : State ι) (i : ι) (lease : LockFile) (etag : Option Nat) (renewal : Bool) :
    State ι :=
  match s.lock.refuses etag with
  | none =>
      { s.to i (.answered (.ok (some ⟨lease, some s.lock.versions.length⟩))) with
        lock := s.lock.put (lease, i)
        history :=
          if renewal then s.history else s.history ++ [.acquired i lease.generation] }
  | some .preconditionFailed =>
      s.to i (if renewal then .answered (.error .leaseNotHeld) else .conflicting)
  | some .notFound => s.to i (.answered (.error .request))

/-- `DeleteObject`, and what `ReleaseLease` makes of its error. -/
def State.delete (s : State ι) (i : ι) (etag : Nat) : State ι :=
  match s.lock.refuses (some etag) with
  | none =>
      { s.to i (.answered (.ok none)) with
        lock := s.lock.remove
        history := s.history ++ [.released i] }
  | some .preconditionFailed => s.to i (.answered (.error .leaseNotHeld))
  | some .notFound => s.to i (.answered (.error .leaseAlreadyReleased))

/-- A result is returned. -/
def State.return (s : State ι) (i : ι) (result : Result) : State ι :=
  match result with
  | .ok (some lease) =>
      { s.to i (.idle (some result)) with
        given := update s.given i (s.given i ++ [lease])
        held := update s.held i (some lease) }
  | .ok none | .error _ => s.to i (.idle (some result))

/-- The checks of a lease that is renewed or released, and the call with its ETag. -/
def checkLease (lease : Option Lease) (call : Lease → Nat → Call) : Call :=
  match lease with
  | none => .answered (.error .leaseRequired)
  | some lease =>
      match lease.etag with
      | none => .answered (.error .leaseETagRequired)
      | some etag => call lease etag

/-- One step of the system.  A client makes one call at a time, and passes only leases that it
was given. -/
def step (s : State ι) : Action ι → Option (State ι)
  | .tick n => some { s with now := s.now + n }
  | .acquireLease i =>
      match s.call i with
      | .idle _ => some (s.to i .acquiring)
      | _ => none
  | .renewLease i lease =>
      match s.call i with
      | .idle _ =>
          if ∀ l ∈ lease, l ∈ s.given i then
            some (s.to i (checkLease lease fun lease etag =>
              .writing ⟨lease.generation, s.now + ttl i, owner i⟩ (some etag) true))
          else none
      | _ => none
  | .releaseLease i lease =>
      match s.call i with
      | .idle _ =>
          if ∀ l ∈ lease, l ∈ s.given i then
            some { s.to i (checkLease lease fun _ etag => .releasing etag) with
              held := update s.held i (if s.held i = lease then none else s.held i) }
          else none
      | _ => none
  | .get i =>
      match s.call i with
      | .acquiring => some (s.to i (.found s.readLease))
      | _ => none
  | .decide i =>
      match s.call i with
      | .found existing => some (s.to i (s.decided existing))
      | _ => none
  | .prepare i =>
      match s.call i with
      | .unheld generation etag =>
          some (s.to i (.writing ⟨generation, s.now + ttl i, owner i⟩ etag false))
      | _ => none
  | .put i =>
      match s.call i with
      | .writing lease etag renewal => some (s.put i lease etag renewal)
      | _ => none
  | .reread i =>
      match s.call i with
      | .conflicting =>
          some (s.to i (.answered (.error (.leaseExists
            (s.readLease.map fun v => (v.1.owner, v.1.expiresAt))))))
      | _ => none
  | .delete i =>
      match s.call i with
      | .releasing etag => some (s.delete i etag)
      | _ => none
  | .fail i =>
      match s.call i with
      | .acquiring | .writing .. | .releasing _ => some (s.to i (.answered (.error .request)))
      | .conflicting => some (s.to i (.answered (.error (.leaseExists none))))
      | _ => none
  | .answer i =>
      match s.call i with
      | .answered result => some (s.return i result)
      | _ => none
  | .lose i =>
      match s.call i with
      | .answered _ => some (s.return i (.error .request))
      | _ => none

/-- No call has begun.  There may be a lease from before. -/
structure State.Initial (s : State ι) : Prop where
  call : ∀ i, s.call i = .idle none
  given : ∀ i, s.given i = []
  held : ∀ i, s.held i = none
  history : s.history = []

end

/-! ## The invariant -/

section
variable {ι : Type*} (ttl : ι → Int) (s : State ι) (i : ι)

/-- A lease with this expiry is expired, or the client has written the object, which expires no
earlier. -/
def State.Covers (t : Int) : Prop :=
  t < s.now ∨ ∃ etag file, s.lock.current = some etag ∧
    s.lock.versions[etag]? = some (file, i) ∧ t ≤ file.expiresAt

/-- What a client knows of the write with an ETag when it writes over it: the write is its own,
or has expired. -/
def State.Yields (generation : Int64) (renewal : Bool) (etag : Nat) : Prop :=
  ∃ file j, s.lock.versions[etag]? = some (file, j) ∧
    generation = (if renewal then file.generation else file.generation + 1) ∧
    (j = i ∨ file.expiresAt < s.now)

/-- A lease that a client was given, or will be. -/
structure State.Written (lease : Lease) (etag : Nat) : Prop where
  etag_eq : lease.etag = some etag
  version : s.lock.versions[etag]? = some (lease.toLockFile, i)
  expiresAt_le : lease.expiresAt ≤ s.now + ttl i

/-- What holds of a call at each stage. -/
def State.CallInv : Call → Prop
  | .found existing => ∀ file etag, existing = some (file, etag) →
      ∃ j, s.lock.versions[etag]? = some (file, j)
  | .unheld generation etag => (∀ e, etag = some e → s.Yields i generation false e) ∧
      (etag = none → generation = 1)
  | .writing lease etag renewal => (∀ e, etag = some e → s.Yields i lease.generation renewal e) ∧
      (etag = none → renewal = false ∧ lease.generation = 1) ∧
      lease.expiresAt ≤ s.now + ttl i ∧
      ∀ held, s.held i = some held → held.expiresAt ≤ lease.expiresAt
  | .releasing etag => (∃ lease ∈ s.given i, lease.etag = some etag) ∧
      ∀ held, s.held i = some held → held.etag ≠ some etag
  | .answered (.ok (some lease)) => ∃ etag, s.Written ttl i lease etag ∧
      s.Covers i lease.expiresAt ∧ ∀ l ∈ s.given i, ∀ e, l.etag = some e → e < etag
  | .idle _ | .acquiring | .conflicting | .answered _ => True

/-- What holds of one client. -/
structure State.ClientInv : Prop where
  given : ∀ lease ∈ s.given i, ∃ etag, s.Written ttl i lease etag
  held : ∀ lease, s.held i = some lease → lease ∈ s.given i ∧ s.Covers i lease.expiresAt
  /-- If the object is a lease that the client was given, it holds no other one. -/
  latest : ∀ etag, s.lock.current = some etag → ∀ lease ∈ s.given i, lease.etag = some etag →
    ∀ held, s.held i = some held → held.etag = some etag
  call : s.CallInv ttl i (s.call i)

def State.Inv : Prop := ∀ i, s.ClientInv ttl i

end

variable {ι : Type*} {ttl : ι → Int} {owner : ι → String} {s s' : State ι} {i j : ι} {c : Call}

/-- `s'` has all that was written in `s`, and is no earlier. -/
structure State.Later (s s' : State ι) : Prop where
  versions : ∀ {etag : Nat} {v : LockFile × ι}, s.lock.versions[etag]? = some v → s'.lock.versions[etag]? = some v
  now : s.now ≤ s'.now

theorem State.Yields.mono {generation : Int64} {renewal : Bool} {etag : Nat}
    (h : s.Yields i generation renewal etag) (hlater : s.Later s') :
    s'.Yields i generation renewal etag := by
  obtain ⟨file, j, hversion, hgeneration, hyields⟩ := h
  exact ⟨file, j, hlater.versions hversion, hgeneration,
    hyields.imp_right fun hlt => hlt.trans_le hlater.now⟩

theorem State.Written.mono {lease : Lease} {etag : Nat} (h : s.Written ttl i lease etag)
    (hlater : s.Later s') : s'.Written ttl i lease etag where
  etag_eq := h.etag_eq
  version := hlater.versions h.version
  expiresAt_le := h.expiresAt_le.trans (Int.add_le_add_right hlater.now _)

/-- A stage of a client keeps what holds of it while others take steps, if what they write does
not uncover its leases. -/
theorem State.CallInv.mono (h : s.CallInv ttl i c) (hlater : s.Later s')
    (hgiven : s'.given i = s.given i) (hheld : s'.held i = s.held i)
    (hcovers : ∀ t, s.Covers i t → s'.Covers i t) : s'.CallInv ttl i c := by
  cases c with
  | idle last | acquiring | conflicting => trivial
  | found existing =>
      intro file etag hexisting
      obtain ⟨j, hj⟩ := h file etag hexisting
      exact ⟨j, hlater.versions hj⟩
  | unheld generation etag =>
      exact ⟨fun e he => (h.1 e he).mono hlater, h.2⟩
  | writing lease etag renewal =>
      obtain ⟨hyields, hnone, hle, hexpires⟩ := h
      refine ⟨fun e he => (hyields e he).mono hlater, hnone, ?_, ?_⟩
      · exact hle.trans (Int.add_le_add_right hlater.now _)
      · rw [hheld]
        exact hexpires
  | releasing etag =>
      obtain ⟨hlease, hne⟩ := h
      refine ⟨?_, ?_⟩
      · rw [hgiven]
        exact hlease
      · rw [hheld]
        exact hne
  | answered result =>
      cases result with
      | error err => trivial
      | ok lease =>
          cases lease with
          | none => trivial
          | some lease =>
              obtain ⟨etag, hwritten, hcov, hlt⟩ := h
              refine ⟨etag, hwritten.mono hlater, hcovers _ hcov, ?_⟩
              rw [hgiven]
              exact hlt

/-- So does all that holds of the client, if the object is not written, or is new. -/
theorem State.ClientInv.mono (h : s.ClientInv ttl i) (hlater : s.Later s')
    (hgiven : s'.given i = s.given i) (hheld : s'.held i = s.held i)
    (hcall : s'.call i = s.call i) (hcovers : ∀ t, s.Covers i t → s'.Covers i t)
    (hcurrent : ∀ etag, s'.lock.current = some etag →
      s.lock.current = some etag ∨ s.lock.versions.length ≤ etag) : s'.ClientInv ttl i := by
  refine ⟨?_, ?_, ?_, ?_⟩
  · rw [hgiven]
    intro lease hlease
    obtain ⟨etag, hwritten⟩ := h.given lease hlease
    exact ⟨etag, hwritten.mono hlater⟩
  · rw [hgiven, hheld]
    exact fun lease hlease => (h.held lease hlease).imp_right (hcovers _)
  · rw [hgiven, hheld]
    intro etag hetag lease hlease heq
    rcases hcurrent etag hetag with hsame | hnew
    · exact h.latest etag hsame lease hlease heq
    · obtain ⟨etag', hwritten⟩ := h.given lease hlease
      obtain rfl := Option.some.inj (heq.symm.trans hwritten.etag_eq)
      exact absurd (Conditional.lt_length hwritten.version) (Nat.not_lt.mpr hnew)
  · rw [hcall]
    exact h.call.mono hlater hgiven hheld hcovers

/-! ## One step -/

theorem State.Inv.tick (h : s.Inv ttl) (n : Nat) : State.Inv ttl { s with now := s.now + n } := by
  have hnow : s.now ≤ s.now + n := Int.le_add_of_nonneg_right (Int.natCast_nonneg n)
  exact fun i => (h i).mono ⟨id, hnow⟩ rfl rfl rfl
    (fun t ht => ht.imp_left fun hlt => hlt.trans_le hnow) fun _ => Or.inl

/-- What was read is what was written with its ETag. -/
theorem State.callInv_found : s.CallInv ttl i (.found s.readLease) := by
  intro file etag hexisting
  obtain ⟨⟨⟨file, j⟩, etag⟩, hget, heq⟩ := Option.map_eq_some_iff.mp hexisting
  obtain ⟨rfl, rfl⟩ := Prod.mk.inj heq
  exact ⟨j, (Conditional.get_eq_some.mp hget).2⟩

/-- An acquisition goes on only if there is no lease, or an expired one. -/
theorem State.callInv_decided {existing : Option (LockFile × Nat)}
    (h : s.CallInv ttl i (.found existing)) : s.CallInv ttl i (s.decided existing) := by
  cases existing with
  | none => exact ⟨fun _ he => absurd he (by simp), fun _ => rfl⟩
  | some found =>
      obtain ⟨file, etag⟩ := found
      rw [decided]
      split
      · next hexpired =>
        refine ⟨fun e he => ?_, fun he => absurd he (by simp)⟩
        obtain rfl := Option.some.inj he
        obtain ⟨j, hj⟩ := h file etag rfl
        exact ⟨file, j, hj, rfl, Or.inr hexpired⟩
      · trivial

/-- No lease of the client is longer than one that begins now. -/
theorem State.ClientInv.expires_le (h : s.ClientInv ttl i) {lease : Lease}
    (hheld : s.held i = some lease) : lease.expiresAt ≤ s.now + ttl i := by
  obtain ⟨etag, hwritten⟩ := h.given lease (h.held lease hheld).1
  exact hwritten.expiresAt_le

/-- The leases of the other clients have expired when a write is not refused. -/
theorem State.Covers.expired {t : Int} {lease : LockFile} {etag : Option Nat} {renewal : Bool}
    (hj : s.Covers j t) (hc : s.CallInv ttl i (.writing lease etag renewal))
    (hcurrent : s.lock.current = etag) (hne : j ≠ i) : t < s.now := by
  rcases hj with hexpired | ⟨e, file, hfile, hversion, hle⟩
  · exact hexpired
  · obtain ⟨file', k, hversion', -, hyields⟩ := hc.1 e (hcurrent.symm.trans hfile)
    obtain ⟨rfl, rfl⟩ := Prod.mk.inj (Option.some.inj (hversion.symm.trans hversion'))
    exact hle.trans_lt (hyields.resolve_left hne)

variable [DecidableEq ι]

@[simp] theorem State.call_to_self : (s.to i c).call i = c := Function.update_self ..

theorem State.call_to_of_ne (h : j ≠ i) : (s.to i c).call j = s.call j :=
  Function.update_of_ne h ..

/-- A step that changes one call only. -/
theorem State.Inv.to (h : s.Inv ttl) (hc : s.CallInv ttl i c) : (s.to i c).Inv ttl := by
  intro j
  by_cases hj : j = i
  · subst hj
    refine ⟨fun lease hlease => ?_, (h j).held, (h j).latest, ?_⟩
    · obtain ⟨etag, hwritten⟩ := (h j).given lease hlease
      exact ⟨etag, hwritten.mono ⟨id, le_rfl⟩⟩
    · rw [State.call_to_self]
      exact hc.mono ⟨id, le_rfl⟩ rfl rfl fun _ ht => ht
  · exact (h j).mono ⟨id, le_rfl⟩ rfl rfl (State.call_to_of_ne hj) (fun _ ht => ht)
      fun _ => Or.inl

/-- A write that is not refused covers the leases of its client, and none of another client
that is not expired was covered. -/
theorem State.Inv.written {lease : LockFile} {etag : Option Nat} {renewal : Bool}
    (h : s.Inv ttl) (hi : s.call i = .writing lease etag renewal)
    (hcurrent : s.lock.current = etag) (history : List (Event ι)) :
    State.Inv ttl { s.to i (.answered (.ok (some ⟨lease, some s.lock.versions.length⟩))) with
      lock := s.lock.put (lease, i), history := history } := by
  have hc := (h i).call
  rw [hi] at hc
  have hlater : ∀ {e v}, s.lock.versions[e]? = some v →
      (s.lock.put (lease, i)).versions[e]? = some v := Conditional.versions_put_of_some
  have hnew : ∀ e, (s.lock.put (lease, i)).current = some e → s.lock.versions.length ≤ e :=
    fun e he => (Option.some.inj he).le
  intro j
  by_cases hj : j = i
  · subst hj
    obtain ⟨-, -, hle, hexpires⟩ := hc
    have hcovers : ∀ t ≤ lease.expiresAt, State.Covers { s.to j (.answered (.ok (some
        ⟨lease, some s.lock.versions.length⟩))) with
          lock := s.lock.put (lease, j), history := history } j t := fun t ht =>
      Or.inr ⟨_, lease, rfl, Conditional.versions_put_last, ht⟩
    refine ⟨fun l hl => ?_, fun l hl => ?_, fun e he l hl heq => ?_, ?_⟩
    · obtain ⟨e, hwritten⟩ := (h j).given l hl
      exact ⟨e, hwritten.mono ⟨hlater, le_rfl⟩⟩
    · exact ⟨((h j).held l hl).1, hcovers _ (hexpires l hl)⟩
    · obtain ⟨e', hwritten⟩ := (h j).given l hl
      obtain rfl := Option.some.inj (heq.symm.trans hwritten.etag_eq)
      exact absurd (Conditional.lt_length hwritten.version) (Nat.not_lt.mpr (hnew e he))
    · change State.CallInv _ _ _ ((s.to j _).call j)
      rw [State.call_to_self]
      refine ⟨s.lock.versions.length, ⟨rfl, Conditional.versions_put_last, hle⟩,
        hcovers _ le_rfl, fun l hl e heq => ?_⟩
      obtain ⟨e', hwritten⟩ := (h j).given l hl
      obtain rfl := Option.some.inj (heq.symm.trans hwritten.etag_eq)
      exact Conditional.lt_length hwritten.version
  · exact (h j).mono ⟨hlater, le_rfl⟩ rfl rfl (State.call_to_of_ne hj)
      (fun t ht => Or.inl (ht.expired hc hcurrent hj)) fun e he => Or.inr (hnew e he)

/-- A release that is not refused ends the lease of its client. -/
theorem State.Inv.deleted {etag : Nat} (h : s.Inv ttl) (hi : s.call i = .releasing etag)
    (hcurrent : s.lock.current = some etag) (history : List (Event ι)) :
    State.Inv ttl { s.to i (.answered (.ok none)) with
      lock := s.lock.remove, history := history } := by
  have hc := (h i).call
  rw [hi] at hc
  obtain ⟨⟨lease, hlease, hetag⟩, hne⟩ := hc
  obtain ⟨etag', hwritten⟩ := (h i).given lease hlease
  obtain rfl := Option.some.inj (hetag.symm.trans hwritten.etag_eq)
  have hnone : ∀ e, s.lock.remove.current ≠ some e := fun e he => by cases he
  intro j
  by_cases hj : j = i
  · subst hj
    refine ⟨fun l hl => ?_, fun l hl => ?_, fun e he => absurd he (hnone e), ?_⟩
    · obtain ⟨e, hl⟩ := (h j).given l hl
      exact ⟨e, hl.mono ⟨id, le_rfl⟩⟩
    · exact absurd ((h j).latest etag hcurrent lease hlease hetag l hl) (hne l hl)
    · change State.CallInv _ _ _ ((s.to j _).call j)
      rw [State.call_to_self]
      trivial
  · refine (h j).mono ⟨id, le_rfl⟩ rfl rfl (State.call_to_of_ne hj) (fun t ht => ?_)
      fun e he => absurd he (hnone e)
    rcases ht with hexpired | ⟨e, file', hfile', hversion, -⟩
    · exact Or.inl hexpired
    · obtain rfl := Option.some.inj (hcurrent.symm.trans hfile')
      exact absurd (Prod.mk.inj (Option.some.inj (hversion.symm.trans hwritten.version))).2 hj

theorem State.Inv.put {lease : LockFile} {etag : Option Nat} {renewal : Bool} (h : s.Inv ttl)
    (hi : s.call i = .writing lease etag renewal) : (s.put i lease etag renewal).Inv ttl := by
  rw [State.put]
  split
  · next hrefuses => exact h.written hi (Conditional.refuses_eq_none.mp hrefuses) _
  · refine h.to ?_
    split <;> trivial
  · exact h.to trivial

theorem State.Inv.delete {etag : Nat} (h : s.Inv ttl) (hi : s.call i = .releasing etag) :
    (s.delete i etag).Inv ttl := by
  rw [State.delete]
  split
  · next hrefuses => exact h.deleted hi (Conditional.refuses_eq_none.mp hrefuses) _
  · exact h.to trivial
  · exact h.to trivial

/-- A lease that is returned is the latest one of the client. -/
theorem State.Inv.return {result : Result} (h : s.Inv ttl) (hi : s.CallInv ttl i (.answered result)) :
    (s.return i result).Inv ttl := by
  cases result with
  | error err => exact h.to trivial
  | ok lease =>
      cases lease with
      | none => exact h.to trivial
      | some lease =>
          obtain ⟨etag, hwritten, hcovers, hlt⟩ := hi
          intro j
          by_cases hj : j = i
          · subst hj
            have hgiven : (s.return j (.ok (some lease))).given j = s.given j ++ [lease] :=
              Function.update_self ..
            have hheld : (s.return j (.ok (some lease))).held j = some lease :=
              Function.update_self ..
            refine ⟨fun l hl => ?_, fun l hl => ?_, fun e he l hl heq held hh => ?_, ?_⟩
            · rw [hgiven] at hl
              rcases List.mem_append.mp hl with hl | hl
              · obtain ⟨e, hl⟩ := (h j).given l hl
                exact ⟨e, hl.mono ⟨id, le_rfl⟩⟩
              · obtain rfl := List.mem_singleton.mp hl
                exact ⟨etag, hwritten.mono ⟨id, le_rfl⟩⟩
            · obtain rfl := Option.some.inj (hheld.symm.trans hl)
              rw [hgiven]
              exact ⟨List.mem_append_right _ (List.mem_singleton_self _), hcovers⟩
            · obtain rfl := Option.some.inj (hheld.symm.trans hh)
              rw [hgiven] at hl
              rcases List.mem_append.mp hl with hl | hl
              · have hlast := s.lock.last he
                have hwrote := Conditional.lt_length hwritten.version
                have hbefore := hlt l hl e heq
                omega
              · rwa [List.mem_singleton.mp hl] at heq
            · have hcall : (s.return j (.ok (some lease))).call j =
                  .idle (some (.ok (some lease))) := Function.update_self ..
              rw [hcall]
              trivial
          · refine (h j).mono ⟨id, le_rfl⟩ ?_ ?_ (State.call_to_of_ne hj) (fun _ ht => ht)
              fun _ => Or.inl
            · exact Function.update_of_ne hj ..
            · exact Function.update_of_ne hj ..

/-- A client that begins to release its lease does not hold it any more. -/
theorem State.Inv.release {lease : Option Lease} (h : s.Inv ttl)
    (hlease : ∀ l ∈ lease, l ∈ s.given i) :
    State.Inv ttl { s.to i (checkLease lease fun _ etag => .releasing etag) with
      held := update s.held i (if s.held i = lease then none else s.held i) } := by
  intro j
  by_cases hj : j = i
  · subst hj
    have hkept : ∀ held, update s.held j (if s.held j = lease then none else s.held j) j =
        some held → s.held j = some held ∧ s.held j ≠ lease := by
      intro held hheld
      rw [Function.update_self] at hheld
      split at hheld
      · cases hheld
      · next hne => exact ⟨hheld, hne⟩
    refine ⟨fun l hl => ?_, fun l hl => (h j).held l (hkept l hl).1,
      fun e he l hl heq held hh => (h j).latest e he l hl heq held (hkept held hh).1, ?_⟩
    · obtain ⟨e, hl⟩ := (h j).given l hl
      exact ⟨e, hl.mono ⟨id, le_rfl⟩⟩
    · change State.CallInv _ _ _ ((s.to j _).call j)
      rw [State.call_to_self]
      cases lease with
      | none => trivial
      | some lease =>
          obtain ⟨etag, hwritten⟩ := (h j).given lease (hlease lease rfl)
          simp only [checkLease, hwritten.etag_eq]
          refine ⟨⟨lease, hlease lease rfl, hwritten.etag_eq⟩, fun held hheld heq => ?_⟩
          obtain ⟨hheld, hne⟩ := hkept held hheld
          obtain ⟨etag', hwritten'⟩ := (h j).given held ((h j).held held hheld).1
          obtain rfl := Option.some.inj (heq.symm.trans hwritten'.etag_eq)
          have hfile : (held.toLockFile, j) = (lease.toLockFile, j) :=
            Option.some.inj (hwritten'.version.symm.trans hwritten.version)
          refine hne (hheld.trans (congrArg some ?_))
          obtain ⟨file, e⟩ := held
          obtain ⟨file', e'⟩ := lease
          obtain rfl := (Prod.mk.inj hfile).1
          exact congrArg (Lease.mk file) (heq.trans hwritten.etag_eq.symm)
  · refine (h j).mono ⟨id, le_rfl⟩ rfl ?_ (State.call_to_of_ne hj) (fun _ ht => ht)
      fun _ => Or.inl
    exact Function.update_of_ne hj ..

/-- The lease that a renewal writes expires no earlier than the one it replaces. -/
theorem State.Inv.renew {lease : Option Lease} (h : s.Inv ttl)
    (hlease : ∀ l ∈ lease, l ∈ s.given i) :
    (s.to i (checkLease lease fun lease etag =>
      .writing ⟨lease.generation, s.now + ttl i, owner i⟩ (some etag) true)).Inv ttl := by
  refine h.to ?_
  cases lease with
  | none => trivial
  | some lease =>
      obtain ⟨etag, hwritten⟩ := (h i).given lease (hlease lease rfl)
      simp only [checkLease, hwritten.etag_eq]
      refine ⟨fun e he => ?_, fun he => absurd he (by simp), le_rfl,
        fun held hheld => (h i).expires_le hheld⟩
      obtain rfl := Option.some.inj he
      exact ⟨lease.toLockFile, i, hwritten.version, rfl, Or.inl rfl⟩

theorem State.Inv.step {a : Action ι} (h : s.Inv ttl) (hstep : step ttl owner s a = some s') :
    s'.Inv ttl := by
  have hcall := fun i => (h i).call
  cases a with
  | tick n => exact Option.some.inj hstep ▸ h.tick n
  | acquireLease i =>
      simp only [Leaser.step] at hstep
      split at hstep
      · exact Option.some.inj hstep ▸ h.to trivial
      · cases hstep
  | renewLease i lease =>
      simp only [Leaser.step] at hstep
      split at hstep
      · split at hstep
        · next hlease => exact Option.some.inj hstep ▸ h.renew hlease
        · cases hstep
      · cases hstep
  | releaseLease i lease =>
      simp only [Leaser.step] at hstep
      split at hstep
      · split at hstep
        · next hlease => exact Option.some.inj hstep ▸ h.release hlease
        · cases hstep
      · cases hstep
  | get i =>
      simp only [Leaser.step] at hstep
      split at hstep
      · exact Option.some.inj hstep ▸ h.to State.callInv_found
      · cases hstep
  | decide i =>
      simp only [Leaser.step] at hstep
      split at hstep
      · next hi => exact Option.some.inj hstep ▸ h.to (State.callInv_decided (hi ▸ hcall i))
      · cases hstep
  | prepare i =>
      simp only [Leaser.step] at hstep
      split at hstep
      · next generation etag hi =>
        have hc := hcall i
        rw [hi] at hc
        refine Option.some.inj hstep ▸ h.to ⟨hc.1, fun he => ⟨rfl, hc.2 he⟩, le_rfl, ?_⟩
        exact fun held hheld => (h i).expires_le hheld
      · cases hstep
  | put i =>
      simp only [Leaser.step] at hstep
      split at hstep
      · next hi => exact Option.some.inj hstep ▸ h.put hi
      · cases hstep
  | reread i =>
      simp only [Leaser.step] at hstep
      split at hstep
      · exact Option.some.inj hstep ▸ h.to trivial
      · cases hstep
  | delete i =>
      simp only [Leaser.step] at hstep
      split at hstep
      · next hi => exact Option.some.inj hstep ▸ h.delete hi
      · cases hstep
  | fail i =>
      simp only [Leaser.step] at hstep
      split at hstep
      · exact Option.some.inj hstep ▸ h.to trivial
      · exact Option.some.inj hstep ▸ h.to trivial
      · exact Option.some.inj hstep ▸ h.to trivial
      · exact Option.some.inj hstep ▸ h.to trivial
      · cases hstep
  | answer i =>
      simp only [Leaser.step] at hstep
      split at hstep
      · next hi => exact Option.some.inj hstep ▸ h.return (hi ▸ hcall i)
      · cases hstep
  | lose i =>
      simp only [Leaser.step] at hstep
      split at hstep
      · exact Option.some.inj hstep ▸ h.return trivial
      · cases hstep

omit [DecidableEq ι] in
theorem State.Initial.inv (h : s.Initial) : s.Inv ttl := by
  intro i
  refine ⟨fun l hl => ?_, fun l hl => ?_, fun e he l hl => ?_, ?_⟩
  · rw [h.given] at hl
    cases hl
  · rw [h.held] at hl
    cases hl
  · rw [h.given] at hl
    cases hl
  · rw [h.call]
    trivial

theorem State.Inv.run {as : List (Action ι)} (hs : s.Initial)
    (hrun : run (Leaser.step ttl owner) s as = some s') : s'.Inv ttl :=
  run_invariant (fun h hstep => h.step hstep) hs.inv hrun

end Litestream.Leaser
