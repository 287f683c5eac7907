import Litestream.Lease.Leaser

/-!
# One holder at a time

Two clients never hold leases that are both unexpired, whatever the order of their requests is.
A request with an ETag that is not that of the object changes nothing, and its call returns an
error.
-/

namespace Litestream.Leaser

open Run

section
variable {ι : Type*} [DecidableEq ι] (ttl : ι → Int) (owner : ι → String) (s : State ι)

/-- The ETag that the next request of a renewal or a release names. -/
inductive Names (i : ι) : Action ι → Nat → Prop
  | renewal {lease : LockFile} {etag : Nat} (h : s.call i = .writing lease (some etag) true) :
      Names i (.put i) etag
  | release {etag : Nat} (h : s.call i = .releasing etag) : Names i (.delete i) etag

/-- What is promised of the leases in one state. -/
structure Exclusive : Prop where
  exclusive : ∀ i j, i ≠ j → ∀ lease lease', s.held i = some lease → s.held j = some lease' →
    lease.expiresAt < s.now ∨ lease'.expiresAt < s.now
  stale : ∀ i a etag, Names s i a etag → s.lock.current ≠ some etag →
    ∃ s' err, step ttl owner s a = some s' ∧ s'.lock = s.lock ∧
      s'.call i = .answered (.error err)

end

variable {ι : Type*} [DecidableEq ι] {ttl : ι → Int} {owner : ι → String} {s : State ι}
  {as : List (Action ι)} {i : ι} {etag : Nat}

theorem stale_renewal {lease : LockFile} (h : s.call i = .writing lease (some etag) true)
    (hstale : s.lock.current ≠ some etag) : ∃ s' err, step ttl owner s (.put i) = some s' ∧
      s'.lock = s.lock ∧ s'.call i = .answered (.error err) := by
  have hstep : step ttl owner s (.put i) = some (s.put i lease (some etag) true) := by
    simp only [step, h]
  rw [hstep, State.put]
  cases hrefuses : s.lock.refuses (some etag) with
  | none => exact absurd (Conditional.refuses_eq_none.mp hrefuses) hstale
  | some refusal =>
      cases refusal with
      | preconditionFailed => exact ⟨_, .leaseNotHeld, rfl, rfl, State.call_to_self⟩
      | notFound => exact ⟨_, .request, rfl, rfl, State.call_to_self⟩

theorem stale_release (h : s.call i = .releasing etag) (hstale : s.lock.current ≠ some etag) :
    ∃ s' err, step ttl owner s (.delete i) = some s' ∧ s'.lock = s.lock ∧
      s'.call i = .answered (.error err) := by
  have hstep : step ttl owner s (.delete i) = some (s.delete i etag) := by
    simp only [step, h]
  rw [hstep, State.delete]
  cases hrefuses : s.lock.refuses (some etag) with
  | none => exact absurd (Conditional.refuses_eq_none.mp hrefuses) hstale
  | some refusal =>
      cases refusal with
      | preconditionFailed => exact ⟨_, .leaseNotHeld, rfl, rfl, State.call_to_self⟩
      | notFound => exact ⟨_, .leaseAlreadyReleased, rfl, rfl, State.call_to_self⟩

omit [DecidableEq ι] in
/-- Both clients would have written the object. -/
theorem State.Inv.exclusive (h : s.Inv ttl) {j : ι} (hij : i ≠ j) {lease lease' : Lease}
    (hi : s.held i = some lease) (hj : s.held j = some lease') :
    lease.expiresAt < s.now ∨ lease'.expiresAt < s.now := by
  rcases ((h i).held lease hi).2 with hexpired | ⟨e, file, he, hversion, -⟩
  · exact Or.inl hexpired
  · rcases ((h j).held lease' hj).2 with hexpired | ⟨e', file', he', hversion', -⟩
    · exact Or.inr hexpired
    · obtain rfl := Option.some.inj (he.symm.trans he')
      exact absurd (Prod.mk.inj (Option.some.inj (hversion.symm.trans hversion'))).2 hij

/-- In every state that a run reaches, at most one client holds a lease that is not expired, and
a renewal or release with a stale ETag fails and leaves the object as it is. -/
theorem lease_exclusive (ttl : ι → Int) (owner : ι → String) {s s' : State ι}
    (hs : s.Initial) (hrun : run (step ttl owner) s as = some s') : Exclusive ttl owner s' := by
  refine ⟨fun i j hij lease lease' hi hj => (State.Inv.run hs hrun).exclusive hij hi hj, ?_⟩
  intro i a etag hnames hstale
  cases hnames with
  | renewal h => exact stale_renewal h hstale
  | release h => exact stale_release h hstale

/-! ## Two clients -/

namespace TwoClients

def seconds (_ : Nat) : Int := 30

def host : Nat → String
  | 0 => "host:1"
  | _ => "host:2"

def empty : State Nat :=
  ⟨0, ⟨[], none, fun h => by cases h⟩, fun _ => .idle none, fun _ => [], fun _ => none, []⟩

theorem initial : empty.Initial := ⟨fun _ => rfl, fun _ => rfl, fun _ => rfl, rfl⟩

/-- The steps of a call that acquires the lease. -/
def acquire (i : Nat) : List (Action Nat) :=
  [.acquireLease i, .get i, .decide i, .prepare i, .put i, .answer i]

end TwoClients

/-- The second client takes the lease over when it is expired. -/
theorem lease_exclusive_sample : ∃ s', run (step TwoClients.seconds TwoClients.host) TwoClients.empty
      (TwoClients.acquire 0 ++ .tick 31 :: TwoClients.acquire 1) = some s' ∧
    (s'.held 0).isSome ∧ (s'.held 1).isSome ∧
    Exclusive TwoClients.seconds TwoClients.host s' := by
  have hrun : ∃ s', run (step TwoClients.seconds TwoClients.host) TwoClients.empty
      (TwoClients.acquire 0 ++ .tick 31 :: TwoClients.acquire 1) = some s' ∧
      (s'.held 0).isSome ∧ (s'.held 1).isSome := ⟨_, rfl, rfl, rfl⟩
  obtain ⟨s', hrun, h0, h1⟩ := hrun
  exact ⟨s', hrun, h0, h1,
    lease_exclusive TwoClients.seconds TwoClients.host TwoClients.initial hrun⟩

end Litestream.Leaser
