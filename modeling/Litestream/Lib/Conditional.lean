import Mathlib

/-!
# Objects that are written on a condition

An object store keeps one object under a name, and gives each write of it a tag of its own.  A
request names the tag that it expects, or expects no object, and is refused when it finds
something else.  Requests take effect one at a time.

`versions` has everything that was ever written, in order, and the tag of a write is its place
there.  An object that is there is the last one that was written.
-/

/-- An object and all that was written before it. -/
structure Conditional (β : Type*) where
  versions : List β
  /-- The tag of the object, if there is one. -/
  current : Option Nat
  last : ∀ {tag}, current = some tag → tag + 1 = versions.length

namespace Conditional

/-- Why a request is refused. -/
inductive Refusal where
  | preconditionFailed
  | notFound
deriving DecidableEq, Repr

variable {β : Type*}

/-- The object and its tag. -/
def get (o : Conditional β) : Option (β × Nat) :=
  o.current.bind fun tag => o.versions[tag]?.map fun v => (v, tag)

/-- The object that a write leaves. -/
def put (o : Conditional β) (v : β) : Conditional β where
  versions := o.versions ++ [v]
  current := some o.versions.length
  last h := by
    rw [List.length_append, ← Option.some.inj h]
    rfl

def remove (o : Conditional β) : Conditional β where
  versions := o.versions
  current := none
  last h := by cases h

/-- Whether a request that expects a tag, or no object, is refused. -/
def refuses (o : Conditional β) (expected : Option Nat) : Option Refusal :=
  match expected, o.current with
  | none, none => none
  | none, some _ => some .preconditionFailed
  | some _, none => some .notFound
  | some tag, some tag' => if tag = tag' then none else some .preconditionFailed

variable {o : Conditional β} {expected : Option Nat} {tag : Nat} {v w : β}

@[simp] theorem current_put : (o.put v).current = some o.versions.length := rfl

@[simp] theorem versions_put : (o.put v).versions = o.versions ++ [v] := rfl

@[simp] theorem current_remove : o.remove.current = none := rfl

@[simp] theorem versions_remove : o.remove.versions = o.versions := rfl

/-- A request is not refused if and only if it finds what it expects. -/
theorem refuses_eq_none : o.refuses expected = none ↔ o.current = expected := by
  cases expected with
  | none => cases h : o.current <;> simp [refuses, h]
  | some tag =>
      cases h : o.current with
      | none => simp [refuses, h]
      | some tag' => simp [refuses, h, eq_comm]

theorem get_eq_some : o.get = some (v, tag) ↔
    o.current = some tag ∧ o.versions[tag]? = some v := by
  simp only [get, Option.bind_eq_some_iff, Option.map_eq_some_iff, Prod.mk.injEq]
  constructor
  · rintro ⟨_, hcurrent, _, hv, rfl, rfl⟩
    exact ⟨hcurrent, hv⟩
  · rintro ⟨hcurrent, hv⟩
    exact ⟨tag, hcurrent, v, hv, rfl, rfl⟩

/-- An object that is there was written. -/
theorem exists_version (h : o.current = some tag) : ∃ v, o.versions[tag]? = some v :=
  ⟨_, List.getElem?_eq_getElem (Nat.lt_of_succ_le (o.last h).le)⟩

theorem get_eq_none : o.get = none ↔ o.current = none := by
  cases h : o.current with
  | none => simp [get, h]
  | some tag =>
      obtain ⟨v, hv⟩ := exists_version h
      simp [get_eq_some.mpr ⟨h, hv⟩]

theorem lt_length (h : o.versions[tag]? = some v) : tag < o.versions.length :=
  (List.getElem?_eq_some_iff.mp h).1

/-- What was written stays with its tag. -/
theorem versions_put_of_some (h : o.versions[tag]? = some v) :
    (o.put w).versions[tag]? = some v := by
  rw [versions_put, List.getElem?_append_left (lt_length h), h]

@[simp] theorem versions_put_last : (o.put v).versions[o.versions.length]? = some v :=
  List.getElem?_concat_length

end Conditional
