import Mathlib
import Litestream.Lib.Overlay

/-!
# Stores of numbered pages

A store has pages up to a size.  A transaction writes pages and sets the size, and writes
every page that it adds (`Tx.Fills`).  A patch brings a copy of a store up to date at once:
`Agree.patch` says that the last version of each page that transactions wrote is enough,
and `agree_patch_full` that every page is.

Only the pages in `live` count.
-/

namespace Paged

open Overlay

variable {κ α : Type*} [LinearOrder κ]

structure Store (κ α : Type*) where
  size : κ
  page : κ → α

structure Tx (κ α : Type*) where
  /-- The size of the store after the transaction. -/
  size : κ
  writes : List (κ × α)

namespace Store

/-- Two stores have the same size and the same live pages. -/
def Agree (live : κ → Prop) (a b : Store κ α) : Prop :=
  a.size = b.size ∧ ∀ k, live k → k ≤ a.size → a.page k = b.page k

/-- The effect of a transaction. -/
def apply (a : Store κ α) (t : Tx κ α) : Store κ α := ⟨t.size, overlay a.page t.writes⟩

def applyAll (a : Store κ α) (ts : List (Tx κ α)) : Store κ α := ts.foldl apply a

/-- Sets the size, overwrites pages and clears those past the size. -/
def patch (a : Store κ α) (size : κ) (pages : List (κ × α)) (blank : α) : Store κ α :=
  ⟨size, fun k => if k ≤ size then overlay a.page pages k else blank⟩

end Store

/-- The transaction writes every live page that it adds to a store of size `n`. -/
def Tx.Fills (live : κ → Prop) (n : κ) (t : Tx κ α) : Prop :=
  ∀ k, live k → n < k → k ≤ t.size → k ∈ t.writes.map Prod.fst

/-- Each of the transactions writes the pages that it adds. -/
def Grows (live : κ → Prop) : κ → List (Tx κ α) → Prop
  | _, [] => True
  | n, t :: ts => t.Fills live n ∧ Grows live t.size ts

/-- The size after transactions. -/
def finalSize : κ → List (Tx κ α) → κ
  | n, [] => n
  | _, t :: ts => finalSize t.size ts

/-- The writes of transactions in order. -/
def allWrites (ts : List (Tx κ α)) : List (κ × α) := ts.flatMap Tx.writes

variable {live : κ → Prop} {a b c : Store κ α} {ts us : List (Tx κ α)} {n : κ}

namespace Store

theorem Agree.refl : Agree live a a := ⟨rfl, fun _ _ _ => rfl⟩

theorem Agree.symm (h : Agree live a b) : Agree live b a :=
  ⟨h.1.symm, fun k hk hle => (h.2 k hk (h.1 ▸ hle)).symm⟩

theorem Agree.trans (hab : Agree live a b) (hbc : Agree live b c) : Agree live a c :=
  ⟨hab.1.trans hbc.1, fun k hk hle => (hab.2 k hk hle).trans (hbc.2 k hk (hab.1 ▸ hle))⟩

theorem applyAll_append : a.applyAll (ts ++ us) = (a.applyAll ts).applyAll us :=
  List.foldl_append

theorem applyAll_size : (a.applyAll ts).size = finalSize a.size ts := by
  induction ts generalizing a with
  | nil => rfl
  | cons t ts ih => exact ih

theorem applyAll_page : (a.applyAll ts).page = overlay a.page (allWrites ts) := by
  induction ts generalizing a with
  | nil => rfl
  | cons t ts ih =>
      rw [allWrites, List.flatMap_cons, overlay_append]
      exact ih

end Store

omit [LinearOrder κ] in
theorem finalSize_append : finalSize n (ts ++ us) = finalSize (finalSize n ts) us := by
  induction ts generalizing n with
  | nil => rfl
  | cons t ts ih => exact ih

theorem grows_append :
    Grows live n (ts ++ us) ↔ Grows live n ts ∧ Grows live (finalSize n ts) us := by
  induction ts generalizing n with
  | nil => simp [Grows, finalSize]
  | cons t ts ih => simp [Grows, finalSize, ih, and_assoc]

omit [LinearOrder κ] in
theorem allWrites_append : allWrites (ts ++ us) = allWrites ts ++ allWrites us :=
  List.flatMap_append

/-- A live page that transactions do not write was there before them. -/
theorem Grows.le_of_notMem {k : κ} (h : Grows live n ts) (hk : live k)
    (hle : k ≤ finalSize n ts) (hmem : k ∉ (allWrites ts).map Prod.fst) : k ≤ n := by
  induction ts generalizing n with
  | nil => exact hle
  | cons t ts ih =>
      rw [allWrites, List.flatMap_cons, List.map_append, List.mem_append, not_or] at hmem
      have hsize := ih h.2 hle hmem.2
      by_contra hn
      exact hmem.1 (h.1 k hk (not_le.mp hn) hsize)

namespace Store

/-- The last version of each page that transactions wrote brings a copy up to date. -/
theorem Agree.patch {pages : List (κ × α)} {blank : α} (h : Agree live a b)
    (hgrows : Grows live b.size ts)
    (hpages : ∀ k, live k → k ≤ finalSize b.size ts →
      lastWrite pages k = lastWrite (allWrites ts) k) :
    Agree live (a.patch (finalSize b.size ts) pages blank) (b.applyAll ts) := by
  refine ⟨applyAll_size.symm, fun k hk hle => ?_⟩
  rw [applyAll_page]
  simp only [Store.patch, if_pos (show k ≤ finalSize b.size ts from hle)]
  rw [overlay, overlay, hpages k hk hle]
  cases hw : lastWrite (allWrites ts) k with
  | none =>
      have hle' := hgrows.le_of_notMem hk hle (lastWrite_eq_none_iff.mp hw)
      exact h.2 k hk (h.1 ▸ hle')
  | some x => rfl

/-- Every live page brings any store up to date. -/
theorem agree_patch_full {pages : List (κ × α)} {blank : α}
    (hpages : ∀ k, live k → k ≤ b.size → lastWrite pages k = some (b.page k)) :
    Agree live (a.patch b.size pages blank) b := by
  refine ⟨rfl, fun k hk hle => ?_⟩
  simp only [Store.patch, if_pos (show k ≤ b.size from hle)]
  exact overlay_of_lastWrite (hpages k hk hle)

end Store

end Paged
