import Mathlib
import Litestream.Lib.Cover
import Litestream.Lib.Delta
import Litestream.Lib.Paged

/-!
# Patches of a history of stores

A history of stores has a store for each number of transactions.  A patch for the
transactions `a` to `b` has page versions and the size at `b`.  It is faithful when every
page at `b` is in it as of `b`, or did not change from `a` on.

The pages of a chain of faithful patches, the newest version of each, make up a faithful
patch again (`Faithful.merge`).  A chain from the first transaction on has every page of the
store it ends at (`Merges.decodes`).  Ranges may overlap.
-/

namespace Paged

open Overlay Cover

variable {κ α : Type*} [LinearOrder κ]

/-- Page versions, and a size. -/
structure Patch (κ α : Type*) where
  size : κ
  pages : List (κ × α)
deriving DecidableEq

/-- The live pages of a history, none past the size. -/
def cells (live : κ → Prop) (H : ℕ → Store κ α) (t : ℕ) (k : {k // live k}) : Option α :=
  if k.val ≤ (H t).size then some ((H t).page k) else none

/-- A live page did not change after `a`, up to `b`. -/
abbrev Still (live : κ → Prop) (H : ℕ → Store κ α) (a b : ℕ) (k : {k // live k}) : Prop :=
  Delta.Still (cells live H) id a b k

/-- The patch has the pages at `b` that changed from `a` on. -/
structure Faithful (live : κ → Prop) (H : ℕ → Store κ α) (a b : ℕ) (p : Patch κ α) : Prop where
  size : p.size = (H b).size
  pages : ∀ k : {k // live k}, k.val ≤ (H b).size →
    lastWrite p.pages k = some ((H b).page k) ∨
      lastWrite p.pages k = none ∧ Still live H (a - 1) b k

/-- The patch has the newest version of each page of the patches, up to the size of the last
one. -/
structure Merges (live : κ → Prop) (ps : List (Patch κ α)) (p : Patch κ α) : Prop where
  size : ps.getLast?.map Patch.size = some p.size
  pages : ∀ k, live k → k ≤ p.size → lastWrite p.pages k = lastWrite (ps.flatMap Patch.pages) k

/-- The store is decoded from the patch: every page is there. -/
structure Decodes (live : κ → Prop) (p : Patch κ α) (a : Store κ α) : Prop where
  size : p.size = a.size
  pages : ∀ k, live k → k ≤ a.size → lastWrite p.pages k = some (a.page k)

/-- The patch leads from one store to another: it has the pages that differ. -/
structure Updates (live : κ → Prop) (p : Patch κ α) (a b : Store κ α) : Prop where
  size : p.size = b.size
  pages : ∀ k, live k → k ≤ b.size → lastWrite p.pages k = some (b.page k) ∨
    lastWrite p.pages k = none ∧ k ≤ a.size ∧ a.page k = b.page k

variable {live : κ → Prop} {H : ℕ → Store κ α} {a b t : ℕ} {k : {k // live k}} {p : Patch κ α}

theorem cells_of_le (h : k.val ≤ (H t).size) : cells live H t k = some ((H t).page k) := if_pos h

theorem cells_ne_none : cells live H t k ≠ none ↔ k.val ≤ (H t).size := by
  rw [cells]
  split
  · next h => exact ⟨fun _ => h, fun _ h => by cases h⟩
  · next h => exact ⟨fun hne => absurd rfl hne, fun hle => absurd hle h⟩

/-- A page that did not change was there before. -/
theorem Still.page_eq (h : Still live H a b k) (hab : a ≤ b) (hk : k.val ≤ (H b).size) :
    k.val ≤ (H a).size ∧ (H a).page k = (H b).page k := by
  have heq : cells live H a k = cells live H b k :=
    Delta.Still.eq h hab (cells_ne_none.mpr hk)
  have ha : k.val ≤ (H a).size := cells_ne_none.mp (heq ▸ cells_ne_none.mpr hk)
  rw [cells_of_le ha, cells_of_le hk] at heq
  exact ⟨ha, Option.some.inj heq⟩

/-- Only the stores up to the end matter. -/
theorem Faithful.congr {H' : ℕ → Store κ α} (h : Faithful live H a b p)
    (hH : ∀ t ≤ b, H' t = H t) : Faithful live H' a b p := by
  have hcells : ∀ t ≤ b, cells live H' t = cells live H t := fun t ht => by
    funext k
    rw [cells, cells, hH t ht]
  refine ⟨by rw [hH b le_rfl, h.size], fun k hk => ?_⟩
  rw [hH b le_rfl] at hk ⊢
  rcases h.pages k hk with hpage | ⟨hnone, hstill⟩
  · exact .inl hpage
  · refine .inr ⟨hnone, fun t hat htb hchanged => hstill t hat htb ?_⟩
    obtain ⟨i, hi, hlive, hne⟩ := hchanged
    rw [hcells t htb] at hlive hne
    rw [hcells (t - 1) (by omega)] at hne
    exact ⟨i, hi, hlive, hne⟩

/-! ## One transaction -/

/-- A patch that leads from one store to the next is faithful. -/
theorem Updates.faithful (h : Updates live p (H t) (H (t + 1))) :
    Faithful live H (t + 1) (t + 1) p := by
  refine ⟨h.size, fun k hk => ?_⟩
  rcases h.pages k k.property hk with hpage | ⟨hnone, hle, hpage⟩
  · exact .inl hpage
  · refine .inr ⟨hnone, fun u htu hut => ?_⟩
    obtain rfl : u = t + 1 := by omega
    rintro ⟨i, rfl, -, hne⟩
    refine hne ?_
    rw [Nat.add_sub_cancel]
    exact (cells_of_le hle).trans ((congrArg some hpage).trans (cells_of_le hk).symm)

/-- A patch with every page is faithful wherever its range starts. -/
theorem Decodes.faithful (h : Decodes live p (H b)) : Faithful live H a b p :=
  ⟨h.size, fun k hk => .inl (h.pages k k.property hk)⟩

/-- What is decoded is determined by the patch. -/
theorem Decodes.agree {s s' : Store κ α} (h : Decodes live p s) (h' : Decodes live p s') :
    Store.Agree live s s' := by
  have hsize : s.size = s'.size := h.size.symm.trans h'.size
  refine ⟨hsize, fun k hk hle => ?_⟩
  exact Option.some.inj ((h.pages k hk hle).symm.trans (h'.pages k hk (hsize ▸ hle)))

theorem Decodes.of_agree {s s' : Store κ α} (h : Decodes live p s)
    (hagree : Store.Agree live s s') : Decodes live p s' := by
  refine ⟨h.size.trans hagree.1, fun k hk hle => ?_⟩
  rw [← hagree.1] at hle
  rw [h.pages k hk hle, hagree.2 k hk hle]

/-! ## Chains of patches -/

section

variable {ι : Type*} {lo hi : ι → ℕ} {patch : ι → Patch κ α} {cur : ℕ} {xs : List ι}

/-- The newest version of each page in a chain is that of the end, or the page did not change
from the start on. -/
theorem lastWrite_chain (hchain : Chain lo hi cur xs)
    (h : ∀ x ∈ xs, Faithful live H (lo x) (hi x) (patch x))
    (hk : k.val ≤ (H (reach hi cur xs)).size) :
    lastWrite (xs.flatMap fun x => (patch x).pages) k = some ((H (reach hi cur xs)).page k) ∨
      lastWrite (xs.flatMap fun x => (patch x).pages) k = none ∧
        Still live H cur (reach hi cur xs) k := by
  induction xs generalizing cur with
  | nil => exact .inr ⟨rfl, fun t hat htb => absurd htb (not_le.mpr hat)⟩
  | cons x xs ih =>
      obtain ⟨hlo, hhi, hrest⟩ := hchain
      rw [reach_cons] at hk ⊢
      rw [List.flatMap_cons, lastWrite_append]
      rcases ih hrest (fun y hy => h y (List.mem_cons_of_mem x hy)) hk with hlast | ⟨hnone, hstill⟩
      · exact .inl (by rw [hlast, Option.some_or])
      · -- no later patch has the page, so it is as it was at the end of this one
        rw [hnone, Option.none_or]
        obtain ⟨hle, hpage⟩ := hstill.page_eq hrest.le_reach hk
        rcases (h x List.mem_cons_self).pages k hle with hhere | ⟨hhere, hstill'⟩
        · exact .inl (by rw [hhere, hpage])
        · exact .inr ⟨hhere, (hstill'.mono (by omega) le_rfl).trans hstill⟩

theorem size_chain (hne : xs ≠ []) (h : ∀ x ∈ xs, Faithful live H (lo x) (hi x) (patch x)) :
    (xs.map patch).getLast?.map Patch.size = some (H (reach hi cur xs)).size := by
  rw [List.getLast?_map, List.getLast?_eq_some_getLast hne, Option.map_some, Option.map_some,
    reach_eq_getLast cur hne, (h _ (List.getLast_mem hne)).size]

/-- Merging a chain of faithful patches. -/
theorem Faithful.merge (hchain : Chain lo hi cur xs) (hne : xs ≠ [])
    (h : ∀ x ∈ xs, Faithful live H (lo x) (hi x) (patch x)) (hp : Merges live (xs.map patch) p) :
    Faithful live H (cur + 1) (reach hi cur xs) p := by
  have hsize : p.size = (H (reach hi cur xs)).size :=
    Option.some.inj (hp.size.symm.trans (size_chain hne h))
  refine ⟨hsize, fun k hk => ?_⟩
  rw [hp.pages k k.property (hsize ▸ hk), List.flatMap_map, Nat.add_sub_cancel]
  exact lastWrite_chain hchain h hk

/-- From the first transaction on, the merged patch has every page of the store at the end. -/
theorem Merges.decodes (hp : Merges live (xs.map patch) p) (hchain : Chain lo hi 0 xs)
    (hne : xs ≠ []) (h : ∀ x ∈ xs, Faithful live H (lo x) (hi x) (patch x))
    (hempty : ∀ k, live k → ¬ k ≤ (H 0).size) : Decodes live p (H (reach hi 0 xs)) := by
  have hmerge := Faithful.merge hchain hne h hp
  refine ⟨hmerge.size, fun k hk hle => ?_⟩
  rcases hmerge.pages ⟨k, hk⟩ hle with hpage | ⟨-, hstill⟩
  · exact hpage
  · exact absurd (hstill.page_eq (Nat.zero_le _) hle).1 (hempty k hk)

end

end Paged
