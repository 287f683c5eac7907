import Litestream.Lib.Overlay

/-!
# Maps that are resized

A change of a map writes some entries and sets a size.  Entries above the size are cut off.
A change shrinks the map if its size is below the one before.

`replay` is the map after a list of changes.  `mem_replay_iff` says which keys it has, and
`lastWrite_replay` says that a key it has maps to what was written last.

A map can also be kept as the writes since the last change that shrinks it (`sinceShrink`),
which needs no cutting.  `mem_replay_of_sinceShrink` says that this keeps nothing that was
cut off.
-/

namespace Resize

open Overlay

variable {α β : Type*} (size : α → Nat) (writes : α → List (Nat × β))

/-- The map after a list of changes. -/
def replay (base : List (Nat × β)) (changes : List α) : List (Nat × β) :=
  changes.foldl (fun m c => m.filter (fun w => w.1 ≤ size c) ++ writes c) base

/-- The size after a list of changes. -/
def finalSize (n : Nat) (changes : List α) : Nat := changes.foldl (fun _ c => size c) n

/-- Some change has a smaller size than the one before. -/
def Shrinks : Nat → List α → Prop
  | _, [] => False
  | n, c :: changes => size c < n ∨ Shrinks (size c) changes

instance decidableShrinks : ∀ (n : Nat) (changes : List α), Decidable (Shrinks size n changes)
  | _, [] => .isFalse id
  | n, c :: changes =>
      have := decidableShrinks (size c) changes
      inferInstanceAs (Decidable (size c < n ∨ Shrinks size (size c) changes))

/-- The changes from the last one that shrinks the map on, and all if none does. -/
def sinceShrink : List α → List α
  | [] => []
  | c :: changes => if Shrinks size (size c) changes then sinceShrink changes else c :: changes

variable {size writes} {base : List (Nat × β)} {changes : List α} {n k : Nat}

/-! ## Sizes -/

@[simp] theorem finalSize_nil (n : Nat) : finalSize size n [] = n := rfl

@[simp] theorem finalSize_cons (n : Nat) (c : α) (changes : List α) :
    finalSize size n (c :: changes) = finalSize size (size c) changes := rfl

@[simp] theorem shrinks_nil : ¬ Shrinks size n [] := id

theorem shrinks_cons {c : α} :
    Shrinks size n (c :: changes) ↔ size c < n ∨ Shrinks size (size c) changes := Iff.rfl

theorem Shrinks.mono {m : Nat} (h : Shrinks size n changes) (hle : n ≤ m) :
    Shrinks size m changes := by
  cases changes with
  | nil => exact h
  | cons c changes => exact h.imp_left fun hlt => hlt.trans_le hle

theorem shrinks_append {xs ys : List α} :
    Shrinks size n (xs ++ ys) ↔ Shrinks size n xs ∨ Shrinks size (finalSize size n xs) ys := by
  induction xs generalizing n with
  | nil => exact (or_iff_right id).symm
  | cons c xs ih => rw [List.cons_append, Shrinks, ih, Shrinks, or_assoc, finalSize_cons]

/-- Without a change that shrinks the map, no change is below what was there. -/
theorem le_size (h : ¬ Shrinks size n changes) : ∀ c ∈ changes, n ≤ size c := by
  induction changes generalizing n with
  | nil => simp
  | cons c changes ih =>
      rw [Shrinks, not_or, not_lt] at h
      intro d hd
      rcases List.mem_cons.mp hd with rfl | hd
      · exact h.1
      · exact h.1.trans (ih h.2 d hd)

theorem le_finalSize (h : ¬ Shrinks size n changes) : n ≤ finalSize size n changes := by
  induction changes generalizing n with
  | nil => exact le_rfl
  | cons c changes ih =>
      rw [Shrinks, not_or, not_lt] at h
      exact h.1.trans (ih h.2)

/-! ## The changes since the last that shrinks the map -/

theorem sinceShrink_of_not (h : ¬ Shrinks size n changes) : sinceShrink size changes = changes := by
  cases changes with
  | nil => rfl
  | cons c changes =>
      rw [Shrinks, not_or] at h
      rw [sinceShrink, if_neg h.2]

theorem sinceShrink_suffix (size : α → Nat) (changes : List α) :
    sinceShrink size changes <:+ changes := by
  induction changes with
  | nil => exact List.suffix_rfl
  | cons c changes ih =>
      rw [sinceShrink]
      split
      · exact ih.trans (List.suffix_cons c changes)
      · exact List.suffix_rfl

theorem sinceShrink_append_of_shrinks {xs ys : List α} (h : Shrinks size (finalSize size n xs) ys) :
    sinceShrink size (xs ++ ys) = sinceShrink size ys := by
  induction xs generalizing n with
  | nil => rfl
  | cons c xs ih =>
      have hs : Shrinks size (size c) (xs ++ ys) := shrinks_append.mpr (Or.inr h)
      rw [List.cons_append, sinceShrink, if_pos hs, ih h]

theorem sinceShrink_append_of_not {xs ys : List α}
    (h : ¬ Shrinks size (finalSize size n xs) ys) :
    sinceShrink size (xs ++ ys) = sinceShrink size xs ++ ys := by
  induction xs generalizing n with
  | nil => exact sinceShrink_of_not h
  | cons c xs ih =>
      have hiff : Shrinks size (size c) (xs ++ ys) ↔ Shrinks size (size c) xs :=
        shrinks_append.trans (or_iff_left h)
      rw [List.cons_append, sinceShrink, sinceShrink]
      split
      · next hs => rw [if_pos (hiff.mp hs), ih h]
      · next hs => rw [if_neg fun hs' => hs (hiff.mpr hs'), List.cons_append]

/-- The changes since the last that shrinks the map are within the final size. -/
theorem size_le_finalSize {c : α} (hc : c ∈ sinceShrink size changes) :
    size c ≤ finalSize size n changes := by
  induction changes generalizing n with
  | nil => cases hc
  | cons d changes ih =>
      rw [sinceShrink] at hc
      split at hc
      · exact ih hc
      · next h =>
          rw [finalSize_cons]
          rcases List.mem_cons.mp hc with rfl | hc
          · exact le_finalSize h
          · exact ih (by rwa [sinceShrink_of_not h])

/-- A final size above the first one is that of a change. -/
theorem exists_le_size (hlt : n < k) (hle : k ≤ finalSize size n changes) :
    ∃ c ∈ changes, k ≤ size c := by
  induction changes generalizing n with
  | nil => exact absurd hle (Nat.not_le.mpr hlt)
  | cons c changes ih =>
      rcases Nat.lt_or_ge (size c) k with hc | hc
      · obtain ⟨d, hd, hle⟩ := ih hc hle
        exact ⟨d, List.mem_cons_of_mem c hd, hle⟩
      · exact ⟨c, List.mem_cons_self, hc⟩

/-! ## The map after a list of changes -/

@[simp] theorem replay_nil (base : List (Nat × β)) : replay size writes base [] = base := rfl

theorem replay_append (base : List (Nat × β)) (xs ys : List α) :
    replay size writes base (xs ++ ys) = replay size writes (replay size writes base xs) ys :=
  List.foldl_append

theorem mem_filter_keys {m : List (Nat × β)} :
    k ∈ (m.filter fun w => w.1 ≤ n).map Prod.fst ↔ k ∈ m.map Prod.fst ∧ k ≤ n := by
  simp only [List.mem_map, List.mem_filter, decide_eq_true_eq]
  constructor
  · rintro ⟨w, ⟨hw, hle⟩, rfl⟩
    exact ⟨⟨w, hw, rfl⟩, hle⟩
  · rintro ⟨⟨w, hw, rfl⟩, hle⟩
    exact ⟨w, ⟨hw, hle⟩, rfl⟩

/-- A key is in the map if it was there or was written, and was not cut off since. -/
theorem mem_replay_iff : k ∈ (replay size writes base changes).map Prod.fst ↔
    (k ∈ base.map Prod.fst ∧ ∀ c ∈ changes, k ≤ size c) ∨
      ∃ before c after, changes = before ++ c :: after ∧ k ∈ (writes c).map Prod.fst ∧
        ∀ d ∈ after, k ≤ size d := by
  induction changes generalizing base with
  | nil => simp
  | cons c changes ih =>
      change k ∈ (replay size writes (_ ++ writes c) changes).map Prod.fst ↔ _
      rw [ih, List.map_append, List.mem_append, mem_filter_keys]
      constructor
      · rintro (⟨⟨hbase, hle⟩ | hwrite, hlater⟩ | ⟨before, d, after, rfl, hwrite, hlater⟩)
        · exact Or.inl ⟨hbase, List.forall_mem_cons.mpr ⟨hle, hlater⟩⟩
        · exact Or.inr ⟨[], c, changes, rfl, hwrite, hlater⟩
        · exact Or.inr ⟨c :: before, d, after, rfl, hwrite, hlater⟩
      · rintro (⟨hbase, hle⟩ | ⟨before, d, after, heq, hwrite, hlater⟩)
        · obtain ⟨hle, hlater⟩ := List.forall_mem_cons.mp hle
          exact Or.inl ⟨Or.inl ⟨hbase, hle⟩, hlater⟩
        · cases before with
          | nil =>
              obtain ⟨rfl, rfl⟩ := List.cons.inj heq
              exact Or.inl ⟨Or.inr hwrite, hlater⟩
          | cons b before =>
              obtain ⟨rfl, rfl⟩ := List.cons.inj heq
              exact Or.inr ⟨before, d, after, rfl, hwrite, hlater⟩

theorem lastWrite_filter {m : List (Nat × β)} (hle : k ≤ n) :
    lastWrite (m.filter fun w => w.1 ≤ n) k = lastWrite m k := by
  induction m with
  | nil => rfl
  | cons w m ih =>
      rw [List.filter_cons]
      split
      · rw [lastWrite_cons, ih, lastWrite_cons]
      · next hw =>
          have hne : w.1 ≠ k := by
            rintro rfl
            exact hw (decide_eq_true hle)
          rw [ih, lastWrite_cons, if_neg hne, Option.or_none]

/-- A key of the map maps to what was written to it last. -/
theorem lastWrite_replay (h : k ∈ (replay size writes base changes).map Prod.fst) :
    lastWrite (replay size writes base changes) k =
      lastWrite (base ++ changes.flatMap writes) k := by
  induction changes generalizing base with
  | nil => rw [List.flatMap_nil, List.append_nil, replay_nil]
  | cons c changes ih =>
      change lastWrite (replay size writes (_ ++ writes c) changes) k = _
      rw [ih h, List.flatMap_cons, ← List.append_assoc, lastWrite_append _ (changes.flatMap writes),
        lastWrite_append _ (writes c), lastWrite_append _ (changes.flatMap writes),
        lastWrite_append base]
      by_cases hle : k ≤ size c
      · rw [lastWrite_filter hle]
      · -- the key was cut off, so it was written later
        have hlater : k ∈ (changes.flatMap writes).map Prod.fst ∨ k ∈ (writes c).map Prod.fst := by
          rcases mem_replay_iff.mp h with ⟨-, hle'⟩ | ⟨before, d, after, heq, hwrite, -⟩
          · exact absurd (hle' c List.mem_cons_self) hle
          · cases before with
            | nil =>
                obtain ⟨rfl, rfl⟩ := List.cons.inj heq
                exact Or.inr hwrite
            | cons b before =>
                obtain ⟨rfl, rfl⟩ := List.cons.inj heq
                rw [List.map_flatMap]
                exact Or.inl (List.mem_flatMap.mpr ⟨d, by simp, hwrite⟩)
        rcases hlater with hlater | hlater
        · obtain ⟨a, ha⟩ := Option.ne_none_iff_exists'.mp (lastWrite_eq_none_iff.not_left.mpr hlater)
          rw [ha, Option.some_or, Option.some_or]
        · obtain ⟨a, ha⟩ := Option.ne_none_iff_exists'.mp (lastWrite_eq_none_iff.not_left.mpr hlater)
          rw [ha, Option.some_or, Option.some_or]

/-- Without a change that shrinks the map nothing that is written is cut off. -/
theorem mem_replay_of_not_shrinks (hbound : ∀ c ∈ changes, ∀ w ∈ writes c, w.1 ≤ size c)
    (h : ¬ Shrinks size n changes) (hk : k ∈ (changes.flatMap writes).map Prod.fst) :
    k ∈ (replay size writes base changes).map Prod.fst := by
  rw [List.map_flatMap, List.mem_flatMap] at hk
  obtain ⟨c, hc, hwrite⟩ := hk
  obtain ⟨before, after, rfl⟩ := List.append_of_mem hc
  refine mem_replay_iff.mpr (Or.inr ⟨before, c, after, rfl, hwrite, fun d hd => ?_⟩)
  obtain ⟨w, hw, rfl⟩ := List.mem_map.mp hwrite
  rw [shrinks_append, not_or, Shrinks, not_or] at h
  exact (hbound c hc w hw).trans (le_size h.2.2 d hd)

/-- What was written since the last change that shrinks the map is in the map. -/
theorem mem_replay_of_sinceShrink (hbound : ∀ c ∈ changes, ∀ w ∈ writes c, w.1 ≤ size c)
    (hk : k ∈ ((sinceShrink size changes).flatMap writes).map Prod.fst) :
    k ∈ (replay size writes base changes).map Prod.fst := by
  induction changes generalizing base with
  | nil => cases hk
  | cons c changes ih =>
      rw [sinceShrink] at hk
      split at hk
      · exact ih (fun d hd => hbound d (List.mem_cons_of_mem c hd)) hk
      · next h =>
          refine mem_replay_of_not_shrinks hbound (n := size c) ?_ hk
          rw [Shrinks, not_or]
          exact ⟨lt_irrefl _, h⟩

end Resize
