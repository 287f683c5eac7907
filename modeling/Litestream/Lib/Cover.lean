import Mathlib

/-!
# Chains of intervals

Intervals `[lo x, hi x]` of natural numbers, for `x` in any type.  A list of intervals
is *linked* from `cur` when each starts at most one past the end of the one before it,
the first at most one past `cur`.  A *chain* also makes progress at every interval, and a
*tiling* starts each interval exactly one past the one before.

A list *resumes* at `cur` when what it has past `cur` tiles from `cur` on.  This is what
an incremental consumer that stopped at `cur` needs of its source (`Resumes.tiled_filter`).

A set of intervals is *closed* at `cur` when nothing in it that starts at `cur + 1` or
before reaches past `cur`.  No linked list of a closed set leaves the set
(`Linked.hi_le_of_closed`), so a chain that ends where its set is closed reaches as far
as any other list of that set.  This is why extending a chain greedily never dead-ends.
-/

namespace Cover

variable {α : Type*} (lo hi : α → Nat)

/-- Every interval starts at most one past the end of the one before it. -/
def Linked : Nat → List α → Prop
  | _, [] => True
  | cur, x :: xs => lo x ≤ cur + 1 ∧ Linked (hi x) xs

/-- A linked list in which every interval reaches past the one before it. -/
def Chain : Nat → List α → Prop
  | _, [] => True
  | cur, x :: xs => lo x ≤ cur + 1 ∧ cur < hi x ∧ Chain (hi x) xs

/-- Every interval starts exactly one past the end of the one before it. -/
def Tiled : Nat → List α → Prop
  | _, [] => True
  | cur, x :: xs => lo x = cur + 1 ∧ Tiled (hi x) xs

/-- Where a list of intervals that starts from `cur` ends. -/
def reach : Nat → List α → Nat
  | cur, [] => cur
  | _, x :: xs => reach (hi x) xs

/-- The largest end of a list of intervals, zero if there is none. -/
def top : List α → Nat
  | [] => 0
  | x :: xs => max (hi x) (top xs)

/-- The intervals come one after the other without overlap. -/
def Ascending (xs : List α) : Prop := xs.Pairwise fun x y => hi x < lo y

/-- The intervals that end past `cur` come last and tile what follows `cur`. -/
def Resumes (cur : Nat) (xs : List α) : Prop :=
  ∃ pre post, xs = pre ++ post ∧ (∀ x ∈ pre, hi x ≤ cur) ∧ Tiled lo hi cur post

/-- No interval of `S` that starts at `cur + 1` or before reaches past `cur`. -/
def Closed (S : α → Prop) (cur : Nat) : Prop :=
  ∀ x, S x → lo x ≤ cur + 1 → hi x ≤ cur

variable {lo hi}

@[simp] theorem reach_nil (cur : Nat) : reach hi cur [] = cur := rfl

@[simp] theorem reach_cons (cur : Nat) (x : α) (xs : List α) :
    reach hi cur (x :: xs) = reach hi (hi x) xs := rfl

theorem reach_append (cur : Nat) (xs ys : List α) :
    reach hi cur (xs ++ ys) = reach hi (reach hi cur xs) ys := by
  induction xs generalizing cur with
  | nil => rfl
  | cons x xs ih => exact ih (hi x)

theorem reach_concat (cur : Nat) (xs : List α) (x : α) :
    reach hi cur (xs ++ [x]) = hi x := by
  rw [reach_append]
  rfl

theorem reach_mono {cur cur' : Nat} (h : cur ≤ cur') :
    ∀ xs : List α, reach hi cur xs ≤ reach hi cur' xs
  | [] => h
  | _ :: _ => Nat.le_refl _

/-- The end of a nonempty list is the end of its last interval. -/
theorem reach_eq_getLast (cur : Nat) {xs : List α} (h : xs ≠ []) :
    reach hi cur xs = hi (xs.getLast h) := by
  conv_lhs => rw [← List.dropLast_append_getLast h]
  exact reach_concat cur _ _

/-! ## Chains -/

theorem Chain.linked : ∀ {cur : Nat} {xs : List α}, Chain lo hi cur xs → Linked lo hi cur xs
  | _, [], _ => trivial
  | _, _ :: _, h => ⟨h.1, h.2.2.linked⟩

theorem Chain.append : ∀ {cur : Nat} {xs ys : List α}, Chain lo hi cur xs →
    Chain lo hi (reach hi cur xs) ys → Chain lo hi cur (xs ++ ys)
  | _, [], _, _, h => h
  | _, _ :: _, _, hx, hy => ⟨hx.1, hx.2.1, hx.2.2.append hy⟩

theorem Chain.concat {cur : Nat} {xs : List α} {x : α} (h : Chain lo hi cur xs)
    (hlo : lo x ≤ reach hi cur xs + 1) (hhi : reach hi cur xs < hi x) :
    Chain lo hi cur (xs ++ [x]) :=
  h.append ⟨hlo, hhi, trivial⟩

theorem Chain.le_reach : ∀ {cur : Nat} {xs : List α}, Chain lo hi cur xs → cur ≤ reach hi cur xs
  | _, [], _ => Nat.le_refl _
  | _, _ :: _, h => Nat.le_trans (Nat.le_of_lt h.2.1) h.2.2.le_reach

theorem Chain.hi_le_reach : ∀ {cur : Nat} {xs : List α}, Chain lo hi cur xs →
    ∀ x ∈ xs, hi x ≤ reach hi cur xs
  | _, [], _, _, hx => by cases hx
  | _, y :: ys, h, x, hx => by
      rcases List.mem_cons.mp hx with rfl | hx
      · exact h.2.2.le_reach
      · exact h.2.2.hi_le_reach x hx

/-- Every interval of a chain ends past where the chain starts. -/
theorem Chain.lt_hi : ∀ {cur : Nat} {xs : List α}, Chain lo hi cur xs → ∀ x ∈ xs, cur < hi x
  | _, [], _, _, hx => by cases hx
  | _, y :: ys, h, x, hx => by
      rcases List.mem_cons.mp hx with rfl | hx
      · exact h.2.1
      · exact Nat.lt_trans h.2.1 (h.2.2.lt_hi x hx)

/-- The ends of a chain increase strictly. -/
theorem Chain.pairwise : ∀ {cur : Nat} {xs : List α}, Chain lo hi cur xs →
    xs.Pairwise (fun x y => hi x < hi y)
  | _, [], _ => .nil
  | _, _ :: _, h => .cons (fun y hy => h.2.2.lt_hi y hy) h.2.2.pairwise

/-- A linked list covers every number between its start and its end. -/
theorem Linked.exists_cover : ∀ {cur : Nat} {xs : List α}, Linked lo hi cur xs →
    ∀ {n : Nat}, cur < n → n ≤ reach hi cur xs → ∃ x ∈ xs, lo x ≤ n ∧ n ≤ hi x
  | _, [], _, _, hlt, hle => by
      rw [reach_nil] at hle
      omega
  | cur, x :: xs, h, n, hlt, hle => by
      by_cases hn : n ≤ hi x
      · exact ⟨x, by simp, by have := h.1; omega, hn⟩
      · obtain ⟨y, hy, hcov⟩ := h.2.exists_cover (by omega) hle
        exact ⟨y, by simp [hy], hcov⟩

/-- A chain covers every number between its start and its end. -/
theorem Chain.exists_cover {cur : Nat} {xs : List α} (h : Chain lo hi cur xs) {n : Nat}
    (hlt : cur < n) (hle : n ≤ reach hi cur xs) : ∃ x ∈ xs, lo x ≤ n ∧ n ≤ hi x :=
  h.linked.exists_cover hlt hle

theorem Linked.mono {cur cur' : Nat} {xs : List α} (h : Linked lo hi cur xs) (hle : cur ≤ cur') :
    Linked lo hi cur' xs := by
  cases xs with
  | nil => trivial
  | cons x xs => exact ⟨by have := h.1; omega, h.2⟩

theorem linked_append {cur : Nat} {xs ys : List α} :
    Linked lo hi cur (xs ++ ys) ↔ Linked lo hi cur xs ∧ Linked lo hi (reach hi cur xs) ys := by
  induction xs generalizing cur with
  | nil => simp [Linked]
  | cons x xs ih => simp [Linked, ih, and_assoc]

theorem Linked.concat {cur : Nat} {xs : List α} {x : α} (h : Linked lo hi cur xs)
    (hlo : lo x ≤ reach hi cur xs + 1) : Linked lo hi cur (xs ++ [x]) :=
  linked_append.mpr ⟨h, hlo, trivial⟩

/-! ## Closed sets -/

/-- A list linked from within a closed set's bound stays within it. -/
theorem Linked.hi_le_of_closed {S : α → Prop} {cur : Nat} (hS : Closed lo hi S cur) :
    ∀ {start : Nat} {xs : List α}, Linked lo hi start xs → (∀ x ∈ xs, S x) → start ≤ cur →
      ∀ x ∈ xs, hi x ≤ cur
  | _, [], _, _, _, _, hx => by cases hx
  | start, y :: ys, h, hmem, hle, x, hx => by
      have hy : hi y ≤ cur := hS y (hmem y (by simp)) (by have := h.1; omega)
      rcases List.mem_cons.mp hx with rfl | hx
      · exact hy
      · exact Linked.hi_le_of_closed hS h.2 (fun z hz => hmem z (by simp [hz])) hy x hx

/-- Where a linked list ends is within the bound of a closed set that holds it. -/
theorem Linked.reach_le_of_closed {S : α → Prop} {cur : Nat} (hS : Closed lo hi S cur)
    {start : Nat} {xs : List α} (h : Linked lo hi start xs) (hmem : ∀ x ∈ xs, S x)
    (hle : start ≤ cur) : reach hi start xs ≤ cur := by
  by_cases hne : xs = []
  · subst hne
    exact hle
  · rw [reach_eq_getLast start hne]
    exact h.hi_le_of_closed hS hmem hle _ (List.getLast_mem hne)

theorem Closed.mono {S T : α → Prop} {cur : Nat} (h : Closed lo hi S cur)
    (hTS : ∀ x, T x → S x) : Closed lo hi T cur :=
  fun x hx hlo => h x (hTS x hx) hlo

/-! ## Tilings -/

theorem Tiled.linked : ∀ {cur : Nat} {xs : List α}, Tiled lo hi cur xs → Linked lo hi cur xs
  | _, [], _ => trivial
  | _, _ :: _, h => ⟨Nat.le_of_eq h.1, h.2.linked⟩

/-- A tiling by nonempty intervals is a chain. -/
theorem Tiled.chain : ∀ {cur : Nat} {xs : List α}, Tiled lo hi cur xs →
    (∀ x ∈ xs, lo x ≤ hi x) → Chain lo hi cur xs
  | _, [], _, _ => trivial
  | cur, x :: xs, h, hne => by
      have hx := hne x (by simp)
      have hlo := h.1
      exact ⟨by omega, by omega, h.2.chain fun y hy => hne y (by simp [hy])⟩

theorem tiled_append {cur : Nat} {xs ys : List α} :
    Tiled lo hi cur (xs ++ ys) ↔ Tiled lo hi cur xs ∧ Tiled lo hi (reach hi cur xs) ys := by
  induction xs generalizing cur with
  | nil => simp [Tiled]
  | cons x xs ih => simp [Tiled, ih, and_assoc]

theorem Tiled.concat {cur : Nat} {xs : List α} {x : α} (h : Tiled lo hi cur xs)
    (hx : lo x = reach hi cur xs + 1) : Tiled lo hi cur (xs ++ [x]) :=
  tiled_append.mpr ⟨h, hx, trivial⟩

/-- Every interval of a tiling starts past where the tiling starts. -/
theorem Tiled.lt_lo : ∀ {cur : Nat} {xs : List α}, Tiled lo hi cur xs →
    (∀ x ∈ xs, lo x ≤ hi x) → ∀ x ∈ xs, cur < lo x
  | _, [], _, _, _, hx => by cases hx
  | cur, y :: ys, h, hne, x, hx => by
      have hy := h.1
      rcases List.mem_cons.mp hx with rfl | hx
      · omega
      · have := h.2.lt_lo (fun z hz => hne z (by simp [hz])) x hx
        have := hne y (by simp)
        omega

theorem Tiled.ascending : ∀ {cur : Nat} {xs : List α}, Tiled lo hi cur xs →
    (∀ x ∈ xs, lo x ≤ hi x) → Ascending lo hi xs
  | _, [], _, _ => .nil
  | _, _ :: _, h, hne =>
      have hne' := fun y hy => hne y (List.mem_cons_of_mem _ hy)
      .cons (h.2.lt_lo hne') (h.2.ascending hne')

/-- A chain of intervals that ascend leaves no overlap. -/
theorem Chain.tiled : ∀ {cur : Nat} {xs : List α}, Chain lo hi cur xs → Ascending lo hi xs →
    (∀ x ∈ xs, cur < lo x) → Tiled lo hi cur xs
  | _, [], _, _, _ => trivial
  | cur, x :: xs, h, hasc, hcur => by
      obtain ⟨hlt, hasc⟩ := List.pairwise_cons.mp hasc
      have hx := hcur x (by simp)
      have hlo := h.1
      exact ⟨by omega, h.2.2.tiled hasc hlt⟩

/-- What starts at `n` or later comes last. -/
theorem Tiled.filter_suffix {cur : Nat} {xs : List α} (h : Tiled lo hi cur xs)
    (hne : ∀ x ∈ xs, lo x ≤ hi x) (n : Nat) : xs.filter (fun x => n ≤ lo x) <:+ xs := by
  induction xs generalizing cur with
  | nil => exact List.suffix_rfl
  | cons x xs ih =>
      have hne' := fun y hy => hne y (List.mem_cons_of_mem _ hy)
      by_cases hx : n ≤ lo x
      · have hall : ∀ y ∈ x :: xs, n ≤ lo y := fun y hy => by
          rcases List.mem_cons.mp hy with rfl | hy
          · exact hx
          · have hlt := h.2.lt_lo hne' y hy
            have hle := hne x List.mem_cons_self
            omega
        rw [List.filter_eq_self.mpr fun y hy => decide_eq_true (hall y hy)]
      · rw [List.filter_cons_of_neg (by simpa using hx)]
        exact (ih h.2 hne').trans (List.suffix_cons x xs)

/-! ## The largest end -/

@[simp] theorem top_nil : top hi ([] : List α) = 0 := rfl

@[simp] theorem top_cons (x : α) (xs : List α) : top hi (x :: xs) = max (hi x) (top hi xs) := rfl

@[simp] theorem top_append (xs ys : List α) :
    top hi (xs ++ ys) = max (top hi xs) (top hi ys) := by
  induction xs with
  | nil => simp
  | cons x xs ih => simp [ih, Nat.max_assoc]

theorem le_top {x : α} : ∀ {xs : List α}, x ∈ xs → hi x ≤ top hi xs
  | y :: ys, h => by
      rw [top_cons]
      rcases List.mem_cons.mp h with rfl | h
      · exact Nat.le_max_left _ _
      · exact Nat.le_trans (le_top h) (Nat.le_max_right _ _)

theorem exists_top : ∀ {xs : List α}, 0 < top hi xs → ∃ x ∈ xs, hi x = top hi xs
  | [], h => by simp at h
  | x :: xs, h => by
      rw [top_cons] at h ⊢
      by_cases hx : top hi xs ≤ hi x
      · exact ⟨x, by simp, by omega⟩
      · obtain ⟨y, hy, hmax⟩ := exists_top (show 0 < top hi xs by omega)
        exact ⟨y, by simp [hy], by omega⟩

theorem top_le_iff {m : Nat} {xs : List α} : top hi xs ≤ m ↔ ∀ x ∈ xs, hi x ≤ m := by
  induction xs with
  | nil => simp
  | cons x xs ih => simp [ih]

/-- In a list without overlap the last interval ends last. -/
theorem Ascending.top_concat {xs : List α} {x : α} (h : Ascending lo hi (xs ++ [x]))
    (hx : lo x ≤ hi x) : top hi (xs ++ [x]) = hi x := by
  have hle : top hi xs ≤ hi x := top_le_iff.mpr fun y hy => by
    have := (List.pairwise_append.mp h).2.2 y hy x (by simp)
    omega
  simp [Nat.max_eq_right hle]

theorem Ascending.concat {xs : List α} {x : α} (h : Ascending lo hi xs) (hx : top hi xs < lo x) :
    Ascending lo hi (xs ++ [x]) :=
  List.pairwise_append.mpr ⟨h, List.pairwise_singleton _ _, fun y hy z hz => by
    obtain rfl : z = x := by simpa using hz
    exact Nat.lt_of_le_of_lt (le_top hy) hx⟩

/-- The end of a tiling is the larger of where it starts and its largest end. -/
theorem Tiled.reach_eq : ∀ {cur : Nat} {xs : List α}, Tiled lo hi cur xs →
    (∀ x ∈ xs, lo x ≤ hi x) → reach hi cur xs = max cur (top hi xs)
  | _, [], _, _ => by simp
  | cur, x :: xs, h, hne => by
      have hlo := h.1
      have hx := hne x (by simp)
      rw [reach_cons, h.2.reach_eq fun y hy => hne y (by simp [hy]), top_cons]
      omega

/-! ## Resuming -/

section
variable {cur : Nat} {xs : List α}

theorem Resumes.nil : Resumes lo hi cur [] := ⟨[], [], rfl, by simp, trivial⟩

theorem Tiled.resumes (h : Tiled lo hi cur xs) : Resumes lo hi cur xs :=
  ⟨[], xs, rfl, by simp, h⟩

theorem resumes_of_top_le (h : top hi xs ≤ cur) : Resumes lo hi cur xs :=
  ⟨xs, [], by simp, top_le_iff.mp h, trivial⟩

/-- What starts past `cur` is what tiles from `cur` on. -/
theorem Resumes.tiled_filter (h : Resumes lo hi cur xs) (hne : ∀ x ∈ xs, lo x ≤ hi x) :
    Tiled lo hi cur (xs.filter fun x => cur + 1 ≤ lo x) := by
  obtain ⟨pre, post, rfl, hpre, hpost⟩ := h
  have hnil : pre.filter (fun x => cur + 1 ≤ lo x) = [] := by
    refine List.filter_eq_nil_iff.mpr fun x hx => ?_
    have := hpre x hx
    have := hne x (by simp [hx])
    simp only [decide_eq_true_eq]
    omega
  have hall : post.filter (fun x => cur + 1 ≤ lo x) = post := by
    refine List.filter_eq_self.mpr fun x hx => ?_
    have := hpost.lt_lo (fun y hy => hne y (by simp [hy])) x hx
    simp only [decide_eq_true_eq]
    omega
  rwa [List.filter_append, hnil, hall, List.nil_append]

/-- What starts past `cur` ends where the whole list ends. -/
theorem Resumes.reach_filter (h : Resumes lo hi cur xs) (hne : ∀ x ∈ xs, lo x ≤ hi x)
    (hcur : cur ≤ top hi xs) : reach hi cur (xs.filter fun x => cur + 1 ≤ lo x) = top hi xs := by
  rw [(h.tiled_filter hne).reach_eq fun x hx => hne x (List.mem_filter.mp hx).1]
  refine Nat.le_antisymm (Nat.max_le.mpr ⟨hcur, ?_⟩) ?_
  · exact top_le_iff.mpr fun x hx => le_top (List.mem_filter.mp hx).1
  · obtain ⟨pre, post, rfl, hpre, hpost⟩ := h
    refine top_le_iff.mpr fun x hx => ?_
    rcases List.mem_append.mp hx with hx' | hx'
    · exact Nat.le_trans (hpre x hx') (Nat.le_max_left _ _)
    · have hlt := hpost.lt_lo (fun y hy => hne y (by simp [hy])) x hx'
      exact Nat.le_trans (le_top (List.mem_filter.mpr ⟨hx, decide_eq_true hlt⟩))
        (Nat.le_max_right _ _)

/-- Appending the next interval keeps a list that resumes at `cur`. -/
theorem Resumes.concat {x : α} (h : Resumes lo hi cur xs) (hne : ∀ x ∈ xs, lo x ≤ hi x)
    (hcur : cur ≤ top hi xs) (hx : lo x = top hi xs + 1) : Resumes lo hi cur (xs ++ [x]) := by
  obtain ⟨pre, post, rfl, hpre, hpost⟩ := h
  refine ⟨pre, post ++ [x], by simp, hpre, hpost.concat ?_⟩
  have hle : top hi pre ≤ cur := top_le_iff.mpr hpre
  rw [hpost.reach_eq fun y hy => hne y (by simp [hy])]
  simp only [top_append] at hx hcur
  omega

/-- Dropping a prefix that ends by `cur` keeps a list that resumes at `cur`. -/
theorem Resumes.of_append {ys : List α} (h : Resumes lo hi cur (xs ++ ys))
    (hne : ∀ y ∈ ys, lo y ≤ hi y) (hxs : ∀ x ∈ xs, lo x ≤ hi x ∧ hi x ≤ cur) :
    Resumes lo hi cur ys := by
  obtain ⟨pre, post, heq, hpre, hpost⟩ := h
  rcases List.append_eq_append_iff.mp heq.symm with ⟨mid, hxs', rfl⟩ | ⟨mid, rfl, rfl⟩
  · -- the intervals of `mid` would start past `cur` and end by `cur`
    have hnil : mid = [] := by
      by_contra hmid
      obtain ⟨z, hz⟩ := List.exists_mem_of_ne_nil mid hmid
      have hzx := hxs z (by simp [hxs', hz])
      have hlt := hpost.lt_lo (fun w hw => by
        rcases List.mem_append.mp hw with hw | hw
        · exact (hxs w (by simp [hxs', hw])).1
        · exact hne w hw) z (by simp [hz])
      omega
    subst hnil
    exact ⟨[], ys, rfl, by simp, hpost⟩
  · exact ⟨mid, post, rfl, fun x hx => hpre x (by simp [hx]), hpost⟩

end

end Cover
