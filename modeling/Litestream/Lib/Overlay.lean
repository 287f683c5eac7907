import Mathlib

/-!
# Overlays

A list of writes is a list of keys with values, oldest first.  `lastWrite` is the value of
a key after all of them, and `overlay` puts them over a base that has a value for every
key.  The rules say how both behave under concatenation, and that a list that writes each
key once is determined by its members.
-/

namespace Overlay

variable {κ α β : Type*} [DecidableEq κ]

/-- The value that the last write to a key gives it. -/
def lastWrite : List (κ × α) → κ → Option α
  | [], _ => none
  | w :: ws, k => (lastWrite ws k).or (if w.1 = k then some w.2 else none)

@[simp] theorem lastWrite_nil (k : κ) : lastWrite ([] : List (κ × α)) k = none := rfl

theorem lastWrite_cons (w : κ × α) (ws : List (κ × α)) (k : κ) :
    lastWrite (w :: ws) k = (lastWrite ws k).or (if w.1 = k then some w.2 else none) := rfl

theorem lastWrite_append (xs ys : List (κ × α)) (k : κ) :
    lastWrite (xs ++ ys) k = (lastWrite ys k).or (lastWrite xs k) := by
  induction xs with
  | nil => simp
  | cons w xs ih => rw [List.cons_append, lastWrite_cons, ih, lastWrite_cons, Option.or_assoc]

theorem lastWrite_eq_none_iff {ws : List (κ × α)} {k : κ} :
    lastWrite ws k = none ↔ k ∉ ws.map Prod.fst := by
  induction ws with
  | nil => simp
  | cons w ws ih =>
      rw [lastWrite_cons, Option.or_eq_none_iff, ih, List.map_cons, List.mem_cons, not_or]
      by_cases h : w.1 = k
      · simp [h]
      · simp [h, Ne.symm h]

theorem mem_of_lastWrite {ws : List (κ × α)} {k : κ} {a : α} (h : lastWrite ws k = some a) :
    (k, a) ∈ ws := by
  induction ws with
  | nil => cases h
  | cons w ws ih =>
      rw [lastWrite_cons, Option.or_eq_some_iff] at h
      rcases h with h | ⟨-, h⟩
      · exact List.mem_cons_of_mem _ (ih h)
      · split at h
        · next hk =>
            cases h
            rw [← hk]
            exact List.mem_cons_self
        · cases h

/-- A write to a key that is written once is the last one. -/
theorem lastWrite_of_mem {ws : List (κ × α)} {k : κ} {a : α} (hnd : (ws.map Prod.fst).Nodup)
    (h : (k, a) ∈ ws) : lastWrite ws k = some a := by
  induction ws with
  | nil => cases h
  | cons w ws ih =>
      rw [List.map_cons, List.nodup_cons] at hnd
      rw [lastWrite_cons]
      rcases List.mem_cons.mp h with rfl | h
      · rw [lastWrite_eq_none_iff.mpr hnd.1]
        simp
      · rw [ih hnd.2 h, Option.some_or]

theorem lastWrite_filter (p : κ → Prop) [DecidablePred p] (ws : List (κ × α)) (k : κ) :
    lastWrite (ws.filter fun w => p w.1) k = if p k then lastWrite ws k else none := by
  induction ws with
  | nil => simp
  | cons w ws ih =>
      rw [List.filter_cons, lastWrite_cons]
      split
      · next hw =>
          rw [lastWrite_cons, ih]
          split
          · rfl
          · next hk =>
              rw [if_neg, Option.or_none]
              rintro rfl
              exact hk (of_decide_eq_true hw)
      · next hw =>
          rw [ih]
          split
          · next hk =>
              rw [if_neg, Option.or_none]
              rintro rfl
              exact hw (decide_eq_true hk)
          · rfl

theorem lastWrite_map (f : α → β) (ws : List (κ × α)) (k : κ) :
    lastWrite (ws.map (Prod.map id f)) k = (lastWrite ws k).map f := by
  induction ws with
  | nil => rfl
  | cons w ws ih =>
      rw [List.map_cons, lastWrite_cons, lastWrite_cons, ih]
      cases lastWrite ws k with
      | none =>
          by_cases h : w.1 = k
          · simp [h]
          · simp [h]
      | some a => rfl

/-- Values that are computed with their key. -/
theorem lastWrite_mapKey (f : κ → α → β) (ws : List (κ × α)) (k : κ) :
    lastWrite (ws.map fun w => (w.1, f w.1 w.2)) k = (lastWrite ws k).map (f k) := by
  induction ws with
  | nil => rfl
  | cons w ws ih =>
      rw [List.map_cons, lastWrite_cons, lastWrite_cons, ih]
      cases lastWrite ws k with
      | some a => rfl
      | none =>
          by_cases h : w.1 = k
          · simp [h]
          · simp [h]

/-- The writes over a base. -/
def overlay (base : κ → α) (ws : List (κ × α)) (k : κ) : α := (lastWrite ws k).getD (base k)

@[simp] theorem overlay_nil (base : κ → α) : overlay base [] = base := rfl

theorem overlay_append (base : κ → α) (xs ys : List (κ × α)) :
    overlay base (xs ++ ys) = overlay (overlay base xs) ys := by
  funext k
  rw [overlay, overlay, overlay, lastWrite_append]
  cases lastWrite ys k with
  | none => rfl
  | some a => rfl

theorem overlay_of_notMem {base : κ → α} {ws : List (κ × α)} {k : κ}
    (h : k ∉ ws.map Prod.fst) : overlay base ws k = base k := by
  rw [overlay, lastWrite_eq_none_iff.mpr h, Option.getD_none]

theorem overlay_of_lastWrite {base : κ → α} {ws : List (κ × α)} {k : κ} {a : α}
    (h : lastWrite ws k = some a) : overlay base ws k = a := by
  rw [overlay, h, Option.getD_some]

/-- The base counts only where nothing is written. -/
theorem overlay_congr {base base' : κ → α} {ws : List (κ × α)} {k : κ}
    (h : k ∉ ws.map Prod.fst → base k = base' k) : overlay base ws k = overlay base' ws k := by
  cases hw : lastWrite ws k with
  | none => rw [overlay, overlay, hw, h (lastWrite_eq_none_iff.mp hw)]
  | some a => rw [overlay_of_lastWrite hw, overlay_of_lastWrite hw]

/-- Writing again what was written before the last writes changes nothing. -/
theorem overlay_absorb (base : κ → α) (xs ys : List (κ × α)) :
    overlay (overlay base xs) (xs ++ ys) = overlay base (xs ++ ys) := by
  funext k
  cases h : lastWrite (xs ++ ys) k with
  | none =>
      have hx : lastWrite xs k = none := by
        rw [lastWrite_append, Option.or_eq_none_iff] at h
        exact h.2
      rw [overlay, overlay, overlay, h, hx]
      rfl
  | some a => rw [overlay_of_lastWrite h, overlay_of_lastWrite h]

end Overlay
