import Mathlib
import Litestream.Lib.File
import Litestream.Lib.Overlay

/-!
# Arrays that grow when written

An array is written at any index.  A write past the end extends it, with blanks in between,
and a cut drops the end.  With the blank as the value of every index past the end, a write
changes one value, and a cut changes the values of what it drops.

A list of writes overlays the entries (`entry_putAll`).  A file of records of one size is such
an array: a write of a record at its offset puts it into the array (`writeAt_flatMap`).
-/

namespace PageArray

variable {α : Type*} (blank : α)

/-- Writes an entry. -/
def put (a : List α) (i : Nat) (x : α) : List α :=
  if i < a.length then a.set i x else a ++ List.replicate (i - a.length) blank ++ [x]

/-- The entry at an index. -/
def entry (a : List α) (i : Nat) : α := a.getD i blank

variable {blank} {a : List α} {i j n : Nat} {x : α}

@[simp] theorem length_put : (put blank a i x).length = max a.length (i + 1) := by
  rw [put]
  split
  · rw [List.length_set]
    omega
  · rw [List.length_append, List.length_append, List.length_replicate, List.length_singleton]
    omega

theorem entry_of_le (h : a.length ≤ i) : entry blank a i = blank := by
  rw [entry, List.getD_eq_default _ _ h]

theorem getElem?_eq_entry (h : i < a.length) : a[i]? = some (entry blank a i) := by
  rw [entry, List.getD_eq_getElem _ _ h, List.getElem?_eq_getElem h]

/-- Blanks at the end of an array make no difference. -/
theorem entry_append_replicate : entry blank (a ++ List.replicate n blank) j = entry blank a j := by
  rw [entry, entry, List.getD_eq_getElem?_getD, List.getD_eq_getElem?_getD]
  rcases Nat.lt_or_ge j a.length with hj | hj
  · rw [List.getElem?_append_left hj]
  · rw [List.getElem?_append_right hj, List.getElem?_eq_none hj, List.getElem?_replicate]
    split <;> rfl

theorem entry_put : entry blank (put blank a i x) j = if j = i then x else entry blank a j := by
  rw [put]
  split
  · next hi =>
      rw [entry, entry, List.getD_eq_getElem?_getD, List.getD_eq_getElem?_getD, List.getElem?_set]
      split
      · next heq => rw [if_pos heq.symm, Option.getD_some]
      · next hne => rw [if_neg (Ne.symm hne)]
  · next hi =>
      have hlength : (a ++ List.replicate (i - a.length) blank).length = i := by
        rw [List.length_append, List.length_replicate]
        omega
      split
      · next heq =>
          rw [heq, entry, List.getD_eq_getElem?_getD, List.getElem?_append_right hlength.le, hlength,
            Nat.sub_self]
          rfl
      · next hne =>
          rcases Nat.lt_or_gt_of_ne hne with hj | hj
          · rw [entry, List.getD_eq_getElem?_getD, List.getElem?_append_left (hlength.symm ▸ hj),
              ← List.getD_eq_getElem?_getD]
            exact entry_append_replicate
          · rw [entry_of_le, entry_of_le]
            · omega
            · rw [List.length_append, hlength, List.length_singleton]
              omega

theorem entry_take : entry blank (a.take n) j = if j < n then entry blank a j else blank := by
  split
  · next hj => rw [entry, entry, List.getD_eq_getElem?_getD, List.getElem?_take_of_lt hj,
      List.getD_eq_getElem?_getD]
  · next hj =>
      refine entry_of_le ?_
      rw [List.length_take]
      omega

/-- Arrays of one size with the same entries are equal. -/
theorem eq_iff_entry (blank : α) {b : List α} :
    a = b ↔ a.length = b.length ∧ ∀ j < b.length, entry blank a j = entry blank b j := by
  constructor
  · rintro rfl
    exact ⟨rfl, fun _ _ => rfl⟩
  · rintro ⟨hlength, hentry⟩
    refine List.ext_getElem? fun j => ?_
    rcases Nat.lt_or_ge j b.length with hj | hj
    · have ha : a[j]? = some (entry blank a j) := getElem?_eq_entry (hlength ▸ hj)
      have hb : b[j]? = some (entry blank b j) := getElem?_eq_entry hj
      rw [ha, hb, hentry j hj]
    · rw [List.getElem?_eq_none hj, List.getElem?_eq_none (hlength ▸ hj)]

/-! ## Lists of writes -/

open Overlay

variable (blank) in
/-- Writes entries one after the other. -/
def putAll (a : List α) (ws : List (Nat × α)) : List α := ws.foldl (fun a w => put blank a w.1 w.2) a

variable {ws : List (Nat × α)}

theorem putAll_append {us : List (Nat × α)} :
    putAll blank a (ws ++ us) = putAll blank (putAll blank a ws) us := List.foldl_append

theorem entry_putAll : entry blank (putAll blank a ws) j = overlay (entry blank a) ws j := by
  induction ws generalizing a with
  | nil => rfl
  | cons w ws ih =>
      rw [putAll, List.foldl_cons]
      refine (ih (a := put blank a w.1 w.2)).trans ?_
      rw [overlay, overlay, lastWrite_cons, entry_put]
      cases lastWrite ws j with
      | some x => rfl
      | none =>
          by_cases h : w.1 = j
          · simp [h]
          · simp [h, Ne.symm h]

theorem length_le_putAll : a.length ≤ (putAll blank a ws).length := by
  induction ws generalizing a with
  | nil => exact le_rfl
  | cons w ws ih =>
      refine le_trans ?_ (ih (a := put blank a w.1 w.2))
      rw [length_put]
      exact le_max_left _ _

theorem lt_length_putAll {w : Nat × α} (hw : w ∈ ws) : w.1 < (putAll blank a ws).length := by
  induction ws generalizing a with
  | nil => cases hw
  | cons v ws ih =>
      rcases List.mem_cons.mp hw with rfl | hw
      · have hle : (put blank a w.1 w.2).length ≤ (putAll blank (put blank a w.1 w.2) ws).length :=
          length_le_putAll
        rw [length_put] at hle
        exact lt_of_lt_of_le (by omega) hle
      · exact ih hw

/-- The size is that of the array or is reached by a write. -/
theorem length_putAll_cases (blank : α) (a : List α) (ws : List (Nat × α)) : (putAll blank a ws).length = a.length ∨
    ∃ w ∈ ws, (putAll blank a ws).length = w.1 + 1 := by
  induction ws generalizing a with
  | nil => exact .inl rfl
  | cons v ws ih =>
      rcases ih (put blank a v.1 v.2) with h | ⟨w, hw, h⟩
      · rw [length_put] at h
        rcases max_choice a.length (v.1 + 1) with hmax | hmax
        · exact .inl (h.trans hmax)
        · exact .inr ⟨v, List.mem_cons_self, h.trans hmax⟩
      · exact .inr ⟨w, List.mem_cons_of_mem v hw, h⟩

theorem length_putAll_eq_iff : (putAll blank a ws).length = n ↔
    a.length ≤ n ∧ (∀ w ∈ ws, w.1 < n) ∧ (a.length = n ∨ ∃ w ∈ ws, w.1 + 1 = n) := by
  constructor
  · rintro rfl
    refine ⟨length_le_putAll, fun w hw => lt_length_putAll hw, ?_⟩
    rcases length_putAll_cases blank a ws with h | ⟨w, hw, h⟩
    · exact .inl h.symm
    · exact .inr ⟨w, hw, h.symm⟩
  · rintro ⟨ha, hws, hn⟩
    refine le_antisymm ?_ ?_
    · rcases length_putAll_cases blank a ws with h | ⟨w, hw, h⟩
      · exact h.trans_le ha
      · exact h.trans_le (hws w hw)
    · rcases hn with rfl | ⟨w, hw, rfl⟩
      · exact length_le_putAll
      · exact lt_length_putAll hw

/-! ## Files of records -/

section Records

open Bytes

variable {enc : α → Bytes} {size : Nat}

theorem take_flatMap (hsize : ∀ x, (enc x).length = size) (a : List α) (i : Nat) :
    (a.flatMap enc).take (i * size) = (a.take i).flatMap enc := by
  induction a generalizing i with
  | nil => simp
  | cons y a ih =>
      cases i with
      | zero => simp
      | succ i =>
          rw [List.flatMap_cons, Nat.succ_mul, Nat.add_comm, ← hsize y, List.take_length_add_append,
            hsize, ih, List.take_succ_cons, List.flatMap_cons]

theorem drop_flatMap (hsize : ∀ x, (enc x).length = size) (a : List α) (i : Nat) :
    (a.flatMap enc).drop (i * size) = (a.drop i).flatMap enc := by
  induction a generalizing i with
  | nil => simp
  | cons y a ih =>
      cases i with
      | zero => simp
      | succ i =>
          rw [List.flatMap_cons, Nat.succ_mul, Nat.add_comm, ← hsize y, List.drop_length_add_append,
            hsize, ih, List.drop_succ_cons]

/-- A record is written at its offset.  What a file is extended with reads as blanks. -/
theorem writeAt_flatMap (hsize : ∀ x, (enc x).length = size) (hpos : 0 < size)
    (hblank : enc blank = List.replicate size 0) (a : List α) (i : Nat) (x : α) :
    Bytes.writeAt (a.flatMap enc) (i * size) (enc x) = (put blank a i x).flatMap enc := by
  have hne : enc x ≠ [] := List.ne_nil_of_length_pos (by rw [hsize]; exact hpos)
  have hzeros : ∀ n, (List.replicate n blank).flatMap enc = List.replicate (n * size) 0 := by
    intro n
    induction n with
    | zero => simp
    | succ n ih =>
        rw [List.replicate_succ, List.flatMap_cons, ih, hblank, List.replicate_append_replicate]
        congr 1
        rw [Nat.succ_mul, Nat.add_comm]
  have hend : i * size + (enc x).length = (i + 1) * size := by rw [hsize, Nat.succ_mul]
  rw [writeAt_of_ne hne, Bytes.truncate, take_flatMap hsize, hend, drop_flatMap hsize,
    Bytes.length_flatMap hsize, ← Nat.sub_mul, put]
  split
  · next hi =>
      rw [Nat.sub_eq_zero_of_le hi.le, Nat.zero_mul, List.replicate_zero, List.append_nil,
        List.set_eq_take_append_cons_drop, if_pos hi, List.flatMap_append, List.flatMap_cons,
        List.append_assoc]
  · next hi =>
      rw [List.take_of_length_le (by omega), List.drop_of_length_le (by omega), List.flatMap_append,
        List.flatMap_append, hzeros, List.flatMap_nil, List.append_nil, List.flatMap_singleton]

/-- Records of one size can be told apart in a file. -/
theorem flatMap_inj (hsize : ∀ x, (enc x).length = size) (hpos : 0 < size)
    (hinj : Function.Injective enc) {a b : List α} (h : a.flatMap enc = b.flatMap enc) : a = b := by
  induction a generalizing b with
  | nil =>
      cases b with
      | nil => rfl
      | cons y b =>
          have hlength := congrArg List.length h
          rw [Bytes.length_flatMap hsize, Bytes.length_flatMap hsize, List.length_cons,
            Nat.succ_mul, List.length_nil] at hlength
          omega
  | cons x a ih =>
      cases b with
      | nil =>
          have hlength := congrArg List.length h
          rw [Bytes.length_flatMap hsize, Bytes.length_flatMap hsize, List.length_cons,
            Nat.succ_mul, List.length_nil] at hlength
          omega
      | cons y b =>
          rw [List.flatMap_cons, List.flatMap_cons] at h
          obtain ⟨hxy, hrest⟩ := List.append_inj h (by rw [hsize, hsize])
          rw [hinj hxy, ih hrest]

end Records

end PageArray
