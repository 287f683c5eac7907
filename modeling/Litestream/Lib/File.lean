import Litestream.Lib.Bytes

/-!
# Files that are written in place

A file is changed by writes at an offset and by truncation, which also extends it.  Gaps are
filled with zeros.  A list of operations leaves every file as it is if and only if none of
them has an effect (`runAll_eq_self_iff`).
-/

namespace Bytes

variable {b data : Bytes} {off n i : Nat}

/-- `ftruncate`. -/
def truncate (b : Bytes) (n : Nat) : Bytes := b.take n ++ List.replicate (n - b.length) 0

/-- `pwrite`.  Nothing is written, and the file is not extended, when there is no data. -/
def writeAt (b : Bytes) (off : Nat) (data : Bytes) : Bytes :=
  if data = [] then b else b.truncate off ++ data ++ b.drop (off + data.length)

@[simp] theorem length_truncate (b : Bytes) (n : Nat) : (b.truncate n).length = n := by
  rw [truncate, List.length_append, List.length_take, List.length_replicate]
  omega

theorem getElem?_truncate_of_lt (hi : i < n) (hb : i < b.length) :
    (b.truncate n)[i]? = b[i]? := by
  rw [truncate, List.getElem?_append_left (by rw [List.length_take]; omega),
    List.getElem?_take_of_lt hi]

theorem getElem?_truncate_of_le (hi : n ≤ i) : (b.truncate n)[i]? = none :=
  List.getElem?_eq_none (by rw [length_truncate]; exact hi)

@[simp] theorem writeAt_nil (b : Bytes) (off : Nat) : b.writeAt off [] = b := rfl

theorem writeAt_of_ne (h : data ≠ []) :
    b.writeAt off data = b.truncate off ++ data ++ b.drop (off + data.length) := if_neg h

theorem getElem?_writeAt_of_mem (hle : off ≤ i) (hlt : i < off + data.length) :
    (b.writeAt off data)[i]? = data[i - off]? := by
  have hne : data ≠ [] := List.ne_nil_of_length_pos (by omega)
  rw [writeAt_of_ne hne, List.append_assoc,
    List.getElem?_append_right (by rw [length_truncate]; exact hle), length_truncate,
    List.getElem?_append_left (by omega)]

theorem getElem?_writeAt_of_notMem (h : i < off ∨ off + data.length ≤ i) (hb : i < b.length) :
    (b.writeAt off data)[i]? = b[i]? := by
  by_cases hne : data = []
  · rw [hne, writeAt_nil]
  · rw [writeAt_of_ne hne]
    rcases h with h | h
    · rw [List.append_assoc, List.getElem?_append_left (by rw [length_truncate]; exact h),
        getElem?_truncate_of_lt h hb]
    · rw [List.getElem?_append_right (by rw [List.length_append, length_truncate]; exact h),
        List.getElem?_drop, List.length_append, length_truncate]
      congr 1
      omega

theorem length_writeAt_of_le (h : off + data.length ≤ b.length) :
    (b.writeAt off data).length = b.length := by
  by_cases hne : data = []
  · rw [hne, writeAt_nil]
  · rw [writeAt_of_ne hne, List.length_append, List.length_append, length_truncate,
      List.length_drop]
    omega

/-- A write at the end extends the file. -/
theorem writeAt_length (b data : Bytes) : b.writeAt b.length data = b ++ data := by
  by_cases hne : data = []
  · rw [hne, writeAt_nil, List.append_nil]
  · rw [writeAt_of_ne hne, truncate, List.take_length, Nat.sub_self, List.replicate_zero,
      List.append_nil, List.drop_of_length_le (Nat.le_add_right _ _), List.append_nil]

/-- A write over the whole of a file replaces it. -/
theorem writeAt_zero_of_le (h : b.length ≤ data.length) : b.writeAt 0 data = data := by
  by_cases hne : data = []
  · rw [hne, List.length_nil, Nat.le_zero] at h
    rw [hne, writeAt_nil, List.eq_nil_of_length_eq_zero h]
  · rw [writeAt_of_ne hne, truncate, List.take_zero, Nat.zero_sub, List.replicate_zero,
      Nat.zero_add, List.drop_of_length_le h, List.append_nil]
    rfl

/-- What follows a file is read at its end. -/
theorem writeAt_zero (b data : Bytes) : b.writeAt 0 data = data ++ b.drop data.length := by
  by_cases hne : data = []
  · rw [hne, writeAt_nil, List.nil_append, List.length_nil, List.drop_zero]
  · rw [writeAt_of_ne hne, truncate, List.take_zero, Nat.zero_sub, List.replicate_zero,
      Nat.zero_add, List.append_nil, List.nil_append]

/-- A write that goes on where the one before has ended. -/
theorem writeAt_writeAt_length (b d data : Bytes) :
    (b.writeAt 0 d).writeAt d.length data = b.writeAt 0 (d ++ data) := by
  by_cases hne : data = []
  · rw [hne, writeAt_nil, List.append_nil]
  · have hlead : (d ++ b.drop d.length).truncate d.length = d := by
      rw [truncate, List.take_left, List.length_append, Nat.sub_eq_zero_of_le (by omega),
        List.replicate_zero, List.append_nil]
    rw [writeAt_of_ne hne, writeAt_zero, writeAt_zero, hlead, List.drop_append,
      List.drop_of_length_le (Nat.le_add_right _ _), List.nil_append, List.drop_drop,
      List.length_append]
    congr 2
    omega

/-- Where a file was there before, a write of less is as the write of more, or does nothing. -/
theorem getElem?_writeAt_prefix {data' : Bytes} (h : data <+: data') (off : Nat)
    (hi : i < b.length) :
    (b.writeAt off data)[i]? = b[i]? ∨ (b.writeAt off data)[i]? = (b.writeAt off data')[i]? := by
  by_cases hin : off ≤ i ∧ i < off + data.length
  · have hlen := h.length_le
    rw [getElem?_writeAt_of_mem hin.1 hin.2, getElem?_writeAt_of_mem hin.1 (by omega)]
    obtain ⟨rest, rfl⟩ := h
    exact Or.inr (List.getElem?_append_left (by omega)).symm
  · exact Or.inl (getElem?_writeAt_of_notMem (by omega) hi)

theorem readAt_append_length (b data : Bytes) : (b ++ data).readAt b.length data.length = data := by
  rw [readAt, List.drop_left, List.take_length]

theorem getElem?_readAt_of_lt (hi : i < n) : (b.readAt off n)[i]? = b[off + i]? := by
  rw [readAt, List.getElem?_take_of_lt hi, List.getElem?_drop]

/-- What was written is read back. -/
theorem readAt_writeAt_same (b : Bytes) (off : Nat) (data : Bytes) :
    (b.writeAt off data).readAt off data.length = data := by
  refine List.ext_getElem? fun i => ?_
  rcases Nat.lt_or_ge i data.length with hi | hi
  · rw [getElem?_readAt_of_lt hi, getElem?_writeAt_of_mem (Nat.le_add_right off i) (by omega),
      Nat.add_sub_cancel_left]
  · rw [List.getElem?_eq_none hi, List.getElem?_eq_none]
    rw [length_readAt]
    omega

/-- A write elsewhere does not change what is read. -/
theorem readAt_writeAt_of_disjoint {m : Nat} (h : m + n ≤ off ∨ off + data.length ≤ m)
    (hb : m + n ≤ b.length) : (b.writeAt off data).readAt m n = b.readAt m n := by
  refine List.ext_getElem? fun i => ?_
  rcases Nat.lt_or_ge i n with hi | hi
  · rw [getElem?_readAt_of_lt hi, getElem?_readAt_of_lt hi,
      getElem?_writeAt_of_notMem (by omega) (by omega)]
  · rw [List.getElem?_eq_none, List.getElem?_eq_none]
    · rw [length_readAt]
      omega
    · rw [length_readAt]
      omega

end Bytes

/-! ## Operations -/

inductive FileOp where
  | writeAt (off : Nat) (data : Bytes)
  | truncate (n : Nat)
deriving DecidableEq, Repr

namespace FileOp

open Bytes

/-- The file after an operation. -/
def run (b : Bytes) : FileOp → Bytes
  | writeAt off data => b.writeAt off data
  | truncate n => b.truncate n

/-- The file after operations in order. -/
def runAll (b : Bytes) (ops : List FileOp) : Bytes := ops.foldl run b

/-- A write of no data has no effect. -/
def Effective : FileOp → Prop
  | writeAt _ data => data ≠ []
  | truncate _ => True

/-- What a machine that stops may have made of an operation: some first part of a write. -/
def PartOf : FileOp → FileOp → Prop
  | writeAt off data, writeAt off' data' => off = off' ∧ data <+: data'
  | truncate n, truncate n' => n = n'
  | _, _ => False

instance : DecidableRel PartOf
  | writeAt off data, writeAt off' data' =>
      inferInstanceAs (Decidable (off = off' ∧ data <+: data'))
  | truncate n, truncate n' => inferInstanceAs (Decidable (n = n'))
  | writeAt _ _, truncate _ => inferInstanceAs (Decidable False)
  | truncate _, writeAt _ _ => inferInstanceAs (Decidable False)

theorem PartOf.refl (op : FileOp) : op.PartOf op := by
  cases op with
  | writeAt off data => exact ⟨rfl, List.prefix_refl _⟩
  | truncate n => exact Eq.refl n

theorem PartOf.trans {op op' op'' : FileOp} (h : op.PartOf op') (h' : op'.PartOf op'') :
    op.PartOf op'' := by
  cases op <;> cases op' <;> cases op'' <;> simp only [PartOf] at h h' ⊢
  · exact ⟨h.1.trans h'.1, h.2.trans h'.2⟩
  · exact h.trans h'

@[simp] theorem runAll_nil (b : Bytes) : runAll b [] = b := rfl

@[simp] theorem runAll_cons (b : Bytes) (op : FileOp) (ops : List FileOp) :
    runAll b (op :: ops) = runAll (op.run b) ops := rfl

theorem runAll_append (b : Bytes) (ops ops' : List FileOp) :
    runAll b (ops ++ ops') = runAll (runAll b ops) ops' := List.foldl_append

theorem run_of_not_effective {op : FileOp} (h : ¬ op.Effective) (b : Bytes) : op.run b = b := by
  cases op with
  | writeAt off data =>
      obtain rfl : data = [] := not_not.mp h
      rfl
  | truncate n => exact absurd trivial h

theorem runAll_of_not_effective {ops : List FileOp} (h : ∀ op ∈ ops, ¬ op.Effective)
    (b : Bytes) : runAll b ops = b := by
  induction ops generalizing b with
  | nil => rfl
  | cons op ops ih =>
      rw [runAll_cons, run_of_not_effective (h op List.mem_cons_self)]
      exact ih (fun o ho => h o (List.mem_cons_of_mem op ho)) b

/-- Some file shows that an operation took place. -/
theorem exists_run_ne {op : FileOp} (h : op.Effective) : ∃ b : Bytes, ∀ a, op.run a ≠ b := by
  cases op with
  | writeAt off data =>
      obtain ⟨x, xs, rfl⟩ := List.exists_cons_of_ne_nil (show data ≠ [] from h)
      refine ⟨List.replicate (off + 1) (x + 1), fun a ha => ?_⟩
      have hx : (a.writeAt off (x :: xs))[off]? = some x := by
        rw [getElem?_writeAt_of_mem le_rfl (by simp)]
        simp
      rw [show a.writeAt off (x :: xs) = List.replicate (off + 1) (x + 1) from ha,
        List.getElem?_replicate_of_lt (Nat.lt_succ_self off)] at hx
      have hne : x + 1 ≠ x := by simp
      exact hne (Option.some.inj hx)
  | truncate n =>
      refine ⟨List.replicate (n + 1) 0, fun a ha => ?_⟩
      have := congrArg List.length (show a.truncate n = List.replicate (n + 1) 0 from ha)
      rw [length_truncate, List.length_replicate] at this
      omega

/-- Operations leave every file as it is if and only if none of them has an effect. -/
theorem runAll_eq_self_iff {ops : List FileOp} :
    (∀ b, runAll b ops = b) ↔ ∀ op ∈ ops, ¬ op.Effective := by
  refine ⟨fun h => ?_, runAll_of_not_effective⟩
  induction ops using List.reverseRecOn with
  | nil => simp
  | append_singleton ops op ih =>
      have hop : ¬ op.Effective := by
        intro heff
        obtain ⟨b, hb⟩ := exists_run_ne heff
        exact hb (runAll b ops) ((runAll_append b ops [op]).symm.trans (h b))
      have hops : ∀ b, runAll b ops = b := by
        intro b
        have hb := h b
        rwa [runAll_append, runAll_cons, runAll_nil, run_of_not_effective hop] at hb
      intro o ho
      rcases List.mem_append.mp ho with ho | ho
      · exact ih hops o ho
      · exact List.mem_singleton.mp ho ▸ hop

end FileOp
