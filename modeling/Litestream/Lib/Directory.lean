import Litestream.Lib.File

/-!
# Directories and crashes

A directory gives the content of each file name, if there is such a file.  Its operations
are atomic and durable, and a file is written one byte after the other, so a crash leaves any
prefix of the operations of a routine behind.

A routine looks at a state once, and then makes its operations in order.  `Recovered` says
that it was run until it succeeded, and that any number of runs before this one crashed.
What holds after that is found with `Recovered.rule`, from an invariant that no crash breaks.
-/

/-- The content of each file by its name. -/
abbrev Directory := Bytes → Option Bytes

inductive DirOp where
  /-- An empty file, in place of the one there was. -/
  | create (name : Bytes)
  | append (name : Bytes) (byte : UInt8)
  | modify (name : Bytes) (op : FileOp)
  | rename (old new : Bytes)
  | remove (name : Bytes)
deriving DecidableEq, Repr

namespace DirOp

open Function (update)

/-- The directory after an operation. -/
def run (d : Directory) : DirOp → Directory
  | create name => update d name (some [])
  | append name byte => update d name ((d name).map fun b => b ++ [byte])
  | modify name op => update d name ((d name).map op.run)
  | rename old new => if d old = none then d else update (update d old none) new (d old)
  | remove name => update d name none

/-- The directory after operations in order. -/
def runAll (d : Directory) (ops : List DirOp) : Directory := ops.foldl run d

/-- The names whose files an operation may change. -/
def names : DirOp → List Bytes
  | create name | append name _ | modify name _ | remove name => [name]
  | rename old new => [old, new]

/-- A new file with the given content. -/
def writeFile (name data : Bytes) : List DirOp := create name :: data.map (append name)

variable {d : Directory} {ops ops' : List DirOp} {op : DirOp} {name old new data : Bytes}

@[simp] theorem runAll_nil (d : Directory) : runAll d [] = d := rfl

@[simp] theorem runAll_cons (d : Directory) (op : DirOp) (ops : List DirOp) :
    runAll d (op :: ops) = runAll (run d op) ops := rfl

theorem runAll_append (d : Directory) (ops ops' : List DirOp) :
    runAll d (ops ++ ops') = runAll (runAll d ops) ops' := List.foldl_append

@[simp] theorem run_remove_same (d : Directory) (name : Bytes) : run d (remove name) name = none :=
  Function.update_self ..

theorem run_rename_new (h : d old = some data) : run d (rename old new) new = some data := by
  rw [run, if_neg (by rw [h]; exact Option.some_ne_none _), Function.update_self, h]

theorem run_rename_old (hne : old ≠ new) : run d (rename old new) old = none := by
  rw [run]
  split
  · next h => exact h
  · rw [Function.update_of_ne hne, Function.update_self]

theorem run_of_notMem (h : name ∉ op.names) : run d op name = d name := by
  cases op with
  | create n | append n _ | modify n _ | remove n =>
      exact Function.update_of_ne (fun heq => h (List.mem_singleton.mpr heq)) ..
  | rename old new =>
      obtain ⟨hold, hnew⟩ := not_or.mp fun heq => h (List.mem_pair.mpr heq)
      rw [run]
      split
      · rfl
      · rw [Function.update_of_ne hnew, Function.update_of_ne hold]

/-- Operations on other files leave a file as it is. -/
theorem runAll_of_notMem (h : ∀ op ∈ ops, name ∉ op.names) : runAll d ops name = d name := by
  induction ops generalizing d with
  | nil => rfl
  | cons op ops ih =>
      rw [runAll_cons, ih fun o ho => h o (List.mem_cons_of_mem op ho)]
      exact run_of_notMem (h op List.mem_cons_self)

theorem names_of_mem_writeFile (h : op ∈ writeFile name data) : op.names = [name] := by
  rcases List.mem_cons.mp h with rfl | h
  · rfl
  · obtain ⟨_, -, rfl⟩ := List.mem_map.mp h
    rfl

/-- A file that was written holds its data, and no other file changed. -/
theorem runAll_writeFile (d : Directory) (name data : Bytes) :
    runAll d (writeFile name data) = update d name (some data) := by
  have happend : ∀ (data written : Bytes) (d : Directory), d name = some written →
      runAll d (data.map (append name)) = update d name (some (written ++ data)) := by
    intro data
    induction data with
    | nil =>
        intro written d hd
        rw [List.append_nil, ← hd, Function.update_eq_self]
        rfl
    | cons byte data ih =>
        intro written d hd
        have hrun : run d (append name byte) = update d name (some (written ++ [byte])) := by
          rw [run, hd]
          rfl
        rw [List.map_cons, runAll_cons, hrun, ih (written ++ [byte]) _ (Function.update_self ..),
          Function.update_idem, List.append_assoc]
        rfl
  have hcreate : run d (create name) = update d name (some []) := rfl
  rw [writeFile, runAll_cons, hcreate, happend data [] _ (Function.update_self ..),
    Function.update_idem, List.nil_append]

/-! ## Files that are put in place when they are complete -/

/-- A prefix of two parts is one of the first part, or has all of that and one of the second. -/
theorem prefix_append_cases {done : List DirOp} (h : done <+: ops ++ ops') :
    done <+: ops ∨ ∃ more, more <+: ops' ∧ done = ops ++ more := by
  rcases List.prefix_or_prefix_of_prefix h (List.prefix_append ops ops') with h' | ⟨more, rfl⟩
  · exact Or.inl h'
  · exact Or.inr ⟨more, (List.prefix_append_right_inj ops).mp h, rfl⟩

/-- Writes a temporary file, renames it to its place, and removes what is left of it. -/
def publish (tmp path data : Bytes) : List DirOp :=
  writeFile tmp data ++ [rename tmp path, remove tmp]

theorem names_of_mem_publish {tmp path : Bytes} (h : op ∈ publish tmp path data)
    (hname : name ∈ op.names) : name = tmp ∨ name = path := by
  rcases List.mem_append.mp h with h | h
  · rw [names_of_mem_writeFile h, List.mem_singleton] at hname
    exact Or.inl hname
  · rcases List.mem_pair.mp h with rfl | rfl
    · exact List.mem_pair.mp hname
    · exact Or.inl (List.mem_singleton.mp hname)

/-- Stopped before the rename, this changed the temporary file at most, and otherwise the file
is in its place. -/
theorem runAll_publish_prefix {tmp path : Bytes} {done : List DirOp} (hne : tmp ≠ path)
    (h : done <+: publish tmp path data) (d : Directory) :
    (rename tmp path ∉ done ∧ ∀ name ≠ tmp, runAll d done name = d name) ∨
      (rename tmp path ∈ done ∧
        runAll d done = update (update d tmp none) path (some data)) := by
  rcases prefix_append_cases h with h | ⟨more, hmore, rfl⟩
  · have hnames : ∀ op ∈ done, op.names = [tmp] := fun op hop =>
      names_of_mem_writeFile (h.subset hop)
    refine Or.inl ⟨fun hmem => ?_, fun name hname => runAll_of_notMem fun op hop => ?_⟩
    · have := hnames _ hmem
      simp [names] at this
    · rw [hnames op hop, List.mem_singleton]
      exact hname
  · have hrename : run (update d tmp (some data)) (rename tmp path) =
        update (update d tmp none) path (some data) := by
      rw [run, if_neg (by simp), Function.update_self, Function.update_idem]
    have hremove : run (update (update d tmp none) path (some data)) (remove tmp) =
        update (update d tmp none) path (some data) := by
      rw [run, Function.update_comm hne, Function.update_idem]
    have hmem : ∀ op ∈ writeFile tmp data, op.names = [tmp] := fun _ => names_of_mem_writeFile
    rw [runAll_append, runAll_writeFile]
    rcases List.prefix_cons_iff.mp hmore with rfl | ⟨last, rfl, hlast⟩
    · refine Or.inl ⟨fun hin => ?_, fun name hname => Function.update_of_ne hname ..⟩
      rw [List.append_nil] at hin
      have := hmem _ hin
      simp [names] at this
    · refine Or.inr ⟨List.mem_append_right _ List.mem_cons_self, ?_⟩
      rw [runAll_cons, hrename]
      rcases List.prefix_cons_iff.mp hlast with rfl | ⟨_, rfl, hnil⟩
      · rfl
      · obtain rfl := List.prefix_nil.mp hnil
        exact hremove

theorem runAll_publish {tmp path : Bytes} (hne : tmp ≠ path) (d : Directory) (data : Bytes) :
    runAll d (publish tmp path data) = update (update d tmp none) path (some data) := by
  rcases runAll_publish_prefix hne (List.prefix_refl (publish tmp path data)) d with h | h
  · exact absurd (List.mem_append_right _ List.mem_cons_self) h.1
  · exact h.2

end DirOp

/-! ## Crashes -/

namespace Crash

variable {σ o ε α : Type*} (run : σ → o → σ) (routine : σ → List o × Except ε α)

/-- Runs of a routine of which the last one succeeds and the others crash. -/
inductive Recovered : σ → σ → α → Prop
  | done {s : σ} {a : α} (h : (routine s).2 = .ok a) :
      Recovered s ((routine s).1.foldl run s) a
  | crash {s s' : σ} {a : α} {done : List o} (h : done <+: (routine s).1)
      (hs : Recovered (done.foldl run s) s' a) : Recovered s s' a

variable {run routine}

/-- What no crash breaks holds when the last run begins. -/
theorem Recovered.rule {I : σ → Prop} {Q : σ → α → Prop}
    (hcrash : ∀ {s done}, I s → done <+: (routine s).1 → I (done.foldl run s))
    (hdone : ∀ {s a}, I s → (routine s).2 = .ok a → Q ((routine s).1.foldl run s) a)
    {s s' : σ} {a : α} (h : Recovered run routine s s' a) (hs : I s) : Q s' a := by
  induction h with
  | done h => exact hdone hs h
  | crash h _ ih => exact ih (hcrash hs h)

end Crash
