import Litestream.Follow.Publish

/-!
# Restores to one path

Any number of calls of `Replica.Restore` share an output path, and take their steps on its files
in any order.  Each looks for the output first.  Later it creates the temporary file, which has
one name for all of them, writes what it decodes, syncs it, and renames what has the name then.

Nothing keeps two calls from passing the first step together.  They write one file then, and the
later rename replaces the database that the earlier call has reported.  `one_winner` says that
one call wins, and that its database stays as it is, in every run in which no call creates the
temporary file while another one writes it, and no call renames over a database.
-/

namespace Litestream.Concurrent

open Bytes Run
open Function (update)

/-! ## Names and files -/

/-- A name refers to a file by its number, and an open file stays the same when it is renamed. -/
structure Files where
  names : Bytes → Option Nat
  content : Nat → Bytes
  /-- No file has this number or a greater one. -/
  next : Nat

namespace Files

variable (fs : Files)

/-- The content of the file with this name. -/
def read (name : Bytes) : Option Bytes := (fs.names name).map fs.content

/-- The number of the file that `os.Create` opens. -/
def opened (name : Bytes) : Nat := (fs.names name).getD fs.next

/-- `os.Create` truncates the file with this name, or makes a new one. -/
def create (name : Bytes) : Files where
  names := update fs.names name (some (fs.opened name))
  content := update fs.content (fs.opened name) []
  next := max fs.next (fs.opened name + 1)

/-- Writes to an open file, whatever its name is now. -/
def write (file off : Nat) (data : Bytes) : Files :=
  { fs with content := update fs.content file ((fs.content file).writeAt off data) }

/-- `os.Rename` replaces the new name, and fails if there is no file with the old one. -/
def rename (old new : Bytes) : Option Files :=
  (fs.names old).map fun file =>
    { fs with names := update (update fs.names old none) new (some file) }

variable {fs} {name other old new data : Bytes} {file file' off : Nat}

@[simp] theorem names_create_self : (fs.create name).names name = some (fs.opened name) :=
  Function.update_self ..

theorem names_create_of_ne (h : other ≠ name) : (fs.create name).names other = fs.names other :=
  Function.update_of_ne h ..

@[simp] theorem content_create_self : (fs.create name).content (fs.opened name) = [] :=
  Function.update_self ..

theorem content_create_of_ne (h : file ≠ fs.opened name) :
    (fs.create name).content file = fs.content file := Function.update_of_ne h ..

@[simp] theorem names_write : (fs.write file off data).names = fs.names := rfl

@[simp] theorem content_write_self :
    (fs.write file off data).content file = (fs.content file).writeAt off data :=
  Function.update_self ..

theorem content_write_of_ne (h : file' ≠ file) :
    (fs.write file off data).content file' = fs.content file' := Function.update_of_ne h ..

/-- The file gets the new name, and loses the old one. -/
theorem rename_eq_some {fs' : Files} (hne : old ≠ new) (h : fs.rename old new = some fs') :
    ∃ file, fs.names old = some file ∧ fs'.names new = some file ∧ fs'.names old = none ∧
      (∀ other, other ≠ old → other ≠ new → fs'.names other = fs.names other) ∧
      fs'.content = fs.content ∧ fs'.next = fs.next := by
  obtain ⟨file, hold, rfl⟩ := Option.map_eq_some_iff.mp h
  refine ⟨file, hold, Function.update_self .., ?_, fun other ho hn => ?_, rfl, rfl⟩
  · exact (Function.update_of_ne hne ..).trans (Function.update_self ..)
  · exact (Function.update_of_ne hn ..).trans (Function.update_of_ne ho ..)

end Files

/-! ## Calls -/

/-- How far a call is. -/
inductive Stage where
  | start
  /-- It has found no output. -/
  | checked
  /-- It has created the temporary file and written to this offset. -/
  | writing (file off : Nat)
  /-- It has synced and closed the temporary file. -/
  | synced (file : Nat)
  | succeeded
  | failed
deriving DecidableEq, Repr

/-- The file that the call has created and not renamed. -/
def Stage.file : Stage → Option Nat
  | .writing file _ | .synced file => some file
  | .start | .checked | .succeeded | .failed => none

inductive Action (ι : Type*) where
  | check (i : ι)
  | create (i : ι)
  /-- Writes at most this many bytes. -/
  | write (i : ι) (n : Nat)
  | sync (i : ι)
  | rename (i : ι)
  /-- Any other step of the call fails, or it is cancelled. -/
  | fail (i : ι)
deriving DecidableEq, Repr

@[ext] structure State (ι : Type*) where
  files : Files
  stage : ι → Stage

section
variable {ι : Type*} [DecidableEq ι] (outputPath : Bytes) (database : ι → Bytes)

/-- What a call writes next. -/
def chunk (i : ι) (off n : Nat) : Bytes := ((database i).drop off).take n

/-- The call gets to a stage with these files. -/
def State.to (s : State ι) (files : Files) (i : ι) (stage : Stage) : State ι :=
  ⟨files, update s.stage i stage⟩

/-- One step of one call. -/
def step (s : State ι) : Action ι → Option (State ι)
  | .check i =>
      match s.stage i with
      | .start => some (s.to s.files i (if s.files.names outputPath = none then .checked else .failed))
      | _ => none
  | .create i =>
      match s.stage i with
      | .checked =>
          let tmp := tmpOutputPath outputPath
          some (s.to (s.files.create tmp) i (.writing (s.files.opened tmp) 0))
      | _ => none
  | .write i n =>
      match s.stage i with
      | .writing file off =>
          let data := chunk database i off n
          some (s.to (s.files.write file off data) i (.writing file (off + data.length)))
      | _ => none
  | .sync i =>
      match s.stage i with
      | .writing file off =>
          if off = (database i).length then some (s.to s.files i (.synced file)) else none
      | _ => none
  | .rename i =>
      match s.stage i with
      | .synced _ =>
          match s.files.rename (tmpOutputPath outputPath) outputPath with
          | none => some (s.to s.files i .failed)
          | some files => some (s.to files i .succeeded)
      | _ => none
  | .fail i =>
      match s.stage i with
      | .checked | .writing .. | .synced _ => some (s.to s.files i .failed)
      | _ => none

/-- What is at the output path. -/
def State.output (s : State ι) : Option Bytes := s.files.read outputPath

/-- All calls are to come, and there is no output. -/
structure State.Initial (s : State ι) : Prop where
  output : s.files.names outputPath = none
  stage : ∀ i, s.stage i = .start
  fresh : ∀ name file, s.files.names name = some file → file < s.files.next

/-- In a run, one call succeeds at most, and the output is its database from then on. -/
structure OneWinner (s : State ι) (as : List (Action ι)) : Prop where
  single : ∀ before, before <+: as → ∀ m, run (step outputPath database) s before = some m →
    ∀ i j, m.stage i = .succeeded → m.stage j = .succeeded → i = j
  complete : ∀ before, before <+: as → ∀ m, run (step outputPath database) s before = some m →
    ∀ data, m.output outputPath = some data →
      ∃ i, m.stage i = .succeeded ∧ data = database i
  kept : ∀ before more, before ++ more <+: as → ∀ m m',
    run (step outputPath database) s before = some m →
      run (step outputPath database) m more = some m' →
        ∀ data, m.output outputPath = some data → m'.output outputPath = some data

/-- No call creates the temporary file while another one still needs it, and no call renames
over an output. -/
def Exclusive (s : State ι) : Action ι → Prop
  | .create _ => ∀ j, (s.stage j).file = none
  | .rename _ => s.files.names outputPath = none
  | _ => True

end

variable {ι : Type*} [DecidableEq ι] {outputPath : Bytes} {database : ι → Bytes} {s s' : State ι}
  {a : Action ι} {as : List (Action ι)} {i j : ι} {stage : Stage}
  {files : Files} {file off n : Nat}

namespace State

@[simp] theorem stage_to_self : (s.to files i stage).stage i = stage := Function.update_self ..

theorem stage_to_of_ne (h : j ≠ i) : (s.to files i stage).stage j = s.stage j :=
  Function.update_of_ne h ..

@[simp] theorem files_to : (s.to files i stage).files = files := rfl

theorem stage_to_cases {st : Stage} (h : (s.to files i stage).stage j = st) :
    (j = i ∧ st = stage) ∨ (j ≠ i ∧ s.stage j = st) := by
  by_cases hji : j = i
  · subst hji
    exact Or.inl ⟨rfl, h.symm.trans stage_to_self⟩
  · exact Or.inr ⟨hji, (stage_to_of_ne hji).symm.trans h⟩

end State

omit [DecidableEq ι] in
theorem chunk_append (h : off ≤ (database i).length) :
    (database i).take off ++ chunk database i off n =
        (database i).take (off + (chunk database i off n).length) ∧
      off + (chunk database i off n).length ≤ (database i).length := by
  have hlength : (chunk database i off n).length = min n ((database i).length - off) := by
    rw [chunk, List.length_take, List.length_drop]
  constructor
  · rw [hlength, List.take_add, chunk]
    congr 1
    rcases Nat.le_total n ((database i).length - off) with hle | hle
    · rw [Nat.min_eq_left hle]
    · rw [Nat.min_eq_right hle, List.take_of_length_le (by rw [List.length_drop]; exact hle),
        List.take_of_length_le (by rw [List.length_drop])]
  · omega

/-! ## The invariant -/

/-- The output is the database of the one call that has succeeded. -/
structure State.Won (outputPath : Bytes) (database : ι → Bytes) (s : State ι) : Prop where
  output : ∀ file, s.files.names outputPath = some file →
    ∃ i, s.stage i = .succeeded ∧ s.files.content file = database i
  winner : ∀ i, s.stage i = .succeeded → s.files.names outputPath ≠ none
  single : ∀ i j, s.stage i = .succeeded → s.stage j = .succeeded → i = j

/-- The temporary file is not the output, and is what the one call that needs it has written. -/
structure State.Inv (outputPath : Bytes) (database : ι → Bytes) (s : State ι) : Prop where
  fresh : ∀ name file, s.files.names name = some file → file < s.files.next
  distinct : ∀ file, s.files.names outputPath = some file →
    s.files.names (tmpOutputPath outputPath) ≠ some file
  writing : ∀ i file off, s.stage i = .writing file off →
    s.files.names (tmpOutputPath outputPath) = some file ∧ off ≤ (database i).length ∧
      s.files.content file = (database i).take off
  synced : ∀ i file, s.stage i = .synced file →
    s.files.names (tmpOutputPath outputPath) = some file ∧ s.files.content file = database i
  holder : ∀ i j, (s.stage i).file ≠ none → (s.stage j).file ≠ none → i = j
  won : s.Won outputPath database

omit [DecidableEq ι] in
theorem State.Initial.inv (h : s.Initial outputPath) : s.Inv outputPath database := by
  have hstage : ∀ i stage, s.stage i = stage → stage = .start := fun i stage hi =>
    hi.symm.trans (h.stage i)
  refine ⟨h.fresh, ?_, ?_, ?_, ?_, ?_, ?_, ?_⟩
  · intro file hfile
    rw [h.output] at hfile
    cases hfile
  · intro i file off hi
    cases hstage i _ hi
  · intro i file hi
    cases hstage i _ hi
  · intro i j hi
    rw [h.stage i] at hi
    exact absurd rfl hi
  · intro file hfile
    rw [h.output] at hfile
    cases hfile
  · intro i hi
    cases hstage i _ hi
  · intro i j hi
    cases hstage i _ hi

/-- A step that neither succeeds nor touches the output keeps it. -/
theorem State.Won.to (h : s.Won outputPath database)
    (hout : files.names outputPath = s.files.names outputPath)
    (hcontent : ∀ file, s.files.names outputPath = some file →
      files.content file = s.files.content file)
    (hne : stage ≠ .succeeded) (hnot : s.stage i ≠ .succeeded) :
    (s.to files i stage).Won outputPath database := by
  have hback : ∀ j, (s.to files i stage).stage j = .succeeded → s.stage j = .succeeded := by
    intro j hj
    rcases stage_to_cases hj with ⟨-, heq⟩ | ⟨-, hj⟩
    · exact absurd heq.symm hne
    · exact hj
  refine ⟨?_, ?_, fun j k hj hk => h.single j k (hback j hj) (hback k hk)⟩
  · intro file hfile
    rw [files_to, hout] at hfile
    obtain ⟨j, hj, hdata⟩ := h.output file hfile
    have hji : j ≠ i := by
      rintro rfl
      exact hnot hj
    exact ⟨j, (stage_to_of_ne hji).trans hj, (hcontent file hfile).trans hdata⟩
  · intro j hj
    rw [files_to, hout]
    exact h.winner j (hback j hj)

/-- A call that ends, or has no file yet, leaves the files as they are. -/
theorem State.Inv.to (h : s.Inv outputPath database) (hfile : stage.file = none)
    (hne : stage ≠ .succeeded) (hnot : s.stage i ≠ .succeeded) :
    (s.to s.files i stage).Inv outputPath database := by
  refine ⟨h.fresh, h.distinct, ?_, ?_, ?_, h.won.to rfl (fun _ _ => rfl) hne hnot⟩
  · intro j file off hj
    rcases stage_to_cases hj with ⟨-, rfl⟩ | ⟨-, hj⟩
    · cases hfile
    · exact h.writing j file off hj
  · intro j file hj
    rcases stage_to_cases hj with ⟨-, rfl⟩ | ⟨-, hj⟩
    · cases hfile
    · exact h.synced j file hj
  · intro j k hj hk
    have hkeeps : ∀ l, ((s.to s.files i stage).stage l).file ≠ none → (s.stage l).file ≠ none := by
      intro l hl
      by_cases hli : l = i
      · subst hli
        rw [stage_to_self] at hl
        exact absurd hfile hl
      · rwa [stage_to_of_ne hli] at hl
    exact h.holder j k (hkeeps j hj) (hkeeps k hk)

omit [DecidableEq ι] in
/-- A file that is created is empty, and is not the output. -/
theorem State.Inv.opened_ne (h : s.Inv outputPath database)
    (hfile : s.files.names outputPath = some file) :
    s.files.opened (tmpOutputPath outputPath) ≠ file := by
  rw [Files.opened]
  cases htmp : s.files.names (tmpOutputPath outputPath) with
  | none => exact (h.fresh _ _ hfile).ne'
  | some k =>
      rintro rfl
      exact h.distinct _ hfile htmp

theorem State.Inv.create (h : s.Inv outputPath database) (hi : s.stage i = .checked)
    (hnone : ∀ j, (s.stage j).file = none) :
    (s.to (s.files.create (tmpOutputPath outputPath)) i
      (.writing (s.files.opened (tmpOutputPath outputPath)) 0)).Inv outputPath database := by
  have hout : (s.files.create (tmpOutputPath outputPath)).names outputPath =
      s.files.names outputPath := Files.names_create_of_ne tmpOutputPath_ne.symm
  have hcontent : ∀ file, s.files.names outputPath = some file →
      (s.files.create (tmpOutputPath outputPath)).content file = s.files.content file :=
    fun file hfile => Files.content_create_of_ne (h.opened_ne hfile).symm
  refine ⟨?_, ?_, ?_, ?_, ?_, h.won.to hout hcontent (by simp) (by rw [hi]; simp)⟩
  · intro name file hname
    rw [files_to] at hname ⊢
    by_cases heq : name = tmpOutputPath outputPath
    · rw [heq, Files.names_create_self] at hname
      obtain rfl := Option.some.inj hname
      exact (Nat.lt_succ_self _).trans_le (Nat.le_max_right ..)
    · rw [Files.names_create_of_ne heq] at hname
      exact (h.fresh name file hname).trans_le (Nat.le_max_left ..)
  · intro file hfile htmp
    rw [files_to, hout] at hfile
    rw [files_to, Files.names_create_self] at htmp
    exact h.opened_ne hfile (Option.some.inj htmp)
  · intro j file off hj
    rcases stage_to_cases hj with ⟨rfl, heq⟩ | ⟨-, hj⟩
    · obtain ⟨rfl, rfl⟩ := Stage.writing.inj heq
      exact ⟨Files.names_create_self, Nat.zero_le _, Files.content_create_self⟩
    · have hfile := hnone j
      rw [show s.stage j = _ from hj] at hfile
      cases hfile
  · intro j file hj
    rcases stage_to_cases hj with ⟨-, heq⟩ | ⟨-, hj⟩
    · cases heq
    · have hfile := hnone j
      rw [show s.stage j = _ from hj] at hfile
      cases hfile
  · intro j k hj hk
    have hself : ∀ l, ((s.to (s.files.create (tmpOutputPath outputPath)) i
        (.writing (s.files.opened (tmpOutputPath outputPath)) 0)).stage l).file ≠ none →
          l = i := by
      intro l hl
      by_contra hne
      rw [stage_to_of_ne hne] at hl
      exact hl (hnone l)
    exact (hself j hj).trans (hself k hk).symm

theorem State.Inv.write (h : s.Inv outputPath database) (hi : s.stage i = .writing file off) :
    (s.to (s.files.write file off (chunk database i off n)) i
      (.writing file (off + (chunk database i off n).length))).Inv outputPath database := by
  obtain ⟨htmp, hle, hwritten⟩ := h.writing i file off hi
  have hchunk : _ ∧ off + (chunk database i off n).length ≤ _ := chunk_append hle
  obtain ⟨hchunk, hle'⟩ := hchunk
  have hcontent : (s.files.write file off (chunk database i off n)).content file =
      (database i).take (off + (chunk database i off n).length) := by
    have happend := writeAt_length ((database i).take off) (chunk database i off n)
    rw [List.length_take_of_le hle] at happend
    rw [Files.content_write_self, hwritten, happend, hchunk]
  have hholder : ∀ j, (s.stage j).file ≠ none → j = i := fun j hj =>
    h.holder j i hj (by rw [hi]; exact Option.some_ne_none _)
  have hkept : ∀ file', s.files.names outputPath = some file' →
      (s.files.write file off (chunk database i off n)).content file' = s.files.content file' := by
    intro file' hfile'
    refine Files.content_write_of_ne ?_
    rintro rfl
    exact h.distinct _ hfile' htmp
  refine ⟨h.fresh, h.distinct, ?_, ?_, ?_, h.won.to rfl hkept (by simp) (by rw [hi]; simp)⟩
  · intro j file' off' hj
    rcases stage_to_cases hj with ⟨rfl, heq⟩ | ⟨hne, hj⟩
    · obtain ⟨rfl, rfl⟩ := Stage.writing.inj heq
      exact ⟨htmp, hle', hcontent⟩
    · exact absurd (hholder j (by rw [hj]; exact Option.some_ne_none _)) hne
  · intro j file' hj
    rcases stage_to_cases hj with ⟨-, heq⟩ | ⟨hne, hj⟩
    · cases heq
    · exact absurd (hholder j (by rw [hj]; exact Option.some_ne_none _)) hne
  · intro j k hj hk
    have hself : ∀ l, ((s.to (s.files.write file off (chunk database i off n)) i
        (.writing file (off + (chunk database i off n).length))).stage l).file ≠ none →
          l = i := by
      intro l hl
      by_contra hne
      rw [stage_to_of_ne hne] at hl
      exact hne (hholder l hl)
    exact (hself j hj).trans (hself k hk).symm

theorem State.Inv.sync (h : s.Inv outputPath database)
    (hi : s.stage i = .writing file (database i).length) :
    (s.to s.files i (.synced file)).Inv outputPath database := by
  obtain ⟨htmp, -, hwritten⟩ := h.writing i file _ hi
  rw [List.take_length] at hwritten
  have hholder : ∀ j, (s.stage j).file ≠ none → j = i := fun j hj =>
    h.holder j i hj (by rw [hi]; exact Option.some_ne_none _)
  refine ⟨h.fresh, h.distinct, ?_, ?_, ?_,
    h.won.to rfl (fun _ _ => rfl) (by simp) (by rw [hi]; simp)⟩
  · intro j file' off' hj
    rcases stage_to_cases hj with ⟨-, heq⟩ | ⟨hne, hj⟩
    · cases heq
    · exact absurd (hholder j (by rw [hj]; exact Option.some_ne_none _)) hne
  · intro j file' hj
    rcases stage_to_cases hj with ⟨rfl, heq⟩ | ⟨hne, hj⟩
    · obtain rfl := Stage.synced.inj heq
      exact ⟨htmp, hwritten⟩
    · exact absurd (hholder j (by rw [hj]; exact Option.some_ne_none _)) hne
  · intro j k hj hk
    have hself : ∀ l, ((s.to s.files i (.synced file)).stage l).file ≠ none → l = i := by
      intro l hl
      by_contra hne
      rw [stage_to_of_ne hne] at hl
      exact hne (hholder l hl)
    exact (hself j hj).trans (hself k hk).symm

/-- The first rename puts the database of the call in place, and no call needs its file. -/
theorem State.Inv.rename (h : s.Inv outputPath database) (hi : s.stage i = .synced file)
    (hout : s.files.names outputPath = none)
    (hfiles : s.files.rename (tmpOutputPath outputPath) outputPath = some files) :
    (s.to files i .succeeded).Inv outputPath database := by
  obtain ⟨htmp, hdata⟩ := h.synced i file hi
  obtain ⟨file', htmp', hnew, hold, hother, hcontent, hnext⟩ :=
    Files.rename_eq_some tmpOutputPath_ne hfiles
  obtain rfl := Option.some.inj (htmp.symm.trans htmp')
  have hnone : ∀ j, ((s.to files i .succeeded).stage j).file = none := by
    intro j
    by_cases hji : j = i
    · subst hji
      rw [stage_to_self]
      rfl
    · rw [stage_to_of_ne hji]
      by_contra hj
      exact hji (h.holder j i hj (by rw [hi]; exact Option.some_ne_none _))
  have hself : ∀ j, (s.to files i .succeeded).stage j = .succeeded → j = i := by
    intro j hj
    rcases stage_to_cases hj with ⟨hji, -⟩ | ⟨-, hj⟩
    · exact hji
    · exact absurd hout (h.won.winner j hj)
  refine ⟨?_, ?_, ?_, ?_, fun j k hj => absurd (hnone j) hj, ?_, ?_, ?_⟩
  · intro name k hname
    rw [files_to] at hname ⊢
    rw [hnext]
    by_cases hno : name = outputPath
    · rw [hno, hnew] at hname
      exact Option.some.inj hname ▸ h.fresh _ _ htmp
    · by_cases hnt : name = tmpOutputPath outputPath
      · rw [hnt, hold] at hname
        cases hname
      · rw [hother name hnt hno] at hname
        exact h.fresh name k hname
  · intro k _ hk
    rw [files_to, hold] at hk
    cases hk
  · intro j k off hj
    have := hnone j
    rw [hj] at this
    cases this
  · intro j k hj
    have := hnone j
    rw [hj] at this
    cases this
  · intro k hk
    rw [files_to, hnew] at hk
    obtain rfl := Option.some.inj hk
    refine ⟨i, stage_to_self, ?_⟩
    rw [files_to, hcontent, hdata]
  · intro j _
    rw [files_to, hnew]
    exact Option.some_ne_none _
  · intro j k hj hk
    exact (hself j hj).trans (hself k hk).symm

/-- A step that meets the condition keeps the invariant. -/
theorem State.Inv.step (h : s.Inv outputPath database) (ha : Exclusive outputPath s a)
    (hstep : step outputPath database s a = some s') : s'.Inv outputPath database := by
  cases a with
  | check i =>
      simp only [Concurrent.step] at hstep
      split at hstep
      · next hi =>
        obtain rfl := Option.some.inj hstep
        refine h.to ?_ ?_ (by rw [hi]; simp) <;> split <;> simp [Stage.file]
      · cases hstep
  | create i =>
      simp only [Concurrent.step] at hstep
      split at hstep
      · next hi => exact Option.some.inj hstep ▸ h.create hi ha
      · cases hstep
  | write i n =>
      simp only [Concurrent.step] at hstep
      split at hstep
      · next hi => exact Option.some.inj hstep ▸ h.write hi
      · cases hstep
  | sync i =>
      simp only [Concurrent.step] at hstep
      split at hstep
      · next file off hi =>
        split at hstep
        · next heq => exact Option.some.inj hstep ▸ h.sync (heq ▸ hi)
        · cases hstep
      · cases hstep
  | rename i =>
      simp only [Concurrent.step] at hstep
      split at hstep
      · next file hi =>
        split at hstep
        · exact Option.some.inj hstep ▸ h.to rfl (by simp) (by rw [hi]; simp)
        · next files hfiles => exact Option.some.inj hstep ▸ h.rename hi ha hfiles
      · cases hstep
  | fail i =>
      simp only [Concurrent.step] at hstep
      split at hstep
      · next hi => exact Option.some.inj hstep ▸ h.to rfl (by simp) (by rw [hi]; simp)
      · next hi => exact Option.some.inj hstep ▸ h.to rfl (by simp) (by rw [hi]; simp)
      · next hi => exact Option.some.inj hstep ▸ h.to rfl (by simp) (by rw [hi]; simp)
      · cases hstep

/-- A call that takes a step has not succeeded before. -/
theorem step_eq_some (hstep : step outputPath database s a = some s') :
    ∃ files i stage, s.stage i ≠ .succeeded ∧ s' = s.to files i stage := by
  cases a with
  | check i | create i | write i n =>
      simp only [step] at hstep
      split at hstep
      · next hi => exact ⟨_, i, _, by rw [hi]; simp, (Option.some.inj hstep).symm⟩
      · cases hstep
  | sync i =>
      simp only [step] at hstep
      split at hstep
      · next hi =>
        split at hstep
        · exact ⟨_, i, _, by rw [hi]; simp, (Option.some.inj hstep).symm⟩
        · cases hstep
      · cases hstep
  | rename i =>
      simp only [step] at hstep
      split at hstep
      · next hi =>
        split at hstep <;> exact ⟨_, i, _, by rw [hi]; simp, (Option.some.inj hstep).symm⟩
      · cases hstep
  | fail i =>
      simp only [step] at hstep
      split at hstep
      · next hi => exact ⟨_, i, _, by rw [hi]; simp, (Option.some.inj hstep).symm⟩
      · next hi => exact ⟨_, i, _, by rw [hi]; simp, (Option.some.inj hstep).symm⟩
      · next hi => exact ⟨_, i, _, by rw [hi]; simp, (Option.some.inj hstep).symm⟩
      · cases hstep

theorem succeeded_step (hi : s.stage i = .succeeded)
    (hstep : step outputPath database s a = some s') : s'.stage i = .succeeded := by
  obtain ⟨files, j, stage, hj, rfl⟩ := step_eq_some hstep
  rw [State.stage_to_of_ne, hi]
  rintro rfl
  exact hj hi

/-! ## One winner -/

omit [DecidableEq ι] in
/-- The output stays what it is, because the call that has put it in place stays the winner. -/
theorem State.Inv.kept (h : s.Inv outputPath database) (h' : s'.Inv outputPath database)
    (hstage : ∀ i, s.stage i = .succeeded → s'.stage i = .succeeded) {data : Bytes}
    (hdata : s.output outputPath = some data) : s'.output outputPath = some data := by
  obtain ⟨file, hfile, rfl⟩ := Option.map_eq_some_iff.mp hdata
  obtain ⟨i, hi, hcontent⟩ := h.won.output file hfile
  obtain ⟨file', hfile'⟩ := Option.ne_none_iff_exists'.mp (h'.won.winner i (hstage i hi))
  obtain ⟨j, hj, hcontent'⟩ := h'.won.output file' hfile'
  obtain rfl := h'.won.single i j (hstage i hi) hj
  rw [State.output, Files.read, hfile', Option.map_some, hcontent', ← hcontent]

/-- One call wins in every run in which no call creates the temporary file while another one
needs it, or renames over an output. -/
theorem one_winner (outputPath : Bytes) (database : ι → Bytes) (s : State ι)
    (as : List (Action ι)) (hs : s.Initial outputPath)
    (has : Along (step outputPath database) (Exclusive outputPath) s as) :
    OneWinner outputPath database s as := by
  have hreach : ∀ before, before <+: as → ∀ m, run (step outputPath database) s before = some m →
      m.Inv outputPath database := by
    rintro before ⟨more, rfl⟩ m hm
    exact run_induction (fun h ha hstep => h.step ha hstep) hs.inv (along_append has).1 hm
  have hstage : ∀ {more : List (Action ι)} {m m' : State ι} {i : ι}, m.stage i = .succeeded →
      run (step outputPath database) m more = some m' → m'.stage i = .succeeded :=
    fun hi hm => run_invariant (fun hi hstep => succeeded_step hi hstep) hi hm
  refine ⟨fun before hb m hm => (hreach before hb m hm).won.single, ?_, ?_⟩
  · intro before hb m hm data hdata
    obtain ⟨file, hfile, rfl⟩ := Option.map_eq_some_iff.mp hdata
    exact (hreach before hb m hm).won.output file hfile
  · intro before more hb m m' hm hm' data hdata
    have hbefore := hreach before ((List.prefix_append before more).trans hb) m hm
    have hafter := hreach (before ++ more) hb m' (run_append_eq_some.mpr ⟨m, hm, hm'⟩)
    exact hbefore.kept hafter (fun i hi => hstage hi hm') hdata

/-! ## Two calls -/

namespace TwoCalls

/-- Two calls decode one byte each. -/
def decoded : Nat → Bytes
  | 0 => [7]
  | _ => [8]

def empty : State Nat := ⟨⟨fun _ => none, fun _ => [], 0⟩, fun _ => .start⟩

theorem initial : empty.Initial (ascii "db") := ⟨rfl, fun _ => rfl, fun _ _ h => by cases h⟩

/-- The steps of one call between its check and its end. -/
def publish (i : Nat) : List (Action Nat) := [.create i, .write i 1, .sync i, .rename i]

end TwoCalls

/-- The second call looks for the output after the first one has put it in place. -/
theorem one_winner_sample : OneWinner (ascii "db") TwoCalls.decoded TwoCalls.empty
    (.check 0 :: TwoCalls.publish 0 ++ [.check 1]) := by
  refine one_winner (ascii "db") TwoCalls.decoded TwoCalls.empty _ TwoCalls.initial ?_
  have hcreate : ∀ j, ((TwoCalls.empty.to TwoCalls.empty.files 0 .checked).stage j).file =
      none := by
    intro j
    by_cases hj : j = 0
    · rw [hj, State.stage_to_self]
      rfl
    · rw [State.stage_to_of_ne hj]
      rfl
  refine (along_cons_of_some rfl).mpr ⟨trivial, (along_cons_of_some rfl).mpr ⟨hcreate, ?_⟩⟩
  refine (along_cons_of_some rfl).mpr ⟨trivial, (along_cons_of_some rfl).mpr ⟨trivial, ?_⟩⟩
  exact (along_cons_of_some rfl).mpr ⟨rfl, (along_cons_of_some rfl).mpr ⟨trivial, trivial⟩⟩

/-- Both calls look first, both succeed, and the second one replaces the database of the
first. -/
theorem winner_replaced : ∃ m m',
    run (step (ascii "db") TwoCalls.decoded) TwoCalls.empty
      ([.check 0, .check 1] ++ TwoCalls.publish 0) = some m ∧
    m.stage 0 = .succeeded ∧ m.output (ascii "db") = some [7] ∧
    run (step (ascii "db") TwoCalls.decoded) m (TwoCalls.publish 1) = some m' ∧
    m'.stage 0 = .succeeded ∧ m'.stage 1 = .succeeded ∧ m'.output (ascii "db") = some [8] ∧
    ¬ OneWinner (ascii "db") TwoCalls.decoded TwoCalls.empty
      ([.check 0, .check 1] ++ TwoCalls.publish 0 ++ TwoCalls.publish 1) := by
  have hfirst : ∃ m, run (step (ascii "db") TwoCalls.decoded) TwoCalls.empty
      ([.check 0, .check 1] ++ TwoCalls.publish 0) = some m ∧ m.stage 0 = .succeeded ∧
      m.output (ascii "db") = some [7] ∧
      ∃ m', run (step (ascii "db") TwoCalls.decoded) m (TwoCalls.publish 1) = some m' ∧
        m'.stage 0 = .succeeded ∧ m'.stage 1 = .succeeded ∧
        m'.output (ascii "db") = some [8] :=
    ⟨_, rfl, rfl, rfl, _, rfl, rfl, rfl, rfl⟩
  obtain ⟨m, hm, hm0, hmout, m', hm', hm'0, hm'1, hm'out⟩ := hfirst
  refine ⟨m, m', hm, hm0, hmout, hm', hm'0, hm'1, hm'out, fun hwin => ?_⟩
  have hkept := hwin.kept _ _ (List.prefix_refl _) m m' hm hm' [7] hmout
  exact absurd (hm'out.symm.trans hkept) (by decide)

end Litestream.Concurrent
