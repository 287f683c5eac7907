import Litestream.Vfs.FlatFile

/-!
# The layout of the write buffer

The buffer file has a slot of a page for each dirty page.  A page that is written again keeps its
slot, a truncation drops slots, and a sync starts over.

`LastWritten` is what the buffer is for: a map from page numbers to pages, in which a write
changes one page.  `laidOut_of_run` says that in every run the slots are disjoint and below the
next free offset, and that they hold this map.
-/

namespace Litestream

namespace Vfs

open Overlay Run

variable {ps : PageSize}

/-- Syncs the dirty pages.  The upload may fail. -/
def VFSFile.sync (replica : Replica ps) (upload : Bool) (f : VFSFile) : VFSFile :=
  if f.Syncs replica ∧ upload = true then f.uploaded else f

namespace WriteBuffer

/-- The pages that were written since the last sync. -/
abbrev LastWritten := Nat → Option Bytes

/-- A file, and the pages that its buffer stands for. -/
structure BufferedFile where
  file : VFSFile
  written : LastWritten

/-- The operations on the buffer.  Between them other calls change the index and the cache, begin
and end transactions and look at the remote. -/
inductive Operation (ps : PageSize) where
  | writeAt (replica : Replica ps) (b : Bytes) (off : Nat)
  | truncate (size : Nat)
  | sync (replica : Replica ps) (upload : Bool)
  | other (index : Index) (cache : Nat → Option Bytes) (inTransaction : Bool) (expectedTXID : Nat)

/-- The page that a write changes: the one last written, or else the one of the index, or zeros. -/
def pageBefore (replica : Replica ps) (s : BufferedFile) (pgno : Nat) : Bytes :=
  (s.written pgno).getD
    ((s.file.readPageForWrite replica pgno).2.getD (List.replicate ps.size 0))

/-- The pages after an operation that succeeds. -/
def LastWritten.after (s : BufferedFile) : Operation ps → LastWritten
  | .writeAt replica b off =>
      Function.update s.written (off / ps.size + 1)
        (some ((pageBefore replica s (off / ps.size + 1)).writeAt (off % ps.size)
          (b.take (min b.length (ps.size - off % ps.size)))))
  | .truncate size => fun pgno => if pgno ≤ size / ps.size then s.written pgno else none
  | .sync _ _ => fun _ => none
  | .other _ _ _ _ => s.written

def next (s : BufferedFile) : Operation ps → BufferedFile
  | .writeAt replica b off =>
      ⟨(s.file.WriteAt replica b off).1,
        if (s.file.WriteAt replica b off).2.isOk then
          LastWritten.after s (.writeAt replica b off)
        else s.written⟩
  | .truncate size =>
      ⟨State.orSame s.file (s.file.Truncate size),
        if (s.file.Truncate size).isOk then
          LastWritten.after s (.truncate size : Operation ps)
        else s.written⟩
  | .sync replica upload =>
      ⟨s.file.sync replica upload,
        if s.file.Syncs replica ∧ upload = true then LastWritten.after s (.sync replica upload)
        else s.written⟩
  | .other index cache inTransaction expectedTXID =>
      { s with file := { s.file with
          index := index
          cache := cache
          inTransaction := inTransaction
          expectedTXID := expectedTXID } }

def step (s : BufferedFile) (op : Operation ps) : Option BufferedFile := some (next s op)

/-- The slots of dirty pages are disjoint and below the next free offset, and hold the pages last
written. -/
structure LaidOut (ps : PageSize) (s : BufferedFile) : Prop where
  disjoint : ∀ w ∈ s.file.dirty, ∀ v ∈ s.file.dirty, w.1 ≠ v.1 →
    w.2 + ps.size ≤ v.2 ∨ v.2 + ps.size ≤ w.2
  below : ∀ w ∈ s.file.dirty, w.2 + ps.size ≤ s.file.bufferNextOff
  /-- The slot of a dirty page holds the page. -/
  content : ∀ pgno, s.file.dirtyPage pgno = s.written pgno
  /-- A read of a dirty page is a read of it. -/
  reads : ∀ (replica : Replica ps) (random : Bytes) (off len : Nat) (page : Bytes),
    s.written (off / ps.size + 1) = some page →
      (s.file.ReadAt replica random off len).2 =
        if len < 28 then .ok (page.readAt (off % ps.size) len)
        else VFSFile.present random off len (off % ps.size) page

/-- The file is open for writing, and its buffer holds the pages last written. -/
structure Inv (ps : PageSize) (s : BufferedFile) : Prop where
  pageSize : s.file.pageSize = ps.size
  writeEnabled : s.file.writeEnabled = true
  buffered : Buffered ps s.file
  content : ∀ pgno, s.file.dirtyPage pgno = s.written pgno

variable {s s' : BufferedFile} {f f' : VFSFile} {replica : Replica ps} {op : Operation ps}

theorem Inv.laidOut (h : Inv ps s) : LaidOut ps s := by
  refine ⟨h.buffered.disjoint, h.buffered.within, h.content, ?_⟩
  intro replica random off len page hpage
  rw [readAt_dirty h.pageSize h.writeEnabled h.buffered ((h.content _).trans hpage)]

/-! ## Operations -/

/-- A write that succeeds puts the page before it, with the new bytes, in the buffer. -/
theorem writeAt_ok (hsize : f.pageSize = ps.size) {b : Bytes} {off n : Nat}
    (hwrite : f.WriteAt replica b off = (f', .ok n)) :
    ∃ (page : Page ps) (g : VFSFile), Touched (off / ps.size + 1) f g ∧
      f' = g.writeToBuffer (off / ps.size + 1) page.data ∧
        page.data = ((f.dirtyPage (off / ps.size + 1)).getD
          ((f.readPageForWrite replica (off / ps.size + 1)).2.getD
            (List.replicate ps.size 0))).writeAt (off % ps.size)
              (b.take (min b.length (ps.size - off % ps.size))) := by
  have hpos := Flat.pageSize_pos ps
  have hmod := Nat.mod_lt off hpos
  -- the page with the new bytes is as long as it was
  have hpage : ∀ old : Bytes, old.length = ps.size → (old.writeAt (off % ps.size)
      (b.take (min b.length (ps.size - off % ps.size)))).length = ps.size := by
    intro old hold
    rw [Bytes.length_writeAt_of_le, hold]
    rw [List.length_take, hold]
    omega
  rw [VFSFile.WriteAt, hsize, if_neg hpos.ne'] at hwrite
  dsimp only at hwrite
  split at hwrite
  · cases (Prod.mk.inj hwrite).2
  split at hwrite
  · cases (Prod.mk.inj hwrite).2
  rw [VFSFile.dirtyPage, hsize]
  cases hoff : lastWrite f.dirty (off / ps.size + 1) with
  | some bufferOff =>
      rw [hoff] at hwrite
      dsimp only at hwrite
      split at hwrite
      · cases (Prod.mk.inj hwrite).2
      next hshort =>
        have hold : (f.bufferFile.readAt bufferOff ps.size).length = ps.size := by
          have := Bytes.length_readAt f.bufferFile bufferOff ps.size
          omega
        exact ⟨⟨_, hpage _ hold⟩, _, ⟨f.cache, _, rfl, fun _ _ => rfl⟩,
          (Prod.mk.inj hwrite).1.symm, rfl⟩
  | none =>
      rw [hoff] at hwrite
      dsimp only at hwrite
      have hold := length_readPageForWrite replica (off / ps.size + 1) f
      rw [hsize] at hold
      refine ⟨⟨_, hpage _ hold⟩, _, ?_, (Prod.mk.inj hwrite).1.symm, rfl⟩
      rcases readPageForWrite_cases replica (off / ps.size + 1) f with heq | ⟨data, heq⟩
      · rw [heq]
        exact ⟨f.cache, _, rfl, fun _ _ => rfl⟩
      · rw [heq]
        exact ⟨_, _, rfl, fun j hj => Function.update_of_ne hj _ _⟩

/-- A write that fails changes nothing. -/
theorem writeAt_error (hsize : f.pageSize = ps.size) {b : Bytes} {off : Nat} {err : VFSError}
    (hwrite : f.WriteAt replica b off = (f', .error err)) : f' = f := by
  rcases writeAt_stores hsize hwrite with ⟨heq, -⟩ | ⟨⟨n, hn⟩, -⟩
  · exact heq
  · cases hn

theorem Inv.writeAt (h : Inv ps s) (b : Bytes) (off : Nat) :
    Inv ps (next s (.writeAt replica b off)) := by
  rw [WriteBuffer.next]
  cases hwrite : s.file.WriteAt replica b off with
  | mk f' result =>
      cases result with
      | error err =>
          rw [writeAt_error h.pageSize hwrite]
          exact ⟨h.pageSize, h.writeEnabled, h.buffered, h.content⟩
      | ok n =>
          obtain ⟨page, g, ⟨cache, commit, rfl, -⟩, rfl, hpage⟩ := writeAt_ok h.pageSize hwrite
          have hg : Buffered ps { s.file with cache := cache, commit := commit } :=
            ⟨h.buffered.1, h.buffered.2, h.buffered.3, h.buffered.4⟩
          have hsize : ({ s.file with cache := cache, commit := commit } : VFSFile).pageSize =
              ps.size := h.pageSize
          obtain ⟨hbuffered, hdirty⟩ := hg.writeToBuffer hsize (off / ps.size + 1) page
          obtain ⟨dirty, bufferFile, bufferNextOff, heq⟩ := writeToBuffer_eq (off / ps.size + 1)
            page.data { s.file with cache := cache, commit := commit }
          rw [heq] at hbuffered hdirty ⊢
          refine ⟨h.pageSize, h.writeEnabled, hbuffered, fun pgno => ?_⟩
          have hold : pageBefore replica s (off / ps.size + 1) =
              (s.file.dirtyPage (off / ps.size + 1)).getD
                ((s.file.readPageForWrite replica (off / ps.size + 1)).2.getD
                  (List.replicate ps.size 0)) := by
            rw [pageBefore, h.content]
          show _ = LastWritten.after s (.writeAt replica b off) pgno
          rw [hdirty, LastWritten.after, Function.update_apply, hold, ← hpage]
          exact if_congr Iff.rfl rfl (h.content pgno)

theorem truncate_ok (hsize : f.pageSize = ps.size) (hwrite : f.writeEnabled = true) (size : Nat) :
    f.Truncate size = .ok { f with
      dirty := f.dirty.filter fun w => w.1 ≤ size / ps.size
      commit := size / ps.size } := by
  rw [VFSFile.Truncate, hsize, if_neg (Flat.pageSize_pos ps).ne', hwrite]
  rfl

theorem Inv.truncate (h : Inv ps s) (size : Nat) :
    Inv ps (next s (.truncate size : Operation ps)) := by
  rw [WriteBuffer.next, truncate_ok h.pageSize h.writeEnabled]
  refine ⟨h.pageSize, h.writeEnabled, Flat.buffered_truncate h.buffered _, fun pgno => ?_⟩
  have hdirty := Flat.dirtyPage_truncate s.file (size / ps.size) pgno
  rw [h.content] at hdirty
  exact hdirty

theorem Inv.sync (h : Inv ps s) (upload : Bool) : Inv ps (next s (.sync replica upload)) := by
  rw [WriteBuffer.next, VFSFile.sync]
  by_cases hsync : s.file.Syncs replica ∧ upload = true
  · rw [if_pos hsync, if_pos hsync]
    refine ⟨h.pageSize, h.writeEnabled, ⟨?_, ?_, ?_, ?_⟩, fun pgno => rfl⟩ <;>
      simp [VFSFile.uploaded]
  · rw [if_neg hsync, if_neg hsync]
    exact ⟨h.pageSize, h.writeEnabled, h.buffered, h.content⟩

theorem Inv.next (h : Inv ps s) (op : Operation ps) : Inv ps (WriteBuffer.next s op) := by
  cases op with
  | writeAt replica b off => exact h.writeAt b off
  | truncate size => exact h.truncate size
  | sync replica upload => exact h.sync upload
  | other index cache inTransaction expectedTXID =>
      exact ⟨h.pageSize, h.writeEnabled, ⟨h.buffered.1, h.buffered.2, h.buffered.3, h.buffered.4⟩,
        h.content⟩

/-- In every state that writes, truncations and syncs of a file reach, the slots of the buffer are
disjoint, below the next free offset, and hold the pages last written. -/
theorem laidOut_of_run (f : VFSFile) (h : Flat.WriteMode ps f) (ops : List (Operation ps))
    (s : BufferedFile) (hrun : run step ⟨f, fun _ => none⟩ ops = some s) : LaidOut ps s := by
  have hinit : Inv ps ⟨f, fun _ => none⟩ := by
    refine ⟨h.pageSize, h.writeEnabled, ⟨?_, ?_, ?_, ?_⟩, fun pgno => ?_⟩ <;>
      simp [h.dirty, h.bufferFile, h.bufferNextOff, VFSFile.dirtyPage, lastWrite_nil]
  have hinv : Inv ps s := run_invariant (I := Inv ps) (fun {s op s'} hs hstep => by
    obtain rfl := Option.some.inj hstep
    exact hs.next op) hinit hrun
  exact hinv.laidOut

theorem exists_run (s : BufferedFile) (ops : List (Operation ps)) :
    ∃ s', run step s ops = some s' := by
  induction ops generalizing s with
  | nil => exact ⟨s, rfl⟩
  | cons op ops ih => exact ih (WriteBuffer.next s op)

/-- Page 1 is written twice, page 2 is cut off and written again behind page 3, and a sync starts
over. -/
def rewrites : List (Operation PageSize.min) :=
  let replica := OnePage.replica 1
  [.writeAt replica (OnePage.page 1).data 0, .writeAt replica (OnePage.page 2).data 512,
    .writeAt replica (OnePage.page 3).data 0, .truncate 512,
    .writeAt replica (OnePage.page 4).data 1024, .writeAt replica (OnePage.page 5).data 512,
    .sync replica true, .writeAt replica (OnePage.page 6).data 512]

theorem laidOut_of_run_sample : ∃ s,
    run step ⟨Flat.writer, fun _ => none⟩ rewrites = some s ∧ LaidOut PageSize.min s := by
  obtain ⟨s, hrun⟩ := exists_run ⟨Flat.writer, fun _ => none⟩ rewrites
  exact ⟨s, hrun, laidOut_of_run Flat.writer Flat.writeMode_writer rewrites s hrun⟩

end WriteBuffer

end Vfs

end Litestream
