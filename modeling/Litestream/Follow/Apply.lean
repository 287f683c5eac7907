import Litestream.Lib.File
import Litestream.Ltx.FileInfo

/-!
# Applying one LTX file to a follower

`applyLTXFile` reads the pages of a stored file one by one and writes each to the database
as soon as it is decoded.  Then it truncates the database to the commit size.

What the storage client, the LTX decoder and the file system do is in `LTXStream`.  A nil
error is `none`.  The database is never read, so the outcome does not depend on it, and the
effect is that of a list of operations on the file (`applyLTXFile_eq`).
-/

namespace Litestream

open Bytes FileOp

/-! ## What applying a file meets -/

/-- One page that `DecodePage` returns, with what happens when it is written. -/
structure PageRead (pageSize : Nat) where
  pgno : UInt32
  /-- The buffer that the page is decoded into. -/
  data : Bytes
  length_data : data.length = pageSize
  /-- The bytes that `rand.Read` draws. -/
  random : Bytes
  length_random : random.length = 4
  /-- The number of bytes written before `WriteAt` fails, and its error. -/
  writeErr : Option (Nat × ClientError)

/-- A stored file as it is opened, decoded and applied. -/
structure LTXStream (pageSize : Nat) where
  /-- `OpenLTXFile` fails. -/
  openErr : Option ClientError
  /-- What `DecodeHeader` returns, of which the commit size is used. -/
  header : Except ClientError UInt32
  lockErr : Option ClientError
  pages : List (PageRead pageSize)
  /-- What `DecodePage` returns after these pages, `none` for `io.EOF`. -/
  decodeErr : Option ClientError
  truncateErr : Option ClientError
  /-- `Close` of the decoder fails, for example because a checksum does not match. -/
  closeErr : Option ClientError
  syncErr : Option ClientError

inductive ApplyError where
  | openLTXFile (err : ClientError)
  | decodeHeader (err : ClientError)
  | lock (err : ClientError)
  | decodePage (err : ClientError)
  | writePage (pgno : UInt32) (err : ClientError)
  | truncate (err : ClientError)
  | closeDecoder (err : ClientError)
  | sync (err : ClientError)
deriving DecidableEq, Repr

variable {pageSize : Nat}

namespace PageRead

/-- Where the page is written. -/
def offset (p : PageRead pageSize) : Nat := (p.pgno - 1).toNat * pageSize

/-- The page as it is written.  On page 1 the journal mode is set to DELETE, and the schema
change counter is random. -/
def written (p : PageRead pageSize) : Bytes :=
  if p.pgno = 1 ∧ 28 ≤ p.data.length then (p.data.writeAt 18 [1, 1]).writeAt 24 p.random
  else p.data

end PageRead

/-! ## The code -/

/-- The loop over the pages. -/
def applyPages (decodeErr : Option ClientError) :
    List (PageRead pageSize) → Bytes → Option ApplyError × Bytes
  | [], f => (decodeErr.map .decodePage, f)
  | p :: ps, f =>
      match p.writeErr with
      | some (n, err) => (some (.writePage p.pgno err), f.writeAt p.offset (p.written.take n))
      | none => applyPages decodeErr ps (f.writeAt p.offset p.written)

/-- `Replica.applyLTXFile`. -/
def applyLTXFile (x : LTXStream pageSize) (f : Bytes) : Option ApplyError × Bytes :=
  match x.openErr with
  | some err => (some (.openLTXFile err), f)
  | none =>
  match x.header with
  | .error err => (some (.decodeHeader err), f)
  | .ok commit =>
  match x.lockErr with
  | some err => (some (.lock err), f)
  | none =>
  match applyPages x.decodeErr x.pages f with
  | (some err, f) => (some err, f)
  | (none, f) =>
  match (if 0 < commit then
      match x.truncateErr with
      | some err => (some (.truncate err), f)
      | none => (none, f.truncate (commit.toNat * pageSize))
    else (none, f) : Option ApplyError × Bytes) with
  | (some err, f) => (some err, f)
  | (none, f) =>
  match x.closeErr with
  | some err => (some (.closeDecoder err), f)
  | none => (x.syncErr.map .sync, f)

/-! ## The operations on the file -/

/-- The writes of pages, up to the first that fails. -/
def pageOps : List (PageRead pageSize) → List FileOp
  | [] => []
  | p :: ps =>
      match p.writeErr with
      | some (n, _) => [.writeAt p.offset (p.written.take n)]
      | none => .writeAt p.offset p.written :: pageOps ps

/-- The error that the loop over the pages ends with. -/
def pagesErr (decodeErr : Option ClientError) : List (PageRead pageSize) → Option ApplyError
  | [] => decodeErr.map .decodePage
  | p :: ps =>
      match p.writeErr with
      | some (_, err) => some (.writePage p.pgno err)
      | none => pagesErr decodeErr ps

theorem applyPages_eq (decodeErr : Option ClientError) (ps : List (PageRead pageSize))
    (f : Bytes) : applyPages decodeErr ps f = (pagesErr decodeErr ps, runAll f (pageOps ps)) := by
  induction ps generalizing f with
  | nil => rfl
  | cons p ps ih =>
      unfold applyPages pagesErr pageOps
      cases p.writeErr with
      | none => exact ih _
      | some e => rfl

namespace LTXStream

variable (x : LTXStream pageSize)

/-- The error that the file is not applied with. -/
def err : Option ApplyError := (applyLTXFile x []).1

/-- The truncation to a commit size. -/
def truncateOps (commit : UInt32) : List FileOp :=
  if 0 < commit ∧ x.truncateErr = none then [.truncate (commit.toNat * pageSize)] else []

/-- The operations on the database. -/
def ops : List FileOp :=
  match x.openErr, x.header, x.lockErr with
  | none, .ok commit, none =>
      pageOps x.pages ++ if pagesErr x.decodeErr x.pages = none then x.truncateOps commit else []
  | _, _, _ => []

/-- Whether and how applying a file fails does not depend on the database, and its effect is
that of its operations. -/
theorem applyLTXFile_eq (f : Bytes) : applyLTXFile x f = (x.err, runAll f x.ops) := by
  unfold err applyLTXFile ops truncateOps
  cases x.openErr with
  | some err => rfl
  | none =>
  cases x.header with
  | error err => rfl
  | ok commit =>
  cases x.lockErr with
  | some err => rfl
  | none =>
  simp only [applyPages_eq, runAll_append]
  cases pagesErr x.decodeErr x.pages with
  | some err => rfl
  | none =>
  by_cases hcommit : 0 < commit
  · cases x.truncateErr with
    | some err => simp [hcommit]
    | none => cases x.closeErr <;> simp [hcommit, FileOp.run]
  · cases x.closeErr <;> simp [hcommit]

/-- The file is applied without an error. -/
structure Succeeds (commit : UInt32) : Prop where
  openErr : x.openErr = none
  header : x.header = .ok commit
  lockErr : x.lockErr = none
  pages : ∀ p ∈ x.pages, p.writeErr = none
  decodeErr : x.decodeErr = none
  truncateErr : 0 < commit → x.truncateErr = none

theorem pagesErr_eq_none {decodeErr : Option ClientError} {ps : List (PageRead pageSize)} :
    pagesErr decodeErr ps = none ↔ decodeErr = none ∧ ∀ p ∈ ps, p.writeErr = none := by
  induction ps with
  | nil => simp [pagesErr]
  | cons p ps ih =>
      unfold pagesErr
      cases hp : p.writeErr with
      | none => simp [ih, hp]
      | some e => simp [hp]

variable {x}

theorem succeeds_of_err_eq_none (h : x.err = none) : ∃ commit, x.Succeeds commit := by
  unfold err applyLTXFile at h
  cases hopen : x.openErr with
  | some err => simp [hopen] at h
  | none =>
  cases hheader : x.header with
  | error err => simp [hopen, hheader] at h
  | ok commit =>
  cases hlock : x.lockErr with
  | some err => simp [hopen, hheader, hlock] at h
  | none =>
  simp only [hopen, hheader, hlock, applyPages_eq] at h
  cases hpages : pagesErr x.decodeErr x.pages with
  | some err => simp [hpages] at h
  | none =>
  obtain ⟨hdecode, hwrite⟩ := pagesErr_eq_none.mp hpages
  refine ⟨commit, hopen, hheader, hlock, hwrite, hdecode, fun hcommit => ?_⟩
  cases htruncate : x.truncateErr with
  | some err => simp [hpages, hcommit, htruncate] at h
  | none => rfl

theorem pageOps_eq {ps : List (PageRead pageSize)} (h : ∀ p ∈ ps, p.writeErr = none) :
    pageOps ps = ps.map fun p => .writeAt p.offset p.written := by
  induction ps with
  | nil => rfl
  | cons p ps ih =>
      unfold pageOps
      rw [h p List.mem_cons_self, ih fun q hq => h q (List.mem_cons_of_mem p hq)]
      rfl

/-- The operations of a file that is applied without an error. -/
theorem Succeeds.ops_eq {commit : UInt32} (h : x.Succeeds commit) (hcommit : 0 < commit) :
    x.ops = (x.pages.map fun p => .writeAt p.offset p.written) ++
      [.truncate (commit.toNat * pageSize)] := by
  unfold ops truncateOps
  rw [h.openErr, h.header, h.lockErr]
  simp only
  rw [if_pos (pagesErr_eq_none.mpr ⟨h.decodeErr, h.pages⟩),
    if_pos ⟨hcommit, h.truncateErr hcommit⟩, pageOps_eq h.pages]

end LTXStream

end Litestream
