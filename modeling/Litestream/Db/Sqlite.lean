import Litestream.Lib.Paged
import Litestream.Wal.PageMap

/-!
# The database that SQLite keeps

A commit appends frames to the WAL, or restarts it when every frame has been copied to the
database file.  A checkpoint copies frames to the database file.  `committed` is the
database as SQLite reads it, a page from its last frame in the WAL or from the file.

SQLite is not part of the repository.  This module has what the repository relies on.
-/

namespace Litestream

open Bytes Overlay Paged

variable {ps : PageSize}

/-! ## Transactions -/

/-- A transaction that SQLite commits. -/
structure Commit (ps : PageSize) where
  /-- The database size in pages after the transaction. -/
  size : UInt32
  pages : List (UInt32 × Page ps)
  ne : pages ≠ []
  pgno_ne_zero : ∀ w ∈ pages, w.1 ≠ 0
  pgno_le : ∀ w ∈ pages, w.1 ≤ size

/-- The transaction on the stores of pages. -/
def Commit.tx (c : Commit ps) : Tx UInt32 Bytes := ⟨c.size, c.pages.map (Prod.map id Page.data)⟩

theorem Commit.size_ne_zero (c : Commit ps) : c.size ≠ 0 := by
  intro h0
  cases hp : c.pages with
  | nil => exact c.ne hp
  | cons w ws =>
      have hmem : w ∈ c.pages := by rw [hp]; exact List.mem_cons_self
      have hle := c.pgno_le w hmem
      rw [h0, UInt32.le_zero_iff] at hle
      exact c.pgno_ne_zero w hmem hle

/-! ## Frames -/

namespace Frame

/-- A frame with the checksum that follows a running checksum. -/
def next (bo : ByteOrder) (salt : Salt) (c : Checksum) (pgno commit : UInt32) (page : Page ps) :
    Frame ps :=
  let f : Frame ps := ⟨pgno, commit, salt, (0, 0), page⟩
  { f with chksum := (f.checksum bo c).getD (0, 0) }

theorem checksum_next (bo : ByteOrder) (salt : Salt) (c : Checksum) (pgno commit : UInt32)
    (page : Page ps) :
    (next bo salt c pgno commit page).checksum bo c =
      some (next bo salt c pgno commit page).chksum := by
  let f : Frame ps := ⟨pgno, commit, salt, (0, 0), page⟩
  obtain ⟨c₁, h₁⟩ := exists_walChecksum bo c f.head (by rw [length_head])
  obtain ⟨c₂, h₂⟩ := exists_walChecksum bo c₁ page.data
    (by rw [page.length_data]; exact ps.bounds.2.2)
  have hsum : f.checksum bo c = some c₂ := by rw [checksum, h₁, Option.bind_some, h₂]
  show f.checksum bo c = some ((f.checksum bo c).getD (0, 0))
  rw [hsum, Option.getD_some]

end Frame

/-- The frames of a transaction.  The last one carries the database size. -/
def Commit.framesFrom (bo : ByteOrder) (salt : Salt) (size : UInt32) :
    Checksum → List (UInt32 × Page ps) → List (Frame ps)
  | _, [] => []
  | c, [w] => [Frame.next bo salt c w.1 size w.2]
  | c, w :: v :: ws =>
      let f := Frame.next bo salt c w.1 0 w.2
      f :: framesFrom bo salt size f.chksum (v :: ws)

namespace Commit

variable {bo : ByteOrder} {salt : Salt} {size : UInt32}

theorem framesFrom_ne_nil {c : Checksum} {ws : List (UInt32 × Page ps)} (h : ws ≠ []) :
    framesFrom bo salt size c ws ≠ [] := by
  match ws with
  | [] => exact absurd rfl h
  | [w] => simp [framesFrom]
  | w :: v :: ws => simp [framesFrom]

theorem length_framesFrom (c : Checksum) (ws : List (UInt32 × Page ps)) :
    (framesFrom bo salt size c ws).length = ws.length := by
  induction c, ws using framesFrom.induct bo salt with
  | case1 c => rfl
  | case2 c w => rfl
  | case3 c w v ws f ih => rw [framesFrom, List.length_cons, ih, List.length_cons (a := w)]

theorem framesFrom_valid (c : Checksum) (ws : List (UInt32 × Page ps)) :
    ValidFrames bo salt c (framesFrom bo salt size c ws) := by
  induction c, ws using framesFrom.induct bo salt with
  | case1 c => trivial
  | case2 c w => exact ⟨rfl, Frame.checksum_next .., trivial⟩
  | case3 c w v ws f ih => exact ⟨rfl, Frame.checksum_next .., ih⟩

theorem writes_framesFrom (c : Checksum) (ws : List (UInt32 × Page ps)) :
    Wal.writes (framesFrom bo salt size c ws) = ws.map (Prod.map id Page.data) := by
  induction c, ws using framesFrom.induct bo salt with
  | case1 c => rfl
  | case2 c w => rfl
  | case3 c w v ws f ih =>
      rw [framesFrom, Wal.writes_cons, ih]
      rfl

theorem getLast_framesFrom (c : Checksum) {ws : List (UInt32 × Page ps)}
    (h : framesFrom bo salt size c ws ≠ []) :
    ((framesFrom bo salt size c ws).getLast h).commit = size := by
  induction c, ws using framesFrom.induct bo salt with
  | case1 c => exact absurd rfl h
  | case2 c w => rfl
  | case3 c w v ws f ih =>
      have hne : framesFrom bo salt size f.chksum (v :: ws) ≠ [] := framesFrom_ne_nil (by simp)
      simp only [framesFrom]
      rw [List.getLast_cons hne]
      exact ih hne

theorem framesFrom_pgno_le (c : Checksum) {ws : List (UInt32 × Page ps)}
    (hle : ∀ w ∈ ws, w.1 ≤ size) :
    ∀ f ∈ framesFrom bo salt size c ws, f.commit ≠ 0 → f.pgno ≤ f.commit := by
  induction c, ws using framesFrom.induct bo salt with
  | case1 c => simp [framesFrom]
  | case2 c w =>
      intro f hf _
      rw [framesFrom, List.mem_singleton] at hf
      subst hf
      exact hle w List.mem_cons_self
  | case3 c w v ws f ih =>
      intro g hg hcommit
      rw [framesFrom] at hg
      rcases List.mem_cons.mp hg with rfl | hg
      · exact absurd rfl hcommit
      · exact ih (fun u hu => hle u (List.mem_cons_of_mem _ hu)) g hg hcommit

end Commit

/-! ## Appending to the WAL and restarting it -/

namespace Wal

/-- A generation that starts with a transaction, over the frames of earlier ones. -/
def start (header : WalHeader) (c : Commit ps) (old : List (Frame ps))
    (hold : ∀ f ∈ old, f.salt ≠ header.salt) : Wal ps where
  header := header
  cur := Commit.framesFrom header.bo header.salt c.size (header.checksum ps) c.pages
  stale := old.drop c.pages.length
  cur_ne := Commit.framesFrom_ne_nil c.ne
  valid := Commit.framesFrom_valid ..
  committed := by
    rw [Commit.getLast_framesFrom]
    exact c.size_ne_zero
  pgno_le := Commit.framesFrom_pgno_le _ c.pgno_le
  stale_salt := fun f hf => hold f (List.mem_of_mem_drop hf)

/-- Appends a transaction to the current generation. -/
def append (w : Wal ps) (c : Commit ps) : Wal ps where
  header := w.header
  cur := w.cur ++ Commit.framesFrom w.header.bo w.header.salt c.size
    (lastChecksum (w.header.checksum ps) w.cur) c.pages
  stale := w.stale.drop c.pages.length
  cur_ne := by simp [w.cur_ne]
  valid := w.valid.append (Commit.framesFrom_valid ..)
  committed := by
    rw [List.getLast_append_of_ne_nil _ (Commit.framesFrom_ne_nil c.ne), Commit.getLast_framesFrom]
    exact c.size_ne_zero
  pgno_le := by
    intro f hf hcommit
    rcases List.mem_append.mp hf with hf | hf
    · exact w.pgno_le f hf hcommit
    · exact Commit.framesFrom_pgno_le _ c.pgno_le f hf hcommit
  stale_salt := fun f hf => w.stale_salt f (List.mem_of_mem_drop hf)

variable {header : WalHeader} {c : Commit ps} {old : List (Frame ps)}
  {hold : ∀ f ∈ old, f.salt ≠ header.salt} {w : Wal ps}

@[simp] theorem header_start : (start header c old hold).header = header := rfl

@[simp] theorem stale_start : (start header c old hold).stale = old.drop c.pages.length := rfl

@[simp] theorem commit_start : (start header c old hold).commit = c.size :=
  Commit.getLast_framesFrom ..

@[simp] theorem writes_cur_start : writes (start header c old hold).cur = c.tx.writes :=
  Commit.writes_framesFrom ..

@[simp] theorem length_cur_start : (start header c old hold).cur.length = c.pages.length :=
  Commit.length_framesFrom ..

@[simp] theorem header_append : (w.append c).header = w.header := rfl

theorem cur_append : (w.append c).cur = w.cur ++ Commit.framesFrom w.header.bo w.header.salt c.size
    (lastChecksum (w.header.checksum ps) w.cur) c.pages := rfl

@[simp] theorem stale_append : (w.append c).stale = w.stale.drop c.pages.length := rfl

@[simp] theorem commit_append : (w.append c).commit = c.size := by
  rw [commit, append]
  simp only
  rw [List.getLast_append_of_ne_nil _ (Commit.framesFrom_ne_nil c.ne), Commit.getLast_framesFrom]

@[simp] theorem writes_cur_append : writes (w.append c).cur = writes w.cur ++ c.tx.writes := by
  rw [append, writes_append, Commit.writes_framesFrom]
  rfl

@[simp] theorem length_cur_append :
    (w.append c).cur.length = w.cur.length + c.pages.length := by
  rw [append, List.length_append, Commit.length_framesFrom]

/-- Appending changes no frame but those in the place of the new ones. -/
theorem getElem?_frames_append {i : Nat}
    (h : i < w.cur.length ∨ w.cur.length + c.pages.length ≤ i) :
    (w.append c).frames[i]? = w.frames[i]? := by
  have hlen : (w.append c).cur.length = w.cur.length + c.pages.length := length_cur_append
  rw [frames, frames]
  rcases h with hlt | hle
  · rw [List.getElem?_append_left (by omega), List.getElem?_append_left hlt, cur_append,
      List.getElem?_append_left hlt]
  · rw [List.getElem?_append_right (by omega), List.getElem?_append_right (by omega), hlen,
      stale_append, List.getElem?_drop]
    congr 1
    omega

/-- Restarting changes no frame but those in the place of the new ones. -/
theorem getElem?_frames_start {i : Nat} (h : c.pages.length ≤ i) :
    (start header c old hold).frames[i]? = old[i]? := by
  have hlen : (start header c old hold).cur.length = c.pages.length := length_cur_start
  rw [frames, List.getElem?_append_right (by omega), hlen, stale_start, List.getElem?_drop]
  congr 1
  omega

end Wal

/-! ## The database file -/

/-- A page of zeros. -/
def Page.zero (ps : PageSize) : Page ps := ⟨List.replicate ps.size 0, List.length_replicate⟩

/-- Cuts or extends a file to a number of pages. -/
def resize (file : List (Page ps)) (n : Nat) : List (Page ps) :=
  file.take n ++ List.replicate (n - file.length) (Page.zero ps)

/-- Writes a page of the database file. -/
def setPage (file : List (Page ps)) (pgno : UInt32) (page : Page ps) : List (Page ps) :=
  (file ++ List.replicate (pgno.toNat - file.length) (Page.zero ps)).set (pgno.toNat - 1) page

/-- Copies frames to the database file. -/
def backfill (file : List (Page ps)) (fs : List (Frame ps)) : List (Page ps) :=
  fs.foldl (fun file f => setPage file f.pgno f.page) file

/-- The content of a page of the database file. -/
def filePage (file : List (Page ps)) (pgno : UInt32) : Bytes :=
  ((file[pgno.toNat - 1]?).map Page.data).getD []

theorem length_resize (file : List (Page ps)) (n : Nat) : (resize file n).length = n := by
  simp [resize]
  omega

theorem filePage_resize {file : List (Page ps)} {n : Nat} {p : UInt32} (h0 : p ≠ 0)
    (hn : p.toNat ≤ n) (hlen : p.toNat ≤ file.length) : filePage (resize file n) p = filePage file p := by
  have hpos : p.toNat ≠ 0 := fun h => h0 (UInt32.toNat_inj.mp h)
  rw [filePage, filePage, resize, List.getElem?_append_left (by simp; omega),
    List.getElem?_take_of_lt (by omega)]

theorem length_setPage (file : List (Page ps)) (p : UInt32) (d : Page ps) :
    (setPage file p d).length = max file.length p.toNat := by
  simp [setPage]
  omega

theorem filePage_setPage {file : List (Page ps)} {p q : UInt32} {d : Page ps} (hp : p ≠ 0)
    (hq : q ≠ 0) (h : q = p ∨ q.toNat ≤ file.length) :
    filePage (setPage file p d) q = if q = p then d.data else filePage file q := by
  have hp0 : p.toNat ≠ 0 := fun h => hp (UInt32.toNat_inj.mp h)
  have hq0 : q.toNat ≠ 0 := fun h => hq (UInt32.toNat_inj.mp h)
  rw [filePage, setPage]
  by_cases hqp : q = p
  · subst hqp
    rw [if_pos rfl, List.getElem?_set_self (by simp; omega)]
    rfl
  · have hne : p.toNat - 1 ≠ q.toNat - 1 := by
      intro heq
      exact hqp (UInt32.toNat_inj.mp (by omega))
    rw [if_neg hqp, List.getElem?_set_ne hne,
      List.getElem?_append_left (by have := h.resolve_left hqp; omega), filePage]

/-- A page that is in the file or among the frames is the last version of it. -/
theorem filePage_backfill {fs : List (Frame ps)} {file : List (Page ps)} {p : UInt32}
    (hfs : ∀ f ∈ fs, f.pgno ≠ 0) (h0 : p ≠ 0)
    (h : p.toNat ≤ file.length ∨ p ∈ (Wal.writes fs).map Prod.fst) :
    filePage (backfill file fs) p = overlay (filePage file) (Wal.writes fs) p := by
  induction fs generalizing file with
  | nil => rfl
  | cons f fs ih =>
      have hf := hfs f List.mem_cons_self
      have hlen := length_setPage file f.pgno f.page
      rw [Wal.writes_cons, List.map_cons, List.mem_cons] at h
      rw [backfill, List.foldl_cons, ← backfill, ih fun g hg => hfs g (List.mem_cons_of_mem _ hg)]
      · rw [Wal.writes_cons, ← List.singleton_append, overlay_append]
        refine overlay_congr fun hmem => ?_
        rw [filePage_setPage hf h0 (by tauto), overlay, lastWrite_cons]
        by_cases hp : p = f.pgno
        · simp [hp]
        · simp [hp, Ne.symm hp]
      · by_cases hmem : p ∈ (Wal.writes fs).map Prod.fst
        · exact Or.inr hmem
        · left
          rcases h with hle | hp | hmem'
          · omega
          · rw [hp, hlen]
            exact Nat.le_max_right ..
          · exact absurd hmem' hmem

/-- Copying frames never shortens the file. -/
theorem le_length_backfill (fs : List (Frame ps)) (file : List (Page ps)) :
    file.length ≤ (backfill file fs).length := by
  induction fs generalizing file with
  | nil => rfl
  | cons f fs ih =>
      have h := length_setPage file f.pgno f.page
      exact le_trans (by omega) (ih (setPage file f.pgno f.page))

theorem toNat_le_length_backfill {fs : List (Frame ps)} {p : UInt32} (file : List (Page ps))
    (h : p ∈ (Wal.writes fs).map Prod.fst) : p.toNat ≤ (backfill file fs).length := by
  induction fs generalizing file with
  | nil => cases h
  | cons f fs ih =>
      rw [Wal.writes_cons, List.map_cons, List.mem_cons] at h
      rcases h with rfl | h
      · refine le_trans ?_ (le_length_backfill fs (setPage file f.pgno f.page))
        rw [length_setPage]
        exact Nat.le_max_right ..
      · exact ih (setPage file f.pgno f.page) h

theorem length_backfill_lt {fs : List (Frame ps)} {file : List (Page ps)}
    (h : file.length < 2 ^ 32) : (backfill file fs).length < 2 ^ 32 := by
  induction fs generalizing file with
  | nil => exact h
  | cons f fs ih =>
      refine ih ?_
      have := f.pgno.toNat_lt
      rw [length_setPage]
      omega

/-! ## The committed database -/

/-- The database as SQLite reads it. -/
def committed (file : List (Page ps)) : Option (Wal ps) → Store UInt32 Bytes
  | none => ⟨UInt32.ofNat file.length, filePage file⟩
  | some w => ⟨w.commit, overlay (filePage file) (Wal.writes w.cur)⟩

/-- Appending a transaction commits it. -/
theorem committed_append (file : List (Page ps)) (w : Wal ps) (c : Commit ps) :
    committed file (some (w.append c)) = (committed file (some w)).apply c.tx := by
  rw [committed, Wal.commit_append, Wal.writes_cur_append, overlay_append]
  rfl

theorem committed_start (file : List (Page ps)) {header : WalHeader} {c : Commit ps}
    {old : List (Frame ps)} {hold : ∀ f ∈ old, f.salt ≠ header.salt} :
    committed file (some (Wal.start header c old hold)) = (committed file none).apply c.tx := by
  simp only [committed, Wal.commit_start, Wal.writes_cur_start]
  rfl

end Litestream
