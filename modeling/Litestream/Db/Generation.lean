import Litestream.Db.Outcomes
import Litestream.Db.Sqlite

/-!
# Generations of the WAL

A generation of the WAL is a list of transactions over a base, the database at the time
the WAL was restarted.  The database file has the base, but for pages that the generation
writes.  `Generation` says so, and the steps of SQLite keep it: `Generation.append`,
`Generation.start` and `Generation.backfill`.

`LTXFile.Recorded` stays true as well.  A new frame takes the place of a frame of an
earlier generation and never moves one.
-/

namespace Litestream

open Bytes Overlay Paged

variable {ps : PageSize} {lockPgno : UInt32 → UInt32}

/-- The frames of the current generation are those of transactions over a base. -/
structure Generation (lockPgno : UInt32 → UInt32) (file : List (Page ps)) (w : Wal ps)
    (base : Store UInt32 Bytes) (ts : List (Tx UInt32 Bytes)) : Prop where
  writes : Wal.writes w.cur = allWrites ts
  writes_ne : ∀ t ∈ ts, t.writes ≠ []
  commit : w.commit = finalSize base.size ts
  grows : Grows (LivePage lockPgno ps) base.size ts
  live : ∀ f ∈ w.cur, LivePage lockPgno ps f.pgno
  /-- The database file has every page that the generation does not write. -/
  covered : ∀ p, LivePage lockPgno ps p → p ≤ w.commit → p ∉ (Wal.writes w.cur).map Prod.fst →
    p.toNat ≤ file.length ∧ filePage file p = base.page p

/-- The transaction writes pages that the database uses, and all that it adds. -/
structure Commit.Grow (lockPgno : UInt32 → UInt32) (c : Commit ps) (n : UInt32) : Prop where
  live : ∀ w ∈ c.pages, LivePage lockPgno ps w.1
  fills : c.tx.Fills (LivePage lockPgno ps) n

theorem Commit.tx_writes_ne (c : Commit ps) : c.tx.writes ≠ [] := by
  rw [ne_eq, Commit.tx, List.map_eq_nil_iff]
  exact c.ne

theorem Commit.live_framesFrom {bo : ByteOrder} {salt : Salt} {k : Checksum} {c : Commit ps}
    (h : ∀ w ∈ c.pages, LivePage lockPgno ps w.1) :
    ∀ f ∈ Commit.framesFrom bo salt c.size k c.pages, LivePage lockPgno ps f.pgno := by
  intro f hf
  have hmem : (f.pgno, f.page.data) ∈ Wal.writes (framesFrom bo salt c.size k c.pages) :=
    List.mem_map_of_mem hf
  rw [Commit.writes_framesFrom] at hmem
  obtain ⟨w, hw, heq⟩ := List.mem_map.mp hmem
  rw [← (Prod.mk.inj heq).1]
  exact h w hw

namespace Generation

variable {file : List (Page ps)} {w : Wal ps} {base : Store UInt32 Bytes}
  {ts : List (Tx UInt32 Bytes)} {c : Commit ps}

/-- SQLite reads the base with the transactions applied. -/
theorem agree (h : Generation lockPgno file w base ts) :
    Store.Agree (LivePage lockPgno ps) (committed file (some w)) (base.applyAll ts) := by
  refine ⟨h.commit.trans Store.applyAll_size.symm, fun p hp hle => ?_⟩
  rw [Store.applyAll_page, ← h.writes]
  exact overlay_congr fun hmem => (h.covered p hp hle hmem).2

theorem append (h : Generation lockPgno file w base ts) (hc : c.Grow lockPgno w.commit) :
    Generation lockPgno file (w.append c) base (ts ++ [c.tx]) where
  writes := by rw [Wal.writes_cur_append, h.writes, allWrites_append, allWrites, allWrites,
    List.flatMap_singleton]
  writes_ne := by
    intro t ht
    rcases List.mem_append.mp ht with ht | ht
    · exact h.writes_ne t ht
    · rw [List.mem_singleton.mp ht]
      exact c.tx_writes_ne
  commit := by
    rw [Wal.commit_append, finalSize_append]
    rfl
  grows := by
    rw [grows_append, ← h.commit]
    exact ⟨h.grows, hc.fills, trivial⟩
  live := by
    intro f hf
    rcases List.mem_append.mp hf with hf | hf
    · exact h.live f hf
    · exact Commit.live_framesFrom hc.live f hf
  covered := by
    intro p hp hle hmem
    rw [Wal.commit_append] at hle
    rw [Wal.writes_cur_append, List.map_append, List.mem_append, not_or] at hmem
    refine h.covered p hp ?_ hmem.1
    by_contra hgt
    exact hmem.2 (hc.fills p hp (not_le.mp hgt) hle)

/-- A generation starts over what the database file has. -/
theorem start {header : WalHeader} {old : List (Frame ps)}
    {hold : ∀ f ∈ old, f.salt ≠ header.salt} (hfile : file.length < 2 ^ 32)
    (hc : c.Grow lockPgno (committed file none).size) :
    Generation lockPgno file (Wal.start header c old hold) (committed file none) [c.tx] where
  writes := by
    rw [Wal.writes_cur_start, allWrites, List.flatMap_singleton]
  writes_ne := by
    intro t ht
    rw [List.mem_singleton.mp ht]
    exact c.tx_writes_ne
  commit := Wal.commit_start
  grows := ⟨hc.fills, trivial⟩
  live := Commit.live_framesFrom hc.live
  covered := by
    intro p hp hle hmem
    rw [Wal.commit_start] at hle
    rw [Wal.writes_cur_start] at hmem
    refine ⟨?_, rfl⟩
    by_contra hgt
    refine hmem (hc.fills p hp ?_ hle)
    rw [UInt32.lt_iff_toNat_lt, committed, UInt32.toNat_ofNat']
    omega

/-- Transactions that have every write of the generation are all of them. -/
theorem eq_nil {us vs : List (Tx UInt32 Bytes)} (h : Generation lockPgno file w base (us ++ vs))
    (hus : allWrites us = Wal.writes w.cur) : vs = [] := by
  have hwrites := h.writes
  rw [allWrites_append, hus, List.self_eq_append_right] at hwrites
  refine List.eq_nil_iff_forall_not_mem.mpr fun t ht => ?_
  exact h.writes_ne t (List.mem_append_right _ ht) (List.flatMap_eq_nil_iff.mp hwrites t ht)

theorem ne_zero (h : Generation lockPgno file w base ts) : ∀ f ∈ w.cur, f.pgno ≠ 0 :=
  fun f hf => (h.live f hf).1

/-- Copying frames to the database file changes only pages that the generation writes. -/
theorem backfill (h : Generation lockPgno file w base ts) (k : Nat) :
    Generation lockPgno (backfill file (w.cur.take k)) w base ts where
  writes := h.writes
  writes_ne := h.writes_ne
  commit := h.commit
  grows := h.grows
  live := h.live
  covered := by
    intro p hp hle hmem
    obtain ⟨hlen, hpage⟩ := h.covered p hp hle hmem
    refine ⟨hlen.trans (le_length_backfill _ _), ?_⟩
    rw [filePage_backfill (fun f hf => h.ne_zero f (List.mem_of_mem_take hf)) hp.1 (Or.inl hlen),
      overlay_of_notMem, hpage]
    intro hmem'
    refine hmem ?_
    rw [← List.take_append_drop k w.cur, Wal.writes_append, List.map_append]
    exact List.mem_append_left _ hmem'

/-- When every frame is in the database file, it has the database. -/
theorem filePage_full (h : Generation lockPgno file w base ts) {p : UInt32}
    (hp : LivePage lockPgno ps p) (hle : p ≤ w.commit) :
    filePage (resize (Litestream.backfill file w.cur) w.commit.toNat) p =
      (committed file (some w)).page p := by
  have hmem : p.toNat ≤ file.length ∨ p ∈ (Wal.writes w.cur).map Prod.fst := by
    by_cases hmem : p ∈ (Wal.writes w.cur).map Prod.fst
    · exact Or.inr hmem
    · exact Or.inl (h.covered p hp hle hmem).1
  have hlen : p.toNat ≤ (Litestream.backfill file w.cur).length := by
    rcases hmem with hlen | hmem
    · exact hlen.trans (le_length_backfill _ _)
    · exact toNat_le_length_backfill file hmem
  rw [filePage_resize hp.1 (UInt32.le_iff_toNat_le.mp hle) hlen,
    filePage_backfill h.ne_zero hp.1 hmem]
  rfl

theorem agree_full (h : Generation lockPgno file w base ts) :
    Store.Agree (LivePage lockPgno ps)
      (committed (resize (Litestream.backfill file w.cur) w.commit.toNat) none)
      (committed file (some w)) := by
  have hsize : UInt32.ofNat (resize (Litestream.backfill file w.cur) w.commit.toNat).length =
      w.commit := by rw [length_resize, UInt32.ofNat_toNat]
  refine ⟨hsize, fun p hp hle => h.filePage_full hp ?_⟩
  rw [← hsize]
  exact hle

theorem full (h : Generation lockPgno file w base ts) :
    Generation lockPgno (resize (Litestream.backfill file w.cur) w.commit.toNat) w base ts where
  writes := h.writes
  writes_ne := h.writes_ne
  commit := h.commit
  grows := h.grows
  live := h.live
  covered := by
    intro p hp hle hmem
    refine ⟨by rw [length_resize]; exact UInt32.le_iff_toNat_le.mp hle, ?_⟩
    rw [h.filePage_full hp hle]
    exact (overlay_of_notMem hmem).trans (h.covered p hp hle hmem).2

end Generation

/-! ## Recorded ends -/

namespace LTXFile.Recorded

variable {ltx : LTXFile} {w : Wal ps} {e : Nat} {c : Commit ps}

theorem append (h : ltx.Recorded w e) : ltx.Recorded (w.append c) e where
  walEnd := h.walEnd
  pos := h.pos
  badHeader := h.badHeader
  page := by
    intro f hf hsalt
    refine h.page f ?_ hsalt
    have hlen : (w.append c).cur.length = w.cur.length + c.pages.length := Wal.length_cur_append
    have hpos := h.pos
    rw [← hf, Wal.getElem?_frames_append]
    by_cases hlt : e - 1 < (w.append c).cur.length
    · -- a frame of the current generation, so the file was read from it
      rw [Wal.frames, List.getElem?_append_left hlt] at hf
      have hcur := (w.append c).valid.salt_eq f (List.mem_of_getElem? hf)
      have hle := h.le_cur (hsalt.symm.trans hcur)
      omega
    · omega
  le_cur := by
    intro hsame
    have := h.le_cur hsame
    rw [Wal.length_cur_append]
    omega

/-- A file that was read from an earlier generation. -/
theorem start {header : WalHeader} {old : List (Frame ps)}
    {hold : ∀ f ∈ old, f.salt ≠ header.salt} (hwalEnd : ltx.walEnd = Wal.offsetOf ps e)
    (hpos : 1 ≤ e) (hbad : ltx.badHeader = false) (hsalt : ltx.salt ≠ header.salt)
    (hpage : ∀ f, old[e - 1]? = some f → f.salt = ltx.salt → (f.pgno, f.page.data) ∈ ltx.pages) :
    ltx.Recorded (Wal.start header c old hold) e where
  walEnd := hwalEnd
  pos := hpos
  badHeader := hbad
  page := by
    intro f hf hfsalt
    refine hpage f ?_ hfsalt
    have hlen : (Wal.start header c old hold).cur.length = c.pages.length := Wal.length_cur_start
    rw [← hf, Wal.getElem?_frames_start]
    by_contra hlt
    rw [Wal.frames, List.getElem?_append_left (by omega)] at hf
    have hcur := (Wal.start header c old hold).valid.salt_eq f (List.mem_of_getElem? hf)
    exact hsalt (hfsalt.symm.trans hcur)
  le_cur := fun hsame => absurd hsame hsalt

/-- A file that reaches the end of the current generation. -/
theorem of_reaches (h : ltx.Reaches w) : ltx.Recorded w w.cur.length where
  walEnd := h.walEnd
  pos := List.length_pos_iff.mpr w.cur_ne
  badHeader := h.badHeader
  page := by
    intro f hf _
    have hpos : 0 < w.cur.length := List.length_pos_iff.mpr w.cur_ne
    rw [Wal.frames, List.getElem?_append_left (by omega), ← List.getLast?_eq_getElem?,
      List.getLast?_eq_some_getLast w.cur_ne, Option.some.injEq] at hf
    rw [← hf]
    exact h.lastPage
  le_cur := fun _ => le_rfl

end LTXFile.Recorded

end Litestream
