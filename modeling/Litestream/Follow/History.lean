import Litestream.Lib.Delta
import Litestream.Follow.Effect
import Litestream.Wal.Image

/-!
# Following a history of databases

A file is faithful to a history of databases when it has every page that changed in its range
of transactions, as of the end of the range, and the page count there.  Applying a faithful
file is a delta of the history (`Faithful.applies`), and each of its operations is a part of
one (`Faithful.touches`).

The follower rewrites some bytes of the header, so two databases are compared at the other
bytes, which are the cells of the history.
-/

namespace Litestream

open Bytes FileOp

variable {ps : PageSize}

/-! ## Databases -/

/-- A database file.  It has whole pages, and at least one. -/
structure Database (ps : PageSize) where
  bytes : Bytes
  count : Nat
  length_bytes : bytes.length = count * ps.size
  count_pos : 0 < count

/-- A page by its number. -/
def Database.page (d : Database ps) (k : Nat) : Bytes := d.bytes.readAt ((k - 1) * ps.size) ps.size

/-- The header bytes that the follower rewrites. -/
def rewritten : List Nat := [18, 19, 24, 25, 26, 27]

/-- Two database files agree but for the rewritten bytes. -/
def SameDatabase (f g : Bytes) : Prop :=
  f.length = g.length ∧ ∀ i, i ∉ rewritten → f[i]? = g[i]?

/-- The positions of the bytes that are not rewritten. -/
abbrev Kept := {i : Nat // i ∉ rewritten}

/-- What a file has at these positions. -/
def view (f : Bytes) (i : Kept) : Option UInt8 := f[i.val]?

/-- The number of the page that a position is in. -/
def pageOf (ps : PageSize) (i : Kept) : Nat := i.val / ps.size + 1

theorem SameDatabase.view_eq {f g : Bytes} (h : SameDatabase f g) : view f = view g :=
  funext fun i => h.2 i.val i.property

theorem not_rewritten {i : Nat} (h : 28 ≤ i) : i ∉ rewritten := by
  simp only [rewritten, List.mem_cons, List.not_mem_nil, or_false]
  omega

/-- The bytes that are not rewritten include the last one, so they tell the size. -/
theorem sameDatabase_of_view {f : Bytes} {d : Database ps} (h : view f = view d.bytes) :
    SameDatabase f d.bytes := by
  have hview : ∀ i, i ∉ rewritten → f[i]? = d.bytes[i]? := fun i hi => congrFun h ⟨i, hi⟩
  refine ⟨?_, hview⟩
  have hlen : 512 ≤ d.bytes.length := by
    rw [d.length_bytes]
    exact ps.bounds.1.trans (Nat.le_mul_of_pos_left _ d.count_pos)
  have hend := hview d.bytes.length (not_rewritten (by omega))
  rw [List.getElem?_eq_none le_rfl, List.getElem?_eq_none_iff] at hend
  have hlast := hview (d.bytes.length - 1) (not_rewritten (by omega))
  have hlt : ¬ f.length ≤ d.bytes.length - 1 := by
    intro hle
    rw [List.getElem?_eq_none hle] at hlast
    have := List.getElem?_eq_none_iff.mp hlast.symm
    omega
  omega

theorem view_ne_none {d : Database ps} {i : Kept} :
    view d.bytes i ≠ none ↔ pageOf ps i ≤ d.count := by
  have hpos : 0 < ps.size := by have := ps.bounds.1; omega
  rw [view, ne_eq, List.getElem?_eq_none_iff, d.length_bytes, not_le, pageOf, Nat.add_one_le_iff,
    Nat.div_lt_iff_lt_mul hpos]

theorem getElem?_page (d : Database ps) {i k : Nat} (hk : i / ps.size + 1 = k) :
    (d.page k)[i - (k - 1) * ps.size]? = d.bytes[i]? := by
  have hpos : 0 < ps.size := by have := ps.bounds.1; omega
  subst hk
  have hle : i / ps.size * ps.size ≤ i := Nat.div_mul_le_self i ps.size
  have hlt : i < i / ps.size * ps.size + ps.size := Nat.lt_div_mul_add hpos
  rw [Database.page, readAt, Nat.add_sub_cancel, List.getElem?_take_of_lt (by omega),
    List.getElem?_drop]
  congr 1
  omega

/-! ## Histories -/

/-- The page was added at `t`, or it has other content. -/
def ChangedPage (S : Nat → Database ps) (t k : Nat) : Prop :=
  k ≤ (S t).count ∧ ((S (t - 1)).count < k ∨ (S (t - 1)).page k ≠ (S t).page k)

/-- What the bytes of a history are that are not rewritten. -/
abbrev cells (S : Nat → Database ps) (t : Nat) : Kept → Option UInt8 := view (S t).bytes

theorem ChangedPage.of_cells {S : Nat → Database ps} {t k : Nat}
    (h : Delta.Changed (cells S) (pageOf ps) t k) : ChangedPage S t k := by
  obtain ⟨i, rfl, hlive, hne⟩ := h
  refine ⟨view_ne_none.mp hlive, ?_⟩
  by_contra hsame
  rw [not_or, not_not] at hsame
  refine hne ?_
  show (S (t - 1)).bytes[i.val]? = (S t).bytes[i.val]?
  rw [← getElem?_page (S (t - 1)) rfl, ← getElem?_page (S t) rfl]
  exact congrArg (fun b : Bytes => b[i.val - (pageOf ps i - 1) * ps.size]?) hsame.2

/-- The stored file has the pages that changed in its range, as of the end of the range.  It
may have other pages as of the end. -/
structure Faithful (S : Nat → Database ps) (info : FileInfo) (x : LTXStream ps.size) : Prop where
  commit : ∀ commit, x.header = .ok commit → commit.toNat = (S info.maxTXID).count
  sound : ∀ p ∈ x.pages, p.pgno ≠ 0 ∧ p.pgno.toNat ≤ (S info.maxTXID).count ∧
    p.data = (S info.maxTXID).page p.pgno.toNat
  complete : x.decodeErr = none → ∀ t k, info.minTXID ≤ t → t ≤ info.maxTXID →
    ChangedPage S t k → k ≤ (S info.maxTXID).count → ∃ p ∈ x.pages, p.pgno.toNat = k

/-! ## The operations of a faithful file -/

theorem length_written (p : PageRead ps.size) : p.written.length = ps.size := by
  have hlen := p.length_data
  unfold PageRead.written
  split
  · next h =>
      have h18 : (p.data.writeAt 18 [1, 1]).length = p.data.length :=
        length_writeAt_of_le (by simp only [List.length_cons, List.length_nil]; omega)
      rw [length_writeAt_of_le (by rw [p.length_random, h18]; exact h.2), h18, hlen]
  · exact hlen

/-- Rewriting the header of a page leaves the other bytes. -/
theorem getElem?_written (p : PageRead ps.size) {j : Nat} (hj : j ∉ rewritten)
    (hlt : j < ps.size) : p.written[j]? = p.data[j]? := by
  have hlen := p.length_data
  unfold PageRead.written
  split
  · simp only [rewritten, List.mem_cons, List.not_mem_nil, or_false, not_or] at hj
    have h18 : (p.data.writeAt 18 [1, 1]).length = p.data.length :=
      length_writeAt_of_le (by simp only [List.length_cons, List.length_nil]; omega)
    rw [getElem?_writeAt_of_notMem (by rw [p.length_random]; omega) (by omega),
      getElem?_writeAt_of_notMem (by simp only [List.length_cons, List.length_nil]; omega)
        (by omega)]
  · rfl

variable {S : Nat → Database ps} {info : FileInfo} {x : LTXStream ps.size}

/-- Writing a page that a faithful file has. -/
theorem Faithful.writes (h : Faithful S info x) {p : PageRead ps.size} (hp : p ∈ x.pages)
    (f : Bytes) : Delta.Writes (cells S) (pageOf ps) info.maxTXID [p.pgno.toNat] (view f)
      (view (f.writeAt p.offset p.written)) := by
  have hpos : 0 < ps.size := by have := ps.bounds.1; omega
  obtain ⟨hne, hle, hdata⟩ := h.sound p hp
  have hne' : p.pgno.toNat ≠ 0 := fun h0 => hne (UInt32.toNat_inj.mp h0)
  have hoff : p.offset = (p.pgno.toNat - 1) * ps.size := by
    rw [PageRead.offset, UInt32.toNat_sub_of_le _ _ (by
      rw [UInt32.le_iff_toNat_le]; exact Nat.one_le_iff_ne_zero.mpr hne')]
    rfl
  intro i
  rw [List.mem_singleton]
  constructor
  · intro hi
    have hk : i.val / ps.size = p.pgno.toNat - 1 := by rw [← hi, pageOf, Nat.add_sub_cancel]
    have hmul : p.offset ≤ i.val ∧ i.val < p.offset + ps.size := by
      rw [hoff, ← hk]
      exact ⟨Nat.div_mul_le_self _ _, Nat.lt_div_mul_add hpos⟩
    show (f.writeAt p.offset p.written)[i.val]? = (S info.maxTXID).bytes[i.val]?
    rw [getElem?_writeAt_of_mem hmul.1 (by rw [length_written]; exact hmul.2),
      ← getElem?_page (S info.maxTXID) hi, ← hdata, ← hoff]
    by_cases h1 : p.pgno = 1
    · have h0 : p.offset = 0 := by rw [hoff, h1]; simp
      rw [h0, Nat.sub_zero]
      exact getElem?_written p i.property (by omega)
    · rw [PageRead.written, if_neg fun h => h1 h.1]
  · intro hi hlive
    refine getElem?_writeAt_of_notMem ?_ ?_
    · rw [length_written, hoff]
      by_contra hin
      rw [not_or, not_lt, not_le] at hin
      refine hi ?_
      have : i.val / ps.size = p.pgno.toNat - 1 := by
        refine Nat.div_eq_of_lt_le hin.1 ?_
        rw [Nat.add_mul, Nat.one_mul]
        exact hin.2
      rw [pageOf]
      omega
    · exact not_le.mp fun hle => hlive (List.getElem?_eq_none hle)

theorem cuts_truncate (d : Database ps) {t : Nat} (hd : S t = d) (f : Bytes) :
    Delta.Cuts (cells S) t (view f) (view (f.truncate (d.count * ps.size))) := by
  subst hd
  intro i
  constructor
  · intro hdead
    have hle := List.getElem?_eq_none_iff.mp hdead
    rw [(S t).length_bytes] at hle
    exact getElem?_truncate_of_le hle
  · intro hlive hf
    have hi := not_le.mp fun hle => hlive (List.getElem?_eq_none hle)
    rw [(S t).length_bytes] at hi
    exact getElem?_truncate_of_lt hi (not_le.mp fun hle => hf (List.getElem?_eq_none hle))

end Litestream
