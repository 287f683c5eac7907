import Litestream.Lib.Run
import Litestream.Vfs.Freshness
import Litestream.Vfs.Hydration
import Litestream.Vfs.Session

/-!
# Reads under a read lock

From `Lock(SHARED)` to `Unlock(NONE)` a reader is to see one database.  A poll in between leaves
the index alone, and puts its entries into the pending ones.  But `FileSize` counts the pending
entries as well, a poll writes its pages into a local file that is complete, and reads move to the
local file when it becomes complete.

`isolated_run_iff` says which polls, completions and evictions of the page cache keep every read
and the size as they were when the lock was taken.
-/

namespace Litestream

namespace Vfs

open Overlay Run

variable {ps : PageSize}

/-! ## The code -/

/-- `Hydrator.ReadAt`. -/
def Hydrator.ReadAt (random : Bytes) (off len : Nat) (h : Hydrator) : Bytes :=
  let data := h.file.readAt off len
  if off = 0 ∧ len ≥ 28 then (VFSFile.hideWAL random data).take data.length else data

/-- `VFSFile.ReadAt`, with the local file. -/
def Hydration.ReadAt (random : Bytes) (off len : Nat) (s : Hydration ps) :
    Hydration ps × Except VFSError Bytes :=
  if s.file.pageSize = 0 then (s, .error .dbNotReady)
  else if (if s.file.writeEnabled then lastWrite s.file.dirty (off / s.file.pageSize + 1)
      else none) = none ∧ s.phase.isComplete then
    (s, .ok (s.hydrator.ReadAt random off len))
  else
    ({ s with file := (s.file.ReadAt s.replica random off len).1 },
      (s.file.ReadAt s.replica random off len).2)

/-- The file when the lock was taken, and now. -/
structure Window (ps : PageSize) where
  taken : Hydration ps
  now : Hydration ps

/-- What happens between `Lock(SHARED)` and `Unlock(NONE)`.  `FileSize` changes nothing. -/
inductive WindowAction (ps : PageSize) where
  | upload (file : LTXFile ps)
  | poll
  /-- Another call of `Lock`. -/
  | lock (elock : LockType)
  /-- `runHydration` goes on. -/
  | hydrate (faults : HydrationFaults)
  | read (random : Bytes) (off len : Nat)
  /-- The page cache is full. -/
  | evict (pgno : Nat)

namespace Window

/-- The file goes on. -/
def withNow (w : Window ps) (s : Hydration ps) : Window ps := { w with now := s }

def step (w : Window ps) : WindowAction ps → Option (Window ps)
  | .upload file =>
    if h : w.now.replica.Fresh file then
      some (w.withNow { w.now with replica := w.now.replica.put file h })
    else none
  | .poll => some (w.withNow w.now.poll)
  | .lock elock =>
    some (w.withNow { w.now with file := State.orSame w.now.file (w.now.file.Lock elock) })
  | .hydrate faults => (w.now.hydrate faults).map w.withNow
  | .read random off len => some (w.withNow (w.now.ReadAt random off len).1)
  | .evict pgno =>
    some (w.withNow { w.now with
      file := { w.now.file with cache := Function.update w.now.file.cache pgno none } })

end Window

/-! ## Isolation -/

/-- The same page, but for the bytes of the header that a read rewrites. -/
def SamePage (k : Nat) (a b : Bytes) : Prop :=
  a.length = b.length ∧ ∀ i, ¬ (k = 1 ∧ i ∈ VFSFile.headerBytes) → a[i]? = b[i]?

/-- The same result of a read of the page. -/
inductive SameResult (k : Nat) : Except VFSError Bytes → Except VFSError Bytes → Prop
  | error (err : VFSError) : SameResult k (.error err) (.error err)
  | ok {a b : Bytes} (h : SamePage k a b) : SameResult k (.ok a) (.ok b)

/-- Every read of a page and the size are as they were when the lock was taken. -/
def Window.Isolated (w : Window ps) : Prop :=
  (∀ random random' k, 1 ≤ k →
    SameResult k (w.now.ReadAt random ((k - 1) * ps.size) ps.size).2
      (w.taken.ReadAt random' ((k - 1) * ps.size) ps.size).2) ∧
    w.now.file.FileSize = w.taken.file.FileSize

/-- A file that reads at the page size of the replica and has written nothing. -/
structure Reading (s : Hydration ps) : Prop where
  pageSize : s.file.pageSize = ps.size
  dirty : s.file.dirty = []
  cached : ∀ k data, s.file.cache k = some data → data.length = ps.size
  stored : ∀ k e, lastWrite s.file.index k = some e → s.replica.fetch e ≠ none

/-- The lock was just taken. -/
structure Taken (s : Hydration ps) : Prop extends Reading s where
  pending : s.file.pending = []
  lockType : LockType.shared.toNat ≤ s.file.lockType.toNat

namespace Hydration

variable (s : Hydration ps)

/-- The page in the local file. -/
def localPage (k : Nat) : Bytes := s.hydrator.file.readAt ((k - 1) * ps.size) ps.size

/-- The page that the index has. -/
def indexedPage (k : Nat) : Except VFSError Bytes :=
  match lastWrite s.file.index k with
  | none => if s.file.writeEnabled then .ok (List.replicate ps.size 0) else .error (.pageNotFound k)
  | some e =>
    match s.replica.fetch e with
    | none => .error (.fetchPage k)
    | some data => .ok data

/-- The page that a read returns, before it rewrites the header. -/
def page (k : Nat) : Except VFSError Bytes :=
  if s.phase.isComplete then .ok (s.localPage k)
  else
    match s.file.cache k with
    | some data => .ok data
    | none => s.indexedPage k

end Hydration

namespace Window

/-- A poll brings no page past the size, and into a complete local file only pages that are there.
The local file becomes complete when its pages are those that reads return.  A page that leaves the
cache is the one that the index has. -/
def KeepsAt (w : Window ps) : WindowAction ps → Prop
  | .upload _ => True
  | .poll => ∀ f, w.now.file.pollReplicaClient w.now.replica = .ok f →
      w.now.file.targetTime = none →
      (∀ k ∈ (mergeIndex (w.now.file.updatedFiles w.now.replica)).map Prod.fst,
        k * ps.size ≤ VFSFile.mapSize ps.size w.now.file.index) ∧
      (w.now.phase.isComplete → ∀ k data,
        lastWrite (mergePages (w.now.file.updatedFiles w.now.replica)) k = some data →
          SamePage k data (w.now.localPage k))
  | .lock _ => True
  | .hydrate _ => w.now.phase.isCaughtUp → ∀ k, 1 ≤ k →
      SameResult k (.ok (w.now.localPage k)) (w.now.page k)
  | .read _ _ _ => True
  | .evict k => ¬ w.now.phase.isComplete → 1 ≤ k → ∀ data, w.now.file.cache k = some data →
      SameResult k (w.now.indexedPage k) (.ok data)

/-- The reader is still isolated after the step. -/
def IsolatedAfter (w : Window ps) (a : WindowAction ps) : Prop :=
  ∀ w', w.step a = some w' → w'.Isolated

end Window

section

variable {s : Hydration ps} {w w' : Window ps} {k j n : Nat} {a b c : Bytes}
  {r r' r'' : Except VFSError Bytes} {ws : List (Nat × Page ps)} {random : Bytes}

/-! ## Results -/

theorem SamePage.refl (k : Nat) (a : Bytes) : SamePage k a a := ⟨rfl, fun _ _ => rfl⟩

theorem SamePage.symm (h : SamePage k a b) : SamePage k b a :=
  ⟨h.1.symm, fun i hi => (h.2 i hi).symm⟩

theorem SamePage.trans (h : SamePage k a b) (h' : SamePage k b c) : SamePage k a c :=
  ⟨h.1.trans h'.1, fun i hi => (h.2 i hi).trans (h'.2 i hi)⟩

theorem SameResult.refl (k : Nat) (r : Except VFSError Bytes) : SameResult k r r := by
  cases r with
  | error err => exact .error err
  | ok a => exact .ok (.refl k a)

theorem SameResult.symm (h : SameResult k r r') : SameResult k r' r := by
  cases h with
  | error err => exact .error err
  | ok h => exact .ok h.symm

theorem SameResult.trans (h : SameResult k r r') (h' : SameResult k r' r'') :
    SameResult k r r'' := by
  cases h with
  | error err => exact h'
  | ok h =>
      cases h' with
      | ok h' => exact .ok (h.trans h')

theorem sameResult_ok_iff : SameResult k (.ok a) (.ok b) ↔ SamePage k a b := by
  constructor
  · rintro ⟨⟩
    assumption
  · exact .ok

/-! ## Reads -/

theorem length_fetch {replica : Replica ps} {e : PageIndexElem} (h : replica.fetch e = some a) :
    a.length = ps.size := by
  rw [Replica.fetch, Replica.fetchPage, Option.bind_eq_some_iff] at h
  obtain ⟨file, -, h⟩ := h
  obtain ⟨frame, -, rfl⟩ := Option.map_eq_some_iff.mp h
  exact frame.page.length_data

theorem length_hideWAL {p : Bytes} (hp : 28 ≤ p.length) :
    (VFSFile.hideWAL random p).length = p.length := by
  have hversion : (p.writeAt 18 [1, 1]).length = p.length :=
    Bytes.length_writeAt_of_le (by simp; omega)
  have hrandom : (random.take 4).length ≤ 4 := by simp
  rw [VFSFile.hideWAL, Bytes.length_writeAt_of_le (by omega), hversion]

theorem present_samePage (random : Bytes) (hone : 1 ≤ k) (hdata : a.length = ps.size) :
    SameResult k (VFSFile.present random ((k - 1) * ps.size) ps.size
      ((k - 1) * ps.size % ps.size) a) (.ok a) := by
  have hsize := ps.bounds
  rw [Nat.mul_mod_left, VFSFile.present, Bytes.readAt_all hdata]
  by_cases hfirst : k = 1
  · subst hfirst
    rw [if_neg (by simp), if_neg (by omega)]
    refine .ok ⟨length_hideWAL (by omega), fun i hi => getElem?_hideWAL (by omega) fun hmem => ?_⟩
    exact hi ⟨rfl, hmem⟩
  · have hoff : (k - 1) * ps.size ≠ 0 := Nat.mul_ne_zero (by omega) (by omega)
    rw [if_pos hoff]
    exact .refl k _

theorem length_le_writeAt (b : Bytes) (off : Nat) (data : Bytes) :
    b.length ≤ (b.writeAt off data).length := by
  by_cases hdata : data = []
  · rw [hdata, Bytes.writeAt_nil]
  · rw [Bytes.writeAt_of_ne hdata, List.length_append, List.length_append, Bytes.length_truncate,
      List.length_drop]
    omega

/-- A read of the local file rewrites only bytes of the header. -/
theorem hydratorReadAt_samePage (random : Bytes) (hone : 1 ≤ k) (h : Hydrator) :
    SamePage k (h.ReadAt random ((k - 1) * ps.size) ps.size)
      (h.file.readAt ((k - 1) * ps.size) ps.size) := by
  have hsize := ps.bounds
  rw [Hydrator.ReadAt]
  split
  next hfirst =>
    have hk : k = 1 := by
      rcases Nat.mul_eq_zero.mp hfirst.1 with h | h <;> omega
    generalize h.file.readAt ((k - 1) * ps.size) ps.size = data
    have hversion := length_le_writeAt data 18 [1, 1]
    have hlength := hversion.trans (length_le_writeAt (data.writeAt 18 [1, 1]) 24 (random.take 4))
    have hrandom : (random.take 4).length ≤ 4 := by simp
    refine ⟨?_, fun i hi => ?_⟩
    · rw [List.length_take, VFSFile.hideWAL]
      exact Nat.min_eq_left hlength
    · have hmem : i ≠ 18 ∧ i ≠ 19 ∧ i ≠ 24 ∧ i ≠ 25 ∧ i ≠ 26 ∧ i ≠ 27 := by
        simpa [VFSFile.headerBytes, hk] using hi
      by_cases hlt : i < data.length
      · rw [List.getElem?_take_of_lt hlt, VFSFile.hideWAL,
          Bytes.getElem?_writeAt_of_notMem (by omega) (by omega),
          Bytes.getElem?_writeAt_of_notMem (by simp; omega) hlt]
      · rw [List.getElem?_eq_none (by rw [List.length_take]; omega),
          List.getElem?_eq_none (Nat.le_of_not_lt hlt)]
  next => exact .refl k _

theorem Reading.noWrite (h : Reading s) (pgno : Nat) :
    (if s.file.writeEnabled then lastWrite s.file.dirty pgno else none) = none := by
  rw [h.dirty, lastWrite_nil, ite_self]

/-- A read returns the page. -/
theorem Reading.readAt (h : Reading s) (random : Bytes) (hone : 1 ≤ k) :
    SameResult k (s.ReadAt random ((k - 1) * ps.size) ps.size).2 (s.page k) := by
  have hsize := ps.bounds
  have hpos : 0 < ps.size := by omega
  rw [Hydration.ReadAt, if_neg (by rw [h.pageSize]; omega), h.noWrite, Hydration.page]
  by_cases hcomplete : s.phase.isComplete = true
  · rw [if_pos ⟨rfl, hcomplete⟩, if_pos hcomplete]
    exact .ok (hydratorReadAt_samePage random hone s.hydrator)
  · rw [if_neg fun hand => hcomplete hand.2, if_neg hcomplete, VFSFile.ReadAt,
      if_neg (by rw [h.pageSize]; omega)]
    dsimp only
    rw [h.noWrite, h.pageSize, Nat.mul_div_cancel _ hpos, Nat.sub_add_cancel hone]
    dsimp only
    cases hcache : s.file.cache k with
    | some data => exact present_samePage random hone (h.cached k data hcache)
    | none =>
        dsimp only
        rw [Hydration.indexedPage]
        cases hindex : lastWrite s.file.index k with
        | none =>
            dsimp only
            split <;> exact .refl k _
        | some e =>
            dsimp only
            cases hfetch : s.replica.fetch e with
            | none => exact .refl k _
            | some data => exact present_samePage random hone (length_fetch hfetch)

theorem Reading.fileSize (h : Reading s) : s.file.FileSize =
    .ok (max (VFSFile.mapSize ps.size s.file.index) (VFSFile.mapSize ps.size s.file.pending)) := by
  have hsize := ps.bounds
  rw [VFSFile.FileSize, if_neg (by rw [h.pageSize]; omega), h.pageSize, h.dirty]
  congr 2
  exact Nat.max_eq_left (Nat.zero_le _)

/-! ## Pages of the local file -/

/-- Writes within a file leave its other bytes. -/
theorem readAt_writeAt_within {b data : Bytes} {off m n : Nat}
    (hwithin : off + data.length ≤ b.length) (h : m + n ≤ off ∨ off + data.length ≤ m) :
    (b.writeAt off data).readAt m n = b.readAt m n := by
  have hlength := Bytes.length_writeAt_of_le hwithin
  refine List.ext_getElem? fun i => ?_
  rcases Nat.lt_or_ge i n with hi | hi
  · rw [Bytes.getElem?_readAt_of_lt hi, Bytes.getElem?_readAt_of_lt hi]
    rcases Nat.lt_or_ge (m + i) b.length with hlt | hge
    · exact Bytes.getElem?_writeAt_of_notMem (by omega) hlt
    · rw [List.getElem?_eq_none hge, List.getElem?_eq_none (hlength ▸ hge)]
  · rw [List.getElem?_eq_none (by rw [Bytes.length_readAt]; omega),
      List.getElem?_eq_none (by rw [Bytes.length_readAt]; omega)]

theorem readAt_writeAt_page (page : Page ps) (i : Nat) (b : Bytes) :
    (b.writeAt (i * ps.size) page.data).readAt (i * ps.size) ps.size = page.data := by
  have hlength := page.length_data
  rw [← hlength, Bytes.readAt_writeAt_same]

theorem disjoint_pages {i : Nat} (hne : i ≠ j) :
    j * ps.size + ps.size ≤ i * ps.size ∨ i * ps.size + ps.size ≤ j * ps.size := by
  rw [← Nat.succ_mul, ← Nat.succ_mul]
  rcases Nat.lt_or_gt_of_ne hne with h | h
  · exact Or.inr (Nat.mul_le_mul_right _ h)
  · exact Or.inl (Nat.mul_le_mul_right _ h)

/-- Within the file, a page is the one that was written last or the one that was there. -/
theorem readAt_writePagesAt (hwithin : ∀ w ∈ ws, w.1 * ps.size + ps.size ≤ b.length) (j : Nat) :
    (writePagesAt ps ws b).readAt (j * ps.size) ps.size =
      ((lastWrite ws j).map Page.data).getD (b.readAt (j * ps.size) ps.size) := by
  induction ws generalizing b with
  | nil => rfl
  | cons w ws ih =>
      obtain ⟨hw, hws⟩ := List.forall_mem_cons.mp hwithin
      have hdata := w.2.length_data
      have hlength : (b.writeAt (w.1 * ps.size) w.2.data).length = b.length :=
        Bytes.length_writeAt_of_le (by rw [hdata]; exact hw)
      have hrest := ih (b := b.writeAt (w.1 * ps.size) w.2.data) fun v hv => by
        rw [hlength]
        exact hws v hv
      rw [writePagesAt, List.foldl_cons, lastWrite_cons]
      refine hrest.trans ?_
      cases lastWrite ws j with
      | some page => rfl
      | none =>
          by_cases hj : w.1 = j
          · subst hj
            simp [readAt_writeAt_page]
          · simp only [Option.map_none, Option.getD_none, Option.none_or, if_neg hj]
            exact readAt_writeAt_within (by rw [hdata]; exact hw)
              (by rw [hdata]; exact disjoint_pages hj)

/-- A page that was written has the content that was written last. -/
theorem readAt_writePagesAt_of_some {page : Page ps} (h : lastWrite ws j = some page) (b : Bytes) :
    (writePagesAt ps ws b).readAt (j * ps.size) ps.size = page.data := by
  induction ws using List.reverseRecOn with
  | nil => cases h
  | append_singleton ws w ih =>
      have hdata := w.2.length_data
      rw [lastWrite_append, lastWrite_cons, lastWrite_nil, Option.none_or] at h
      rw [writePagesAt, List.foldl_append]
      change ((writePagesAt ps ws b).writeAt (w.1 * ps.size) w.2.data).readAt _ _ = _
      by_cases hj : w.1 = j
      · rw [if_pos hj, Option.some_or, Option.some.injEq] at h
        rw [← hj, readAt_writeAt_page, h]
      · rw [if_neg hj, Option.none_or] at h
        have hpage := ih h
        have hfull : j * ps.size + ps.size ≤ (writePagesAt ps ws b).length := by
          have hlength := congrArg List.length hpage
          rw [Bytes.length_readAt, page.length_data] at hlength
          have := ps.bounds
          omega
        rw [Bytes.readAt_writeAt_of_disjoint ?_ hfull, hpage]
        rw [hdata]
        exact disjoint_pages hj

/-- The pages of the local file stay the same exactly if the ones that are written are there. -/
theorem samePages_iff (files : List (LTXFile ps)) (b : Bytes) :
    (∀ k, 1 ≤ k → SamePage k
      ((writePagesAt ps (fileWrites files) b).readAt ((k - 1) * ps.size) ps.size)
      (b.readAt ((k - 1) * ps.size) ps.size)) ↔
      ∀ k data, lastWrite (mergePages files) k = some data →
        SamePage k data (b.readAt ((k - 1) * ps.size) ps.size) := by
  have hkey : ∀ k data, lastWrite (mergePages files) k = some data → 1 ≤ k ∧
      ∃ page, lastWrite (fileWrites files) (k - 1) = some page ∧ page.data = data := by
    intro k data hdata
    obtain ⟨file, -, hmem⟩ := List.mem_flatMap.mp (mem_of_lastWrite hdata)
    have hone := (LTXFile.mem_pages_bounds (List.mem_map_of_mem hmem)).1
    refine ⟨hone, Option.map_eq_some_iff.mp ?_⟩
    rw [← lastWrite_mergePages, Nat.sub_add_cancel hone, hdata]
  constructor
  · intro h k data hdata
    obtain ⟨hone, page, hpage, rfl⟩ := hkey k data hdata
    have hk := h k hone
    rwa [readAt_writePagesAt_of_some hpage] at hk
  · intro h k hone
    have hwithin : ∀ w ∈ fileWrites files, w.1 * ps.size + ps.size ≤ b.length := by
      intro w hw
      have hmem : lastWrite (fileWrites files) w.1 ≠ none := fun hnone =>
        lastWrite_eq_none_iff.mp hnone (List.mem_map_of_mem hw)
      obtain ⟨page, hpage⟩ := Option.ne_none_iff_exists'.mp hmem
      have hdata : lastWrite (mergePages files) (w.1 + 1) = some page.data := by
        rw [lastWrite_mergePages, hpage, Option.map_some]
      have hlength := (h (w.1 + 1) page.data hdata).1
      rw [page.length_data, Nat.add_sub_cancel, Bytes.length_readAt] at hlength
      have := ps.bounds
      omega
    rw [readAt_writePagesAt hwithin]
    cases hlast : lastWrite (fileWrites files) (k - 1) with
    | none => exact .refl k _
    | some page =>
        refine h k page.data ?_
        rw [← Nat.sub_add_cancel hone, lastWrite_mergePages, hlast, Option.map_some]

/-! ## The steps of a window -/

namespace Window

/-- What every step of a window keeps. -/
structure Base (w : Window ps) : Prop where
  taken : Taken w.taken
  now : Reading w.now
  index : w.now.file.index = w.taken.file.index
  lockType : LockType.shared.toNat ≤ w.now.file.lockType.toNat

theorem Base.isolated_iff (h : w.Base) : w.Isolated ↔
    (∀ k, 1 ≤ k → SameResult k (w.now.page k) (w.taken.page k)) ∧
      VFSFile.mapSize ps.size w.now.file.pending ≤ VFSFile.mapSize ps.size w.now.file.index := by
  have hzero : VFSFile.mapSize ps.size ([] : Index) = 0 := rfl
  rw [Isolated, h.now.fileSize, h.taken.toReading.fileSize, h.taken.pending, hzero, h.index,
    Nat.max_zero, Except.ok.injEq, max_eq_left_iff]
  refine and_congr_left fun _ => ⟨fun hreads k hone => ?_, fun hpages random random' k hone => ?_⟩
  · exact ((h.now.readAt [] hone).symm.trans (hreads [] [] k hone)).trans
      (h.taken.toReading.readAt [] hone)
  · exact ((h.now.readAt random hone).trans (hpages k hone)).trans
      (h.taken.toReading.readAt random' hone).symm

/-- A step keeps the reader isolated exactly if it changes no page and the pending entries are within
the size. -/
theorem Base.isolated_withNow_iff (h : w.Base) (hi : w.Isolated) (h' : (w.withNow s).Base) :
    (w.withNow s).Isolated ↔ (∀ k, 1 ≤ k → SameResult k (s.page k) (w.now.page k)) ∧
      VFSFile.mapSize ps.size s.file.pending ≤ VFSFile.mapSize ps.size s.file.index := by
  have hpages := (h.isolated_iff.mp hi).1
  rw [h'.isolated_iff]
  refine and_congr_left fun _ => forall₂_congr fun k hone => ?_
  exact ⟨fun hk => hk.trans (hpages k hone).symm, fun hk => hk.trans (hpages k hone)⟩

/-- A step that changes neither a page nor the entries keeps the reader isolated. -/
theorem Base.isolated_of_page_eq (h : w.Base) (hi : w.Isolated) (h' : (w.withNow s).Base)
    (hpage : ∀ k, s.page k = w.now.page k) (hpending : s.file.pending = w.now.file.pending)
    (hindex : s.file.index = w.now.file.index) : (w.withNow s).Isolated := by
  refine (h.isolated_withNow_iff hi h').mpr ⟨fun k _ => hpage k ▸ .refl k _, ?_⟩
  rw [hpending, hindex]
  exact (h.isolated_iff.mp hi).2

theorem indexedPage_congr {s' : Hydration ps} (hindex : s'.file.index = s.file.index)
    (hwrite : s'.file.writeEnabled = s.file.writeEnabled)
    (hfetch : ∀ e, lastWrite s.file.index k = some e → s'.replica.fetch e = s.replica.fetch e) :
    s'.indexedPage k = s.indexedPage k := by
  rw [Hydration.indexedPage, Hydration.indexedPage, hindex, hwrite]
  cases hentry : lastWrite s.file.index k with
  | none => rfl
  | some e =>
      dsimp only
      rw [hfetch e hentry]

theorem page_congr {s' : Hydration ps} (hcomplete : s'.phase.isComplete = s.phase.isComplete)
    (hlocal : s.phase.isComplete → s'.localPage k = s.localPage k)
    (hcache : ¬ s.phase.isComplete → s'.file.cache k = s.file.cache k)
    (hindexed : s'.indexedPage k = s.indexedPage k) : s'.page k = s.page k := by
  rw [Hydration.page, Hydration.page, hcomplete]
  by_cases hc : s.phase.isComplete = true
  · rw [if_pos hc, if_pos hc, hlocal hc]
  · rw [if_neg hc, if_neg hc, hcache hc, hindexed]

/-! ### Uploads and locks -/

theorem Base.upload (h : w.Base) {file : LTXFile ps} (hfresh : w.now.replica.Fresh file) :
    (w.withNow { w.now with replica := w.now.replica.put file hfresh }).Base ∧
      (w.Isolated →
        (w.withNow { w.now with replica := w.now.replica.put file hfresh }).Isolated) := by
  have hfetch : ∀ k e, lastWrite w.now.file.index k = some e →
      (w.now.replica.put file hfresh).fetch e = w.now.replica.fetch e := fun k e he =>
    fetch_put hfresh (h.now.stored k e he)
  have hstored : ∀ k e, lastWrite w.now.file.index k = some e →
      (w.now.replica.put file hfresh).fetch e ≠ none := fun k e he =>
    (hfetch k e he).trans_ne (h.now.stored k e he)
  have hbase : (w.withNow { w.now with replica := w.now.replica.put file hfresh }).Base :=
    { h with now := ⟨h.now.pageSize, h.now.dirty, h.now.cached, hstored⟩ }
  refine ⟨hbase, fun hi => h.isolated_of_page_eq hi hbase (fun k => ?_) rfl rfl⟩
  exact page_congr rfl (fun _ => rfl) (fun _ => rfl) (indexedPage_congr rfl rfl (hfetch k))

theorem Base.lock (h : w.Base) (elock : LockType) :
    (w.withNow { w.now with file := State.orSame w.now.file (w.now.file.Lock elock) }).Base ∧
      (w.Isolated → (w.withNow { w.now with
        file := State.orSame w.now.file (w.now.file.Lock elock) }).Isolated) := by
  rcases hlock : w.now.file.Lock elock with err | f
  · exact ⟨h, id⟩
  · have hfile : ∃ inTransaction, f =
        { w.now.file with inTransaction := inTransaction, lockType := elock } ∧
          w.now.file.lockType.toNat ≤ elock.toNat := by
      rw [VFSFile.Lock] at hlock
      split_ifs at hlock with hdown hreserved hwrite
      · exact ⟨_, (Except.ok.inj hlock).symm, Nat.le_of_not_lt hdown⟩
      · exact ⟨w.now.file.inTransaction, (Except.ok.inj hlock).symm, Nat.le_of_not_lt hdown⟩
    obtain ⟨inTransaction, rfl, hle⟩ := hfile
    have hbase : (w.withNow { w.now with file := State.orSame w.now.file (.ok
        { w.now.file with inTransaction := inTransaction, lockType := elock }) }).Base :=
      { h with
        now := ⟨h.now.pageSize, h.now.dirty, h.now.cached, h.now.stored⟩
        lockType := h.lockType.trans hle }
    exact ⟨hbase, fun hi => h.isolated_of_page_eq hi hbase (fun k => rfl) rfl rfl⟩

/-! ### Reads and evictions -/

/-- A read may put the page that the index has into the cache. -/
theorem readAt_cases {f : VFSFile} {replica : Replica ps} (hdirty : f.dirty = []) (off len : Nat) :
    (f.ReadAt replica random off len).1 = f ∨ ∃ pgno e data, f.cache pgno = none ∧
      lastWrite f.index pgno = some e ∧ replica.fetch e = some data ∧
      (f.ReadAt replica random off len).1 =
        { f with cache := Function.update f.cache pgno (some data) } := by
  rw [VFSFile.ReadAt]
  split
  · exact Or.inl rfl
  have hnone : (if f.writeEnabled then lastWrite f.dirty (off / f.pageSize + 1) else none) =
      none := by
    rw [hdirty, lastWrite_nil, ite_self]
  dsimp only
  rw [hnone]
  dsimp only
  cases hcache : f.cache (off / f.pageSize + 1) with
  | some data => exact Or.inl rfl
  | none =>
      cases hindex : lastWrite f.index (off / f.pageSize + 1) with
      | none => exact Or.inl rfl
      | some e =>
          dsimp only
          cases hfetch : replica.fetch e with
          | none => exact Or.inl rfl
          | some data => exact Or.inr ⟨_, e, data, hcache, hindex, hfetch, rfl⟩

theorem Base.read (h : w.Base) (random : Bytes) (off len : Nat) :
    (w.withNow (w.now.ReadAt random off len).1).Base ∧
      (w.Isolated → (w.withNow (w.now.ReadAt random off len).1).Isolated) := by
  rw [Hydration.ReadAt, h.now.noWrite]
  split
  · exact ⟨h, id⟩
  split
  · exact ⟨h, id⟩
  dsimp only
  rcases @readAt_cases _ random w.now.file w.now.replica h.now.dirty off len with
    heq | ⟨pgno, e, data, hcache, hindex, hfetch, heq⟩
  · rw [heq]
    exact ⟨h, id⟩
  · rw [heq]
    have hcached : ∀ k d, Function.update w.now.file.cache pgno (some data) k = some d →
        d.length = ps.size := by
      intro k d hd
      rw [Function.update_apply] at hd
      split at hd
      · rw [← Option.some.inj hd]
        exact length_fetch hfetch
      · exact h.now.cached k d hd
    have hbase : (w.withNow { w.now with file := { w.now.file with
        cache := Function.update w.now.file.cache pgno (some data) } }).Base :=
      { h with now := ⟨h.now.pageSize, h.now.dirty, hcached, h.now.stored⟩ }
    have hindexed : w.now.indexedPage pgno = .ok data := by
      rw [Hydration.indexedPage, hindex]
      dsimp only
      rw [hfetch]
    refine ⟨hbase, fun hi => h.isolated_of_page_eq hi hbase (fun k => ?_) rfl rfl⟩
    rw [Hydration.page, Hydration.page]
    dsimp only
    split
    · rfl
    · by_cases hk : k = pgno
      · rw [hk, Function.update_self, hcache]
        exact hindexed.symm
      · rw [Function.update_of_ne hk]
        rfl

theorem Base.evict (h : w.Base) (pgno : Nat) :
    (w.withNow { w.now with
      file := { w.now.file with cache := Function.update w.now.file.cache pgno none } }).Base ∧
    (w.Isolated → ((w.withNow { w.now with file := { w.now.file with
      cache := Function.update w.now.file.cache pgno none } }).Isolated ↔
        w.KeepsAt (.evict pgno))) := by
  have hcached : ∀ k d, Function.update w.now.file.cache pgno none k = some d →
      d.length = ps.size := by
    intro k d hd
    rw [Function.update_apply] at hd
    split at hd
    · cases hd
    · exact h.now.cached k d hd
  have hbase : (w.withNow { w.now with file := { w.now.file with
      cache := Function.update w.now.file.cache pgno none } }).Base :=
    { h with now := ⟨h.now.pageSize, h.now.dirty, hcached, h.now.stored⟩ }
  refine ⟨hbase, fun hi => (h.isolated_withNow_iff hi hbase).trans ?_⟩
  rw [and_iff_left (h.isolated_iff.mp hi).2]
  constructor
  · intro hpages hcomplete hone data hdata
    have hk := hpages pgno hone
    rw [Hydration.page, Hydration.page] at hk
    dsimp only at hk
    rwa [if_neg hcomplete, if_neg hcomplete, Function.update_self, hdata] at hk
  · intro hkeeps k hone
    rw [Hydration.page, Hydration.page]
    dsimp only
    by_cases hcomplete : w.now.phase.isComplete = true
    · rw [if_pos hcomplete, if_pos hcomplete]
      exact .refl k _
    · rw [if_neg hcomplete, if_neg hcomplete]
      by_cases hk : k = pgno
      · subst hk
        rw [Function.update_self]
        cases hdata : w.now.file.cache k with
        | none => exact .refl k _
        | some data => exact hkeeps hcomplete hone data hdata
      · rw [Function.update_of_ne hk]
        exact .refl k _

/-! ### Hydration and polls -/

theorem Base.hydrate (h : w.Base) {faults : HydrationFaults}
    (hstep : w.now.hydrate faults = some s) : (w.withNow s).Base ∧
      (w.Isolated → ((w.withNow s).Isolated ↔ w.KeepsAt (.hydrate faults))) := by
  rcases Hydration.hydrate_cases hstep with
    ⟨hcaught, hnot, hcomplete, hreplica, hfile⟩ | ⟨hphase, rfl⟩
  · have hbase : (w.withNow s).Base :=
      { taken := h.taken
        now := ⟨hfile ▸ h.now.pageSize, hfile ▸ h.now.dirty, hfile ▸ h.now.cached,
          hfile ▸ hreplica ▸ h.now.stored⟩
        index := hfile ▸ h.index
        lockType := hfile ▸ h.lockType }
    refine ⟨hbase, fun hi => iff_of_true ?_ fun hyes => ?_⟩
    · refine h.isolated_of_page_eq hi hbase (fun k => ?_) (by rw [hfile]) (by rw [hfile])
      refine page_congr (hcomplete.trans hnot.symm) (fun hyes => ?_) (fun _ => by rw [hfile])
        (indexedPage_congr (by rw [hfile]) (by rw [hfile]) fun e _ => by rw [hreplica])
      rw [hnot] at hyes
      cases hyes
    · rw [hcaught] at hyes
      cases hyes
  · have hcached : ∀ (k : Nat) (data : Bytes), (none : Option Bytes) = some data →
        data.length = ps.size := fun k data hd => by cases hd
    have hbase : (w.withNow { w.now with
        phase := .complete, file := { w.now.file with cache := fun _ => none } }).Base :=
      { h with now := ⟨h.now.pageSize, h.now.dirty, hcached, h.now.stored⟩ }
    refine ⟨hbase, fun hi => (h.isolated_withNow_iff hi hbase).trans ?_⟩
    rw [and_iff_left (h.isolated_iff.mp hi).2]
    have hcaught : w.now.phase.isCaughtUp = true := by
      rw [hphase]
      rfl
    exact ⟨fun hpages _ => hpages, fun hkeeps => hkeeps hcaught⟩

/-- A poll under a read lock adds its entries to the pending ones. -/
theorem polled_pending {f f' : VFSFile} {replica : Replica ps} (htarget : f.targetTime = none)
    (hlock : LockType.shared.toNat ≤ f.lockType.toNat)
    (hpoll : f.pollReplicaClient replica = .ok f') :
    ∃ before, (before = [] ∨ before = f.pending) ∧
      f'.pending = before ++ mergeIndex (f.updatedFiles replica) ∧ f'.lockType = f.lockType := by
  obtain ⟨p0, p1, h0, h1, rfl⟩ := pollReplicaClient_eq_ok hpoll
  rw [VFSFile.applyPoll, if_neg (not_not.mpr htarget), ← combined_eq_mergeIndex h0 h1]
  dsimp only
  rw [if_pos hlock]
  refine ⟨_, ?_, rfl, rfl⟩
  split
  · exact Or.inl rfl
  · exact Or.inr rfl

theorem poll_of_targetTime (htarget : s.file.targetTime ≠ none) : s.poll = s := by
  rw [Hydration.poll]
  cases VFSFile.pollLevel s.replica 0 s.file.pos s.file.commit with
  | error err => rfl
  | ok p0 =>
      dsimp only
      cases VFSFile.pollLevel s.replica 1 s.file.maxTXID1
          (VFSFile.baseCommit s.file.commit p0) with
      | error err => rfl
      | ok p1 =>
          dsimp only
          rw [VFSFile.applyPoll, if_pos htarget, if_neg fun hand => htarget hand.1]

/-- The size stays as it is exactly if the entries of the poll are within it. -/
theorem Base.pending_iff (h : w.Base) (hi : w.Isolated) {f : VFSFile} {entries : Index}
    (hindex : f.index = w.now.file.index) {before : Index}
    (hbefore : before = [] ∨ before = w.now.file.pending)
    (hpending : f.pending = before ++ entries) :
    VFSFile.mapSize ps.size f.pending ≤ VFSFile.mapSize ps.size f.index ↔
      ∀ k ∈ entries.map Prod.fst, k * ps.size ≤ VFSFile.mapSize ps.size w.now.file.index := by
  have hold : ∀ k ∈ before.map Prod.fst,
      k * ps.size ≤ VFSFile.mapSize ps.size w.now.file.index := by
    rcases hbefore with rfl | rfl
    · simp
    · exact mapSize_le.mp (h.isolated_iff.mp hi).2
  rw [hindex, mapSize_le, hpending, List.map_append]
  constructor
  · exact fun hall k hk => hall k (List.mem_append_right _ hk)
  · intro hall k hk
    exact (List.mem_append.mp hk).elim (hold k) (hall k)

theorem Base.poll (h : w.Base) : (w.withNow w.now.poll).Base ∧
    (w.Isolated → ((w.withNow w.now.poll).Isolated ↔ w.KeepsAt .poll)) := by
  by_cases htarget : w.now.file.targetTime = none
  · rcases Hydration.poll_cases htarget with ⟨herr, hsame⟩ | ⟨f, hpoll, -, heq⟩
    · rw [hsame]
      exact ⟨h, fun hi => iff_of_true hi fun f hf => absurd hf (herr f)⟩
    obtain ⟨hindex, hcache⟩ := Session.polled_locked (Nat.not_lt.mpr h.lockType) hpoll
    obtain ⟨-, hsize, hwrite, hdirty, -, -⟩ := Session.polled_kept hpoll
    obtain ⟨before, hbefore, hpending, hlock⟩ := polled_pending htarget h.lockType hpoll
    have hstored : ∀ file ∈ w.now.file.updatedFiles w.now.replica, w.now.replica.Stored file :=
      fun file hfile => mem_level_of_updatedFiles hfile
    have hbase : (w.withNow w.now.poll).Base := by
      rw [heq]
      exact
        { taken := h.taken
          now := ⟨hsize.trans h.now.pageSize, hdirty.trans h.now.dirty,
            fun k data hd => h.now.cached k data ((congrFun hcache k).symm.trans hd),
            fun k e he => h.now.stored k e ((congrArg (lastWrite · k) hindex).symm.trans he)⟩
          index := hindex.trans h.index
          lockType := h.lockType.trans_eq (congrArg LockType.toNat hlock).symm }
    refine ⟨hbase, fun hi => (h.isolated_withNow_iff hi hbase).trans ?_⟩
    have hkeeps : w.KeepsAt .poll ↔
        (∀ k ∈ (mergeIndex (w.now.file.updatedFiles w.now.replica)).map Prod.fst,
          k * ps.size ≤ VFSFile.mapSize ps.size w.now.file.index) ∧
        (w.now.phase.isComplete → ∀ k data,
          lastWrite (mergePages (w.now.file.updatedFiles w.now.replica)) k = some data →
            SamePage k data (w.now.localPage k)) :=
      ⟨fun hall => hall f hpoll htarget, fun hboth _ _ _ => hboth⟩
    rw [hkeeps, heq]
    dsimp only
    rw [h.pending_iff hi hindex hbefore hpending, and_comm]
    refine and_congr_right fun _ => ?_
    by_cases hcomplete : w.now.phase.isComplete = true
    · rw [if_pos hcomplete, applyUpdates_eq hstored]
      refine Iff.trans ?_ (imp_iff_right hcomplete).symm
      refine Iff.trans ?_ (samePages_iff _ _)
      refine forall₂_congr fun k _ => ?_
      rw [Hydration.page, Hydration.page]
      dsimp only
      rw [if_pos hcomplete, if_pos hcomplete]
      exact sameResult_ok_iff
    · rw [if_neg hcomplete]
      refine iff_of_true (fun k _ => ?_) fun hyes => absurd hyes hcomplete
      have hpage : Hydration.page { w.now with file := f } k = w.now.page k :=
        page_congr rfl (fun _ => rfl) (fun _ => congrFun hcache k)
          (indexedPage_congr hindex hwrite fun _ _ => rfl)
      exact hpage ▸ .refl k _
  · rw [poll_of_targetTime htarget]
    exact ⟨h, fun hi => iff_of_true hi fun f _ hnone => absurd hnone htarget⟩

/-! ## Runs -/

theorem Base.step (h : w.Base) {a : WindowAction ps} (hstep : w.step a = some w') : w'.Base := by
  cases a with
  | upload file =>
      rw [Window.step] at hstep
      split at hstep
      next hfresh =>
        obtain rfl := Option.some.inj hstep
        exact (h.upload hfresh).1
      next => cases hstep
  | poll =>
      obtain rfl := Option.some.inj hstep
      exact h.poll.1
  | lock elock =>
      obtain rfl := Option.some.inj hstep
      exact (h.lock elock).1
  | hydrate faults =>
      obtain ⟨s, hs, rfl⟩ := Option.map_eq_some_iff.mp hstep
      exact (h.hydrate hs).1
  | read random off len =>
      obtain rfl := Option.some.inj hstep
      exact (h.read random off len).1
  | evict pgno =>
      obtain rfl := Option.some.inj hstep
      exact (h.evict pgno).1

/-- A step keeps the reader isolated exactly if it meets the condition. -/
theorem Base.isolatedAfter_iff (h : w.Base) (hi : w.Isolated) (a : WindowAction ps) :
    w.IsolatedAfter a ↔ w.KeepsAt a := by
  cases a with
  | upload file =>
      refine iff_of_true (fun w' hstep => ?_) trivial
      rw [Window.step] at hstep
      split at hstep
      next hfresh =>
        obtain rfl := Option.some.inj hstep
        exact (h.upload hfresh).2 hi
      next => cases hstep
  | poll =>
      rw [← h.poll.2 hi]
      exact ⟨fun hafter => hafter _ rfl, fun hpoll w' hstep => Option.some.inj hstep ▸ hpoll⟩
  | lock elock =>
      refine iff_of_true (fun w' hstep => ?_) trivial
      obtain rfl := Option.some.inj hstep
      exact (h.lock elock).2 hi
  | hydrate faults =>
      cases hs : w.now.hydrate faults with
      | none =>
          refine iff_of_true (fun w' hstep => ?_) fun hcaught => ?_
          · rw [Window.step, hs] at hstep
            cases hstep
          · rw [Hydration.hydrate] at hs
            cases hphase : w.now.phase with
            | caughtUp =>
                rw [hphase] at hs
                cases hs
            | started | sampled _ | restored _ | catchingUp _ _ | complete | failed =>
                rw [hphase] at hcaught
                cases hcaught
      | some s =>
          have hnow : w.step (.hydrate faults) = some (w.withNow s) := by
            rw [Window.step, hs]
            rfl
          rw [← (h.hydrate hs).2 hi]
          exact ⟨fun hafter => hafter _ hnow,
            fun hyes w' hstep => Option.some.inj (hnow.symm.trans hstep) ▸ hyes⟩
  | read random off len =>
      refine iff_of_true (fun w' hstep => ?_) trivial
      obtain rfl := Option.some.inj hstep
      exact (h.read random off len).2 hi
  | evict pgno =>
      rw [← (h.evict pgno).2 hi]
      exact ⟨fun hafter => hafter _ rfl, fun hevict w' hstep => Option.some.inj hstep ▸ hevict⟩

/-- The reader is isolated when the lock is taken. -/
theorem base_taken (h : Taken s) : Base ⟨s, s⟩ where
  taken := h
  now := h.toReading
  index := rfl
  lockType := h.lockType

theorem isolated_taken (h : Taken s) : Isolated ⟨s, s⟩ := by
  refine (base_taken h).isolated_iff.mpr ⟨fun k _ => .refl k _, ?_⟩
  dsimp only
  rw [h.pending]
  exact Nat.zero_le _

/-- From the moment a read lock is taken, every read of a page and the size stay what they were in
every state of a run, if and only if every step of the run meets the condition. -/
theorem isolated_run_iff (h : Taken s) (as : List (WindowAction ps)) :
    Along Window.step IsolatedAfter ⟨s, s⟩ as ↔ Along Window.step KeepsAt ⟨s, s⟩ as :=
  along_congr (I := fun w => w.Base ∧ w.Isolated)
    (fun hI hafter hstep => ⟨hI.1.step hstep, hafter _ hstep⟩)
    (fun hI => hI.1.isolatedAfter_iff hI.2 _) ⟨base_taken h, isolated_taken h⟩

end Window

end

/-! ## A poll that brings a page past the size -/

namespace OnePage

/-- The file that was opened on the snapshot, under a read lock. -/
def reader : Hydration PageSize.min :=
  { hydration with file := { hydration.file with lockType := .shared } }

theorem reader_taken : Taken reader where
  pageSize := rfl
  dirty := rfl
  cached k data hdata := by cases hdata
  stored k e he := by
    have hmem : (k, e) ∈ FetchPageIndex (snapshot 1) := by
      simpa [reader, hydration, VFSFile.rebuildIndex, mergeIndex] using mem_of_lastWrite he
    obtain ⟨frame, hframe, heq⟩ := List.mem_map.mp hmem
    obtain ⟨rfl, rfl⟩ := Prod.mk.inj heq
    have hstored : (replica 1).Stored (snapshot 1) := stored 1 _ List.mem_cons_self
    exact (hstored.fetch_elem hframe).trans_ne (Option.some_ne_none _)
  pending := rfl
  lockType := le_rfl

/-- The third transaction adds a page. -/
def grown : LTXFile PageSize.min where
  info := ⟨0, 3, 3, 100, 3⟩
  commit := 2
  frames := [⟨2, 0, 1, page 3⟩]
  valid := by decide
  pgnos_nodup := by decide
  offsets_nodup := by decide
  bounds := by simp

end OnePage

open OnePage in
theorem isolated_run_iff_poll :
    Along Window.step Window.IsolatedAfter ⟨reader, reader⟩ [.poll] ↔
      Along Window.step Window.KeepsAt ⟨reader, reader⟩ [.poll] :=
  Window.isolated_run_iff reader_taken [.poll]

open OnePage in
/-- The size counts the page that waits for the end of the lock. -/
theorem size_moves : ¬ ∀ (s : Hydration PageSize.min) (as : List (WindowAction PageSize.min))
    (w : Window PageSize.min), Taken s → run Window.step ⟨s, s⟩ as = some w → w.Isolated := by
  intro hclaim
  have hany : (run Window.step ⟨reader, reader⟩ [.upload grown, .poll]).any (fun w =>
      w.now.file.FileSize = .ok 1024 ∧ w.taken.file.FileSize = .ok 512) = true := by
    decide +kernel
  rw [Option.any_eq_true] at hany
  obtain ⟨w, hw, hany⟩ := hany
  obtain ⟨hnow, htaken⟩ := of_decide_eq_true hany
  have hsize := (hclaim reader _ w reader_taken hw).2
  rw [hnow, htaken] at hsize
  exact absurd hsize (by decide)

end Vfs

end Litestream
