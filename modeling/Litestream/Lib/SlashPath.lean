import Mathlib
import Litestream.Lib.Bytes

/-!
# Slash-separated paths

A path is a byte string, and its segments are what stands between slashes.  `clean` drops empty
segments and dots and resolves double dots as far as it can.  `join` cleans the non-empty elements
with slashes between them.

A local path is clean and leads downwards.  It is the normal segments that it consists of
(`Local.exists_segments`), so a base joined with local paths keeps them apart
(`join_injective`).
-/

namespace SlashPath

open Bytes

/-! ## Cleaning -/

def slash : UInt8 := 0x2f

def dot : Bytes := [0x2e]

def dotDot : Bytes := [0x2e, 0x2e]

/-- What stands between the slashes. -/
def segments (p : Bytes) : List Bytes := p.splitOn slash

/-- The segments with slashes between them. -/
def unsplit (segs : List Bytes) : Bytes := [slash].intercalate segs

/-- A path from the root on. -/
def rooted (p : Bytes) : Bool := p.head? = some slash

/-- Goes up from the segments read so far, the last of them first. -/
def pushUp (root : Bool) : List Bytes → List Bytes
  | [] => if root then [] else [dotDot]
  | top :: rest => if top = dotDot then dotDot :: top :: rest else rest

/-- Adds a segment to those read so far. -/
def push (root : Bool) (stack : List Bytes) (seg : Bytes) : List Bytes :=
  if seg = [] ∨ seg = dot then stack
  else if seg = dotDot then pushUp root stack
  else seg :: stack

/-- The segments of the cleaned path. -/
def resolve (p : Bytes) : List Bytes := ((segments p).foldl (push (rooted p)) []).reverse

/-- The root of a path, if it has one. -/
def rootOf (p : Bytes) : Bytes := if rooted p then [slash] else []

/-- The shortest path with the same meaning. -/
def clean (p : Bytes) : Bytes :=
  if rootOf p ++ unsplit (resolve p) = [] then dot else rootOf p ++ unsplit (resolve p)

/-- Joins elements, without the empty ones at the start. -/
def join (elems : List Bytes) : Bytes :=
  match elems.dropWhile (· = []) with
  | [] => []
  | elem :: elems => clean (unsplit (elem :: elems))

/-- Splits a path behind its last slash. -/
def split (p : Bytes) : Bytes × Bytes :=
  (p.rdropWhile (· ≠ slash), p.rtakeWhile (· ≠ slash))

/-- Removes a leading slash. -/
def trimSlash (p : Bytes) : Bytes := if rooted p then p.tail else p

/-! ## Segments -/

/-- A segment that stays when a path is cleaned. -/
structure Normal (seg : Bytes) : Prop where
  ne_nil : seg ≠ []
  ne_dot : seg ≠ dot
  ne_dotDot : seg ≠ dotDot
  slash_notMem : slash ∉ seg

variable {p base seg : Bytes} {segs segs' stack : List Bytes} {root : Bool}

theorem unsplit_segments (p : Bytes) : unsplit (segments p) = p := List.intercalate_splitOn slash

theorem segments_unsplit (h : ∀ seg ∈ segs, slash ∉ seg) (hne : segs ≠ []) :
    segments (unsplit segs) = segs := List.splitOn_intercalate slash h hne

theorem segments_append (p q : Bytes) :
    segments (p ++ slash :: q) = segments p ++ segments q := List.splitOn_append_cons_self p q

theorem slash_notMem_of_mem_segments (h : seg ∈ segments p) : slash ∉ seg := by
  induction p generalizing seg with
  | nil =>
      obtain rfl : seg = [] := by simpa [segments] using h
      exact List.not_mem_nil
  | cons b p ih =>
      rw [segments, List.splitOn_cons_eq_if_modifyHead] at h
      split at h
      · rcases List.mem_cons.mp h with rfl | h
        · exact List.not_mem_nil
        · exact ih h
      next hb =>
        obtain ⟨first, rest, hsplit⟩ := List.exists_cons_of_ne_nil (List.splitOn_ne_nil slash p)
        rw [hsplit, List.modifyHead_cons] at h
        rcases List.mem_cons.mp h with rfl | h
        · have hfirst : slash ∉ first := ih (by rw [segments, hsplit]; exact List.mem_cons_self)
          simp only [List.mem_cons, not_or]
          exact ⟨fun heq => hb (by simp [heq]), hfirst⟩
        · exact ih (by rw [segments, hsplit]; exact List.mem_cons_of_mem _ h)

theorem unsplit_singleton (seg : Bytes) : unsplit [seg] = seg := List.intercalate_singleton

theorem unsplit_append (hne : segs ≠ []) (hne' : segs' ≠ []) :
    unsplit (segs ++ segs') = unsplit segs ++ slash :: unsplit segs' := by
  induction segs with
  | nil => exact absurd rfl hne
  | cons seg segs ih =>
      rw [List.cons_append, unsplit, List.intercalate_cons_of_ne_nil (by simp [hne']), unsplit]
      cases segs with
      | nil => simp [unsplit]
      | cons first segs =>
          rw [List.intercalate_cons_of_ne_nil (List.cons_ne_nil _ _)]
          have hrest := ih (List.cons_ne_nil _ _)
          simp only [unsplit] at hrest ⊢
          rw [hrest]
          simp only [List.append_assoc]

theorem rooted_append (h : base ≠ []) (p : Bytes) : rooted (base ++ p) = rooted base := by
  cases base with
  | nil => exact absurd rfl h
  | cons b base => rfl

/-! ## Pushing segments -/

theorem push_normal (h : Normal seg) : push root stack seg = seg :: stack := by
  rw [push, if_neg (by simp [h.ne_nil, h.ne_dot]), if_neg h.ne_dotDot]

theorem push_nil : push root stack [] = stack := if_pos (Or.inl rfl)

theorem foldl_push_normal (h : ∀ seg ∈ segs, Normal seg) :
    segs.foldl (push root) stack = segs.reverse ++ stack := by
  induction segs generalizing stack with
  | nil => rfl
  | cons seg segs ih =>
      rw [List.foldl_cons, push_normal (h seg List.mem_cons_self),
        ih fun seg' hseg' => h seg' (List.mem_cons_of_mem _ hseg')]
      simp

theorem mem_pushUp (h : seg ∈ pushUp root stack) : seg ∈ stack ∨ seg = dotDot := by
  cases stack with
  | nil =>
      rw [pushUp] at h
      split at h
      · cases h
      · exact Or.inr (List.mem_singleton.mp h)
  | cons top rest =>
      rw [pushUp] at h
      split at h
      · rcases List.mem_cons.mp h with heq | hmem
        · exact Or.inr heq
        · exact Or.inl hmem
      · exact Or.inl (List.mem_cons_of_mem _ h)

/-- Segments of the stack are segments of the path, or double dots. -/
theorem mem_foldl_push (h : seg ∈ segs.foldl (push root) stack) :
    (seg ∈ segs ∧ seg ≠ []) ∨ seg ∈ stack ∨ seg = dotDot := by
  induction segs generalizing stack with
  | nil => exact Or.inr (Or.inl h)
  | cons first segs ih =>
      rcases ih h with ⟨hmem, hne⟩ | hmem | heq
      · exact Or.inl ⟨List.mem_cons_of_mem _ hmem, hne⟩
      · rw [push] at hmem
        split at hmem
        · exact Or.inr (Or.inl hmem)
        next hkeep =>
          split at hmem
          · exact Or.inr (mem_pushUp hmem)
          · rcases List.mem_cons.mp hmem with rfl | hmem
            · exact Or.inl ⟨List.mem_cons_self, fun hnil => hkeep (Or.inl hnil)⟩
            · exact Or.inr (Or.inl hmem)
      · exact Or.inr (Or.inr heq)

/-- The segments of a cleaned path are not empty and have no slashes. -/
theorem mem_resolve (h : seg ∈ resolve p) : seg ≠ [] ∧ slash ∉ seg := by
  rcases mem_foldl_push (List.mem_reverse.mp h) with ⟨hmem, hne⟩ | hmem | rfl
  · exact ⟨hne, slash_notMem_of_mem_segments hmem⟩
  · cases hmem
  · decide

/-! ## Local paths -/

/-- A clean path that is not rooted and leads downwards. -/
structure Local (p : Bytes) : Prop where
  clean_eq : clean p = p
  rooted_eq : rooted p = false
  ne_dot : p ≠ dot
  not_up : ¬ dotDot <+: p

/-- Without a root the stack is normal segments on top of double dots. -/
def Stacked (stack : List Bytes) : Prop :=
  ∃ n segs, stack = segs ++ List.replicate n dotDot ∧ ∀ seg ∈ segs, Normal seg

theorem Stacked.push (h : Stacked stack) (hseg : slash ∉ seg) :
    Stacked (push false stack seg) := by
  obtain ⟨n, segs, rfl, hsegs⟩ := h
  rw [SlashPath.push]
  split
  · exact ⟨n, segs, rfl, hsegs⟩
  next hkeep =>
    rw [not_or] at hkeep
    split
    · cases segs with
      | nil =>
          cases n with
          | zero => exact ⟨1, [], rfl, by simp⟩
          | succ n => exact ⟨n + 2, [], rfl, by simp⟩
      | cons top segs =>
          rw [List.cons_append, pushUp, if_neg (hsegs top List.mem_cons_self).ne_dotDot]
          exact ⟨n, segs, rfl, fun seg hseg => hsegs seg (List.mem_cons_of_mem _ hseg)⟩
    next hup =>
      refine ⟨n, seg :: segs, rfl, fun seg' hseg' => ?_⟩
      rcases List.mem_cons.mp hseg' with rfl | hmem
      · exact ⟨hkeep.1, hkeep.2, hup, hseg⟩
      · exact hsegs seg' hmem

theorem Stacked.foldl (h : Stacked stack) (hsegs : ∀ seg ∈ segs, slash ∉ seg) :
    Stacked (segs.foldl (SlashPath.push false) stack) := by
  induction segs generalizing stack with
  | nil => exact h
  | cons seg segs ih =>
      exact ih (h.push (hsegs seg List.mem_cons_self))
        fun seg' hseg' => hsegs seg' (List.mem_cons_of_mem _ hseg')

/-- A local path is its normal segments. -/
theorem Local.exists_segments (h : Local p) :
    ∃ segs, segs ≠ [] ∧ (∀ seg ∈ segs, Normal seg) ∧ p = unsplit segs := by
  have hstacked : Stacked ((segments p).foldl (push false) []) :=
    Stacked.foldl ⟨0, [], rfl, by simp⟩ fun seg hseg => slash_notMem_of_mem_segments hseg
  obtain ⟨n, segs, hstack, hsegs⟩ := hstacked
  have hresolve : resolve p = List.replicate n dotDot ++ segs.reverse := by
    rw [resolve, h.rooted_eq, hstack, List.reverse_append, List.reverse_replicate]
  have hclean := h.clean_eq
  simp only [clean, rootOf, h.rooted_eq, Bool.false_eq_true, if_false, List.nil_append] at hclean
  split at hclean
  · exact absurd hclean.symm h.ne_dot
  next hne =>
    cases n with
    | zero =>
        rw [hresolve, List.replicate_zero, List.nil_append] at hclean hne
        refine ⟨segs.reverse, fun hnil => hne (by rw [hnil]; rfl), fun seg hseg => ?_,
          hclean.symm⟩
        exact hsegs seg (List.mem_reverse.mp hseg)
    | succ n =>
        refine absurd ?_ h.not_up
        rw [← hclean, hresolve, List.replicate_succ, List.cons_append]
        cases hrest : List.replicate n dotDot ++ segs.reverse with
        | nil =>
            rw [unsplit_singleton]
        | cons first rest =>
            rw [unsplit, List.intercalate_cons_cons]
            exact ⟨_, (List.append_assoc _ _ _).symm⟩

/-! ## Joining -/

theorem segments_nil : segments [] = [[]] := rfl

theorem resolve_nil : resolve [] = [] := by
  rw [resolve, segments_nil, List.foldl_cons, push_nil]
  rfl

/-- Segments with a normal one are not nothing. -/
theorem unsplit_ne_nil (h : ∀ seg ∈ segs, slash ∉ seg) (hseg : seg ∈ segs) (hne : seg ≠ []) :
    unsplit segs ≠ [] := by
  intro hnil
  have hsegs := segments_unsplit h (List.ne_nil_of_mem hseg)
  rw [hnil, segments_nil] at hsegs
  rw [← hsegs] at hseg
  exact hne (List.mem_singleton.mp hseg)

theorem rooted_unsplit (h : ∀ seg ∈ segs, seg ≠ [] ∧ slash ∉ seg) :
    rooted (unsplit segs) = false := by
  cases segs with
  | nil => rfl
  | cons first rest =>
      obtain ⟨hfirst, hslash⟩ := h first List.mem_cons_self
      obtain ⟨b, first, rfl⟩ := List.exists_cons_of_ne_nil hfirst
      have hb : b ≠ slash := fun heq => hslash (by simp [heq])
      have hhead : (unsplit ((b :: first) :: rest)).head? = some b := by
        cases rest with
        | nil => simp [unsplit]
        | cons second rest =>
            rw [unsplit, List.intercalate_cons_cons]
            rfl
      rw [rooted, hhead]
      simpa using hb

theorem mem_append_normal {front : List Bytes} (hfront : ∀ seg ∈ front, seg ≠ [] ∧ slash ∉ seg)
    (hsegs : ∀ seg ∈ segs, Normal seg) : ∀ seg ∈ front ++ segs, seg ≠ [] ∧ slash ∉ seg := by
  intro seg hseg
  rcases List.mem_append.mp hseg with hseg | hseg
  · exact hfront seg hseg
  · exact ⟨(hsegs seg hseg).ne_nil, (hsegs seg hseg).slash_notMem⟩

theorem rooted_unsplit_normal (h : ∀ seg ∈ segs, Normal seg) : rooted (unsplit segs) = false :=
  rooted_unsplit fun seg hseg => ⟨(h seg hseg).ne_nil, (h seg hseg).slash_notMem⟩

/-- A path that goes on from a base with normal segments is what remains of the base, and the
segments. -/
theorem clean_of_foldl (hne : segs ≠ []) (hsegs : ∀ seg ∈ segs, Normal seg)
    (hroot : rooted p = rooted base) (hfold : (segments p).foldl (push (rooted base)) [] =
      segs.reverse ++ (segments base).foldl (push (rooted base)) []) :
    clean p = rootOf base ++ unsplit (resolve base ++ segs) := by
  have hresolve : resolve p = resolve base ++ segs := by
    rw [resolve, hroot, hfold, List.reverse_append, List.reverse_reverse, resolve]
  obtain ⟨seg, hseg⟩ := List.exists_mem_of_ne_nil segs hne
  have hnil : unsplit (resolve p) ≠ [] :=
    unsplit_ne_nil (fun seg hseg => (mem_resolve hseg).2)
      (by rw [hresolve]; exact List.mem_append_right _ hseg) (hsegs seg hseg).ne_nil
  rw [clean, if_neg fun h => hnil (List.append_eq_nil_iff.mp h).2, hresolve, rootOf, hroot, rootOf]

theorem Local.ne_nil (h : Local p) : p ≠ [] := by
  rintro rfl
  exact absurd h.clean_eq (by decide)

theorem trimSlash_of_rooted_false (h : rooted p = false) : trimSlash p = p := by
  rw [trimSlash, h]
  rfl

/-- A base joined with a local path. -/
theorem join_unsplit (hne : segs ≠ []) (hsegs : ∀ seg ∈ segs, Normal seg) :
    join [base, unsplit segs] = rootOf base ++ unsplit (resolve base ++ segs) := by
  have hslash : ∀ seg ∈ segs, slash ∉ seg := fun seg hseg => (hsegs seg hseg).slash_notMem
  obtain ⟨seg, hseg⟩ := List.exists_mem_of_ne_nil segs hne
  have hnil := unsplit_ne_nil hslash hseg (hsegs seg hseg).ne_nil
  by_cases hbase : base = []
  · subst hbase
    rw [join, List.dropWhile_cons_of_pos (by simp), List.dropWhile_cons_of_neg (by simp [hnil])]
    dsimp only
    rw [unsplit_singleton]
    refine clean_of_foldl hne hsegs (rooted_unsplit_normal hsegs) ?_
    rw [segments_unsplit hslash hne, foldl_push_normal hsegs, segments_nil, List.foldl_cons,
      push_nil, List.foldl_nil]
  · rw [join, List.dropWhile_cons_of_neg (by simp [hbase])]
    dsimp only
    rw [unsplit, List.intercalate_cons_cons, List.intercalate_singleton, List.append_assoc,
      List.singleton_append]
    refine clean_of_foldl hne hsegs (rooted_append hbase _) ?_
    rw [segments_append, List.foldl_append, segments_unsplit hslash hne, foldl_push_normal hsegs]

/-- A base joined with a directory and a file name. -/
theorem join_directory {dir file : Bytes} (hdir : segments dir = segs ++ [[]])
    (hsegs : ∀ seg ∈ segs, Normal seg) (hroot : rooted dir = false) (hfile : Normal file) :
    join [base, dir, file] = rootOf base ++ unsplit (resolve base ++ (segs ++ [file])) := by
  have hfiles : segments file = [file] := List.splitOn_eq_singleton hfile.slash_notMem
  have hall : ∀ seg ∈ segs ++ [file], Normal seg := by
    intro seg hseg
    rcases List.mem_append.mp hseg with hseg | hseg
    · exact hsegs seg hseg
    · rw [List.mem_singleton.mp hseg]
      exact hfile
  have hfold : ∀ root stack, (segments (dir ++ slash :: file)).foldl (push root) stack =
      (segs ++ [file]).reverse ++ stack := by
    intro root stack
    rw [segments_append, hdir, hfiles]
    simp only [List.foldl_append, List.foldl_cons, List.foldl_nil, push_nil,
      foldl_push_normal hsegs, push_normal hfile]
    simp
  have hne : segs ++ [file] ≠ [] := by simp
  by_cases hbase : base = []
  · subst hbase
    rw [join, List.dropWhile_cons_of_pos (by simp)]
    by_cases hempty : dir = []
    · subst hempty
      obtain rfl : segs = [] := by simpa [segments_nil] using hdir.symm
      rw [List.dropWhile_cons_of_pos (by simp), List.dropWhile_cons_of_neg (by simp [hfile.ne_nil])]
      dsimp only
      rw [unsplit_singleton]
      have hrooted : rooted file = false := by
        simpa [unsplit] using rooted_unsplit_normal hall
      refine clean_of_foldl hne hall hrooted ?_
      rw [hfiles, segments_nil, List.foldl_cons, push_normal hfile, List.foldl_cons, push_nil]
      rfl
    · rw [List.dropWhile_cons_of_neg (by simp [hempty])]
      dsimp only
      rw [unsplit, List.intercalate_cons_cons, List.intercalate_singleton, List.append_assoc,
        List.singleton_append]
      refine clean_of_foldl hne hall ((rooted_append hempty _).trans hroot) ?_
      rw [hfold, segments_nil, List.foldl_cons, push_nil, List.foldl_nil]
  · rw [join, List.dropWhile_cons_of_neg (by simp [hbase])]
    dsimp only
    rw [unsplit, List.intercalate_cons_cons, List.intercalate_cons_cons,
      List.intercalate_singleton]
    simp only [List.append_assoc, List.singleton_append]
    refine clean_of_foldl hne hall (rooted_append hbase _) ?_
    rw [segments_append, List.foldl_append, hfold]

/-- A base keeps apart what stands behind it. -/
theorem unsplit_injective {front : List Bytes} (hfront : ∀ seg ∈ front, seg ≠ [] ∧ slash ∉ seg)
    (hne : segs ≠ []) (hsegs : ∀ seg ∈ segs, Normal seg) (hne' : segs' ≠ [])
    (hsegs' : ∀ seg ∈ segs', Normal seg)
    (h : unsplit (front ++ segs) = unsplit (front ++ segs')) : segs = segs' := by
  have heq := congrArg segments h
  rw [segments_unsplit (fun seg hseg => (mem_append_normal hfront hsegs seg hseg).2)
    (by simp [hne]), segments_unsplit
      (fun seg hseg => (mem_append_normal hfront hsegs' seg hseg).2) (by simp [hne'])] at heq
  exact List.append_cancel_left heq

/-- Different local paths behind one base make different paths. -/
theorem join_injective {q : Bytes} (hp : Local p) (hq : Local q)
    (h : join [base, p] = join [base, q]) : p = q := by
  obtain ⟨segs, hne, hsegs, rfl⟩ := hp.exists_segments
  obtain ⟨segs', hne', hsegs', rfl⟩ := hq.exists_segments
  rw [join_unsplit hne hsegs, join_unsplit hne' hsegs'] at h
  rw [unsplit_injective (fun seg hseg => mem_resolve hseg) hne hsegs hne' hsegs'
    (List.append_cancel_left h)]

/-! ## Splitting -/

/-- The last segment is the file, and the others are the directory. -/
theorem split_unsplit {file : Bytes} (hsegs : ∀ seg ∈ segs, Normal seg) (hfile : Normal file) :
    (split (unsplit (segs ++ [file]))).2 = file ∧
      segments (split (unsplit (segs ++ [file]))).1 = segs ++ [[]] ∧
        rooted (split (unsplit (segs ++ [file]))).1 = false := by
  have hall : ∀ b ∈ file.reverse, (decide (b ≠ slash)) = true := by
    intro b hb
    have hmem := List.mem_reverse.mp hb
    exact decide_eq_true fun heq => hfile.slash_notMem (heq ▸ hmem)
  by_cases hnil : segs = []
  · subst hnil
    rw [List.nil_append, unsplit_singleton, split]
    refine ⟨?_, ?_, ?_⟩
    · rw [List.rtakeWhile, List.takeWhile_eq_self_iff.mpr hall, List.reverse_reverse]
    · rw [List.rdropWhile, List.dropWhile_eq_nil_iff.mpr hall]
      rfl
    · rw [List.rdropWhile, List.dropWhile_eq_nil_iff.mpr hall]
      rfl
  · have hsplit : unsplit (segs ++ [file]) = unsplit segs ++ slash :: file := by
      rw [unsplit_append hnil (by simp), unsplit_singleton]
    have hreverse : (unsplit segs ++ slash :: file).reverse =
        file.reverse ++ slash :: (unsplit segs).reverse := by simp
    have hdir : (split (unsplit (segs ++ [file]))).1 = unsplit segs ++ [slash] := by
      rw [hsplit, split, List.rdropWhile, hreverse, List.dropWhile_append_of_pos hall,
        List.dropWhile_cons_of_neg (by simp)]
      simp
    refine ⟨?_, ?_, ?_⟩
    · rw [hsplit, split, List.rtakeWhile, hreverse, List.takeWhile_append_of_pos hall,
        List.takeWhile_cons_of_neg (by simp)]
      simp
    · rw [hdir, segments_append, segments_nil,
        segments_unsplit (fun seg hseg => (hsegs seg hseg).slash_notMem) hnil]
    · rw [hdir, rooted_append, rooted_unsplit_normal hsegs]
      obtain ⟨seg, hseg⟩ := List.exists_mem_of_ne_nil segs hnil
      exact unsplit_ne_nil (fun seg hseg => (hsegs seg hseg).slash_notMem) hseg
        (hsegs seg hseg).ne_nil

end SlashPath
