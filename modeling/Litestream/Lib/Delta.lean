import Mathlib

/-!
# Deltas of a history

A history gives the state of a store at each time: the value of every cell, `none` past the
end.  Cells are grouped into pages.  A delta for the times `a` to `b` writes the pages that
changed in between, as they are at `b`, and cuts the store where it ends at `b`.

A delta may overlap with what was applied before, so a chain of deltas needs no exact
boundaries.  `Chain.eq` says that a chain from the state at one time leads to the state at
another.  `Chain.heals` says the same of a store that was torn by a part of another chain:
every page that the other chain may have touched is written or cut again.
-/

namespace Delta

variable {ι κ V : Type*} (S : ℕ → ι → Option V) (page : ι → κ)

/-- Some live cell of the page is not as it was at the time before. -/
def Changed (t : ℕ) (k : κ) : Prop := ∃ i, page i = k ∧ S t i ≠ none ∧ S (t - 1) i ≠ S t i

/-- The page did not change after `a`, up to `b`. -/
def Still (a b : ℕ) (k : κ) : Prop := ∀ t, a < t → t ≤ b → ¬ Changed S page t k

variable {S page} {t u a b : ℕ} {k : κ} {i : ι} {D D' D'' : ι → Option V}

theorem Still.mono {a' b' : ℕ} (h : Still S page a b k) (ha : a ≤ a') (hb : b' ≤ b) :
    Still S page a' b' k :=
  fun t hat htb => h t (ha.trans_lt hat) (htb.trans hb)

theorem Still.trans (hab : Still S page t a k) (hbc : Still S page a b k) : Still S page t b k := by
  intro u htu hub
  rcases Nat.lt_or_ge a u with hau | hua
  · exact hbc u hau hub
  · exact hab u htu hua

/-- A live cell of a page that did not change was there before. -/
theorem Still.eq (h : Still S page a b (page i)) (hab : a ≤ b) (hi : S b i ≠ none) :
    S a i = S b i := by
  induction b, hab using Nat.le_induction with
  | base => rfl
  | succ b hab ih =>
      have hstep : S b i = S (b + 1) i := by
        by_contra hne
        exact h (b + 1) (Nat.lt_succ_of_le hab) le_rfl ⟨i, rfl, hi, hne⟩
      rw [← hstep] at hi ⊢
      exact ih (h.mono le_rfl (Nat.le_succ b)) hi

/-! ## One delta -/

variable (S page)

/-- A cell that was there keeps its value or gets the one at `b`. -/
def Touches (b : ℕ) (D D' : ι → Option V) : Prop := ∀ i, D i ≠ none → D' i = D i ∨ D' i = S b i

/-- Writes the pages `ks` as they are at `b`.  Cells of other pages stay, and some may be
added. -/
def Writes (b : ℕ) (ks : List κ) (D D' : ι → Option V) : Prop :=
  ∀ i, (page i ∈ ks → D' i = S b i) ∧ (page i ∉ ks → D i ≠ none → D' i = D i)

/-- Cuts the store where it ends at `b`. -/
def Cuts (b : ℕ) (D D' : ι → Option V) : Prop :=
  ∀ i, (S b i = none → D' i = none) ∧ (S b i ≠ none → D i ≠ none → D' i = D i)

/-- The effect of a delta for the times `a` to `b`. -/
def Applies (a b : ℕ) (D D' : ι → Option V) : Prop :=
  ∀ i, D' i = S b i ∨
    S b i ≠ none ∧ Still S page (a - 1) b (page i) ∧ (D i ≠ none → D' i = D i)

variable {S page}

theorem Writes.refl (b : ℕ) (D : ι → Option V) : Writes S page b [] D D :=
  fun _ => ⟨fun h => (List.not_mem_nil h).elim, fun _ _ => rfl⟩

/-- Writing one page after the other. -/
theorem Writes.cons {ks : List κ} (h : Writes S page b [k] D D') (hks : Writes S page b ks D' D'')
    (hlive : ∀ i, page i = k → S b i ≠ none) : Writes S page b (k :: ks) D D'' := by
  intro i
  by_cases hmem : page i ∈ ks
  · exact ⟨fun _ => (hks i).1 hmem, fun hn => (hn (List.mem_cons_of_mem k hmem)).elim⟩
  · constructor
    · intro hk
      have hik : page i = k := (List.mem_cons.mp hk).resolve_right hmem
      have hD' : D' i = S b i := (h i).1 (List.mem_singleton.mpr hik)
      rw [(hks i).2 hmem (hD' ▸ hlive i hik), hD']
    · intro hn hD
      have hD' : D' i = D i := (h i).2 (fun hk => hn (List.mem_cons.mpr
        (Or.inl (List.mem_singleton.mp hk)))) hD
      rw [(hks i).2 hmem (hD' ▸ hD), hD']

theorem Writes.touches {ks : List κ} (h : Writes S page b ks D D') : Touches S b D D' := by
  intro i hi
  by_cases hmem : page i ∈ ks
  · exact Or.inr ((h i).1 hmem)
  · exact Or.inl ((h i).2 hmem hi)

theorem Cuts.touches (h : Cuts S b D D') : Touches S b D D' := by
  intro i hi
  by_cases hlive : S b i = none
  · exact Or.inr (((h i).1 hlive).trans hlive.symm)
  · exact Or.inl ((h i).2 hlive hi)

/-- The writes of every page that changed and a cut make up a delta. -/
theorem Writes.applies {ks : List κ} (h : Writes S page b ks D D') (hcut : Cuts S b D' D'')
    (hks : ∀ i, S b i ≠ none → page i ∉ ks → Still S page (a - 1) b (page i)) :
    Applies S page a b D D'' := by
  intro i
  by_cases hlive : S b i = none
  · exact Or.inl (((hcut i).1 hlive).trans hlive.symm)
  by_cases hmem : page i ∈ ks
  · have hD' : D' i = S b i := (h i).1 hmem
    exact Or.inl (((hcut i).2 hlive (hD' ▸ hlive)).trans hD')
  · refine Or.inr ⟨hlive, hks i hlive hmem, fun hD => ?_⟩
    have hD' : D' i = D i := (h i).2 hmem hD
    exact ((hcut i).2 hlive (hD' ▸ hD)).trans hD'

/-- A part of a delta does not disturb the pages that do not change. -/
theorem Touches.eq (h : Touches S b D D') (hb : b ≤ u) (ht : t ≤ b)
    (hstill : Still S page t u (page i)) (hi : S u i ≠ none) (hD : D i = S u i) :
    D' i = S u i := by
  rcases h i (hD ▸ hi) with hD' | hD'
  · exact hD'.trans hD
  · exact hD'.trans ((hstill.mono ht le_rfl).eq hb hi)

/-! ## Chains of deltas -/

variable (S page)

/-- Applies deltas, each of which starts at most one past the end of the one before. -/
inductive Chain : ℕ → (ι → Option V) → ℕ → (ι → Option V) → Prop
  | nil (t : ℕ) (D : ι → Option V) : Chain t D t D
  | cons {t a b u : ℕ} {D D' D'' : ι → Option V} (ha : a ≤ t + 1) (hb : t ≤ b)
      (happly : Applies S page a b D D') (h : Chain b D' u D'') : Chain t D u D''

variable {S page}

theorem Chain.le (h : Chain S page t D u D') : t ≤ u := by
  induction h with
  | nil => exact le_rfl
  | cons _ hb _ _ ih => exact hb.trans ih

theorem Chain.dead (h : Chain S page t D u D') (hD : ∀ i, S t i = none → D i = none) :
    ∀ i, S u i = none → D' i = none := by
  induction h with
  | nil => exact hD
  | cons _ _ happly _ ih =>
      refine ih fun i hi => ?_
      rcases happly i with h | ⟨hlive, -⟩
      · exact h.trans hi
      · exact (hlive hi).elim

/-- The live cells of a store on the way from `t` to `u`, at `b`: those of pages that changed
are as they are at `b`, and those of pages that never change are in place. -/
def OnTheWay (S : ℕ → ι → Option V) (page : ι → κ) (t u b : ℕ) (D : ι → Option V) : Prop :=
  ∀ i, S b i ≠ none → (Still S page t b (page i) → S u i ≠ none ∧ Still S page t u (page i)) →
    D i = S b i

theorem OnTheWay.applies {c : ℕ} (h : OnTheWay S page t u b D) (htb : t ≤ b) (ha : a ≤ b + 1)
    (hbc : b ≤ c) (happly : Applies S page a c D D') : OnTheWay S page t u c D' := by
  intro i hi hchanged
  rcases happly i with hD' | ⟨-, hstill, hkeep⟩
  · exact hD'
  -- the page is not in the delta, so it is as it was at `b`
  have hbc_still : Still S page b c (page i) := hstill.mono (by omega) le_rfl
  have hb : S b i = S c i := hbc_still.eq hbc hi
  have hD : D i = S b i := h i (hb ▸ hi) fun htb' => hchanged (htb'.trans hbc_still)
  rw [hkeep (by rw [hD, hb]; exact hi), hD, hb]

theorem Chain.onTheWay {v : ℕ} (h : Chain S page b D v D') (htb : t ≤ b)
    (hD : OnTheWay S page t u b D) : OnTheWay S page t u v D' := by
  induction h with
  | nil => exact hD
  | cons ha hbc happly _ ih => exact ih (htb.trans hbc) (hD.applies htb ha hbc happly)

/-- At the end of the way every live cell is in place. -/
theorem OnTheWay.eq (h : OnTheWay S page t u u D) (hi : S u i ≠ none) : D i = S u i :=
  h i hi fun hstill => ⟨hi, hstill⟩

theorem onTheWay_of_still (hD : ∀ i, S u i ≠ none → Still S page t u (page i) → D i = S u i)
    (htu : t ≤ u) : OnTheWay S page t u t D := by
  intro i hi h
  have hstill := h fun v htv hvt => absurd hvt (Nat.not_le.mpr htv)
  exact (hD i hstill.1 hstill.2).trans (hstill.2.eq htu hstill.1).symm

/-- A chain from the state at a time leads to the state at a later time. -/
theorem Chain.eq (h : Chain S page t (S t) u D') : D' = S u := by
  have hway : OnTheWay S page t u u D' := h.onTheWay le_rfl fun _ _ _ => rfl
  funext i
  by_cases hi : S u i = none
  · exact (h.dead (fun _ h => h) i hi).trans hi.symm
  · exact hway.eq hi

/-- A chain leads to the state at a later time from any store that has the pages which do
not change until then. -/
theorem Chain.heals (h : Chain S page t D u D') (htu : t < u)
    (hD : ∀ i, S u i ≠ none → Still S page t u (page i) → D i = S u i) : D' = S u := by
  have hway : OnTheWay S page t u u D' := h.onTheWay le_rfl (onTheWay_of_still hD htu.le)
  funext i
  by_cases hi : S u i = none
  · cases h with
    | nil => exact absurd htu (Nat.lt_irrefl _)
    | cons _ _ happly h =>
        -- the first delta cuts what is past its end
        refine (h.dead (fun i hi => ?_) i hi).trans hi.symm
        rcases happly i with h | ⟨hlive, -⟩
        · exact h.trans hi
        · exact (hlive hi).elim
  · exact hway.eq hi

/-! ## Torn stores -/

/-- The store has every page that does not change after `t`, as of each time from `u` on.  So
does the store at `t`, and one that was torn on the way to `u`. -/
def Torn (S : ℕ → ι → Option V) (page : ι → κ) (t u : ℕ) (D : ι → Option V) : Prop :=
  ∀ v, u ≤ v → ∀ i, S v i ≠ none → Still S page t v (page i) → D i = S v i

theorem Torn.refl (t : ℕ) : Torn S page t t (S t) := fun _ htv _ hi hstill => hstill.eq htv hi

theorem Torn.mono {t' u' : ℕ} (h : Torn S page t u D) (ht : t' ≤ t) (hu : u ≤ u') :
    Torn S page t' u' D :=
  fun v hv i hi hstill => h v (hu.trans hv) i hi (hstill.mono ht le_rfl)

theorem Torn.touches (h : Torn S page t u D) (htouch : Touches S b D D') (htb : t ≤ b)
    (hbu : b ≤ u) : Torn S page t u D' :=
  fun v hv i hi hstill => htouch.eq (hbu.trans hv) htb hstill hi (h v hv i hi hstill)

/-- A chain takes a torn store along. -/
theorem Torn.chain {v : ℕ} (h : Torn S page t u D) (hchain : Chain S page t D v D') :
    Torn S page v (max u v) D' := by
  intro w hw i hi hstill
  have hvw : v ≤ w := (Nat.le_max_right u v).trans hw
  have hstart : OnTheWay S page t w t D :=
    onTheWay_of_still (fun i hi hstill => h w ((Nat.le_max_left u v).trans hw) i hi hstill)
      (hchain.le.trans hvw)
  have heq : S v i = S w i := hstill.eq hvw hi
  rw [← heq]
  exact (hchain.onTheWay le_rfl hstart) i (heq ▸ hi) fun hstill' => ⟨hi, hstill'.trans hstill⟩

/-- A chain that reaches as far heals a torn store. -/
theorem Torn.heals {v : ℕ} (h : Torn S page t u D) (hchain : Chain S page t D v D') (htv : t < v)
    (huv : u ≤ v) : D' = S v :=
  hchain.heals htv fun i hi hstill => h v huv i hi hstill

end Delta
