import Litestream.Lib.Run
import Litestream.Vfs.Connections

/-!
# One writer at a time

The connections of a `VFS` lock, write, sync, unlock and enable and disable writes in any
order.

`single_writer` says that a connection in a transaction has the writer slot, and that a
connection whose writes are disabled is in no transaction and has no dirty page: the last
content of every page that it has written is in the last file it uploaded with that page.
-/

namespace Litestream

namespace Vfs

open Overlay Run VFS

variable {ps : PageSize}

/-- A call of one connection. -/
inductive Op (ps : PageSize) where
  | lock (elock : LockType)
  | wakeLock (elock : LockType)
  | unlock (elock : LockType)
  | writeAt (b : Bytes) (off : Nat)
  | sync (outcome : Outcome ps)
  | setWriteEnabled (enabled ready : Bool) (exit : Option Exit) (outcome : Outcome ps)
  | wakeDisable (exit : Option Exit) (outcome : Outcome ps)

structure World (ι : Type) (ps : PageSize) where
  vfs : VFS ι ps
  /-- The pages that each connection has written, with their content after the write. -/
  written : ι → List (Nat × Bytes)

namespace World

variable {ι : Type} [DecidableEq ι]

def file (w : World ι ps) (c : ι) : VFSFile := w.vfs.file c

/-- The pages written so far, once a write has returned. -/
def record (w : World ι ps) (c : ι) (off : Nat) (write : VFS ι ps × Except VFSError Nat) :
    ι → List (Nat × Bytes) :=
  match write.2 with
  | .error _ => w.written
  | .ok _ =>
    let pgno := off / ps.size + 1
    Function.update w.written c
      (w.written c ++ [(pgno, ((write.1.file c).dirtyPage pgno).getD [])])

def step (w : World ι ps) : ι × Op ps → Option (World ι ps)
  | (c, .lock elock) => some { w with vfs := (w.vfs.Lock c elock).1 }
  | (c, .wakeLock elock) =>
    if elock ∈ (w.vfs.conn c).locking ∧ (w.vfs.conn c).disabling = false then
      some { w with vfs := (w.vfs.wakeLock c elock).1 }
    else none
  | (c, .unlock elock) => some { w with vfs := (w.vfs.Unlock c elock).1 }
  | (c, .writeAt b off) =>
    some ⟨(w.vfs.WriteAt c b off).1, w.record c off (w.vfs.WriteAt c b off)⟩
  | (c, .sync outcome) =>
    if w.vfs.Fits c outcome then some { w with vfs := (w.vfs.Sync c outcome).1 } else none
  | (c, .setWriteEnabled enabled ready exit outcome) =>
    if w.vfs.Fits c outcome then
      some { w with vfs := (w.vfs.SetWriteEnabled c enabled ready exit outcome).1 }
    else none
  | (c, .wakeDisable exit outcome) =>
    if 0 < (w.vfs.conn c).disables ∧ w.vfs.Fits c outcome then
      some { w with vfs := (w.vfs.wakeDisable c exit outcome).1 }
    else none

/-- The connections are open, and none of them has written. -/
structure Opened (w : World ι ps) : Prop where
  pageSize : ∀ c, (w.file c).pageSize = ps.size
  inTransaction : ∀ c, (w.file c).inTransaction = false
  dirty : ∀ c, (w.file c).dirty = []
  bufferFile : ∀ c, (w.file c).bufferFile = []
  bufferNextOff : ∀ c, (w.file c).bufferNextOff = 0
  uploads : w.vfs.uploads = []
  written : ∀ c, w.written c = []

/-- Every page that was written is dirty or in an upload, and a connection without writes has
no dirty page. -/
structure Saves (f : VFSFile) (written stored : List (Nat × Bytes)) : Prop where
  pageSize : f.pageSize = ps.size
  buffered : Buffered ps f
  lockPage : f.dirtyPage (lockPgno ps) = none
  enabled : f.inTransaction = true → f.writeEnabled = true
  disabled : f.writeEnabled = false → f.dirty = []
  dirty : ∀ k data, f.dirtyPage k = some data → lastWrite written k = some data
  clean : ∀ k, f.dirtyPage k = none → lastWrite written k = lastWrite stored k

/-- A connection in a transaction has the writer slot. -/
structure Inv (w : World ι ps) : Prop where
  slot : ∀ c, (w.file c).inTransaction = true → w.vfs.writeFile = some c
  saves : ∀ c, @Saves ps (w.file c) (w.written c) (w.vfs.stored c)

variable {w w' : World ι ps} {c : ι} {f : VFSFile} {written stored : List (Nat × Bytes)}

theorem Opened.inv (h : w.Opened) : w.Inv := by
  refine ⟨fun c hc => ?_, fun c => ?_⟩
  · rw [h.inTransaction] at hc
    cases hc
  · have hdirty : ∀ k, (w.file c).dirtyPage k = none := fun k => by
      rw [dirtyPage_eq_none_iff, h.dirty, lastWrite_nil]
    refine ⟨h.pageSize c, ?_, hdirty _, fun hc => ?_, fun _ => h.dirty c, fun k data hk => ?_,
      fun k _ => ?_⟩
    · refine ⟨?_, ?_, ?_, ?_⟩ <;> simp [h.dirty, h.bufferFile, h.bufferNextOff]
    · rw [h.inTransaction] at hc
      cases hc
    · rw [hdirty] at hk
      cases hk
    · rw [h.written, VFS.stored, h.uploads]
      rfl

/-! ## A call changes one connection -/

/-- What a call of one connection leaves as it is. -/
structure Local (c : ι) (s s' : VFS ι ps) : Prop where
  others : ∀ c', c' ≠ c → s'.file c' = s.file c'
  stored : ∀ c', c' ≠ c → s'.stored c' = s.stored c'
  slot : s'.writeFile = s.writeFile ∨ s.writeFile = none ∨ s.writeFile = some c

theorem Inv.of_local {s' : VFS ι ps} {written' : ι → List (Nat × Bytes)} (h : w.Inv)
    (hlocal : Local c w.vfs s') (hwritten : ∀ c', c' ≠ c → written' c' = w.written c')
    (hslot : (s'.file c).inTransaction = true → s'.writeFile = some c)
    (hsaves : @Saves ps (s'.file c) (written' c) (s'.stored c)) :
    Inv ⟨s', written'⟩ := by
  refine ⟨fun c' hc' => ?_, fun c' => ?_⟩
  · by_cases heq : c' = c
    · subst heq
      exact hslot hc'
    · have hold : (s'.file c').inTransaction = true := hc'
      rw [hlocal.others c' heq] at hold
      have howner : w.vfs.writeFile = some c' := h.slot c' hold
      rcases hlocal.slot with hsame | hnone | hself
      · exact hsame.trans howner
      · rw [hnone] at howner
        cases howner
      · exact absurd (Option.some.inj (hself.symm.trans howner)).symm heq
  · by_cases heq : c' = c
    · subst heq
      exact hsaves
    · change Saves (s'.file c') (written' c') (s'.stored c')
      rw [hlocal.others c' heq, hlocal.stored c' heq, hwritten c' heq]
      exact h.saves c'

/-- A call that leaves the slot and the buffers. -/
theorem Inv.setConn {conn : Connection} (h : w.Inv) (hfile : conn.file = w.file c) :
    Inv { w with vfs := w.vfs.setConn c conn } := by
  have hself : (w.vfs.setConn c conn).file c = w.file c := (file_setConn_self _ _ _).trans hfile
  refine h.of_local (c := c) ⟨fun c' hne => ?_, fun _ _ => rfl, Or.inl rfl⟩ (fun _ _ => rfl) ?_ ?_
  · rw [file_setConn, if_neg hne]
  · rw [hself]
    exact h.slot c
  · rw [hself]
    exact h.saves c

/-- A file that keeps its buffer keeps its pages. -/
theorem Saves.of_same {f' : VFSFile} (h : @Saves ps f written stored)
    (hsize : f'.pageSize = f.pageSize) (hdirty : f'.dirty = f.dirty)
    (hbuffer : f'.bufferFile = f.bufferFile) (hnext : f'.bufferNextOff = f.bufferNextOff)
    (henabled : f'.inTransaction = true → f'.writeEnabled = true)
    (hdisabled : f'.writeEnabled = false → f.writeEnabled = false ∨ f.dirty = []) :
    @Saves ps f' written stored := by
  have hpage : ∀ k, f'.dirtyPage k = f.dirtyPage k := fun k => by
    rw [VFSFile.dirtyPage, VFSFile.dirtyPage, hdirty, hbuffer, hsize]
  refine ⟨hsize.trans h.pageSize, ⟨?_, ?_, ?_, ?_⟩, (hpage _).trans h.lockPage, henabled,
    fun hoff => ?_, fun k data hk => h.dirty k data ((hpage k).symm.trans hk),
    fun k hk => h.clean k ((hpage k).symm.trans hk)⟩
  · exact hdirty ▸ h.buffered.keys_nodup
  · rw [hbuffer, hnext]
    exact h.buffered.length
  · intro e he
    rw [hnext]
    exact h.buffered.within e (hdirty ▸ he)
  · intro e he e' he'
    exact h.buffered.disjoint e (hdirty ▸ he) e' (hdirty ▸ he')
  · exact hdirty.trans ((hdisabled hoff).elim h.disabled id)

/-! ## Locks -/

/-- A lock that changes the mode of the file only. -/
theorem Inv.setLockType (h : w.Inv) (c : ι) (elock : LockType) :
    Inv { w with vfs := w.vfs.setFile c { w.file c with lockType := elock } } := by
  have hself : (w.vfs.setFile c { w.file c with lockType := elock }).file c =
      { w.file c with lockType := elock } := file_setConn_self _ _ _
  refine h.of_local (c := c) ⟨fun c' hne => ?_, fun _ _ => rfl, Or.inl rfl⟩ (fun _ _ => rfl) ?_ ?_
  · rw [VFS.setFile, file_setConn, if_neg hne]
  · rw [hself]
    exact h.slot c
  · rw [hself]
    exact (h.saves c).of_same rfl rfl rfl rfl (h.saves c).enabled Or.inl

theorem Inv.acquire (h : w.Inv) (c : ι) (elock : LockType) :
    Inv { w with vfs := (w.vfs.acquire c elock).1 } := by
  rw [VFS.acquire]
  dsimp only
  split
  · split
    · exact h
    next henabled =>
    split
    · exact h.setLockType c elock
    split
    · exact h
    next hslot =>
    -- the slot is free, or the connection has it
    obtain ⟨expectedTXID, pendingTXID, pos, heq⟩ := adopt_cases w.vfs.lastSyncedTXID (w.vfs.file c)
    rw [heq]
    have hself : ∀ f : VFSFile, (w.vfs.setFile c f).file c = f := fun f => file_setConn_self _ _ _
    refine h.of_local (c := c) ⟨fun c' hne => ?_, fun _ _ => rfl, ?_⟩ (fun _ _ => rfl)
      (fun _ => rfl) ?_
    · change (w.vfs.setFile c _).file c' = _
      rw [VFS.setFile, file_setConn, if_neg hne]
    · by_cases hnone : w.vfs.writeFile = none
      · exact Or.inr (Or.inl hnone)
      · exact Or.inr (Or.inr (not_not.mp fun hne => hslot ⟨hnone, hne⟩))
    · change Saves ((w.vfs.setFile c _).file c) _ _
      rw [hself]
      refine (h.saves c).of_same rfl rfl rfl rfl (fun _ => by simpa using henabled) Or.inl
  · exact h.setLockType c elock

theorem Inv.lock (h : w.Inv) (c : ι) (elock : LockType) :
    Inv { w with vfs := (w.vfs.Lock c elock).1 } := by
  rw [VFS.Lock]
  split
  · exact h
  split
  · exact h.setConn rfl
  · exact h.acquire c elock

theorem Inv.wakeLock (h : w.Inv) (c : ι) (elock : LockType) :
    Inv { w with vfs := (w.vfs.wakeLock c elock).1 } := by
  have hset : Inv ⟨w.vfs.setConn c
      { w.vfs.conn c with locking := (w.vfs.conn c).locking.erase elock }, w.written⟩ :=
    h.setConn rfl
  exact hset.acquire c elock

theorem Inv.unlock (h : w.Inv) (c : ι) (elock : LockType) :
    Inv { w with vfs := (w.vfs.Unlock c elock).1 } := by
  rw [VFS.Unlock, VFSFile.Unlock]
  split
  · exact h
  next f hunlock =>
  split at hunlock
  · cases hunlock
  · obtain rfl := Except.ok.inj hunlock
    have hself : ∀ f : VFSFile, (w.vfs.setFile c f).file c = f := fun f => file_setConn_self _ _ _
    have henabled := (h.saves c).enabled
    refine h.of_local (c := c) ⟨fun c' hne => ?_, fun _ _ => rfl, ?_⟩ (fun _ _ => rfl) ?_ ?_
    · change (w.vfs.setFile c _).file c' = _
      rw [VFS.setFile, file_setConn, if_neg hne]
    · dsimp only
      split
      · next hself => exact Or.inr (Or.inr hself.2.2)
      · exact Or.inl rfl
    · -- the transaction is over, as writes are enabled in it
      change ((w.vfs.setFile c _).file c).inTransaction = true → _
      rw [hself]
      intro hstill
      dsimp only at hstill
      rw [Bool.and_eq_true, Bool.not_eq_true'] at hstill
      rw [World.file, hstill.2] at henabled
      exact absurd (henabled hstill.1) Bool.false_ne_true
    · change Saves ((w.vfs.setFile c _).file c) _ _
      rw [hself]
      refine (h.saves c).of_same rfl rfl rfl rfl (fun hstill => ?_) Or.inl
      dsimp only at hstill
      rw [Bool.and_eq_true] at hstill
      exact henabled hstill.1

/-! ## Writes -/

theorem Saves.write {f' : VFSFile} {result : Except VFSError Nat} {replica : Replica ps} {b : Bytes}
    {off n : Nat} (h : @Saves ps f written stored)
    (hwrite : f.WriteAt replica b off = (f', result)) (hok : result = .ok n) :
    @Saves ps f' (written ++ [(off / ps.size + 1, (f'.dirtyPage (off / ps.size + 1)).getD [])])
      stored := by
  rcases writeAt_stores h.pageSize hwrite with ⟨-, err, herr⟩ |
    ⟨-, hlock, henabled, page, g, ⟨cache, commit, rfl, -⟩, rfl⟩
  · rw [hok] at herr
    cases herr
  · have hg : Buffered ps { f with cache := cache, commit := commit } :=
      ⟨h.buffered.1, h.buffered.2, h.buffered.3, h.buffered.4⟩
    obtain ⟨hbuffered, hdirty⟩ := Buffered.writeToBuffer
      (f := { f with cache := cache, commit := commit }) h.pageSize hg (off / ps.size + 1) page
    obtain ⟨dirty, bufferFile, bufferNextOff, heq⟩ := writeToBuffer_eq (off / ps.size + 1) page.data
      { f with cache := cache, commit := commit }
    rw [heq] at hbuffered hdirty ⊢
    have hlast : ∀ k, lastWrite (written ++ [(off / ps.size + 1, page.data)]) k =
        if k = off / ps.size + 1 then some page.data else lastWrite written k := by
      intro k
      rw [lastWrite_append, lastWrite_cons, lastWrite_nil, Option.none_or]
      split
      · next heq => rw [if_pos heq.symm, Option.some_or]
      · next hne => rw [if_neg (Ne.symm hne), Option.none_or]
    rw [hdirty, if_pos rfl, Option.getD_some]
    refine ⟨h.pageSize, hbuffered, ?_, h.enabled, fun hoff => ?_, fun k data hk => ?_, fun k hk => ?_⟩
    · rw [hdirty, if_neg (Ne.symm hlock)]
      exact h.lockPage
    · exact absurd henabled (by rw [show f.writeEnabled = false from hoff]; exact Bool.false_ne_true)
    · rw [hlast]
      rw [hdirty] at hk
      split
      · next heq => rwa [if_pos heq] at hk
      · next hne =>
          rw [if_neg hne] at hk
          exact h.dirty k data hk
    · rw [hdirty] at hk
      rw [hlast]
      split
      · next heq =>
          rw [if_pos heq] at hk
          cases hk
      · next hne =>
          rw [if_neg hne] at hk
          exact h.clean k hk

theorem Inv.writeAt (h : w.Inv) (c : ι) (b : Bytes) (off : Nat) :
    Inv ⟨(w.vfs.WriteAt c b off).1, w.record c off (w.vfs.WriteAt c b off)⟩ := by
  cases hwrite : (w.vfs.file c).WriteAt w.vfs.replica b off with
  | mk f' result =>
      have hvfs : w.vfs.WriteAt c b off = (w.vfs.setFile c f', result) := by
        rw [VFS.WriteAt, hwrite]
      have hself : (w.vfs.setFile c f').file c = f' := file_setConn_self _ _ _
      have hother : ∀ c', c' ≠ c → (w.vfs.setFile c f').file c' = w.vfs.file c' := fun c' hne => by
        rw [VFS.setFile, file_setConn, if_neg hne]
      have hmode : f'.inTransaction = (w.file c).inTransaction := by
        obtain ⟨cache, commit, dirty, bufferFile, bufferNextOff, heq⟩ :=
          writeAt_eq w.vfs.replica b off (w.vfs.file c)
        rw [hwrite] at heq
        rw [show f' = _ from heq]
        rfl
      rw [hvfs]
      refine h.of_local (c := c) ⟨hother, fun _ _ => rfl, Or.inl rfl⟩ (fun c' hne => ?_) ?_ ?_
      · rw [record]
        cases result with
        | error err => rfl
        | ok n => exact Function.update_of_ne hne _ _
      · rw [hself, hmode]
        exact h.slot c
      · rw [hself, record]
        cases result with
        | error err =>
            rcases writeAt_stores (h.saves c).pageSize hwrite with ⟨rfl, -⟩ | ⟨⟨n, hn⟩, -⟩
            · exact h.saves c
            · cases hn
        | ok n =>
            dsimp only
            rw [Function.update_self, hself]
            exact (h.saves c).write hwrite rfl

/-! ## Syncs -/

theorem stored_append (s : VFS ι ps) (c c' : ι) (file : LTXFile ps) :
    VFS.stored { s with uploads := s.uploads ++ [(c, file)] } c' =
      if c = c' then s.stored c' ++ file.pages else s.stored c' := by
  rw [VFS.stored, VFS.stored, List.filter_append, List.map_append, mergePages_append,
    List.filter_singleton]
  split
  · next heq => simp [heq, mergePages]
  · next hne => simp [hne, mergePages]

/-- An upload saves the dirty pages, also where the call fails after it. -/
theorem Saves.upload {file : LTXFile ps} {outcome : Outcome ps} (h : @Saves ps f written stored)
    (hfile : file ∈ outcome.file) (hcreates : f.Creates file) :
    @Saves ps (f.afterUpload outcome).1 written (stored ++ file.pages) := by
  have hpages : ∀ k, lastWrite (stored ++ file.pages) k =
      (f.dirtyPage k).or (lastWrite stored k) := by
    intro k
    rw [lastWrite_append, hcreates.2.2.2.2,
      lastWrite_createLTXFromDirty h.pageSize h.buffered h.lockPage]
  have hwritten : ∀ k, lastWrite written k = lastWrite (stored ++ file.pages) k := by
    intro k
    rw [hpages]
    cases hdirty : f.dirtyPage k with
    | some data => exact h.dirty k data hdirty
    | none => exact h.clean k hdirty
  cases outcome with
  | failed => cases hfile
  | stored file =>
      refine ⟨h.pageSize, ⟨List.nodup_nil, rfl, ?_, ?_⟩, rfl, h.enabled, fun _ => rfl, ?_,
        fun k _ => hwritten k⟩
      · rintro e ⟨⟩
      · rintro e ⟨⟩
      · rintro k data ⟨⟩
  | unread file =>
      exact ⟨h.pageSize, ⟨h.buffered.1, h.buffered.2, h.buffered.3, h.buffered.4⟩, h.lockPage,
        h.enabled, h.disabled, h.dirty, fun k _ => hwritten k⟩
  | uncleared file =>
      refine ⟨h.pageSize, ⟨List.nodup_nil, h.buffered.length, ?_, ?_⟩, rfl, h.enabled, fun _ => rfl,
        ?_, fun k _ => hwritten k⟩
      · rintro e ⟨⟩
      · rintro e ⟨⟩
      · rintro k data ⟨⟩

theorem Inv.syncToRemoteWithLock {outcome : Outcome ps} (h : w.Inv) (hfits : w.vfs.Fits c outcome) :
    Inv { w with vfs := (w.vfs.syncToRemoteWithLock c outcome).1 } := by
  have hmode := inTransaction_sync w.vfs c outcome
  rcases sync_cases w.vfs c outcome with ⟨heq, -⟩ | ⟨-, file, hfile, heq⟩
  · rw [heq]
    exact h
  · rw [heq] at hmode ⊢
    have hself : (w.vfs.setFile c ((w.vfs.file c).afterUpload outcome).1).file c =
        ((w.vfs.file c).afterUpload outcome).1 := file_setConn_self _ _ _
    refine h.of_local (c := c) ⟨fun c' hne => ?_, fun c' hne => ?_, Or.inl rfl⟩ (fun _ _ => rfl) ?_ ?_
    · change (w.vfs.setFile c _).file c' = _
      rw [VFS.setFile, file_setConn, if_neg hne]
    · exact (stored_append w.vfs c c' file).trans (if_neg (Ne.symm hne))
    · rw [hmode]
      exact h.slot c
    · have hstored : VFS.stored { w.vfs with uploads := w.vfs.uploads ++ [(c, file)] } c =
          w.vfs.stored c ++ file.pages := (stored_append w.vfs c c file).trans (if_pos rfl)
      change Saves ((w.vfs.setFile c ((w.vfs.file c).afterUpload outcome).1).file c) _
        (VFS.stored { w.vfs with uploads := w.vfs.uploads ++ [(c, file)] } c)
      rw [hself, hstored]
      exact (h.saves c).upload hfile (hfits file hfile)

theorem Inv.sync {outcome : Outcome ps} (h : w.Inv) (hfits : w.vfs.Fits c outcome) :
    Inv { w with vfs := (w.vfs.Sync c outcome).1 } := by
  rw [VFS.Sync]
  split
  · exact h
  split
  · exact h
  split
  · exact h
  · exact h.syncToRemoteWithLock hfits

/-! ## Enabling and disabling -/

theorem Inv.disable {outcome : Outcome ps} (h : w.Inv) (hfits : w.vfs.Fits c outcome)
    (exit : Option Exit) : Inv { w with vfs := (w.vfs.disable c exit outcome).1 } := by
  unfold VFS.disable
  split
  · cases exit with
    | none => exact h.setConn rfl
    | some exit => exact h.setConn rfl
  · next hmode =>
      have hsync := h.syncToRemoteWithLock hfits
      have hdirty : (w.vfs.syncToRemoteWithLock c outcome).2 = .ok → _ := dirty_of_sync
      have hstill := inTransaction_sync w.vfs c outcome
      split
      · next s heq =>
          -- the sync succeeded, so no page is dirty
          rw [heq] at hsync hdirty hstill
          have hallow : Inv { w with vfs := s.allowLocks c } := hsync.setConn rfl
          have hfile : (s.allowLocks c).file c = s.file c := file_setConn_self _ _ _
          have hself : ((s.allowLocks c).setFile c { s.file c with writeEnabled := false }).file c =
              { s.file c with writeEnabled := false } := file_setConn_self _ _ _
          have hfalse : (s.file c).inTransaction = true → False := fun htrue =>
            hmode (hstill.symm.trans htrue)
          refine hallow.of_local (c := c) ⟨fun c' hne => ?_, fun _ _ => rfl, Or.inl rfl⟩
            (fun _ _ => rfl) ?_ ?_
          · rw [VFS.setFile, file_setConn, if_neg hne]
          · rw [hself]
            exact fun htrue => (hfalse htrue).elim
          · rw [hself]
            have hsaves := hallow.saves c
            rw [World.file, hfile] at hsaves
            exact hsaves.of_same rfl rfl rfl rfl (fun htrue => (hfalse htrue).elim)
              fun _ => Or.inr (hdirty rfl)
      · next s reply hne heq =>
          rw [heq] at hsync
          exact hsync.setConn rfl

theorem Inv.setWriteEnabled {outcome : Outcome ps} (h : w.Inv) (hfits : w.vfs.Fits c outcome)
    (enabled ready : Bool) (exit : Option Exit) :
    Inv { w with vfs := (w.vfs.SetWriteEnabled c enabled ready exit outcome).1 } := by
  rw [VFS.SetWriteEnabled]
  split
  · exact h
  split
  · split
    · have hself : (w.vfs.setFile c (w.vfs.file c).enabled).file c = (w.vfs.file c).enabled :=
        file_setConn_self _ _ _
      refine h.of_local (c := c) ⟨fun c' hne => ?_, fun _ _ => rfl, Or.inl rfl⟩ (fun _ _ => rfl) ?_ ?_
      · rw [VFS.setFile, file_setConn, if_neg hne]
      · rw [hself]
        exact h.slot c
      · rw [hself]
        exact (h.saves c).of_same rfl rfl rfl rfl (fun _ => rfl) fun hoff => by cases hoff
    · exact h
  · have hset : Inv { w with vfs := w.vfs.setConn c { w.vfs.conn c with disabling := true } } :=
      h.setConn rfl
    refine hset.disable (fun file hfile => ?_) exit
    have hself : (w.vfs.setConn c { w.vfs.conn c with disabling := true }).file c = w.vfs.file c :=
      file_setConn_self _ _ _
    rw [hself]
    exact hfits file hfile

theorem Inv.wakeDisable {outcome : Outcome ps} (h : w.Inv) (hfits : w.vfs.Fits c outcome)
    (exit : Option Exit) : Inv { w with vfs := (w.vfs.wakeDisable c exit outcome).1 } := by
  have hset : Inv { w with
      vfs := w.vfs.setConn c { w.vfs.conn c with disables := (w.vfs.conn c).disables - 1 } } :=
    h.setConn rfl
  refine hset.disable (fun file hfile => ?_) exit
  have hself : (w.vfs.setConn c
      { w.vfs.conn c with disables := (w.vfs.conn c).disables - 1 }).file c = w.vfs.file c :=
    file_setConn_self _ _ _
  rw [hself]
  exact hfits file hfile

/-! ## Runs -/

theorem Inv.step {action : ι × Op ps} (h : w.Inv) (hstep : World.step w action = some w') : w'.Inv := by
  obtain ⟨c, op⟩ := action
  cases op with
  | lock elock =>
      obtain rfl := Option.some.inj hstep
      exact h.lock c elock
  | wakeLock elock =>
      rw [World.step] at hstep
      split at hstep
      · obtain rfl := Option.some.inj hstep
        exact h.wakeLock c elock
      · cases hstep
  | unlock elock =>
      obtain rfl := Option.some.inj hstep
      exact h.unlock c elock
  | writeAt b off =>
      obtain rfl := Option.some.inj hstep
      exact h.writeAt c b off
  | sync outcome =>
      rw [World.step] at hstep
      split at hstep
      · next hfits =>
          obtain rfl := Option.some.inj hstep
          exact h.sync hfits
      · cases hstep
  | setWriteEnabled enabled ready exit outcome =>
      rw [World.step] at hstep
      split at hstep
      · next hfits =>
          obtain rfl := Option.some.inj hstep
          exact h.setWriteEnabled hfits enabled ready exit
      · cases hstep
  | wakeDisable exit outcome =>
      rw [World.step] at hstep
      split at hstep
      · next hfits =>
          obtain rfl := Option.some.inj hstep
          exact h.wakeDisable hfits.2 exit
      · cases hstep

/-- In every reachable state at most one connection is in a transaction, and it has the writer
slot.  A connection without writes is in no transaction, has no dirty page, and has uploaded
the last content of every page that it has written. -/
theorem single_writer {actions : List (ι × Op ps)} (h : w.Opened)
    (hrun : run World.step w actions = some w') :
    (∀ c, (w'.file c).inTransaction = true → w'.vfs.writeFile = some c) ∧
      (∀ c c', (w'.file c).inTransaction = true → (w'.file c').inTransaction = true → c = c') ∧
      ∀ c, (w'.file c).writeEnabled = false →
        (w'.file c).inTransaction = false ∧ (w'.file c).dirty = [] ∧
          ∀ k, lastWrite (w'.written c) k = lastWrite (w'.vfs.stored c) k := by
  have hinv : w'.Inv := run_invariant (fun hs hstep => Inv.step hs hstep) h.inv hrun
  refine ⟨hinv.slot, fun c c' hc hc' => ?_, fun c hoff => ?_⟩
  · exact Option.some.inj ((hinv.slot c hc).symm.trans (hinv.slot c' hc'))
  · have hsaves := hinv.saves c
    have hdirty := hsaves.disabled hoff
    refine ⟨?_, hdirty, fun k => hsaves.clean k ?_⟩
    · cases hmode : (w'.file c).inTransaction with
      | false => rfl
      | true => exact absurd (hoff.symm.trans (hsaves.enabled hmode)) Bool.false_ne_true
    · rw [dirtyPage_eq_none_iff, hdirty, lastWrite_nil]

end World

/-! ## Two connections -/

namespace TwoConnections

def world : World Bool PageSize.min := ⟨vfs, fun _ => []⟩

theorem opened : world.Opened :=
  ⟨fun _ => rfl, fun _ => rfl, fun _ => rfl, fun _ => rfl, fun _ => rfl, rfl, fun _ => rfl⟩

/-- While one connection writes, the other gets no lock, and the disable of the first waits. -/
def actions : List (Bool × Op PageSize.min) :=
  [(false, .lock .reserved), (false, .writeAt (OnePage.page 2).data 0), (true, .lock .reserved),
    (false, .setWriteEnabled false true none .failed), (false, .unlock .none),
    (false, .wakeDisable none (.stored OnePage.update))]

end TwoConnections

open TwoConnections in
theorem single_writer_sample : ∃ w, run World.step world actions = some w ∧
    (w.file false).writeEnabled = false ∧ (w.file false).dirty = [] ∧
      lastWrite (w.vfs.stored false) 1 = some (OnePage.page 2).data := by
  have hrun : ((run World.step world actions).map fun w => ((w.file false).writeEnabled,
      lastWrite (w.written false) 1)) = some (false, some (OnePage.page 2).data) := by
    decide +kernel
  obtain ⟨w, hw, heq⟩ := Option.map_eq_some_iff.mp hrun
  obtain ⟨hoff, hwritten⟩ := Prod.mk.inj heq
  obtain ⟨-, hdirty, hstored⟩ := (World.single_writer opened hw).2.2 false hoff
  exact ⟨w, hw, hoff, hdirty, (hstored 1).symm.trans hwritten⟩

end Vfs

end Litestream
