import Litestream.Lib.Run
import Litestream.Reader.Resumable

/-!
# The retry budget of the reference reader

The reference `ResumableReader` loops inside `Read` until it has bytes, the end of the object
or a terminal error.  It counts the interruptions of its whole life in `retryN`, and the
reads without bytes and without an error since the last bytes in `noProgressN`.  Its
terminal error is sticky.

A `Ledger` is the account of a log of underlying calls.  It names no counter of the reader:
it classifies each call by what the backend answered.  `retry_accounting` says that in every
run of `Read` calls the counters are those of the ledger, that the fourth interruption and
the fourth read without progress are terminal, and that each `Read` makes at most seven
underlying reads and reopens.
-/

namespace Litestream

namespace Reference

/-! ## The reader -/

/-- What the environment answers to a turn of the loop: the error of the context at its head
and after a failed reopen, and the reply of the storage backend. -/
structure Turn extends Reply where
  ctx : Option ReadError
  ctxAfterReopen : Option ReadError

/-- The terminal errors of a reader. -/
inductive TerminalError where
  | ctx (err : ReadError)
  | reopen (offset : Nat) (err : ReadError)
  | readCount (n : Int) (len : Nat)
  | exceeded (size : Int) (offset : Nat)
  | noProgress (offset : Nat)
  | maxRetries (level minTXID maxTXID offset : Nat) (err : ReadError)
deriving DecidableEq, Repr

/-- The errors that a `Read` returns. -/
inductive ReturnedError where
  | eof
  | terminal (err : TerminalError)
deriving DecidableEq, Repr

/-- `rc` says whether a stream is open. -/
structure ResumableReader where
  level : Nat
  minTXID : Nat
  maxTXID : Nat
  size : Int
  offset : Nat
  rc : Bool
  retryN : Nat
  noProgressN : Nat
  err : Option TerminalError
deriving DecidableEq, Repr

/-- `errors.Is`. -/
def errorIs (target : ReadError) : ReadError → Bool
  | .reopen _ err => errorIs target err
  | err => err == target

namespace ResumableReader

def NewResumableReader (level minTXID maxTXID : Nat) (size : Int) (rc : Bool) :
    ResumableReader :=
  ⟨level, minTXID, maxTXID, size, 0, rc, 0, 0, none⟩

/-- The reader keeps a terminal error and returns it with `n` bytes. -/
def fail (r : ResumableReader) (n : Nat) (err : TerminalError) :
    ResumableReader × Option (Nat × Option ReturnedError) :=
  ({ r with err := some err }, some (n, some (.terminal err)))

/-- Spends a retry, or fails with `n` bytes when none is left; otherwise goes on with `next`. -/
def retry (r : ResumableReader) (n : Nat) (err : ReadError)
    (next : Option (Nat × Option ReturnedError)) :
    ResumableReader × Option (Nat × Option ReturnedError) :=
  let r := { r with retryN := r.retryN + 1 }
  if r.retryN ≤ resumableReaderMaxRetries then (r, next)
  else r.fail n (.maxRetries r.level r.minTXID r.maxTXID r.offset err)

/-- The stream is closed after `n` bytes. -/
def interrupted (r : ResumableReader) (n : Nat) (err : ReadError) :
    ResumableReader × Option (Nat × Option ReturnedError) :=
  retry { r with rc := false } n err (if n > 0 then some (n, none) else none)

/-- A turn of the loop after a read of `n` bytes with `err`. -/
def settle (r : ResumableReader) (n : Nat) (err : Option ReadError) :
    ResumableReader × Option (Nat × Option ReturnedError) :=
  match err with
  | none => (r, some (n, none))
  | some err =>
    if err = .eof then
      if r.size > 0 ∧ (r.offset : Int) < r.size then r.interrupted n .unexpectedEOF
      else (r, some (n, some .eof))
    else r.interrupted n err

/-- A turn of the loop from the underlying read on. -/
def readStream (len : Nat) (r : ResumableReader) (reply : Reply) :
    ResumableReader × Option (Nat × Option ReturnedError) :=
  if reply.n < 0 ∨ reply.n > len then r.fail 0 (.readCount reply.n len)
  else
    let n := reply.n.toNat
    let r := { r with offset := r.offset + n }
    if r.size > 0 ∧ (r.offset : Int) > r.size then r.fail n (.exceeded r.size r.offset)
    else if n = 0 ∧ reply.err = none then
      let r := { r with noProgressN := r.noProgressN + 1 }
      if r.noProgressN > resumableReaderMaxRetries then r.fail 0 (.noProgress r.offset)
      else (r, none)
    else
      settle (if n > 0 then { r with noProgressN := 0 } else r) n reply.err

/-- The error of a reopen that is not retried. -/
def permanent (err : ReadError) (ctx : Option ReadError) : Bool :=
  errorIs .notExist err || errorIs .canceled err || errorIs .deadlineExceeded err || ctx.isSome

/-- One turn of the loop of `Read`; `none` goes on with the next turn. -/
def attempt (len : Nat) (r : ResumableReader) (turn : Turn) :
    ResumableReader × Option (Nat × Option ReturnedError) :=
  match turn.ctx with
  | some err => r.fail 0 (.ctx err)
  | none =>
    if r.rc then r.readStream len turn.toReply
    else
      match turn.reopen with
      | none => { r with rc := true }.readStream len turn.toReply
      | some err =>
        if permanent err turn.ctxAfterReopen then r.fail 0 (.reopen r.offset err)
        else r.retry 0 (.reopen r.offset err) none

end ResumableReader

/-! ## Runs -/

/-- An underlying call and what the backend answers. -/
inductive Call where
  | reopen (err ctx : Option ReadError)
  | read (len : Nat) (n : Int) (err : Option ReadError)
deriving DecidableEq

/-- The calls that a turn makes. -/
def calls (len : Nat) (r : ResumableReader) (turn : Turn) : List Call :=
  if turn.ctx ≠ none then []
  else if r.rc then [.read len turn.n turn.err]
  else .reopen turn.reopen turn.ctxAfterReopen ::
    (if turn.reopen = none then [.read len turn.n turn.err] else [])

/-- A reader, the answers to come, the calls so far and what the last `Read` returned. -/
structure Session where
  reader : ResumableReader
  script : Stream' Turn
  log : List Call
  result : Nat × Option ReturnedError

/-- The turns of a `Read`; `none` when the fuel does not last. -/
def readLoop (len : Nat) : Nat → Session → Option Session
  | 0, _ => none
  | fuel + 1, s =>
    let log := s.log ++ calls len s.reader s.script.head
    match s.reader.attempt len s.script.head with
    | (r, some result) => some ⟨r, s.script.tail, log, result⟩
    | (r, none) => readLoop len fuel ⟨r, s.script.tail, log, s.result⟩

def read (fuel : Nat) (s : Session) (len : Nat) : Option Session :=
  match s.reader.err with
  | some err => some { s with result := (0, some (.terminal err)) }
  | none => if len = 0 then some { s with result := (0, none) } else readLoop len fuel s

/-! ## The ledger -/

/-- The account of a log of underlying calls: the bytes delivered, the interruptions, and the
reads without bytes and without an error since the last read that delivered bytes. -/
structure Ledger where
  delivered : Nat
  interruptions : Nat
  idle : Nat

/-- The read ends too early, or it fails within the advertised size. -/
def Interrupts (size : Int) (delivered : Nat) (err : Option ReadError) : Prop :=
  err = some .eof ∧ size > 0 ∧ (delivered : Int) < size ∨
    err ≠ none ∧ err ≠ some .eof ∧ ¬ (size > 0 ∧ (delivered : Int) > size)

instance (size : Int) (delivered : Nat) (err : Option ReadError) :
    Decidable (Interrupts size delivered err) := by
  unfold Interrupts
  infer_instance

def Ledger.call (size : Int) (l : Ledger) : Call → Ledger
  | .reopen none _ => l
  | .reopen (some err) ctx =>
    if ResumableReader.permanent err ctx then l
    else { l with interruptions := l.interruptions + 1 }
  | .read len n err =>
    if n < 0 ∨ n > len then l
    else
      { delivered := l.delivered + n.toNat
        interruptions :=
          if Interrupts size (l.delivered + n.toNat) err then l.interruptions + 1
          else l.interruptions
        idle := if n.toNat > 0 then 0 else if err = none then l.idle + 1 else l.idle }

def ledger (size : Int) (log : List Call) : Ledger := log.foldl (Ledger.call size) ⟨0, 0, 0⟩

def TerminalError.IsMaxRetries (err : TerminalError) : Prop :=
  ∃ level minTXID maxTXID offset cause, err = .maxRetries level minTXID maxTXID offset cause

def TerminalError.IsNoProgress (err : TerminalError) : Prop := ∃ offset, err = .noProgress offset

/-- The terminal error is that of the account. -/
structure Ledger.Closed (l : Ledger) (err : TerminalError) : Prop where
  interruptions_le : l.interruptions ≤ resumableReaderMaxRetries + 1
  idle_le : l.idle ≤ resumableReaderMaxRetries + 1
  maxRetries : l.interruptions = resumableReaderMaxRetries + 1 ↔ err.IsMaxRetries
  noProgress : l.idle = resumableReaderMaxRetries + 1 ↔ err.IsNoProgress

/-- The counters of a reader that has not failed are those of the account. -/
structure Ledger.Open (l : Ledger) (r : ResumableReader) : Prop where
  delivered : l.delivered = r.offset
  interruptions_le : l.interruptions ≤ resumableReaderMaxRetries
  idle : l.idle = r.noProgressN
  idle_le : l.idle ≤ resumableReaderMaxRetries
  within : ¬ (r.size > 0 ∧ (r.offset : Int) > r.size)

/-- The reader and the account agree. -/
structure Ledger.Balanced (l : Ledger) (r : ResumableReader) : Prop where
  retryN : r.retryN = l.interruptions
  live : r.err = none → l.Open r
  dead : ∀ err, r.err = some err → l.Closed err

/-- The turns that a reader can go on for. -/
def left (r : ResumableReader) : Nat :=
  (resumableReaderMaxRetries - r.retryN) + (resumableReaderMaxRetries - r.noProgressN)

/-- A turn keeps the account, and it returns or spends a turn. -/
structure Turned (r : ResumableReader) (l : Ledger)
    (out : ResumableReader × Option (Nat × Option ReturnedError)) : Prop where
  size : out.1.size = r.size
  balanced : l.Balanced out.1
  again : out.2 = none → out.1.err = none ∧ left out.1 < left r
  returned : ∀ n err, out.2 = some (n, err) →
    ∀ t, out.1.err = some t ↔ err = some (.terminal t)

variable {len fuel : Nat} {r r₀ : ResumableReader} {l : Ledger}

/-- A terminal error of the account ends the reader. -/
theorem Ledger.Closed.fail {err : TerminalError} (h : l.Closed err) (hsize : r.size = r₀.size)
    (hretry : r.retryN = l.interruptions) (n : Nat) : Turned r₀ l (r.fail n err) where
  size := hsize
  balanced := by
    refine ⟨hretry, fun herr => ?_, fun e he => ?_⟩
    · cases herr
    · obtain rfl := Option.some.inj he
      exact h
  again := fun h => by cases h
  returned := by
    rintro n' err' ⟨⟩ t
    simp [ResumableReader.fail]

/-- A terminal error of another kind closes an account in credit. -/
theorem closed_of_other {err : TerminalError} (hint : l.interruptions ≤ resumableReaderMaxRetries)
    (hidle : l.idle ≤ resumableReaderMaxRetries) (hmax : ¬ err.IsMaxRetries)
    (hno : ¬ err.IsNoProgress) : l.Closed err where
  interruptions_le := by omega
  idle_le := by omega
  maxRetries := iff_of_false (by omega) hmax
  noProgress := iff_of_false (by omega) hno

/-- An interruption spends a retry or ends the reader. -/
theorem retry_turned {n : Nat} {err : ReadError} {next : Option (Nat × Option ReturnedError)}
    (hnext : ∀ n e t, next = some (n, e) → e ≠ some (.terminal t)) (hsize : r.size = r₀.size)
    (herr : r.err = none) (hint : l.interruptions = r.retryN + 1)
    (hle : r.retryN ≤ resumableReaderMaxRetries) (hdelivered : l.delivered = r.offset)
    (hidle : l.idle = r.noProgressN) (hidle_le : l.idle ≤ resumableReaderMaxRetries)
    (hwithin : ¬ (r.size > 0 ∧ (r.offset : Int) > r.size))
    (hretry : r.retryN = r₀.retryN) (hprogress : next = none → r.noProgressN = r₀.noProgressN) :
    Turned r₀ l (r.retry n err next) := by
  rw [ResumableReader.retry]
  dsimp only
  split
  · next hlt =>
      have hopen : l.Open { r with retryN := r.retryN + 1 } :=
        ⟨hdelivered, hint ▸ hlt, hidle, hidle_le, hwithin⟩
      refine ⟨hsize, ⟨hint.symm, fun _ => hopen, ?_⟩, ?_, ?_⟩
      · intro e he
        rw [show r.err = some e from he] at herr
        cases herr
      · intro hnone
        refine ⟨herr, ?_⟩
        have hsame := hprogress hnone
        simp only [left]
        omega
      · intro n' err' hout t
        refine iff_of_false (fun ht => ?_) (hnext n' err' t hout)
        rw [show r.err = some t from ht] at herr
        cases herr
  · next hlt =>
      have hclosed : l.Closed (.maxRetries r.level r.minTXID r.maxTXID r.offset err) :=
        { interruptions_le := by omega
          idle_le := by omega
          maxRetries := iff_of_true (by omega) ⟨_, _, _, _, _, rfl⟩
          noProgress := iff_of_false (by omega) (by rintro ⟨offset, ⟨⟩⟩) }
      exact Ledger.Closed.fail (r := { r with retryN := r.retryN + 1 }) hclosed hsize hint.symm n

theorem TerminalError.other_readCount {n : Int} :
    ¬ (readCount n len).IsMaxRetries ∧ ¬ (readCount n len).IsNoProgress :=
  ⟨by rintro ⟨_, _, _, _, _, ⟨⟩⟩, by rintro ⟨_, ⟨⟩⟩⟩

theorem TerminalError.other_exceeded {size : Int} {offset : Nat} :
    ¬ (exceeded size offset).IsMaxRetries ∧ ¬ (exceeded size offset).IsNoProgress :=
  ⟨by rintro ⟨_, _, _, _, _, ⟨⟩⟩, by rintro ⟨_, ⟨⟩⟩⟩

theorem TerminalError.other_ctx {err : ReadError} :
    ¬ (ctx err).IsMaxRetries ∧ ¬ (ctx err).IsNoProgress :=
  ⟨by rintro ⟨_, _, _, _, _, ⟨⟩⟩, by rintro ⟨_, ⟨⟩⟩⟩

theorem TerminalError.other_reopen {offset : Nat} {err : ReadError} :
    ¬ (reopen offset err).IsMaxRetries ∧ ¬ (reopen offset err).IsNoProgress :=
  ⟨by rintro ⟨_, _, _, _, _, ⟨⟩⟩, by rintro ⟨_, ⟨⟩⟩⟩

/-- A turn that returns without a terminal error. -/
theorem returns_turned {out : Option (Nat × Option ReturnedError)}
    (hout : ∃ n e, out = some (n, e) ∧ ∀ t, e ≠ some (.terminal t)) (hsize : r.size = r₀.size)
    (herr : r.err = none) (hretry : r.retryN = l.interruptions) (hopen : l.Open r) :
    Turned r₀ l (r, out) := by
  obtain ⟨n, e, rfl, hterminal⟩ := hout
  refine ⟨hsize, ⟨hretry, fun _ => hopen, ?_⟩, (by rintro ⟨⟩), ?_⟩
  · intro t ht
    rw [herr] at ht
    cases ht
  · rintro n' e' ⟨⟩ t
    refine iff_of_false (fun ht => ?_) (hterminal t)
    rw [show r.err = some t from ht] at herr
    cases herr

/-- What follows the counts of an underlying read keeps the account. -/
theorem settle_turned {n : Nat} {err : Option ReadError} (hsize : r.size = r₀.size)
    (herr : r.err = none) (hretry : r.retryN = l.interruptions) (hopen : l.Open r)
    (hcount : r.retryN = r₀.retryN) (hidle : n = 0 → r.noProgressN = r₀.noProgressN) :
    Turned r₀
      { l with
        interruptions :=
          if Interrupts r.size r.offset err then l.interruptions + 1 else l.interruptions }
      (r.settle n err) := by
  have hinterrupted : ∀ e, Turned r₀ { l with interruptions := l.interruptions + 1 }
      (r.interrupted n e) := by
    intro e
    refine retry_turned ?_ hsize herr (by rw [hretry]) (hretry ▸ hopen.interruptions_le)
      hopen.delivered hopen.idle hopen.idle_le hopen.within hcount ?_
    · intro n' e' t hnext
      split at hnext
      · obtain ⟨rfl, rfl⟩ := Prod.mk.inj (Option.some.inj hnext)
        simp
      · cases hnext
    · intro hnext
      split at hnext
      · cases hnext
      · next hn => exact hidle (Nat.eq_zero_of_not_pos hn)
  have hreturns : ∀ e, (∀ t, e ≠ some (.terminal t)) → Turned r₀ l (r, some (n, e)) :=
    fun e he => returns_turned ⟨n, e, rfl, he⟩ hsize herr hretry hopen
  cases err with
  | none =>
      rw [ResumableReader.settle, if_neg (by simp [Interrupts])]
      exact hreturns none (by simp)
  | some err =>
      rw [ResumableReader.settle]
      by_cases heof : err = .eof
      · rw [if_pos heof]
        by_cases hearly : r.size > 0 ∧ (r.offset : Int) < r.size
        · have hcounts : Interrupts r.size r.offset (some err) := Or.inl ⟨by rw [heof], hearly⟩
          rw [if_pos hearly, if_pos hcounts]
          exact hinterrupted _
        · rw [if_neg hearly, if_neg (by simp [Interrupts, heof, hearly])]
          exact hreturns _ (by simp)
      · have hcounts : Interrupts r.size r.offset (some err) :=
          Or.inr ⟨by simp, by simpa using heof, hopen.within⟩
        rw [if_neg heof, if_pos hcounts]
        exact hinterrupted _

/-- An underlying read keeps the account. -/
theorem readStream_turned {reply : Reply} (herr : r.err = none) (hopen : l.Open r)
    (hretry : r.retryN = l.interruptions) (hsize : r.size = r₀.size)
    (hcount : r.retryN = r₀.retryN) (hprogress : r.noProgressN = r₀.noProgressN) :
    Turned r₀ (l.call r.size (.read len reply.n reply.err)) (r.readStream len reply) := by
  obtain ⟨hdelivered, hint, hidle, hidle_le, hwithin⟩ := hopen
  rw [ResumableReader.readStream, Ledger.call]
  by_cases hvalid : reply.n < 0 ∨ reply.n > len
  · rw [if_pos hvalid, if_pos hvalid]
    exact (closed_of_other hint hidle_le TerminalError.other_readCount.1
      TerminalError.other_readCount.2).fail hsize hretry 0
  rw [if_neg hvalid, if_neg hvalid, hdelivered]
  dsimp only
  generalize reply.n.toNat = n
  by_cases hover : r.size > 0 ∧ ((r.offset + n : Nat) : Int) > r.size
  · -- the stream goes on past the advertised size
    have hno : ¬ Interrupts r.size (r.offset + n) reply.err := by
      rintro (⟨-, -, hlt⟩ | ⟨-, -, hle⟩)
      · omega
      · exact hle hover
    have hpos : n > 0 := by omega
    rw [if_pos hover, if_neg hno, if_pos hpos]
    have hclosed : Ledger.Closed ⟨r.offset + n, l.interruptions, 0⟩
        (.exceeded r.size (r.offset + n)) :=
      closed_of_other hint (Nat.zero_le _) TerminalError.other_exceeded.1
        TerminalError.other_exceeded.2
    exact Ledger.Closed.fail (r := { r with offset := r.offset + n }) hclosed hsize hretry n
  rw [if_neg hover]
  by_cases hstill : n = 0 ∧ reply.err = none
  · -- neither bytes nor an error
    obtain ⟨rfl, hnone⟩ := hstill
    rw [hnone, if_neg (by simp [Interrupts]), if_neg (Nat.lt_irrefl 0), if_pos rfl,
      if_pos ⟨rfl, rfl⟩]
    split
    · next hlt =>
        have hclosed : Ledger.Closed ⟨r.offset + 0, l.interruptions, l.idle + 1⟩
            (.noProgress (r.offset + 0)) :=
          { interruptions_le := by dsimp only; omega
            idle_le := by dsimp only; omega
            maxRetries := iff_of_false (by dsimp only; omega) (by rintro ⟨_, _, _, _, _, ⟨⟩⟩)
            noProgress := iff_of_true (by dsimp only; omega) ⟨_, rfl⟩ }
        exact Ledger.Closed.fail (r := { r with noProgressN := r.noProgressN + 1 }) hclosed hsize
          hretry 0
    · next hlt =>
        have hopen : Ledger.Open ⟨r.offset + 0, l.interruptions, l.idle + 1⟩
            { r with noProgressN := r.noProgressN + 1 } :=
          ⟨rfl, hint, congrArg (· + 1) hidle, by dsimp only; omega, hwithin⟩
        refine ⟨hsize, ⟨hretry, fun _ => hopen, ?_⟩, fun _ => ⟨herr, ?_⟩, ?_⟩
        · intro t ht
          rw [show r.err = some t from ht] at herr
          cases herr
        · simp only [left]
          omega
        · rintro n' e' ⟨⟩
  rw [if_neg hstill]
  by_cases hpos : n > 0
  · rw [if_pos hpos, if_pos hpos]
    exact settle_turned (r := { r with offset := r.offset + n, noProgressN := 0 })
      (l := ⟨r.offset + n, l.interruptions, 0⟩) hsize herr hretry
      ⟨rfl, hint, rfl, Nat.zero_le _, hover⟩ hcount (fun hn => absurd hn hpos.ne')
  · obtain rfl := Nat.eq_zero_of_not_pos hpos
    have herr' : reply.err ≠ none := fun hnone => hstill ⟨rfl, hnone⟩
    rw [if_neg hpos, if_neg hpos, if_neg herr']
    exact settle_turned (r := { r with offset := r.offset + 0 })
      (l := ⟨r.offset + 0, l.interruptions, l.idle⟩) hsize herr hretry
      ⟨rfl, hint, hidle, hidle_le, hover⟩ hcount (fun _ => hprogress)

/-- A turn keeps the account. -/
theorem attempt_turned (len : Nat) (turn : Turn) (herr : r.err = none) (hbalanced : l.Balanced r) :
    Turned r ((calls len r turn).foldl (Ledger.call r.size) l) (r.attempt len turn) := by
  have hopen := hbalanced.live herr
  have hretry := hbalanced.retryN
  rw [ResumableReader.attempt, calls]
  cases hctx : turn.ctx with
  | some err =>
      rw [if_pos (by simp)]
      exact (closed_of_other hopen.interruptions_le hopen.idle_le TerminalError.other_ctx.1
        TerminalError.other_ctx.2).fail rfl hretry 0
  | none =>
      rw [if_neg (by simp)]
      dsimp only
      by_cases hrc : r.rc = true
      · rw [if_pos hrc, if_pos hrc]
        exact readStream_turned herr hopen hretry rfl rfl rfl
      rw [if_neg hrc, if_neg hrc]
      cases hreopen : turn.reopen with
      | none =>
          rw [if_pos rfl]
          exact readStream_turned (r := { r with rc := true }) herr
            ⟨hopen.delivered, hopen.interruptions_le, hopen.idle, hopen.idle_le, hopen.within⟩
            hretry rfl rfl rfl
      | some err =>
          rw [if_neg (by simp)]
          dsimp only
          by_cases hpermanent : ResumableReader.permanent err turn.ctxAfterReopen = true
          · rw [if_pos hpermanent]
            simp only [List.foldl, Ledger.call]
            rw [if_pos hpermanent]
            exact (closed_of_other hopen.interruptions_le hopen.idle_le
              TerminalError.other_reopen.1 TerminalError.other_reopen.2).fail rfl hretry 0
          · rw [if_neg hpermanent]
            simp only [List.foldl, Ledger.call]
            rw [if_neg hpermanent]
            exact retry_turned (by rintro n e t ⟨⟩) rfl herr (by rw [hretry])
              (hretry ▸ hopen.interruptions_le) hopen.delivered hopen.idle hopen.idle_le
              hopen.within rfl (fun _ => rfl)

/-! ## Runs of `Read` calls -/

/-- Whether the call is an underlying read, and not a reopen. -/
def Call.isRead : Call → Bool
  | .reopen .. => false
  | .read .. => true

/-- The most turns that a `Read` takes. -/
def maxTurns : Nat := 2 * resumableReaderMaxRetries + 1

/-- The reader of a session and the account of its log agree. -/
def Session.Balanced (s : Session) : Prop :=
  (ledger s.reader.size s.log).Balanced s.reader

/-- What a `Read` does to a session.

* A terminal error is kept, and the call that meets it returns it.
* A reader that has failed returns its error and calls nothing.
* Retries are never refunded.
* The underlying reads and reopens of the call are bounded. -/
structure Answered (s s' : Session) : Prop where
  balanced : s'.Balanced
  terminal : ∀ t, s'.reader.err = some t ↔ s'.result.2 = some (.terminal t)
  sticky : ∀ t, s.reader.err = some t → s' = { s with result := (0, some (.terminal t)) }
  spent : s.reader.retryN ≤ s'.reader.retryN
  bounded : ∃ new, s'.log = s.log ++ new ∧ (new.filter Call.isRead).length ≤ maxTurns ∧
    (new.filter fun c => !c.isRead).length ≤ maxTurns

variable {s : Session}

theorem length_calls (len : Nat) (r : ResumableReader) (turn : Turn) :
    ((calls len r turn).filter Call.isRead).length ≤ 1 ∧
      ((calls len r turn).filter fun c => !c.isRead).length ≤ 1 := by
  rw [calls]
  split_ifs <;> simp [List.filter_cons, Call.isRead]

/-- Calls never lower the interruptions of an account. -/
theorem interruptions_le_call (size : Int) (l : Ledger) (c : Call) :
    l.interruptions ≤ (l.call size c).interruptions := by
  cases c with
  | reopen err ctx =>
      cases err with
      | none => exact le_rfl
      | some err =>
          rw [Ledger.call]
          split
          · exact le_rfl
          · exact Nat.le_succ _
  | read len n err =>
      rw [Ledger.call]
      split
      · exact le_rfl
      · dsimp only
        split
        · exact Nat.le_succ _
        · exact le_rfl

theorem interruptions_le_foldl (size : Int) (l : Ledger) (log : List Call) :
    l.interruptions ≤ (log.foldl (Ledger.call size) l).interruptions := by
  induction log generalizing l with
  | nil => exact le_rfl
  | cons c log ih => exact (interruptions_le_call size l c).trans (ih _)

/-- With fuel for the turns that are left, the loop of a `Read` returns. -/
theorem readLoop_answered (len : Nat) (herr : s.reader.err = none) (hs : s.Balanced)
    (hfuel : left s.reader < fuel) : ∃ s', readLoop len fuel s = some s' ∧ s'.Balanced ∧
      (∀ t, s'.reader.err = some t ↔ s'.result.2 = some (.terminal t)) ∧
      s.reader.retryN ≤ s'.reader.retryN ∧
      ∃ new, s'.log = s.log ++ new ∧ (new.filter Call.isRead).length ≤ left s.reader + 1 ∧
        (new.filter fun c => !c.isRead).length ≤ left s.reader + 1 := by
  induction fuel generalizing s with
  | zero => exact absurd hfuel (Nat.not_lt_zero _)
  | succ fuel ih =>
      have hturned := attempt_turned len s.script.head herr hs
      have hbalanced : (ledger (s.reader.attempt len s.script.head).1.size
          (s.log ++ calls len s.reader s.script.head)).Balanced
          (s.reader.attempt len s.script.head).1 := by
        rw [ledger, List.foldl_append, hturned.size]
        exact hturned.balanced
      have hspent : s.reader.retryN ≤ (s.reader.attempt len s.script.head).1.retryN := by
        rw [hturned.balanced.retryN, hs.retryN]
        exact interruptions_le_foldl _ _ _
      obtain ⟨hreads, hreopens⟩ := length_calls len s.reader s.script.head
      rw [readLoop]
      rcases hout : s.reader.attempt len s.script.head with ⟨r, _ | result⟩
      · rw [hout] at hturned hbalanced hspent
        obtain ⟨herr', hleft⟩ := hturned.again rfl
        obtain ⟨s', hs', hbal', hterm, hspent', new, hlog, hreads', hreopens'⟩ :=
          ih (s := ⟨r, s.script.tail, s.log ++ calls len s.reader s.script.head, s.result⟩)
            herr' hbalanced (by dsimp only at hleft ⊢; omega)
        refine ⟨s', hs', hbal', hterm, hspent.trans hspent',
          calls len s.reader s.script.head ++ new, ?_, ?_, ?_⟩
        · rw [hlog, List.append_assoc]
        · rw [List.filter_append, List.length_append]
          dsimp only at hleft hreads'
          omega
        · rw [List.filter_append, List.length_append]
          dsimp only at hleft hreopens'
          omega
      · rw [hout] at hturned hbalanced hspent
        refine ⟨_, rfl, hbalanced, ?_, hspent, _, rfl, ?_, ?_⟩
        · exact hturned.returned result.1 result.2 rfl
        · omega
        · omega

/-- Every `Read` of a session in balance returns. -/
theorem read_answered (extra : Nat) (hs : s.Balanced) (len : Nat) :
    ∃ s', read (maxTurns + extra) s len = some s' ∧ Answered s s' := by
  rw [read]
  cases herr : s.reader.err with
  | some err =>
      refine ⟨_, rfl, hs, fun t => ?_, fun t ht => ?_, le_rfl, [], by simp, by simp, by simp⟩
      · rw [herr]
        simp
      · obtain rfl := Option.some.inj (herr.symm.trans ht)
        rfl
  | none =>
      dsimp only
      split
      · refine ⟨_, rfl, hs, fun t => ?_, fun t ht => ?_, le_rfl, [], by simp, by simp, by simp⟩
        · rw [herr]
          simp
        · rw [herr] at ht
          cases ht
      · have hleft : left s.reader + 1 ≤ maxTurns := by
          simp only [left, maxTurns]
          omega
        have hfuel : left s.reader < maxTurns + extra := by omega
        obtain ⟨s', hs', hbal, hterm, hspent, new, hlog, hreads, hreopens⟩ :=
          readLoop_answered len herr hs hfuel
        refine ⟨s', hs', hbal, hterm, fun t ht => ?_, hspent, new, hlog, by omega, by omega⟩
        rw [herr] at ht
        cases ht

/-- A reader at the start of the object, before any call. -/
def Session.start (level minTXID maxTXID : Nat) (size : Int) (rc : Bool)
    (script : Stream' Turn) : Session :=
  ⟨.NewResumableReader level minTXID maxTXID size rc, script, [], (0, none)⟩

theorem Session.start_balanced (level minTXID maxTXID : Nat) (size : Int) (rc : Bool)
    (script : Stream' Turn) : (start level minTXID maxTXID size rc script).Balanced where
  retryN := rfl
  live := fun _ => ⟨rfl, Nat.zero_le _, rfl, Nat.zero_le _, fun h => absurd h.2 (by
    simpa [start, ResumableReader.NewResumableReader] using h.1.le)⟩
  dead := fun err herr => by cases herr

/-- The counters of the reader are those of its log.

* Every interruption and every transient reopen failure consumes one retry.
* There are at most three of them besides the terminal one.
* The terminal one ends the reader, and so does the fourth read without progress. -/
structure Accounted (s : Session) : Prop where
  credits : s.reader.retryN = (ledger s.reader.size s.log).interruptions
  interruptions_le :
    (ledger s.reader.size s.log).interruptions ≤ resumableReaderMaxRetries + 1
  exhausted : (ledger s.reader.size s.log).interruptions = resumableReaderMaxRetries + 1 ↔
    ∃ err, s.reader.err = some err ∧ err.IsMaxRetries
  stalled : (ledger s.reader.size s.log).idle > resumableReaderMaxRetries ↔
    ∃ err, s.reader.err = some err ∧ err.IsNoProgress

theorem Session.Balanced.accounted (h : s.Balanced) : Accounted s := by
  cases herr : s.reader.err with
  | none =>
      have hopen := h.live herr
      have hint := hopen.interruptions_le
      have hidle := hopen.idle_le
      refine ⟨h.retryN, by omega, iff_of_false (by omega) ?_, iff_of_false (by omega) ?_⟩
      · rintro ⟨err, hsome, -⟩
        rw [herr] at hsome
        cases hsome
      · rintro ⟨err, hsome, -⟩
        rw [herr] at hsome
        cases hsome
  | some err =>
      have hclosed := h.dead err herr
      have hidle := hclosed.idle_le
      refine ⟨h.retryN, hclosed.interruptions_le, hclosed.maxRetries.trans ?_, ?_⟩
      · simp [herr]
      · rw [show (ledger s.reader.size s.log).idle > resumableReaderMaxRetries ↔
            (ledger s.reader.size s.log).idle = resumableReaderMaxRetries + 1 by omega,
          hclosed.noProgress]
        simp [herr]

/-- After every run of `Read` calls the retries are accounted for, and every further `Read`
returns after a bounded number of underlying calls. -/
theorem retry_accounting (extra level minTXID maxTXID : Nat) (size : Int) (rc : Bool)
    (script : Stream' Turn) (lens : List Nat) :
    ∃ s, Run.run (read (maxTurns + extra)) (.start level minTXID maxTXID size rc script) lens =
        some s ∧
      Accounted s ∧ ∀ len, ∃ s', read (maxTurns + extra) s len = some s' ∧ Answered s s' := by
  have hrun : ∀ s₀ : Session, s₀.Balanced →
      ∃ s, Run.run (read (maxTurns + extra)) s₀ lens = some s ∧ s.Balanced := by
    induction lens with
    | nil => exact fun s₀ hs => ⟨s₀, rfl, hs⟩
    | cons len lens ih =>
        intro s₀ hs
        obtain ⟨s₁, hread, hanswered⟩ := read_answered extra hs len
        obtain ⟨s, hrest, hbal⟩ := ih s₁ hanswered.balanced
        exact ⟨s, Run.run_cons_eq_some.mpr ⟨s₁, hread, hrest⟩, hbal⟩
  obtain ⟨s, hrun, hbal⟩ := hrun _ (Session.start_balanced ..)
  exact ⟨s, hrun, hbal.accounted, read_answered extra hbal⟩

end Reference

end Litestream
