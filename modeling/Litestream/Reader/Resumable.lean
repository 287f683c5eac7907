import Mathlib
import Litestream.Lib.Bytes

/-!
# The resumable reader

A restore reads each LTX object through a `ResumableReader`.  When the underlying stream
fails or ends early, the reader closes it and reopens the object from the offset that it
has reached.  It asks for one byte before that offset (`resumeOffset`) and does not drop
this byte again.

The storage backend is a script of replies, one for each attempt of a `Read`.  An
underlying stream yields the bytes of the object from its position on, as many of them as
the reply and the buffer allow.

`byteExact_iff` says for which scripts the bytes of the `Read` calls are those of the
object: for those in which no stream that was reopened at a positive offset yields a byte.
-/

namespace Litestream

/-! ## The storage backend -/

/-- The errors of the storage backend, and those that the readers wrap them in. -/
inductive ReadError where
  | eof
  | notExist
  | canceled
  | deadlineExceeded
  | unexpectedEOF
  | other
  | reopen (offset : Nat) (err : ReadError)
  | maxRetries (level minTXID maxTXID offset : Nat)
deriving DecidableEq, Repr

/-- What the storage backend answers to an attempt: whether the object can be reopened, and
what the underlying read reports. -/
structure Reply where
  reopen : Option ReadError
  n : Int
  err : Option ReadError
deriving DecidableEq, Repr

/-- The bytes that an underlying read copies into a buffer of `len` bytes. -/
def Reply.data (reply : Reply) (object : Bytes) (pos len : Nat) : Bytes :=
  object.readAt pos (min reply.n.toNat len)

/-! ## The reader -/

/-- `rc` is the position of the open stream in the object. -/
structure ResumableReader where
  level : Nat
  minTXID : Nat
  maxTXID : Nat
  size : Int
  offset : Nat
  rc : Option Nat
deriving DecidableEq, Repr

def resumableReaderMaxRetries : Nat := 3

/-- What a `Read` leaves and returns. -/
structure ReadResult where
  reader : ResumableReader
  script : Stream' Reply
  data : Bytes
  err : Option ReadError

namespace ResumableReader

def NewResumableReader (level minTXID maxTXID : Nat) (size : Int) (rc : Option Nat) :
    ResumableReader :=
  ⟨level, minTXID, maxTXID, size, 0, rc⟩

def resumeOffset (r : ResumableReader) : Nat := if r.offset > 0 then r.offset - 1 else r.offset

/-- The position of the stream that an attempt reads from. -/
def connect (r : ResumableReader) (reply : Reply) : Except ReadError Nat :=
  match r.rc with
  | some pos => .ok pos
  | none =>
    match reply.reopen with
    | some err => .error (.reopen r.offset err)
    | none => .ok r.resumeOffset

/-- The reader after an underlying read of `data`. -/
def advance (r : ResumableReader) (pos : Nat) (data : Bytes) : ResumableReader :=
  { r with offset := r.offset + data.length, rc := some (pos + data.length) }

/-- One turn of the loop of `Read`; `none` goes on with the next turn. -/
def attempt (object : Bytes) (len : Nat) (r : ResumableReader) (reply : Reply) :
    ResumableReader × Option (Bytes × Option ReadError) :=
  match r.connect reply with
  | .error err => (r, some ([], some err))
  | .ok pos =>
    let data := reply.data object pos len
    let r' := r.advance pos data
    match reply.err with
    | none => (r', some (data, none))
    | some err =>
      if err = .eof ∧ ¬ (r'.size > 0 ∧ r'.offset < r'.size) then (r', some (data, some .eof))
      else ({ r' with rc := none }, if 0 < data.length then some (data, none) else none)

/-- The turns of a `Read` that are left. -/
def readLoop (object : Bytes) (len : Nat) :
    Nat → ResumableReader → Stream' Reply → ReadResult
  | 0, r, script =>
    ⟨r, script, [], some (.maxRetries r.level r.minTXID r.maxTXID r.offset)⟩
  | turns + 1, r, script =>
    match attempt object len r script.head with
    | (r', some (data, err)) => ⟨r', script.tail, data, err⟩
    | (r', none) => readLoop object len turns r' script.tail

def read (object : Bytes) (len : Nat) (r : ResumableReader) (script : Stream' Reply) :
    ReadResult :=
  readLoop object len (resumableReaderMaxRetries + 1) r script

/-- What successive `Read` calls with buffers of these lengths return. -/
def reads (object : Bytes) :
    ResumableReader → Stream' Reply → List Nat → List (Bytes × Option ReadError)
  | _, _, [] => []
  | r, script, len :: lens =>
    let result := r.read object len script
    (result.data, result.err) :: reads object result.reader result.script lens

/-- After each call the bytes of the calls so far are a prefix of the object, and if the call
reports the end of an object of the advertised size, they are the object. -/
def ByteExact (object : Bytes) (size : Int) : Bytes → List (Bytes × Option ReadError) → Prop
  | _, [] => True
  | out, (data, err) :: results =>
    (out ++ data <+: object ∧
      (err = some .eof → size = object.length → out ++ data = object)) ∧
    ByteExact object size (out ++ data) results

/-! ## Overlaps -/

/-- The attempt reads a byte from a stream that is not at the offset of the reader. -/
def Overlaps (object : Bytes) (len : Nat) (r : ResumableReader) (reply : Reply) : Prop :=
  ∃ pos, r.connect reply = .ok pos ∧ pos ≠ r.offset ∧ reply.data object pos len ≠ []

/-- No turn of a `Read` overlaps. -/
def LoopUndisturbed (object : Bytes) (len : Nat) :
    Nat → ResumableReader → Stream' Reply → Prop
  | 0, _, _ => True
  | turns + 1, r, script =>
    ¬ Overlaps object len r script.head ∧
      ((attempt object len r script.head).2 = none →
        LoopUndisturbed object len turns (attempt object len r script.head).1 script.tail)

/-- No turn of successive `Read` calls overlaps. -/
def Undisturbed (object : Bytes) : ResumableReader → Stream' Reply → List Nat → Prop
  | _, _, [] => True
  | r, script, len :: lens =>
    LoopUndisturbed object len (resumableReaderMaxRetries + 1) r script ∧
      Undisturbed object (r.read object len script).reader (r.read object len script).script lens

/-- The open stream is at the offset or one byte before it. -/
structure Near (object : Bytes) (r : ResumableReader) : Prop where
  le : r.offset ≤ object.length
  rc : ∀ pos, r.rc = some pos → pos = r.offset ∨ pos + 1 = r.offset

variable {object other : Bytes} {len turns : Nat} {r : ResumableReader} {reply : Reply}
  {script : Stream' Reply}

theorem Near.congr (h : r.Near object) (hlen : other.length = object.length) : r.Near other :=
  ⟨hlen ▸ h.le, h.rc⟩

theorem connect_near (h : r.Near object) {pos : Nat} (hpos : r.connect reply = .ok pos) :
    pos = r.offset ∨ pos + 1 = r.offset := by
  rw [connect] at hpos
  cases hrc : r.rc with
  | some p =>
      rw [hrc] at hpos
      obtain rfl := Except.ok.inj hpos
      exact h.rc p hrc
  | none =>
      rw [hrc] at hpos
      cases hopen : reply.reopen with
      | some err => rw [hopen] at hpos; cases hpos
      | none =>
          rw [hopen] at hpos
          obtain rfl := Except.ok.inj hpos
          simp only [resumeOffset]
          split <;> omega

/-- The bytes that a turn returns. -/
def returned (out : Option (Bytes × Option ReadError)) : Bytes := (out.map Prod.fst).getD []

/-- Everything a turn does. -/
theorem attempt_cases (object : Bytes) (len : Nat) (r : ResumableReader) (reply : Reply) :
    (∃ err, r.connect reply = .error (.reopen r.offset err) ∧
      attempt object len r reply = (r, some ([], some (.reopen r.offset err)))) ∨
    ∃ pos, r.connect reply = .ok pos ∧
      (attempt object len r reply =
          (r.advance pos (reply.data object pos len), some (reply.data object pos len, none)) ∨
        ¬ (r.size > 0 ∧ (r.offset + (reply.data object pos len).length : Nat) < r.size) ∧
          attempt object len r reply =
            (r.advance pos (reply.data object pos len),
              some (reply.data object pos len, some .eof)) ∨
        attempt object len r reply =
          ({ r.advance pos (reply.data object pos len) with rc := none },
            if 0 < (reply.data object pos len).length then
              some (reply.data object pos len, none) else none)) := by
  rw [attempt]
  cases hconnect : r.connect reply with
  | error err =>
      rw [connect] at hconnect
      cases hrc : r.rc with
      | some p => rw [hrc] at hconnect; cases hconnect
      | none =>
          rw [hrc] at hconnect
          cases hopen : reply.reopen with
          | none => rw [hopen] at hconnect; cases hconnect
          | some e =>
              rw [hopen] at hconnect
              obtain rfl := Except.error.inj hconnect
              exact Or.inl ⟨e, rfl, rfl⟩
  | ok pos =>
      refine Or.inr ⟨pos, rfl, ?_⟩
      cases herr : reply.err with
      | none => exact Or.inl rfl
      | some err =>
          dsimp only
          split
          · next hend => exact Or.inr (Or.inl ⟨hend.2, rfl⟩)
          · exact Or.inr (Or.inr rfl)

/-- A turn that goes on has read nothing. -/
theorem attempt_again (hagain : (attempt object len r reply).2 = none) :
    (attempt object len r reply).1.offset = r.offset := by
  rcases attempt_cases object len r reply with ⟨err, -, heq⟩ | ⟨pos, -, heq | ⟨-, heq⟩ | heq⟩
  · rw [heq] at hagain
    cases hagain
  · rw [heq] at hagain
    cases hagain
  · rw [heq] at hagain
    cases hagain
  · rw [heq] at hagain ⊢
    split at hagain
    · cases hagain
    · next hlen => simp [advance, Nat.eq_zero_of_not_pos hlen]

/-- A turn that does not overlap returns the bytes of the object at the offset. -/
theorem Near.attempt (h : r.Near object) (hlap : ¬ Overlaps object len r reply) :
    object.take r.offset ++ returned (attempt object len r reply).2 =
        object.take (attempt object len r reply).1.offset ∧
      (attempt object len r reply).1.Near object ∧
      (attempt object len r reply).1.size = r.size ∧
      ∀ data, (attempt object len r reply).2 = some (data, some .eof) →
        ¬ (r.size > 0 ∧ ((attempt object len r reply).1.offset : Int) < r.size) := by
  rcases attempt_cases object len r reply with ⟨err, -, heq⟩ | ⟨pos, hpos, hcases⟩
  · rw [heq]
    refine ⟨by simp [returned], h, rfl, fun data hdata => ?_⟩
    simp at hdata
  · -- the stream is at the offset, or it yields nothing
    have hdata : object.take r.offset ++ reply.data object pos len =
          object.take (r.offset + (reply.data object pos len).length) ∧
        r.offset + (reply.data object pos len).length ≤ object.length := by
      rcases eq_or_ne (reply.data object pos len) [] with hnil | hne
      · rw [hnil]
        exact ⟨by simp, by simpa using h.le⟩
      · obtain rfl : pos = r.offset := by
          by_contra hpos'
          exact hlap ⟨pos, hpos, hpos', hne⟩
        refine ⟨Bytes.take_append_readAt .., ?_⟩
        have hle := h.le
        rw [Reply.data, Bytes.length_readAt]
        omega
    have hrc := connect_near h hpos
    rcases hcases with heq | ⟨hend, heq⟩ | heq
    · rw [heq]
      refine ⟨hdata.1, ⟨hdata.2, fun p hp => ?_⟩, rfl, fun data hdata => by simp at hdata⟩
      obtain rfl := Option.some.inj hp
      simp only [advance]
      omega
    · rw [heq]
      refine ⟨hdata.1, ⟨hdata.2, fun p hp => ?_⟩, rfl, fun data _ => hend⟩
      obtain rfl := Option.some.inj hp
      simp only [advance]
      omega
    · rw [heq]
      refine ⟨?_, ⟨hdata.2, fun p hp => by cases hp⟩, rfl, fun data hdata => ?_⟩
      · split
        · exact hdata.1
        · next hlen =>
            have hnil := List.eq_nil_of_length_eq_zero (Nat.eq_zero_of_not_pos hlen)
            simp [returned, advance, hnil]
      · split at hdata <;> simp at hdata

/-! ## The control flow depends on the length of the object only -/

theorem length_data (hlen : other.length = object.length) (pos : Nat) :
    (reply.data other pos len).length = (reply.data object pos len).length := by
  rw [Reply.data, Reply.data, Bytes.length_readAt, Bytes.length_readAt, hlen]

theorem attempt_shape (len : Nat) (r : ResumableReader) (reply : Reply)
    (hlen : other.length = object.length) :
    (attempt other len r reply).1 = (attempt object len r reply).1 ∧
      ((attempt other len r reply).2 = none ↔ (attempt object len r reply).2 = none) := by
  rw [attempt, attempt]
  cases hconnect : r.connect reply with
  | error err => exact ⟨rfl, by simp⟩
  | ok pos =>
      have hadvance : r.advance pos (reply.data other pos len) =
          r.advance pos (reply.data object pos len) := by
        rw [advance, advance, length_data hlen]
      cases herr : reply.err with
      | none => exact ⟨hadvance, by simp⟩
      | some err =>
          dsimp only
          rw [hadvance, length_data hlen]
          split
          · exact ⟨rfl, by simp⟩
          · refine ⟨rfl, ?_⟩
            split <;> simp

theorem overlaps_shape (hlen : other.length = object.length) :
    Overlaps other len r reply ↔ Overlaps object len r reply := by
  simp only [Overlaps, ← List.length_pos_iff, length_data hlen]

theorem readLoop_succ (object : Bytes) (len turns : Nat) (r : ResumableReader)
    (script : Stream' Reply) :
    ((attempt object len r script.head).2 = none ∧
        readLoop object len (turns + 1) r script =
          readLoop object len turns (attempt object len r script.head).1 script.tail) ∨
      ∃ data err, (attempt object len r script.head).2 = some (data, err) ∧
        readLoop object len (turns + 1) r script =
          ⟨(attempt object len r script.head).1, script.tail, data, err⟩ := by
  rw [readLoop]
  rcases attempt object len r script.head with ⟨r', _ | ⟨data, err⟩⟩
  · exact Or.inl ⟨rfl, rfl⟩
  · exact Or.inr ⟨data, err, rfl, rfl⟩

theorem readLoop_shape (r : ResumableReader) (script : Stream' Reply)
    (hlen : other.length = object.length) :
    (readLoop other len turns r script).reader = (readLoop object len turns r script).reader ∧
      (readLoop other len turns r script).script = (readLoop object len turns r script).script := by
  induction turns generalizing r script with
  | zero => exact ⟨rfl, rfl⟩
  | succ turns ih =>
      obtain ⟨hreader, hnone⟩ := attempt_shape len r script.head hlen
      rcases readLoop_succ object len turns r script with ⟨hagain, heq⟩ | ⟨data, err, hout, heq⟩
      · rcases readLoop_succ other len turns r script with ⟨-, heq'⟩ | ⟨data', err', hout', -⟩
        · rw [heq, heq', hreader]
          exact ih _ _
        · rw [hnone.mpr hagain] at hout'
          cases hout'
      · rcases readLoop_succ other len turns r script with ⟨hagain', -⟩ | ⟨data', err', -, heq'⟩
        · rw [hnone.mp hagain'] at hout
          cases hout
        · rw [heq, heq', hreader]
          exact ⟨rfl, rfl⟩

theorem loopUndisturbed_shape (hlen : other.length = object.length) :
    LoopUndisturbed other len turns r script ↔ LoopUndisturbed object len turns r script := by
  induction turns generalizing r script with
  | zero => exact Iff.rfl
  | succ turns ih =>
      obtain ⟨hreader, hnone⟩ := attempt_shape len r script.head hlen
      rw [LoopUndisturbed, LoopUndisturbed, overlaps_shape hlen, hreader, hnone, ih]

/-! ## One `Read` -/

/-- A `Read` without overlaps returns the bytes of the object at the offset. -/
theorem Near.readLoop (h : r.Near object) (hlap : LoopUndisturbed object len turns r script) :
    object.take r.offset ++ (readLoop object len turns r script).data =
        object.take (readLoop object len turns r script).reader.offset ∧
      (readLoop object len turns r script).reader.Near object ∧
      (readLoop object len turns r script).reader.size = r.size ∧
      ((readLoop object len turns r script).err = some .eof →
        ¬ (r.size > 0 ∧
          ((readLoop object len turns r script).reader.offset : Int) < r.size)) := by
  induction turns generalizing r script with
  | zero => exact ⟨by simp [ResumableReader.readLoop], h, rfl, fun herr => by cases herr⟩
  | succ turns ih =>
      obtain ⟨hfirst, hrest⟩ := hlap
      obtain ⟨hdata, hnear, hsize, hend⟩ := h.attempt hfirst
      rcases readLoop_succ object len turns r script with ⟨hagain, heq⟩ | ⟨data, err, hout, heq⟩
      · rw [heq]
        rw [hagain] at hdata
        obtain ⟨hdata', hnear', hsize', hend'⟩ := ih hnear (hrest hagain)
        rw [hsize] at hsize' hend'
        refine ⟨?_, hnear', hsize', hend'⟩
        rw [← hdata', ← hdata]
        simp [returned]
      · rw [heq]
        rw [hout] at hdata hend
        refine ⟨hdata, hnear, hsize, fun herr => ?_⟩
        exact hend data (by rw [show err = some .eof from herr])

theorem returned_attempt {pos : Nat} (hpos : r.connect reply = .ok pos) :
    returned (attempt object len r reply).2 = reply.data object pos len := by
  rcases attempt_cases object len r reply with ⟨err, herr, -⟩ | ⟨pos', hpos', hcases⟩
  · rw [hpos] at herr
    cases herr
  · obtain rfl := Except.ok.inj (hpos.symm.trans hpos')
    rcases hcases with heq | ⟨-, heq⟩ | heq
    · rw [heq]
      rfl
    · rw [heq]
      rfl
    · rw [heq]
      dsimp only
      split
      · rfl
      · next hlen =>
          rw [List.eq_nil_of_length_eq_zero (Nat.eq_zero_of_not_pos hlen)]
          rfl

/-- An object in which the byte at `pos` is not the one after it. -/
def distinct (length pos : Nat) : Bytes := (List.replicate length 0).set pos 1

/-- An overlap returns a byte twice. -/
theorem Overlaps.distinct (h : r.Near object) (hlap : Overlaps object len r reply) :
    ∃ pos, ∃ other : Bytes, other = distinct object.length pos ∧
      ¬ other.take r.offset ++ returned (attempt other len r reply).2 <+: other := by
  obtain ⟨pos, hpos, hne, hdata⟩ := hlap
  have hoff : r.offset = pos + 1 := by
    rcases connect_near h hpos with heq | heq
    · exact absurd heq hne
    · exact heq.symm
  have hlt : pos < object.length := by
    have hle := h.le
    omega
  refine ⟨pos, _, rfl, fun hprefix => ?_⟩
  have hlen : (ResumableReader.distinct object.length pos).length = object.length := by
    simp [ResumableReader.distinct]
  rw [returned_attempt hpos, hoff] at hprefix
  -- the first byte that the turn returns is the byte at `pos`
  have hcopied : reply.data (ResumableReader.distinct object.length pos) pos len ≠ [] := by
    rw [← List.length_pos_iff, length_data hlen, List.length_pos_iff]
    exact hdata
  obtain ⟨b, rest, hcons⟩ := List.exists_cons_of_ne_nil hcopied
  have hb : b = 1 := by
    have hget := congrArg (·[0]?) hcons
    simp only [Reply.data, Bytes.readAt, List.getElem?_cons_zero] at hget
    rw [List.getElem?_take_of_lt, List.getElem?_drop] at hget
    · simpa [ResumableReader.distinct, hlt] using hget.symm
    · have hpos' := congrArg List.length hcons
      rw [Reply.data, Bytes.length_readAt, List.length_cons] at hpos'
      omega
  rw [hcons] at hprefix
  have hmin : min (pos + 1) object.length = pos + 1 := Nat.min_eq_left hlt
  have hget := List.prefix_iff_getElem?.mp hprefix (pos + 1) (by simp [hlen, hmin])
  rw [List.getElem_append_right (by simp)] at hget
  simp [ResumableReader.distinct, hb, hmin, List.getElem?_replicate] at hget

/-- A `Read` with an overlap returns a byte of some object twice. -/
theorem exists_object_of_overlaps (h : r.Near object)
    (hlap : ¬ LoopUndisturbed object len turns r script) :
    ∃ other : Bytes, other.length = object.length ∧
      ¬ other.take r.offset ++ (readLoop other len turns r script).data <+: other := by
  induction turns generalizing r script with
  | zero => exact absurd trivial hlap
  | succ turns ih =>
      by_cases hfirst : Overlaps object len r script.head
      · obtain ⟨pos, other, hother, hprefix⟩ := hfirst.distinct h
        have hlen : other.length = object.length := by simp [hother, ResumableReader.distinct]
        refine ⟨other, hlen, fun hprefix' => hprefix ?_⟩
        rcases readLoop_succ other len turns r script with ⟨hagain, heq⟩ | ⟨data, err, hout, heq⟩
        · rw [hagain]
          simpa [returned] using List.take_prefix r.offset other
        · rw [hout]
          rwa [heq] at hprefix'
      · have hnear := (h.attempt hfirst).2.1
        obtain ⟨hagain, hrest⟩ : (attempt object len r script.head).2 = none ∧
            ¬ LoopUndisturbed object len turns (attempt object len r script.head).1 script.tail := by
          rw [LoopUndisturbed] at hlap
          tauto
        obtain ⟨other, hlen, hprefix⟩ := ih hnear hrest
        refine ⟨other, hlen, fun hprefix' => hprefix ?_⟩
        obtain ⟨hreader, hnone⟩ := attempt_shape len r script.head hlen
        rcases readLoop_succ other len turns r script with ⟨-, heq⟩ | ⟨data, err, hout, -⟩
        · rw [attempt_again hagain, ← hreader, ← heq]
          exact hprefix'
        · rw [hnone.mpr hagain] at hout
          cases hout

/-! ## Successive `Read` calls -/

/-- A `Read` without overlaps goes on for every object of this length as for one of them. -/
theorem Near.read (h : r.Near object)
    (hlap : LoopUndisturbed object len (resumableReaderMaxRetries + 1) r script)
    (hlen : other.length = object.length) :
    (r.read other len script).reader = (r.read object len script).reader ∧
      (r.read other len script).script = (r.read object len script).script ∧
      other.take r.offset ++ (r.read other len script).data =
        other.take (r.read object len script).reader.offset ∧
      (r.read object len script).reader.Near object ∧
      (r.read object len script).reader.size = r.size ∧
      ((r.read other len script).err = some .eof → r.size = other.length →
        other.take (r.read object len script).reader.offset = other) := by
  obtain ⟨hreader, hscript⟩ := readLoop_shape r script hlen
  obtain ⟨hdata, hnear, hsize, hend⟩ :=
    (h.congr hlen).readLoop ((loopUndisturbed_shape hlen).mpr hlap)
  rw [hreader] at hdata hnear hsize hend
  refine ⟨hreader, hscript, hdata, hnear.congr hlen.symm, hsize, fun herr heq => ?_⟩
  have hend' := hend herr
  exact List.take_of_length_le (by rw [ResumableReader.read]; omega)

/-- The bytes of the calls are those of every object of this length if and only if no turn
overlaps. -/
theorem Near.exact_iff (h : r.Near object) {lens : List Nat} :
    (∀ other : Bytes, other.length = object.length →
      ByteExact other r.size (other.take r.offset) (reads other r script lens)) ↔
      Undisturbed object r script lens := by
  induction lens generalizing r script with
  | nil => exact ⟨fun _ => trivial, fun _ _ _ => trivial⟩
  | cons len lens ih =>
      constructor
      · intro hexact
        have hloop : LoopUndisturbed object len (resumableReaderMaxRetries + 1) r script := by
          by_contra hlap
          obtain ⟨other, hlen, hprefix⟩ := exists_object_of_overlaps h hlap
          exact hprefix (hexact other hlen).1.1
        have hnear := (h.read hloop rfl).2.2.2.1
        refine ⟨hloop, (ih hnear).mp fun other hlen => ?_⟩
        obtain ⟨hreader, hscript, hdata, -, hsize, -⟩ := h.read hloop hlen
        have htail := (hexact other hlen).2
        rw [hreader, hscript, hdata] at htail
        rw [hsize]
        exact htail
      · rintro ⟨hloop, hrest⟩ other hlen
        obtain ⟨hreader, hscript, hdata, hnear, hsize, hend⟩ := h.read hloop hlen
        have htail := (ih hnear).mpr hrest other hlen
        rw [hsize] at htail
        rw [reads, ByteExact, hreader, hscript, hdata]
        exact ⟨⟨List.take_prefix .., hend⟩, htail⟩

/-- A reader of a stream that was opened at the start of the object. -/
theorem near_new (object : Bytes) (level minTXID maxTXID : Nat) (size : Int) :
    (NewResumableReader level minTXID maxTXID size (some 0)).Near object where
  le := Nat.zero_le _
  rc := by
    rintro pos ⟨⟩
    exact Or.inl rfl

/-- A reader returns the bytes of every object of a length, whole at the reported end, for
exactly those scripts in which no stream that was reopened at a positive offset yields a
byte. -/
theorem byteExact_iff (object : Bytes) (level minTXID maxTXID : Nat) (size : Int)
    (script : Stream' Reply) (lens : List Nat) :
    (∀ other : Bytes, other.length = object.length →
      ByteExact other size []
        (reads other (NewResumableReader level minTXID maxTXID size (some 0)) script lens)) ↔
      Undisturbed object (NewResumableReader level minTXID maxTXID size (some 0)) script lens := by
  refine Iff.trans ?_ (near_new object level minTXID maxTXID size).exact_iff
  simp [NewResumableReader]

/-! ## A connection that drops after the first byte -/

/-- The first underlying read yields a byte and an error, the others a byte. -/
def dropped : Stream' Reply := fun i => ⟨none, 1, if i = 0 then some .other else none⟩

/-- The byte before the interruption is returned again. -/
theorem reads_dropped :
    reads [1, 2] (NewResumableReader 0 1 1 2 (some 0)) dropped [1, 1] =
        [([1], none), ([1], none)] ∧
      ¬ ByteExact [1, 2] 2 []
        (reads [1, 2] (NewResumableReader 0 1 1 2 (some 0)) dropped [1, 1]) := by
  have hreads : reads [1, 2] (NewResumableReader 0 1 1 2 (some 0)) dropped [1, 1] =
      [([1], none), ([1], none)] := by decide
  refine ⟨hreads, fun hexact => ?_⟩
  rw [hreads] at hexact
  exact absurd hexact.2.1.1 (by decide)

end ResumableReader

end Litestream
