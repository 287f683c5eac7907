import Mathlib
import Litestream.Wal.Reader

/-!
# WAL files that SQLite writes

`Wal` is what SQLite keeps in a WAL file that is not empty: a header, the frames of the
current generation and, behind them, frames left from before the WAL was restarted.
`Wal.encode` is its content.  The last section has what each function of `WALReader`
gives on such a file.
-/

namespace Litestream

open Bytes

/-! ## Pages and frames -/

/-- A checksum over a multiple of eight bytes exists. -/
theorem exists_walChecksum (bo : ByteOrder) (c : Checksum) (b : Bytes) (h : b.length % 8 = 0) :
    ∃ c', walChecksum bo c b = some c' := by
  induction c, b using walChecksum.induct bo with
  | case1 s => exact ⟨s, rfl⟩
  | case2 s0 s1 b0 b1 b2 b3 b4 b5 b6 b7 b t0 t1 ih =>
      rw [walChecksum]
      refine ih ?_
      simp only [List.length_cons] at h
      omega
  | case3 b s hnil hcons =>
      exfalso
      match b, h with
      | [], _ => exact hnil rfl
      | [_], h | [_, _], h | [_, _, _], h | [_, _, _, _], h | [_, _, _, _, _], h
      | [_, _, _, _, _, _], h | [_, _, _, _, _, _, _], h => simp at h
      | b0 :: b1 :: b2 :: b3 :: b4 :: b5 :: b6 :: b7 :: b, _ =>
          exact hcons s.1 s.2 b0 b1 b2 b3 b4 b5 b6 b7 b rfl rfl

/-- A page size that SQLite allows. -/
structure PageSize where
  size : Nat
  pow : ∃ k, 9 ≤ k ∧ k ≤ 16 ∧ size = 2 ^ k

namespace PageSize

/-- The smallest page size. -/
def min : PageSize := ⟨512, 9, by decide⟩

variable (ps : PageSize)

theorem bounds : 512 ≤ ps.size ∧ ps.size ≤ 65536 ∧ ps.size % 8 = 0 := by
  obtain ⟨k, hk, hk', hsize⟩ := ps.pow
  rw [hsize]
  interval_cases k <;> decide

/-- The page size as the WAL header records it. -/
def toUInt32 : UInt32 := UInt32.ofNat ps.size

@[simp] theorem toNat_toUInt32 : ps.toUInt32.toNat = ps.size := by
  have := ps.bounds
  rw [toUInt32, UInt32.toNat_ofNat']
  omega

/-- The size of a frame in the WAL file. -/
def frameSize : Nat := walFrameHeaderSize + ps.size

theorem frameSize_pos : 0 < ps.frameSize := by
  simp [frameSize, walFrameHeaderSize]

end PageSize

/-- A page of the page size. -/
@[ext] structure Page (ps : PageSize) where
  data : Bytes
  length_data : data.length = ps.size
deriving DecidableEq

/-- One byte value fills a page of the smallest size. -/
theorem length_fill (x : UInt8) : (List.replicate 512 x).length = PageSize.min.size :=
  List.length_replicate

structure Frame (ps : PageSize) where
  pgno : UInt32
  /-- The database size after the transaction, zero if this is not its last frame. -/
  commit : UInt32
  salt : Salt
  chksum : Checksum
  page : Page ps
deriving DecidableEq

namespace Frame

variable {ps : PageSize}

/-- The two words that the checksum covers besides the page. -/
def head (f : Frame ps) : Bytes := putBe32 f.pgno ++ putBe32 f.commit

/-- The frame header. -/
def header (f : Frame ps) : Bytes :=
  putBe32 f.pgno ++ (putBe32 f.commit ++ (putBe32 f.salt.1 ++ (putBe32 f.salt.2 ++
    (putBe32 f.chksum.1 ++ putBe32 f.chksum.2))))

def encode (f : Frame ps) : Bytes := f.header ++ f.page.data

@[simp] theorem length_head (f : Frame ps) : f.head.length = 8 := rfl

@[simp] theorem length_header (f : Frame ps) : f.header.length = walFrameHeaderSize := rfl

@[simp] theorem length_encode (f : Frame ps) : f.encode.length = ps.frameSize := by
  rw [encode, List.length_append, length_header, f.page.length_data, PageSize.frameSize]

theorem readAt_header (f : Frame ps) : readAt f.encode 0 walFrameHeaderSize = f.header := by
  rw [encode, readAt_append_left (by rw [Nat.zero_add, length_header]),
    readAt_all f.length_header]

theorem readAt_page (f : Frame ps) :
    readAt f.encode walFrameHeaderSize ps.size = f.page.data := by
  rw [encode, ← f.length_header, ← Nat.add_zero f.header.length, readAt_append_right,
    readAt_all f.page.length_data]

theorem take_header (f : Frame ps) : f.header.take 8 = f.head := rfl

/-- The checksum of a frame after a running checksum. -/
def checksum (bo : ByteOrder) (c : Checksum) (f : Frame ps) : Option Checksum :=
  (walChecksum bo c f.head).bind fun c => walChecksum bo c f.page.data

/-- What the reader returns for the frame. -/
def toData (f : Frame ps) : FrameData := ⟨f.pgno, f.commit, f.page.data⟩

@[simp] theorem be32_header (f : Frame ps) : be32 f.header = f.pgno := be32_putBe32_append ..

@[simp] theorem be32_header_commit (f : Frame ps) : be32 (f.header.drop 4) = f.commit :=
  be32_putBe32_append ..

@[simp] theorem be32_header_salt1 (f : Frame ps) : be32 (f.header.drop 8) = f.salt.1 :=
  be32_putBe32_append ..

@[simp] theorem be32_header_salt2 (f : Frame ps) : be32 (f.header.drop 12) = f.salt.2 :=
  be32_putBe32_append ..

@[simp] theorem be32_header_chksum1 (f : Frame ps) : be32 (f.header.drop 16) = f.chksum.1 :=
  be32_putBe32_append ..

@[simp] theorem be32_header_chksum2 (f : Frame ps) : be32 (f.header.drop 20) = f.chksum.2 :=
  be32_putBe32_append _ []

end Frame

/-! ## Headers -/

structure WalHeader where
  bo : ByteOrder
  seq : UInt32
  salt : Salt
deriving DecidableEq

namespace WalHeader

variable (h : WalHeader) (ps : PageSize)

def magic : UInt32 :=
  match h.bo with
  | .littleEndian => 0x377f0682
  | .bigEndian => 0x377f0683

theorem byteOrderOfMagic_magic : byteOrderOfMagic h.magic = some h.bo := by
  cases hbo : h.bo <;> rw [magic, hbo] <;> rfl

/-- The part of the header that its checksum covers. -/
def body : Bytes :=
  putBe32 h.magic ++ (putBe32 3007000 ++ (putBe32 ps.toUInt32 ++ (putBe32 h.seq ++
    (putBe32 h.salt.1 ++ putBe32 h.salt.2))))

def checksum : Checksum := (walChecksum h.bo (0, 0) (h.body ps)).getD (0, 0)

theorem walChecksum_body : walChecksum h.bo (0, 0) (h.body ps) = some (h.checksum ps) := rfl

def encode : Bytes := h.body ps ++ (putBe32 (h.checksum ps).1 ++ putBe32 (h.checksum ps).2)

@[simp] theorem length_encode : (h.encode ps).length = walHeaderSize := rfl

@[simp] theorem take_encode : (h.encode ps).take 24 = h.body ps := rfl

@[simp] theorem be32_encode : be32 (h.encode ps) = h.magic := be32_putBe32_append ..

@[simp] theorem be32_encode_version : be32 ((h.encode ps).drop 4) = 3007000 :=
  be32_putBe32_append ..

@[simp] theorem be32_encode_pageSize : be32 ((h.encode ps).drop 8) = ps.toUInt32 :=
  be32_putBe32_append ..

@[simp] theorem be32_encode_seq : be32 ((h.encode ps).drop 12) = h.seq := be32_putBe32_append ..

@[simp] theorem be32_encode_salt1 : be32 ((h.encode ps).drop 16) = h.salt.1 :=
  be32_putBe32_append ..

@[simp] theorem be32_encode_salt2 : be32 ((h.encode ps).drop 20) = h.salt.2 :=
  be32_putBe32_append ..

@[simp] theorem be32_encode_chksum1 : be32 ((h.encode ps).drop 24) = (h.checksum ps).1 :=
  be32_putBe32_append ..

@[simp] theorem be32_encode_chksum2 : be32 ((h.encode ps).drop 28) = (h.checksum ps).2 :=
  be32_putBe32_append _ []

end WalHeader

/-! ## WAL files -/

variable {ps : PageSize}

/-- Frames with the salt of a generation, each with the running checksum up to it. -/
def ValidFrames (bo : ByteOrder) (salt : Salt) : Checksum → List (Frame ps) → Prop
  | _, [] => True
  | c, f :: fs =>
      f.salt = salt ∧ f.checksum bo c = some f.chksum ∧ ValidFrames bo salt f.chksum fs

/-- The running checksum after frames. -/
def lastChecksum : Checksum → List (Frame ps) → Checksum
  | c, [] => c
  | _, f :: fs => lastChecksum f.chksum fs

theorem ValidFrames.append {bo : ByteOrder} {salt : Salt} {c : Checksum} {fs gs : List (Frame ps)}
    (hf : ValidFrames bo salt c fs) (hg : ValidFrames bo salt (lastChecksum c fs) gs) :
    ValidFrames bo salt c (fs ++ gs) := by
  induction fs generalizing c with
  | nil => exact hg
  | cons f fs ih => exact ⟨hf.1, hf.2.1, ih hf.2.2 hg⟩

theorem ValidFrames.salt_eq {bo : ByteOrder} {salt : Salt} {c : Checksum} {fs : List (Frame ps)}
    (h : ValidFrames bo salt c fs) : ∀ f ∈ fs, f.salt = salt := by
  induction fs generalizing c with
  | nil => simp
  | cons f fs ih =>
      intro g hg
      rcases List.mem_cons.mp hg with rfl | hg
      · exact h.1
      · exact ih h.2.2 g hg

theorem lastChecksum_take_succ {c : Checksum} {fs : List (Frame ps)} {i : Nat} {f : Frame ps}
    (h : fs[i]? = some f) : lastChecksum c (fs.take (i + 1)) = f.chksum := by
  induction fs generalizing c i with
  | nil => simp at h
  | cons g fs ih =>
      cases i with
      | zero =>
          obtain rfl : g = f := by simpa using h
          simp [lastChecksum]
      | succ i =>
          rw [List.take_succ_cons, lastChecksum]
          exact ih (by simpa using h)

theorem ValidFrames.checksum_eq {bo : ByteOrder} {salt : Salt} {c : Checksum}
    {fs : List (Frame ps)} {i : Nat} {f : Frame ps} (h : ValidFrames bo salt c fs)
    (hf : fs[i]? = some f) : f.checksum bo (lastChecksum c (fs.take i)) = some f.chksum := by
  induction fs generalizing c i with
  | nil => simp at hf
  | cons g fs ih =>
      cases i with
      | zero =>
          obtain rfl : g = f := by simpa using hf
          exact h.2.1
      | succ i =>
          rw [List.take_succ_cons, lastChecksum]
          exact ih h.2.2 (by simpa using hf)

/-- A WAL file that is not empty. -/
structure Wal (ps : PageSize) where
  header : WalHeader
  /-- The frames of the current generation. -/
  cur : List (Frame ps)
  /-- The frames left from earlier generations. -/
  stale : List (Frame ps)
  cur_ne : cur ≠ []
  valid : ValidFrames header.bo header.salt (header.checksum ps) cur
  /-- The last frame of the current generation is a commit frame. -/
  committed : (cur.getLast cur_ne).commit ≠ 0
  /-- A page that a commit frame holds is within the database. -/
  pgno_le : ∀ f ∈ cur, f.commit ≠ 0 → f.pgno ≤ f.commit
  stale_salt : ∀ f ∈ stale, f.salt ≠ header.salt

namespace Wal

/-- The frames of the file. -/
def frames (w : Wal ps) : List (Frame ps) := w.cur ++ w.stale

def encode (w : Wal ps) : Bytes := w.header.encode ps ++ w.frames.flatMap Frame.encode

/-- The file offset of the end of the first `n` frames. -/
def offsetOf (ps : PageSize) (n : Nat) : Nat := walHeaderSize + n * ps.frameSize

theorem length_encode (w : Wal ps) : w.encode.length = offsetOf ps w.frames.length := by
  rw [encode, List.length_append, WalHeader.length_encode, length_flatMap Frame.length_encode,
    offsetOf]

theorem offsetOf_le {m n : Nat} : offsetOf ps m ≤ offsetOf ps n ↔ m ≤ n := by
  rw [offsetOf, offsetOf, Nat.add_le_add_iff_left, Nat.mul_le_mul_right_iff ps.frameSize_pos]

theorem offsetOf_inj {m n : Nat} : offsetOf ps m = offsetOf ps n ↔ m = n := by
  simp only [Nat.eq_iff_le_and_ge, offsetOf_le]

theorem offsetOf_succ (n : Nat) : offsetOf ps (n + 1) = offsetOf ps n + ps.frameSize := by
  rw [offsetOf, offsetOf, Nat.succ_mul, Nat.add_assoc]

/-! ## Reading a WAL file -/

theorem readAt_walHeader (w : Wal ps) : readAt w.encode 0 walHeaderSize = w.header.encode ps := by
  rw [encode, readAt_append_left (by simp), readAt_all (by simp)]

theorem readAt_frame (w : Wal ps) {i a n : Nat} {f : Frame ps} (hf : w.frames[i]? = some f)
    (h : a + n ≤ ps.frameSize) : readAt w.encode (offsetOf ps i + a) n = readAt f.encode a n := by
  rw [encode, offsetOf, Nat.add_assoc, ← WalHeader.length_encode w.header ps, readAt_append_right,
    ← readAt_readAt h, readAt_flatMap Frame.length_encode hf]

theorem readAt_eq_nil (w : Wal ps) {i a n : Nat} (hi : w.frames.length ≤ i) :
    readAt w.encode (offsetOf ps i + a) n = [] := by
  rw [encode, offsetOf, Nat.add_assoc, ← WalHeader.length_encode w.header ps, readAt_append_right,
    readAt_flatMap_eq_nil Frame.length_encode hi]

/-- A reader of the file before its `k`-th frame. -/
def reader (w : Wal ps) (salt : Salt) (chksum : Checksum) (k : Nat) : WALReader where
  r := w.encode
  frameN := k
  bo := w.header.bo
  pageSize := ps.toUInt32
  seq := w.header.seq
  salt1 := salt.1
  salt2 := salt.2
  chksum1 := chksum.1
  chksum2 := chksum.2

theorem frameSize_reader (w : Wal ps) (salt : Salt) (c : Checksum) (k : Nat) :
    (w.reader salt c k).frameSize = ps.frameSize := by
  have := ps.bounds
  simp only [WALReader.frameSize, reader, UInt32.toNat_add, PageSize.toNat_toUInt32,
    PageSize.frameSize, walFrameHeaderSize, UInt32.reduceToNat]
  omega

theorem readHeader_encode (w : Wal ps) : WALReader.readHeader w.encode =
    .ok (w.reader w.header.salt (w.header.checksum ps) 0) := by
  have hsum := w.header.walChecksum_body ps
  have hmagic := w.header.byteOrderOfMagic_magic
  simp [WALReader.readHeader, readAt_walHeader, hmagic, hsum, reader]

/-- Reads a frame of the file.  Frames of another salt end the valid part. -/
theorem readFrame_reader (w : Wal ps) (salt : Salt) (c : Checksum) (k : Nat) (verify : Bool) :
    (w.reader salt c k).readFrame ps.size verify =
      match w.frames[k]? with
      | none => (.error .eof, w.reader salt c k)
      | some f =>
          if f.salt ≠ salt then (.error .eof, w.reader salt c k)
          else if verify then
            match f.checksum w.header.bo c with
            | none => (.error .misalignedChecksum, w.reader salt c k)
            | some c' =>
                if c' ≠ f.chksum then (.error .eof, w.reader salt c' k)
                else (.ok f.toData, w.reader salt c' (k + 1))
          else (.ok f.toData, w.reader salt f.chksum (k + 1)) := by
  have hoff : walHeaderSize + (w.reader salt c k).frameN * (w.reader salt c k).frameSize =
      offsetOf ps k := by rw [frameSize_reader]; rfl
  have hps : ps.size = (w.reader salt c k).pageSize.toNat := ps.toNat_toUInt32.symm
  rw [WALReader.readFrame, if_neg (not_not.mpr hps), hoff]
  cases hk : w.frames[k]? with
  | none =>
      have hnil := w.readAt_eq_nil (a := 0) (n := walFrameHeaderSize)
        (List.getElem?_eq_none_iff.mp hk)
      rw [Nat.add_zero] at hnil
      simp only [reader, hnil]
      rfl
  | some f =>
      have hhdr := w.readAt_frame (a := 0) (n := walFrameHeaderSize) hk (Nat.le_add_right ..)
      have hpage := w.readAt_frame (a := walFrameHeaderSize) (n := ps.size) hk le_rfl
      rw [Nat.add_zero, f.readAt_header] at hhdr
      rw [f.readAt_page] at hpage
      simp only [reader, hhdr, hpage, Frame.length_header, f.page.length_data, ne_eq,
        not_true_eq_false, if_false, Frame.be32_header, Frame.be32_header_commit,
        Frame.be32_header_salt1, Frame.be32_header_salt2, Frame.be32_header_chksum1,
        Frame.be32_header_chksum2, Frame.take_header]
      by_cases hsalt : f.salt = salt
      · subst hsalt
        cases verify with
        | false => simp [Frame.toData]
        | true =>
            simp only [not_true_eq_false, or_self, if_false, if_true, Prod.mk.eta]
            rw [show ((walChecksum w.header.bo c f.head).bind fun c =>
              walChecksum w.header.bo c f.page.data) = f.checksum w.header.bo c from rfl]
            cases f.checksum w.header.bo c with
            | none => rfl
            | some c' => rfl
      · have hne : salt.1 ≠ f.salt.1 ∨ salt.2 ≠ f.salt.2 := by
          by_contra h
          rw [not_or, not_not, not_not] at h
          exact hsalt (Prod.ext h.1.symm h.2.symm)
        rw [if_pos hne, if_pos hsalt]

/-- A reader past the first `k` frames of the current generation. -/
def readerAt (w : Wal ps) (k : Nat) : WALReader :=
  w.reader w.header.salt (lastChecksum (w.header.checksum ps) (w.cur.take k)) k

theorem newWALReader_encode (w : Wal ps) : WALReader.newWALReader w.encode = .ok (w.readerAt 0) :=
  w.readHeader_encode

theorem readFrame_readerAt (w : Wal ps) {k : Nat} {f : Frame ps} (hf : w.cur[k]? = some f) :
    (w.readerAt k).readFrame ps.size true = (.ok f.toData, w.readerAt (k + 1)) := by
  have hk : k < w.cur.length := (List.getElem?_eq_some_iff.mp hf).1
  have hframe : w.frames[k]? = some f := by rw [frames, List.getElem?_append_left hk, hf]
  have hsalt := w.valid.salt_eq f (List.mem_of_getElem? hf)
  have hsum := w.valid.checksum_eq hf
  rw [readerAt, readFrame_reader, hframe]
  simp only [hsalt, ne_eq, not_true_eq_false, if_false, if_true, hsum]
  rw [readerAt, lastChecksum_take_succ hf]

/-- The current generation ends the valid part of the file. -/
theorem readFrame_readerAt_end (w : Wal ps) :
    (w.readerAt w.cur.length).readFrame ps.size true = (.error .eof, w.readerAt w.cur.length) := by
  rw [readerAt, readFrame_reader]
  cases hf : w.frames[w.cur.length]? with
  | none => rfl
  | some f =>
      have hstale : f ∈ w.stale := by
        rw [frames, List.getElem?_append_right le_rfl] at hf
        exact List.mem_of_getElem? hf
      simp only [if_pos (w.stale_salt f hstale)]

theorem offset_readerAt_succ (w : Wal ps) (k : Nat) :
    (w.readerAt (k + 1)).offset = offsetOf ps k := by
  simp [WALReader.offset, readerAt, reader, offsetOf, PageSize.frameSize]

/-- A reader past the `k`-th frame, if that frame has the given salt. -/
theorem newWALReaderWithOffset_encode (w : Wal ps) (k : Nat) (salt : Salt) :
    WALReader.newWALReaderWithOffset w.encode (offsetOf ps (k + 1)) salt.1 salt.2 =
      match w.frames[k]? with
      | none => .error (.prevFrameMismatch .eof)
      | some f =>
          if f.salt ≠ salt then .error (.prevFrameMismatch .eof)
          else .ok (w.reader salt f.chksum (k + 1)) := by
  have hpos := ps.frameSize_pos
  have hoff : (offsetOf ps (k + 1) : Int) - walHeaderSize = (k + 1 : Nat) * ps.frameSize := by
    rw [offsetOf]
    push_cast
    omega
  rw [WALReader.newWALReaderWithOffset, if_neg, readHeader_encode]
  · simp only [show ∀ c, ({ w.reader w.header.salt c 0 with
      salt1 := salt.1, salt2 := salt.2 } : WALReader) = w.reader salt c 0 from fun _ => rfl,
      frameSize_reader, if_neg hpos.ne', hoff, Int.mul_emod_left]
    rw [if_neg (not_not.mpr rfl), Int.mul_ediv_cancel _ (by omega), Int.toNat_natCast,
      Nat.add_sub_cancel]
    have hread : ∀ (r : WALReader) (n : Nat), r = w.reader salt (w.header.checksum ps) k →
        n = ps.size →
        r.readFrame n false = (w.reader salt (w.header.checksum ps) k).readFrame ps.size false := by
      rintro r n rfl rfl
      rfl
    rw [hread, readFrame_reader]
    · cases w.frames[k]? with
      | none => rfl
      | some f =>
          by_cases hsalt : f.salt = salt
          · simp [hsalt]
          · simp [hsalt]
    · rfl
    · exact ps.toNat_toUInt32
  · rw [offsetOf, Nat.succ_mul]
    omega

end Wal

end Litestream
