import Mathlib
import Litestream.Lib.Bytes

/-!
# Reading a WAL file

`WALReader` reads the frames of a WAL file whose salts are those of the header and whose
running checksum holds.  `pageMap` collects the offset of the latest version of each page
up to the last commit frame.

The content of the file is a field of the reader.  A function that moves the reader also
returns the new one.  Loops take fuel, one unit for each frame header that they read, and
yield `none` when it runs out.
-/

namespace Litestream

open Bytes

/-! ## Constants and checksums -/

/-- The size of the WAL header. -/
def walHeaderSize : Nat := 32

/-- The size of the header of a WAL frame. -/
def walFrameHeaderSize : Nat := 24

/-- The two salts that name a generation of the WAL. -/
abbrev Salt := UInt32 × UInt32

/-- The two words of a running checksum. -/
abbrev Checksum := UInt32 × UInt32

/-- The byte order in which checksums read words. -/
inductive ByteOrder where
  | littleEndian
  | bigEndian
deriving DecidableEq, Repr

/-- The word at the start of a byte string. -/
def ByteOrder.uint32 : ByteOrder → Bytes → UInt32
  | .littleEndian, b => le32 b
  | .bigEndian, b => be32 b

/-- A running SQLite WAL checksum, `none` when the length is not a multiple of eight. -/
def walChecksum (bo : ByteOrder) : Checksum → Bytes → Option Checksum
  | s, [] => some s
  | (s0, s1), b0 :: b1 :: b2 :: b3 :: b4 :: b5 :: b6 :: b7 :: b =>
      let s0 := s0 + (bo.uint32 [b0, b1, b2, b3] + s1)
      let s1 := s1 + (bo.uint32 [b4, b5, b6, b7] + s0)
      walChecksum bo (s0, s1) b
  | _, _ => none

/-! ## The reader -/

/-- The errors of the reader. -/
inductive WALError where
  /-- The end of the valid part of the WAL. -/
  | eof
  | invalidMagic (magic : UInt32)
  | unsupportedVersion (version : UInt32)
  /-- The buffer does not have the page size. -/
  | bufferSize (n : Nat) (pageSize : UInt32)
  /-- The offset must be past the WAL header. -/
  | offsetTooSmall (offset : Int)
  | unalignedOffset (offset : Int) (pageSize : UInt32)
  | readHeader (err : WALError)
  | prevFrameMismatch (err : WALError)
  /-- The assertion that a checksum covers a multiple of eight bytes fails. -/
  | misalignedChecksum
  | divideByZero
deriving DecidableEq, Repr

structure WALReader where
  /-- The content of the WAL file. -/
  r : Bytes
  /-- The number of frames before the next one. -/
  frameN : Nat
  bo : ByteOrder
  pageSize : UInt32
  seq : UInt32
  salt1 : UInt32
  salt2 : UInt32
  chksum1 : UInt32
  chksum2 : UInt32
deriving DecidableEq, Repr

/-- The page number, the commit size and the page of a frame. -/
structure FrameData where
  pgno : UInt32
  commit : UInt32
  data : Bytes
deriving DecidableEq, Repr

/-- The byte order that a magic number stands for. -/
def byteOrderOfMagic (magic : UInt32) : Option ByteOrder :=
  if magic = 0x377f0682 then some .littleEndian
  else if magic = 0x377f0683 then some .bigEndian
  else none

namespace WALReader

/-- The size of a frame, in 32-bit arithmetic. -/
def frameSize (r : WALReader) : Nat := (r.pageSize + 24).toNat

/-- The file offset of the last frame read, zero if none has been read. -/
def offset (r : WALReader) : Nat :=
  if r.frameN = 0 then 0
  else walHeaderSize + (r.frameN - 1) * (walFrameHeaderSize + r.pageSize.toNat)

/-- Reads the WAL header. -/
def readHeader (rd : Bytes) : Except WALError WALReader :=
  let hdr := readAt rd 0 walHeaderSize
  if hdr.length < walHeaderSize then .error .eof
  else
    match byteOrderOfMagic (be32 hdr) with
    | none => .error (.invalidMagic (be32 hdr))
    | some bo =>
        let chksum := (be32 (hdr.drop 24), be32 (hdr.drop 28))
        if walChecksum bo (0, 0) (hdr.take 24) ≠ some chksum then .error .eof
        else if be32 (hdr.drop 4) ≠ 3007000 then .error (.unsupportedVersion (be32 (hdr.drop 4)))
        else
          .ok {
            r := rd
            frameN := 0
            bo := bo
            pageSize := be32 (hdr.drop 8)
            seq := be32 (hdr.drop 12)
            salt1 := be32 (hdr.drop 16)
            salt2 := be32 (hdr.drop 20)
            chksum1 := chksum.1
            chksum2 := chksum.2 }

/-- A reader at the start of a WAL. -/
def newWALReader (rd : Bytes) : Except WALError WALReader := readHeader rd

/-- Reads the next frame into a buffer of `n` bytes.  The salts must be those of the
reader.  Without verification the checksum of the frame is taken over. -/
def readFrame (r : WALReader) (n : Nat) (verifyChecksum : Bool) :
    Except WALError FrameData × WALReader :=
  if n ≠ r.pageSize.toNat then (.error (.bufferSize n r.pageSize), r)
  else
    let offset := walHeaderSize + r.frameN * r.frameSize
    let hdr := readAt r.r offset walFrameHeaderSize
    if hdr.length ≠ walFrameHeaderSize then (.error .eof, r)
    else
      let data := readAt r.r (offset + walFrameHeaderSize) n
      if data.length ≠ n then (.error .eof, r)
      else if r.salt1 ≠ be32 (hdr.drop 8) ∨ r.salt2 ≠ be32 (hdr.drop 12) then (.error .eof, r)
      else
        let chksum := (be32 (hdr.drop 16), be32 (hdr.drop 20))
        let frame : FrameData := ⟨be32 hdr, be32 (hdr.drop 4), data⟩
        if verifyChecksum then
          match (walChecksum r.bo (r.chksum1, r.chksum2) (hdr.take 8)).bind
              (fun c => walChecksum r.bo c data) with
          | none => (.error .misalignedChecksum, r)
          | some c =>
              if c ≠ chksum then (.error .eof, { r with chksum1 := c.1, chksum2 := c.2 })
              else (.ok frame, { r with chksum1 := c.1, chksum2 := c.2, frameN := r.frameN + 1 })
        else
          (.ok frame, { r with chksum1 := chksum.1, chksum2 := chksum.2, frameN := r.frameN + 1 })

/-- A reader at an offset past the first frame, with the checksum of the frame before. -/
def newWALReaderWithOffset (rd : Bytes) (offset : Int) (salt1 salt2 : UInt32) :
    Except WALError WALReader :=
  if offset ≤ walHeaderSize then .error (.offsetTooSmall offset)
  else
    match readHeader rd with
    | .error err => .error (.readHeader err)
    | .ok r =>
        let r := { r with salt1 := salt1, salt2 := salt2 }
        if r.frameSize = 0 then .error .divideByZero
        else if (offset - walHeaderSize) % r.frameSize ≠ 0 then
          .error (.unalignedOffset offset r.pageSize)
        else
          let frameN := ((offset - walHeaderSize) / r.frameSize).toNat
          match readFrame { r with frameN := frameN - 1 } r.pageSize.toNat false with
          | (.error err, _) => .error (.prevFrameMismatch err)
          | (.ok _, r) => .ok r

/-! ## The page map -/

/-- The offsets of frames by page number. -/
abbrev PageOffsets := AList (fun _ : UInt32 => Nat)

/-- Reads frames up to the first that is not valid.  At a commit frame the pages read so
far are added to the map. -/
def pageMapLoop : Nat → WALReader → PageOffsets → PageOffsets → UInt32 →
    Option (Except WALError (PageOffsets × UInt32) × WALReader)
  | 0, _, _, _, _ => none
  | fuel + 1, r, m, txMap, commit =>
      match r.readFrame r.pageSize.toNat true with
      | (.error .eof, r) => some (.ok (m, commit), r)
      | (.error err, r) => some (.error err, r)
      | (.ok frame, r) =>
          let txMap := txMap.insert frame.pgno r.offset
          if frame.commit ≠ 0 then pageMapLoop fuel r (txMap ∪ m) txMap frame.commit
          else pageMapLoop fuel r m txMap commit

/-- Removes the pages past the commit size. -/
def dropPastCommit (m : PageOffsets) (commit : UInt32) : PageOffsets :=
  m.keys.foldl (fun m pgno => if commit < pgno then m.erase pgno else m) m

/-- The largest offset of a page map. -/
def maxPageOffset (m : PageOffsets) : Nat := m.foldl (fun acc _ offset => max acc offset) 0

/-- The latest committed offset of each page, the end of the last frame among them, and the
database size at the last commit frame. -/
def pageMap (fuel : Nat) (r : WALReader) :
    Option (Except WALError (PageOffsets × Nat × UInt32) × WALReader) :=
  match pageMapLoop fuel r ∅ ∅ 0 with
  | none => none
  | some (.error err, r) => some (.error err, r)
  | some (.ok (m, commit), r) =>
      let m := dropPastCommit m commit
      if m.keys = [] then some (.ok (m, 0, 0), r)
      else
        some (.ok (m, maxPageOffset m + (walFrameHeaderSize + r.pageSize.toNat), commit), r)

/-! ## Frame salts -/

def frameSaltsUntilLoop (r : WALReader) (last : Salt) : Nat → Nat → List Salt → Option (List Salt)
  | 0, _, _ => none
  | fuel + 1, offset, m =>
      let hdr := readAt r.r offset walFrameHeaderSize
      if hdr.length ≠ walFrameHeaderSize then some m
      else
        let salt : Salt := (be32 (hdr.drop 8), be32 (hdr.drop 12))
        if salt = last then some (m.insert salt)
        else frameSaltsUntilLoop r last fuel (offset + r.frameSize) (m.insert salt)

/-- The salts of the frames of the file up to the first with the salt `last`. -/
def frameSaltsUntil (fuel : Nat) (r : WALReader) (last : Salt) : Option (List Salt) :=
  frameSaltsUntilLoop r last fuel walHeaderSize []

end WALReader

end Litestream
