import DirectoryStore.Bytes
import DirectoryStore.Error

/-!
# The bytes of a log segment

A segment is a twelve byte header followed by records.  A record is a payload
framed by a header of twenty-four bytes and a footer of eight:

* the segment header holds the segment's number and a magic word;
* the record header holds a magic word, the length of the whole record, its
  sequence number, and a checksum of the last two;
* the record footer holds a word that is always zero and a magic word.

Encoding and decoding are inverse on all bytes of the right length.  Whether a
decoded header is *valid* is a separate question, which `RecordHeader.forPayload`
answers from the writing side and the log scanner from the reading side.
-/

namespace DirectoryStore.Log

/-! ## Segment headers -/

structure SegmentHeader where
  number : UInt64
  magic : UInt32
  deriving DecidableEq, Repr

namespace SegmentHeader

def size : Nat := 12

def validMagic : UInt32 := 0xFF11FF11

def ofNumber (number : SegmentNumber) : SegmentHeader :=
  ⟨UInt64.ofNat number, validMagic⟩

def encode (header : SegmentHeader) : Bytes :=
  Bytes.ofWord64 header.number ++ Bytes.ofWord32 header.magic

def decode (bytes : Bytes) : SegmentHeader :=
  ⟨bytes.word64 0, bytes.word32 8⟩

end SegmentHeader

/-! ## Record headers -/

structure RecordHeader where
  magic : UInt32
  /-- The length of the whole record, frame included. -/
  length : Int32
  lsn : UInt64
  checksum : UInt64
  deriving DecidableEq, Repr

namespace RecordHeader

def size : Nat := 24

def validMagic : UInt32 := 0x010F010F

/-- The sequence number combined with the sign-extended length. -/
def checksumOf (lsn : UInt64) (length : Int32) : UInt64 :=
  lsn ^^^ length.toInt64.toUInt64

def encode (header : RecordHeader) : Bytes :=
  Bytes.ofWord32 header.magic ++ Bytes.ofWord32 header.length.toUInt32 ++
    Bytes.ofWord64 header.lsn ++ Bytes.ofWord64 header.checksum

def decode (bytes : Bytes) : RecordHeader :=
  ⟨bytes.word32 0, (bytes.word32 4).toInt32, bytes.word64 8, bytes.word64 16⟩

end RecordHeader

/-! ## Record footers -/

structure RecordFooter where
  /-- Always zero, and never looked at. -/
  checksum : UInt32
  magic : UInt32
  deriving DecidableEq, Repr

namespace RecordFooter

def size : Nat := 8

def validMagic : UInt32 := 0x0F010F01

def standard : RecordFooter := ⟨0, validMagic⟩

def encode (footer : RecordFooter) : Bytes :=
  Bytes.ofWord32 footer.checksum ++ Bytes.ofWord32 footer.magic

def decode (bytes : Bytes) : RecordFooter :=
  ⟨bytes.word32 0, bytes.word32 4⟩

end RecordFooter

/-! ## Whole records -/

def frameSize : Nat := RecordHeader.size + RecordFooter.size

/-- The length of a record is stored as a signed word of 32 bits. -/
def maxPayloadSize : Nat := 0x7FFFFFFF - frameSize

namespace RecordHeader

def forPayload (lsn : Lsn) (payloadSize : Nat) : Except Error RecordHeader :=
  if payloadSize = 0 then
    .error (.refused .emptyPayload)
  else if maxPayloadSize < payloadSize then
    .error (.refused (.payloadTooLong payloadSize maxPayloadSize))
  else
    let length := Int32.ofNat (payloadSize + frameSize)
    let number := UInt64.ofNat lsn
    .ok ⟨validMagic, length, number, checksumOf number length⟩

def payloadSize? (header : RecordHeader) : Option Nat :=
  if (frameSize : Int) < header.length.toInt then
    some (header.length.toInt - frameSize).toNat
  else
    none

end RecordHeader

def encodeRecord (lsn : Lsn) (payload : Bytes) : Except Error Bytes := do
  let header ← RecordHeader.forPayload lsn payload.length
  return header.encode ++ payload ++ RecordFooter.standard.encode

@[simp] theorem SegmentHeader.length_encode (header : SegmentHeader) :
    header.encode.length = SegmentHeader.size := by
  simp [encode, size]

@[simp] theorem RecordHeader.length_encode (header : RecordHeader) :
    header.encode.length = RecordHeader.size := by
  simp [encode, size]

@[simp] theorem RecordFooter.length_encode (footer : RecordFooter) :
    footer.encode.length = RecordFooter.size := by
  simp [encode, size]

end DirectoryStore.Log
