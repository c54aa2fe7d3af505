import RmwUnixSocket.Hostile.Reader

/-!
# The bytes of headers and descriptors

`WireHeader` is blitted in front of every datagram and of every latched
sample, `ShmPayloadDescriptor` is blitted as the payload of a datagram whose
`msg_type` has `SHM_PAYLOAD_FLAG`.  Both are packed and little-endian.  What
was encoded is decoded again (`WireHeader.ofBytes_toBytes`,
`ofBytes_toBytes`).

The 64-bit fields are the bits of signed numbers.
-/

namespace RmwUnixSocket.Wire

open ByteMemory
open Hostile (ShmPayloadDescriptor)
open Latch (wireHeaderSize descriptorSize)

/-! ## Headers -/

/-- A GID on the wire. -/
abbrev Gid := { bytes : List UInt8 // bytes.length = 16 }

/-- `WireHeader`. -/
structure WireHeader where
  gid : Gid
  sequenceNumber : UInt64
  sourceTimestampNs : UInt64
  payloadSize : UInt32
  msgType : UInt8
  deriving DecidableEq

/-- The bit of `msg_type` that says that the payload is a descriptor. -/
def SHM_PAYLOAD_FLAG : UInt8 := 0x80

namespace WireHeader

/-- The packed bytes. -/
def toBytes (hdr : WireHeader) : List UInt8 :=
  hdr.gid.val ++ (leBytes 8 hdr.sequenceNumber.toNat ++
    (leBytes 8 hdr.sourceTimestampNs.toNat ++
      (leBytes 4 hdr.payloadSize.toNat ++ [hdr.msgType])))

/-- The header in front of a list of bytes. -/
def ofBytes (bytes : List UInt8) : WireHeader :=
  let mem := ByteMemory.ofBytes bytes
  { gid := ⟨mem.slice 0 16, slice_length⟩
    sequenceNumber := UInt64.ofNat (mem.loadLE 16 8)
    sourceTimestampNs := UInt64.ofNat (mem.loadLE 24 8)
    payloadSize := UInt32.ofNat (mem.loadLE 32 4)
    msgType := mem 36 }

/-- `hdr.msg_type |= SHM_PAYLOAD_FLAG` and the size of a descriptor. -/
def shm (hdr : WireHeader) : WireHeader :=
  { hdr with
    msgType := hdr.msgType ||| SHM_PAYLOAD_FLAG
    payloadSize := UInt32.ofNat descriptorSize }

@[simp] theorem length_toBytes (hdr : WireHeader) :
    hdr.toBytes.length = wireHeaderSize := by
  simp [toBytes, hdr.gid.property, wireHeaderSize]

/-- A header is read back from the front of its datagram. -/
theorem ofBytes_toBytes (hdr : WireHeader) (rest : List UInt8) :
    ofBytes (hdr.toBytes ++ rest) = hdr := by
  obtain ⟨⟨gid, hgid⟩, sequenceNumber, sourceTimestampNs, payloadSize, msgType⟩ :=
    hdr
  simp only [ofBytes, toBytes, List.append_assoc, WireHeader.mk.injEq,
    Subtype.mk.injEq]
  refine ⟨?_, ?_, ?_, ?_, ?_⟩
  · rw [← hgid]
    exact slice_ofBytes
  · rw [loadLE_ofBytes hgid]
    simp
  · rw [← List.append_assoc, loadLE_ofBytes (by simp [hgid])]
    simp
  · rw [← List.append_assoc, ← List.append_assoc,
      loadLE_ofBytes (by simp [hgid])]
    simp
  · rw [← List.append_assoc, ← List.append_assoc, ← List.append_assoc]
    simp only [ByteMemory.ofBytes]
    rw [List.getD_append_right _ _ _ _ (by simp [hgid])]
    simp [hgid]

/-- The header is in the first bytes. -/
theorem ofBytes_take {bytes : List UInt8} (hlong : wireHeaderSize ≤ bytes.length) :
    ofBytes (bytes.take wireHeaderSize) = ofBytes bytes := by
  have hsame : ∀ y < wireHeaderSize, ByteMemory.ofBytes (bytes.take wireHeaderSize) y =
      ByteMemory.ofBytes bytes y := by
    intro y hy
    simp only [ByteMemory.ofBytes]
    rw [List.getD_eq_getElem _ _ (by rw [List.length_take]; omega),
      List.getD_eq_getElem _ _ (by omega), List.getElem_take]
  have hload : ∀ a n, a + n ≤ wireHeaderSize →
      (ByteMemory.ofBytes (bytes.take wireHeaderSize)).loadLE a n =
        (ByteMemory.ofBytes bytes).loadLE a n := by
    intro a n hle
    exact loadLE_congr fun j hj => hsame _ (by omega)
  have hgid : (ByteMemory.ofBytes (bytes.take wireHeaderSize)).slice 0 16 =
      (ByteMemory.ofBytes bytes).slice 0 16 :=
    slice_congr fun j hj => hsame _ (by simp only [wireHeaderSize]; omega)
  simp only [ofBytes, hgid, hload 16 8 (by decide), hload 24 8 (by decide),
    hload 32 4 (by decide), hsame 36 (by decide)]

end WireHeader

end RmwUnixSocket.Wire

/-! ## Descriptors -/

namespace RmwUnixSocket.Hostile.ShmPayloadDescriptor

open ByteMemory
open Latch (descriptorSize)

/-- The packed bytes. -/
def toBytes (desc : ShmPayloadDescriptor) : List UInt8 :=
  leBytes 8 desc.segmentId.toNat ++ (leBytes 8 desc.offset.toNat ++
    (leBytes 4 desc.seq.toNat ++ (leBytes 4 desc.payloadSize.toNat ++
      (leBytes 4 desc.ownerPid.toNat ++ leBytes 4 desc.ownerId.toNat))))

@[simp] theorem length_toBytes (desc : ShmPayloadDescriptor) :
    desc.toBytes.length = descriptorSize := by
  simp [toBytes, descriptorSize]

/-- A descriptor is read back from its bytes. -/
theorem ofBytes_toBytes (desc : ShmPayloadDescriptor) :
    ofBytes desc.toBytes = desc := by
  obtain ⟨segmentId, offset, seq, payloadSize, ownerPid, ownerId⟩ := desc
  simp only [ofBytes, toBytes, ShmPayloadDescriptor.mk.injEq]
  refine ⟨?_, ?_, ?_, ?_, ?_, ?_⟩
  · rw [loadLE_ofBytes_zero]
    simp
  · rw [loadLE_ofBytes (by simp)]
    simp
  · rw [← List.append_assoc, loadLE_ofBytes (by simp)]
    simp
  · rw [← List.append_assoc, ← List.append_assoc, loadLE_ofBytes (by simp)]
    simp
  · rw [← List.append_assoc, ← List.append_assoc, ← List.append_assoc,
      loadLE_ofBytes (by simp)]
    simp
  · rw [← List.append_nil (leBytes 4 ownerId.toNat), ← List.append_assoc,
      ← List.append_assoc, ← List.append_assoc, ← List.append_assoc,
      loadLE_ofBytes (by simp)]
    simp

end RmwUnixSocket.Hostile.ShmPayloadDescriptor
