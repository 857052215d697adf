import ServerFramework.Network.Bytes

namespace ServerFramework.Protocol
open Bytes

structure Packet where
  cmd : UInt16
  data : List UInt8
  deriving DecidableEq, Repr

def encode (pkt : Packet) : List UInt8 :=
  let totalLen : UInt32 := .ofNat (4 + 2 + pkt.data.length)
  let lenBe := htonl totalLen
  let cmdBe := htons pkt.cmd
  le32 lenBe ++ le16 cmdBe ++ pkt.data

@[irreducible] def lengthField (data : List UInt8) : UInt32 := ntohl (load32 (data.take 4))

/-- The source returns the 32-bit length as a `size_t`, which `decode_from` narrows again. -/
def peekPacketLength (data : List UInt8) : Except Fault UInt32 := do
  if data.length < 4 then return 0
  let totalLenBe ← memcpy data 0 4
  return ntohl (load32 totalLenBe)

def assignData (data : List UInt8) (dataLen : Nat) : Except Fault (List UInt8) :=
  if dataLen > 0 then memcpy data 6 dataLen else .ok []

/-- `decode_from(data, len)` on the buffer of exactly `len` bytes: the packet and `consumed` when it
returns true, `none` when it returns false. -/
def decodeFrom (data : List UInt8) : Except Fault (Option (Packet × Nat)) := do
  if data.length < 4 then return none
  let totalLen ← peekPacketLength data
  if totalLen = 0 then return none
  if data.length < totalLen.toNat then return none
  let cmdBe ← memcpy data 4 2
  -- `total_len - 6` is a 32-bit subtraction, widened to `size_t` afterwards
  let body ← assignData data (totalLen - 6).toNat
  return some (⟨ntohs (load16 cmdBe), body⟩, totalLen.toNat)

end ServerFramework.Protocol
