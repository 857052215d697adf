import ServerFramework.Network.Bytes
import Mathlib.Logic.Function.Iterate

namespace ServerFramework.Network
open Bytes

def protocolVersion : UInt8 := 1

def headerSize : Nat := 4 + 1 + 4 + 4 + 2

def maxPacketSize : Nat := 10 * 1024 * 1024

namespace ByteOrder

-- `g_little_endian` as `ByteOrder::init`, run by every `Codec` constructor, leaves it
def isLittleEndian : Bool := (le16 0x1234).head? == some 0x34

def htons (v : UInt16) : UInt16 :=
  if !isLittleEndian then v else (v >>> 8) ||| (v <<< 8)

def ntohs (v : UInt16) : UInt16 := htons v

def htonl (v : UInt32) : UInt32 :=
  if !isLittleEndian then v
  else
    ((v &&& 0xFF000000) >>> 24) |||
    ((v &&& 0x00FF0000) >>> 8) |||
    ((v &&& 0x0000FF00) <<< 8) |||
    ((v &&& 0x000000FF) <<< 24)

def ntohl (v : UInt32) : UInt32 := htonl v

end ByteOrder

namespace CRC32

def tableStep (c : UInt32) : UInt32 :=
  if c &&& 1 ≠ 0 then (0xEDB88320 : UInt32) ^^^ (c >>> 1) else c >>> 1

-- entry `i` of `crc32_table`, as `init_crc32_table` fills it
def crc32Table (i : UInt32) : UInt32 := tableStep^[8] i

def update (crc : UInt32) (p : UInt8) : UInt32 :=
  crc32Table ((crc ^^^ p.toUInt32) &&& 0xFF) ^^^ (crc >>> 8)

def calculate (data : List UInt8) : UInt32 := data.foldl update 0xFFFFFFFF ^^^ 0xFFFFFFFF

def verify (data : List UInt8) (expected : UInt32) : Bool := calculate data == expected

end CRC32

structure PacketHeader where
  length : UInt32
  version : UInt8
  crc32 : UInt32
  seq : UInt32
  cmd : UInt16
  deriving DecidableEq, Repr

structure Packet where
  seq : UInt32 := 0
  cmd : UInt16 := 0
  data : List UInt8 := []
  deriving DecidableEq, Repr

structure Codec where
  buffer : List UInt8 := []
  deriving DecidableEq, Repr

namespace Codec

def encode (cmd : UInt16) (data : List UInt8) (seq : UInt32) : List UInt8 :=
  let out := List.replicate headerSize (0 : UInt8) ++ data
  let totalLen : UInt32 := .ofNat (headerSize + data.length)
  -- the header is still all zeros when the checksum is taken
  let crc := CRC32.calculate ((out.drop (4 + 1)).take (totalLen - 4 - 1).toNat)
  le32 (ByteOrder.htonl totalLen) ++ [protocolVersion] ++ le32 (ByteOrder.htonl crc) ++
    le32 (ByteOrder.htonl seq) ++ le16 (ByteOrder.htons cmd) ++ out.drop headerSize

/-- `memcpy(&hdr, buffer_.data(), HEADER_SIZE)` into the packed header, then the swaps. -/
def readHeader (bytes : List UInt8) : PacketHeader where
  length := ByteOrder.ntohl (load32 (bytes.take 4))
  version := bytes.getD 4 0
  crc32 := ByteOrder.ntohl (load32 ((bytes.drop 5).take 4))
  seq := ByteOrder.ntohl (load32 ((bytes.drop 9).take 4))
  cmd := ByteOrder.ntohs (load16 ((bytes.drop 13).take 2))

inductive Verdict
  | wait
  | clear
  | skip
  | emit (pkt : Packet) (totalLen : Nat)
  deriving DecidableEq, Repr

def assignBody (buffer : List UInt8) (totalLen : Nat) : Except Fault (List UInt8) :=
  if totalLen > headerSize then memcpy buffer headerSize (totalLen - headerSize) else .ok []

def examine (buffer : List UInt8) : Except Fault Verdict := do
  if buffer.length < headerSize then return .wait
  let totalLen := (ByteOrder.ntohl (load32 (← memcpy buffer 0 4))).toNat
  if totalLen < headerSize ∨ totalLen > maxPacketSize then return .clear
  if buffer.length < totalLen then return .wait
  let hdr := readHeader (← memcpy buffer 0 headerSize)
  let crc := CRC32.calculate (← memcpy buffer (4 + 1) (totalLen - 4 - 1))
  if crc ≠ hdr.crc32 then return .skip
  let body ← assignBody buffer totalLen
  return .emit ⟨hdr.seq, hdr.cmd, body⟩ totalLen

/-- One round of the loop: go round with the first byte erased, or return with the buffer left. -/
def tryDecodeBody (buffer : List UInt8) :
    List UInt8 ⊕ Except Fault (Option Packet × List UInt8) :=
  match examine buffer with
  | .error fault => .inr (.error fault)
  | .ok .wait => .inr (.ok (none, buffer))
  | .ok .clear => .inr (.ok (none, []))
  | .ok .skip => .inl (buffer.drop 1)
  | .ok (.emit pkt totalLen) => .inr (.ok (some pkt, buffer.drop totalLen))

def tryDecode : List UInt8 → Except Fault (Option Packet × List UInt8)
  | [] => .ok (none, [])
  | b :: rest => match examine (b :: rest) with
      | .error fault => .error fault
      | .ok .wait => .ok (none, b :: rest)
      | .ok .clear => .ok (none, [])
      | .ok .skip => tryDecode rest
      | .ok (.emit pkt totalLen) => .ok (some pkt, (b :: rest).drop totalLen)

def decode (codec : Codec) (buf : List UInt8) : Except Fault (Option Packet × Codec) := do
  let (pkt, buffer) ← tryDecode (codec.buffer ++ buf)
  return (pkt, { codec with buffer })

end Codec

def Packet.encode (pkt : Packet) : List UInt8 := Codec.encode pkt.cmd pkt.data pkt.seq

def Packet.decode (raw : List UInt8) : Except Fault (Option Packet) := do
  let (pkt, _) ← Codec.decode {} raw
  return pkt

end ServerFramework.Network
