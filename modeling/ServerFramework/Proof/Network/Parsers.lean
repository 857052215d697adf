import ServerFramework.Network.TcpConnection
import ServerFramework.Network.TcpClient
import ServerFramework.Proof.Network.Packet

namespace ServerFramework.Tcp
open Protocol Bytes Library

theorem drop_four_encode (pkt : Packet) (rest : List UInt8) :
    (encode pkt ++ rest).drop 4 = be16 pkt.cmd ++ (pkt.data ++ rest) := by
  rw [encode_eq, List.append_assoc, List.drop_left' (be32_length _), List.append_assoc]

theorem drop_six_encode (pkt : Packet) (rest : List UInt8) :
    (encode pkt ++ rest).drop 6 = pkt.data ++ rest := by
  rw [show 6 = 4 + 2 from rfl, ← List.drop_drop, drop_four_encode, List.drop_left' (be16_length _)]

theorem take_data_encode (pkt : Packet) (rest : List UInt8) :
    ((encode pkt ++ rest).drop 6).take ((encode pkt).length - 6) = pkt.data := by
  rw [drop_six_encode, encode_length, Nat.add_sub_cancel_left, List.take_left' rfl]

theorem decodeFrom_encode (pkt : Packet) (rest : List UInt8) (small : (encode pkt).length < 2 ^ 32) :
    decodeFrom (encode pkt ++ rest) = .ok (some (pkt, (encode pkt).length)) := by
  have field := lengthField_encode pkt rest small
  have six : 6 ≤ (encode pkt).length := by simp
  rw [decodeFrom_frame (by rw [field]; exact six) (by rw [field]; simp), field, take_data_encode,
    drop_four_encode, List.take_left' (be16_length _), ntohs_load16_be16]

theorem partial_frame {pkt : Packet} {p q : List UInt8} (small : (encode pkt).length < 2 ^ 32)
    (cut : encode pkt = p ++ q) (missing : q ≠ []) (enough : 4 ≤ p.length) :
    p.length < (lengthField p).toNat := by
  have field := lengthField_encode pkt [] small
  rw [List.append_nil, cut, lengthField_append q enough, List.length_append] at field
  have positive := List.length_pos_iff.mpr missing
  omega

theorem decodeFrom_partial {pkt : Packet} {p q : List UInt8} (small : (encode pkt).length < 2 ^ 32)
    (cut : encode pkt = p ++ q) (missing : q ≠ []) : decodeFrom p = .ok none := by
  by_cases enough : 4 ≤ p.length
  · exact decodeFrom_wait enough (partial_frame small cut missing enough)
  · exact decodeFrom_short (by omega)

def packetFraming : Framing Fault Packet UInt8 Packet where
  Valid pkt := (encode pkt).length < 2 ^ 31
  encode := encode
  view := id
  parse := TcpConnection.processRead
  parse_nil := rfl
  parse_encode := by
    intro pkt rest valid
    rw [TcpConnection.processRead, decodeFrom_encode pkt rest (by omega)]
    exact congrArg (fun tail => Except.ok (some (pkt, tail))) (List.drop_left' rfl)
  parse_partial := by
    intro pkt p q valid cut missing
    rw [TcpConnection.processRead, decodeFrom_partial (by omega) cut missing]
    rfl

theorem parseMessage_short {data : List UInt8} (short : data.length < 4) :
    TcpClient.parseMessage data = .ok none := by
  rw [TcpClient.parseMessage, if_pos short]
  rfl

theorem parseMessage_long {data : List UInt8} (enough : 4 ≤ data.length) :
    TcpClient.parseMessage data =
      if data.length < (lengthField data).toNat then .ok none
      else do
        let msg ← memcpy data 6 (lengthField data - 6).toNat
        return some (msg, data.drop (lengthField data).toNat) := by
  have inside : 0 + 4 ≤ data.length := by omega
  rw [TcpClient.parseMessage, if_neg (Nat.not_lt.mpr enough), memcpy_inside inside, ok_bind,
    List.drop_zero, lengthField]
  generalize ntohl (load32 (data.take 4)) = totalLen
  rfl

def messageFraming : Framing Fault Packet UInt8 (List UInt8) where
  Valid pkt := (encode pkt).length < 2 ^ 31
  encode := encode
  view := Packet.data
  parse := TcpClient.parseMessage
  parse_nil := rfl
  parse_encode := by
    intro pkt rest valid
    have field := lengthField_encode pkt rest (by omega)
    have six : 6 ≤ (lengthField (encode pkt ++ rest)).toNat := by rw [field]; simp
    have whole : ¬ (encode pkt ++ rest).length < (lengthField (encode pkt ++ rest)).toNat := by
      rw [field, List.length_append]
      omega
    rw [parseMessage_long (by simp; omega), if_neg whole, sub_six_toNat six,
      memcpy_inside (by omega), field, take_data_encode, List.drop_left' rfl]
    rfl
  parse_partial := by
    intro pkt p q valid cut missing
    by_cases enough : 4 ≤ p.length
    · rw [parseMessage_long enough, if_pos (partial_frame (by omega) cut missing enough)]
    · exact parseMessage_short (by omega)

end ServerFramework.Tcp
