import Mathlib.Algebra.Group.Int.Defs
import Mathlib.Algebra.Group.Nat.Defs
import Mathlib.Data.List.Basic

namespace ServerFramework

/-- Undefined behaviour the model stops at: a read or write outside an object. -/
inductive Fault
  | outOfBounds
  deriving DecidableEq, Repr

theorem ok_bind {ε α β : Type} (a : α) (f : α → Except ε β) : (Except.ok a >>= f) = f a := rfl

namespace Bytes

/-- The memory image of a word on the little-endian host. -/
def le16 (v : UInt16) : List UInt8 := [v.toUInt8, (v >>> 8).toUInt8]

def le32 (v : UInt32) : List UInt8 :=
  [v.toUInt8, (v >>> 8).toUInt8, (v >>> 16).toUInt8, (v >>> 24).toUInt8]

def load16 : List UInt8 → UInt16
  | [a, b] => .ofNat (a.toNat + b.toNat * 2 ^ 8)
  | _ => 0

def load32 : List UInt8 → UInt32
  | [a, b, c, d] => .ofNat (a.toNat + b.toNat * 2 ^ 8 + c.toNat * 2 ^ 16 + d.toNat * 2 ^ 24)
  | _ => 0

def be16 (v : UInt16) : List UInt8 := (le16 v).reverse

def be32 (v : UInt32) : List UInt8 := (le32 v).reverse

/-- `htons`, `htonl` and their inverses of `<arpa/inet.h>`: the memory image is turned round. -/
def htons (v : UInt16) : UInt16 := load16 (be16 v)

def htonl (v : UInt32) : UInt32 := load32 (be32 v)

def ntohs (v : UInt16) : UInt16 := htons v

def ntohl (v : UInt32) : UInt32 := htonl v

def memcpy (data : List UInt8) (offset n : Nat) : Except Fault (List UInt8) :=
  if offset + n ≤ data.length then .ok ((data.drop offset).take n) else .error .outOfBounds

theorem memcpy_inside {data : List UInt8} {offset n : Nat} (inside : offset + n ≤ data.length) :
    memcpy data offset n = .ok ((data.drop offset).take n) := if_pos inside

theorem memcpy_outside {data : List UInt8} {offset n : Nat} (outside : ¬ offset + n ≤ data.length) :
    memcpy data offset n = .error .outOfBounds := if_neg outside

@[simp] theorem be16_length (v : UInt16) : (be16 v).length = 2 := rfl

@[simp] theorem be32_length (v : UInt32) : (be32 v).length = 4 := rfl

theorem load16_le16 (v : UInt16) : load16 (le16 v) = v := by
  apply UInt16.toNat_inj.mp
  have bound := v.toNat_lt
  simp [load16, le16, Nat.shiftRight_eq_div_pow]
  omega

theorem load32_le32 (v : UInt32) : load32 (le32 v) = v := by
  apply UInt32.toNat_inj.mp
  have bound := v.toNat_lt
  simp [load32, le32, Nat.shiftRight_eq_div_pow]
  omega

theorem le16_load16 (a b : UInt8) : le16 (load16 [a, b]) = [a, b] := by
  have ha := a.toNat_lt
  have hb := b.toNat_lt
  simp only [load16, le16, List.cons.injEq, and_true]
  constructor <;> apply UInt8.toNat_inj.mp <;> simp [Nat.shiftRight_eq_div_pow]
  omega

theorem le32_load32 (a b c d : UInt8) : le32 (load32 [a, b, c, d]) = [a, b, c, d] := by
  have ha := a.toNat_lt
  have hb := b.toNat_lt
  have hc := c.toNat_lt
  have hd := d.toNat_lt
  simp only [load32, le32, List.cons.injEq, and_true]
  refine ⟨?_, ?_, ?_, ?_⟩ <;> apply UInt8.toNat_inj.mp <;> simp [Nat.shiftRight_eq_div_pow] <;> omega

theorem le16_htons (v : UInt16) : le16 (htons v) = be16 v := le16_load16 _ _

theorem le32_htonl (v : UInt32) : le32 (htonl v) = be32 v := le32_load32 _ _ _ _

theorem ntohs_load16 (a b : UInt8) : ntohs (load16 [a, b]) = load16 [b, a] := by
  rw [ntohs, htons, be16, le16_load16]
  rfl

theorem ntohl_load32 (a b c d : UInt8) : ntohl (load32 [a, b, c, d]) = load32 [d, c, b, a] := by
  rw [ntohl, htonl, be32, le32_load32]
  rfl

theorem ntohs_load16_be16 (v : UInt16) : ntohs (load16 (be16 v)) = v := by
  rw [be16, le16, List.reverse_cons, List.reverse_singleton, List.singleton_append, ntohs_load16]
  exact load16_le16 v

theorem ntohl_load32_be32 (v : UInt32) : ntohl (load32 (be32 v)) = v := by
  rw [show be32 v = [(v >>> 24).toUInt8, (v >>> 16).toUInt8, (v >>> 8).toUInt8, v.toUInt8] from rfl,
    ntohl_load32]
  exact load32_le32 v

theorem be16_ntohs_load16 {bytes : List UInt8} (two : bytes.length = 2) :
    be16 (ntohs (load16 bytes)) = bytes := by
  obtain ⟨a, b, rfl⟩ := List.length_eq_two.mp two
  rw [ntohs_load16, be16, le16_load16]
  rfl

theorem be32_ntohl_load32 {bytes : List UInt8} (four : bytes.length = 4) :
    be32 (ntohl (load32 bytes)) = bytes := by
  match bytes, four with
  | [a, b, c, d], _ =>
      rw [ntohl_load32, be32, le32_load32]
      rfl

end Bytes

end ServerFramework
