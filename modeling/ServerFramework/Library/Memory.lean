import Mathlib.Algebra.Group.Int.Defs
import Mathlib.Algebra.Group.Nat.Defs
import Mathlib.Data.List.Basic

namespace ServerFramework.Library

abbrev Memory := Nat → UInt8

namespace Memory

def load64 (m : Memory) (a : Nat) : Nat :=
  (m a).toNat + 2 ^ 8 * (m (a + 1)).toNat + 2 ^ 16 * (m (a + 2)).toNat + 2 ^ 24 * (m (a + 3)).toNat +
    2 ^ 32 * (m (a + 4)).toNat + 2 ^ 40 * (m (a + 5)).toNat + 2 ^ 48 * (m (a + 6)).toNat +
    2 ^ 56 * (m (a + 7)).toNat

def store64 (m : Memory) (a v : Nat) : Memory := fun x =>
  if a ≤ x ∧ x < a + 8 then .ofNat (v / 2 ^ (8 * (x - a))) else m x

def overwrite (m : Memory) (a n : Nat) (bytes : Memory) : Memory := fun x =>
  if a ≤ x ∧ x < a + n then bytes x else m x

theorem load64_congr {m m' : Memory} {a : Nat} (same : ∀ x, a ≤ x → x < a + 8 → m' x = m x) :
    load64 m' a = load64 m a := by
  simp only [load64]
  rw [same a (by omega) (by omega), same (a + 1) (by omega) (by omega),
    same (a + 2) (by omega) (by omega), same (a + 3) (by omega) (by omega),
    same (a + 4) (by omega) (by omega), same (a + 5) (by omega) (by omega),
    same (a + 6) (by omega) (by omega), same (a + 7) (by omega) (by omega)]

theorem store64_byte (m : Memory) (a v : Nat) {i : Nat} (inside : i < 8) :
    (store64 m a v (a + i)).toNat = v / 2 ^ (8 * i) % 2 ^ 8 := by
  simp [store64, inside]

theorem load64_store64 (m : Memory) (a : Nat) {v : Nat} (small : v < 2 ^ 64) :
    load64 (store64 m a v) a = v := by
  have first := store64_byte m a v (i := 0) (by omega)
  rw [Nat.add_zero] at first
  simp only [load64]
  rw [first, store64_byte m a v (by omega), store64_byte m a v (by omega),
    store64_byte m a v (by omega), store64_byte m a v (by omega), store64_byte m a v (by omega),
    store64_byte m a v (by omega), store64_byte m a v (by omega)]
  omega

theorem store64_outside (m : Memory) (a v : Nat) {x : Nat} (outside : x < a ∨ a + 8 ≤ x) :
    store64 m a v x = m x :=
  if_neg (by omega)

theorem overwrite_outside (m : Memory) (a n : Nat) (bytes : Memory) {x : Nat}
    (outside : x < a ∨ a + n ≤ x) : overwrite m a n bytes x = m x :=
  if_neg (by omega)

theorem load64_store64_apart (m : Memory) (a v : Nat) {b : Nat} (apart : b + 8 ≤ a ∨ a + 8 ≤ b) :
    load64 (store64 m a v) b = load64 m b :=
  load64_congr fun _ _ _ => store64_outside m a v (by omega)

theorem load64_overwrite_apart (m : Memory) (a n : Nat) (bytes : Memory) {b : Nat}
    (apart : b + 8 ≤ a ∨ a + n ≤ b) : load64 (overwrite m a n bytes) b = load64 m b :=
  load64_congr fun _ _ _ => overwrite_outside m a n bytes (by omega)

end Memory

/-! ## Chains of cells -/

/-- Following `next` from `p` visits exactly these cells and ends at null. -/
def Chain (next : Nat → Nat) : Nat → List Nat → Prop
  | p, [] => p = 0
  | p, a :: rest => p = a ∧ a ≠ 0 ∧ Chain next (next a) rest

theorem Chain.congr {next next' : Nat → Nat} {p : Nat} {cells : List Nat} (chain : Chain next p cells)
    (same : ∀ a ∈ cells, next' a = next a) : Chain next' p cells := by
  induction cells generalizing p with
  | nil => exact chain
  | cons a rest ih =>
      obtain ⟨start, nonnull, tail⟩ := chain
      refine ⟨start, nonnull, ?_⟩
      rw [same a (List.mem_cons_self ..)]
      exact ih tail fun b member => same b (List.mem_cons_of_mem _ member)

theorem Chain.nil_of_null {next : Nat → Nat} {cells : List Nat} (chain : Chain next 0 cells) :
    cells = [] := by
  cases cells with
  | nil => rfl
  | cons a rest => exact absurd chain.1.symm chain.2.1

theorem Chain.cons_of_nonnull {next : Nat → Nat} {p : Nat} {cells : List Nat}
    (chain : Chain next p cells) (nonnull : p ≠ 0) :
    ∃ rest, cells = p :: rest ∧ Chain next (next p) rest := by
  cases cells with
  | nil => exact absurd chain nonnull
  | cons a rest =>
      obtain ⟨rfl, -, tail⟩ := chain
      exact ⟨rest, rfl, tail⟩

theorem Chain.unique {next : Nat → Nat} {p : Nat} {cells others : List Nat} (chain : Chain next p cells)
    (other : Chain next p others) : cells = others := by
  induction cells generalizing p others with
  | nil =>
      obtain rfl : p = 0 := chain
      exact other.nil_of_null.symm
  | cons a rest ih =>
      obtain ⟨rfl, nonnull, tail⟩ := chain
      obtain ⟨rest', rfl, tail'⟩ := other.cons_of_nonnull nonnull
      rw [ih tail tail']

theorem chain_progression {next : Nat → Nat} {base stride i n p : Nat} {rest : List Nat} (positive : 0 < base)
    (linked : ∀ j, i ≤ j → j < i + n → next (base + j * stride) = base + (j + 1) * stride)
    (last : next (base + (i + n) * stride) = p) (tail : Chain next p rest) :
    Chain next (base + i * stride)
      ((List.range' i (n + 1)).map (fun j => base + j * stride) ++ rest) := by
  induction n generalizing i with
  | zero =>
      rw [Nat.add_zero] at last
      exact ⟨rfl, Nat.ne_of_gt (Nat.add_pos_left positive _), last ▸ tail⟩
  | succ n ih =>
      rw [List.range'_succ, List.map_cons, List.cons_append]
      refine ⟨rfl, Nat.ne_of_gt (Nat.add_pos_left positive _), ?_⟩
      rw [linked i (Nat.le_refl i) (by omega)]
      refine ih (fun j lower upper => linked j (by omega) (by omega)) ?_
      rwa [show i + 1 + n = i + (n + 1) by omega]

end ServerFramework.Library
