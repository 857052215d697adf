import ServerFramework.Proof.Network.Checksum

namespace ServerFramework.Network
open Library Library.Crc

namespace CRC32

theorem widen_injective : Function.Injective widen := by
  intro a b equal
  apply UInt8.toBitVec_inj.mp
  apply BitVec.eq_of_getLsbD_eq
  intro i bound
  have bit := congrArg (·.getLsbD i) equal
  simpa [widen, show i < 32 by omega] using bit

/-! ## Bursts -/

theorem calculate_burst {pre mid mid' post : List UInt8} (same : mid.length = mid'.length) (short : mid.length ≤ 4)
    (equal : calculate (pre ++ mid ++ post) = calculate (pre ++ mid' ++ post)) : mid = mid' := by
  have registers := (calculate_eq_iff _ _).mp equal
  simp only [List.map_append, List.append_assoc] at registers
  rw [feed_append poly _ (pre.map widen), feed_append poly _ (pre.map widen)] at registers
  have words := feed_burst poly_msb _ (post.map widen) (by simpa using same) (map_widen_small mid)
    (map_widen_small mid') (by rw [List.length_map]; omega) registers
  exact (List.map_injective_iff.mpr widen_injective) words

theorem burst_split {as bs : List UInt8} (k n : Nat) (burst : ∀ i, as[i]? ≠ bs[i]? → k ≤ i ∧ i < k + n) :
    ∃ pre mid mid' post, as = pre ++ mid ++ post ∧ bs = pre ++ mid' ++ post ∧
      mid.length ≤ n ∧ mid'.length ≤ n := by
  have before : as.take k = bs.take k := by
    apply List.ext_getElem?
    intro i
    by_cases inside : i < k
    · rw [List.getElem?_take_of_lt inside, List.getElem?_take_of_lt inside]
      by_contra differ
      exact absurd (burst i differ).1 (by omega)
    · rw [List.getElem?_eq_none (by simp; omega), List.getElem?_eq_none (by simp; omega)]
  have behind : (as.drop k).drop n = (bs.drop k).drop n := by
    apply List.ext_getElem?
    intro i
    rw [List.drop_drop, List.drop_drop, List.getElem?_drop, List.getElem?_drop]
    by_contra differ
    exact absurd (burst _ differ).2 (by omega)
  refine ⟨as.take k, (as.drop k).take n, (bs.drop k).take n, (as.drop k).drop n, ?_, ?_, ?_, ?_⟩
  · rw [List.append_assoc, List.take_append_drop, List.take_append_drop]
  · rw [before, behind, List.append_assoc, List.take_append_drop, List.take_append_drop]
  · exact List.length_take_le n _
  · exact List.length_take_le n _

theorem calculate_detects_burst {as bs : List UInt8} (same : as.length = bs.length) (different : as ≠ bs)
    (k : Nat) (burst : ∀ i, as[i]? ≠ bs[i]? → k ≤ i ∧ i < k + 4) :
    calculate as ≠ calculate bs ∧ verify bs (calculate as) = false := by
  have detected : calculate as ≠ calculate bs := by
    intro equal
    obtain ⟨pre, mid, mid', post, rfl, rfl, short, -⟩ := burst_split k 4 burst
    have lengths : mid.length = mid'.length := by
      simp only [List.length_append] at same
      omega
    exact different (by rw [calculate_burst lengths short equal])
  refine ⟨detected, ?_⟩
  rw [verify, beq_eq_false_iff_ne]
  exact detected.symm

theorem calculate_detects_burst_flipped :
    ([1, 2, 3, 4, 5, 6] : List UInt8).length = [1, 0, 7, 4, 9, 6].length ∧
    calculate [1, 2, 3, 4, 5, 6] ≠ calculate [1, 0, 7, 4, 9, 6] ∧
    verify [1, 0, 7, 4, 9, 6] (calculate [1, 2, 3, 4, 5, 6]) = false := by
  have burst : ∀ i, ([1, 2, 3, 4, 5, 6] : List UInt8)[i]? ≠
      ([1, 0, 7, 4, 9, 6] : List UInt8)[i]? → 1 ≤ i ∧ i < 1 + 4 := by
    intro i differ
    rcases Nat.lt_or_ge i 6 with inside | outside
    · interval_cases i <;> revert differ <;> decide
    · rw [List.getElem?_eq_none outside, List.getElem?_eq_none outside] at differ
      exact absurd rfl differ
  exact ⟨rfl, calculate_detects_burst rfl (by decide) 1 burst⟩

/-! ## The bitwise definition -/

/-- The reflected CRC-32 with the message shifted in bit by bit, the low bit of each byte first. -/
def bitwise (data : List UInt8) : BitVec 32 :=
  ~~~((data.flatMap fun b => lowBits 8 b.toBitVec).foldl (shiftIn 0xEDB88320#32) 0xFFFFFFFF#32)

theorem lowBits_widen (b : UInt8) : lowBits 8 b.toBitVec = lowBits 8 (widen b) := by
  apply List.map_congr_left
  intro i member
  have bound : i < 8 := List.mem_range.mp member
  rw [widen, BitVec.getLsbD_setWidth, decide_eq_true (by omega), Bool.true_and]

theorem update_bitwise (crc : UInt32) (p : UInt8) :
    (update crc p).toBitVec = (lowBits 8 p.toBitVec).foldl (shiftIn poly) crc.toBitVec := by
  rw [update_toBitVec, lowBits_widen, shiftIn_lowBits poly 8 _ _ (widen_small p)]

theorem foldl_update_bitwise (data : List UInt8) (crc : UInt32) :
    (data.foldl update crc).toBitVec =
      (data.flatMap fun b => lowBits 8 b.toBitVec).foldl (shiftIn poly) crc.toBitVec := by
  induction data generalizing crc with
  | nil => rfl
  | cons p data ih => rw [List.foldl_cons, ih, update_bitwise, List.flatMap_cons, List.foldl_append]

theorem calculate_eq_bitwise (data : List UInt8) : (calculate data).toBitVec = bitwise data := by
  have complement : ∀ x : BitVec 32, x ^^^ 0xFFFFFFFF#32 = ~~~ x := fun x => BitVec.xor_allOnes
  rw [calculate, UInt32.toBitVec_xor, foldl_update_bitwise]
  exact complement _

-- the check value of CRC-32: the digits 1 to 9
example : calculate [49, 50, 51, 52, 53, 54, 55, 56, 57] = 0xCBF43926 := by decide +kernel

end CRC32

end ServerFramework.Network
