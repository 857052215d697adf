import Mathlib.Data.List.Basic

namespace ServerFramework.Library

/-- What a scanner makes of its buffer: it needs more of the stream, it gives up, or it takes the front of it, perhaps
as a token. -/
inductive Finding (μ : Type*)
  | wait
  | stop
  | take (count : Nat) (token : Option μ)

/-- What a scanner has found does not change when more of the stream arrives. -/
structure Scanner (β μ : Type*) where
  find : List β → Finding μ
  stable : ∀ buffer more, find buffer ≠ .wait → find (buffer ++ more) = find buffer
  inside : ∀ buffer count token, find buffer = .take count token → 0 < count ∧ count ≤ buffer.length

namespace Scanner

variable {β μ : Type*} (S : Scanner β μ)

/-- The tokens of a stream and what the scanner waits with, or nothing where it gave up. -/
inductive Scan : List β → List μ → Option (List β) → Prop
  | wait {buffer : List β} (found : S.find buffer = .wait) : Scan buffer [] (some buffer)
  | stop {buffer : List β} (found : S.find buffer = .stop) : Scan buffer [] none
  | take {buffer : List β} {count : Nat} {token : Option μ} {tokens : List μ} {kept : Option (List β)}
      (found : S.find buffer = .take count token) (rest : Scan (buffer.drop count) tokens kept) :
      Scan buffer (token.toList ++ tokens) kept

variable {S}

theorem exists_scan (buffer : List β) : ∃ tokens kept, S.Scan buffer tokens kept := by
  induction size : buffer.length using Nat.strongRecOn generalizing buffer with
  | ind n ih =>
      cases found : S.find buffer with
      | wait => exact ⟨[], some buffer, .wait found⟩
      | stop => exact ⟨[], none, .stop found⟩
      | take count token =>
          obtain ⟨positive, inside⟩ := S.inside buffer count token found
          have shorter : (buffer.drop count).length < n := by
            rw [List.length_drop]
            omega
          obtain ⟨tokens, kept, rest⟩ := ih _ shorter (buffer.drop count) rfl
          exact ⟨_, kept, .take found rest⟩

theorem Scan.unique {buffer : List β} {tokens tokens' : List μ} {kept kept' : Option (List β)}
    (one : S.Scan buffer tokens kept) (two : S.Scan buffer tokens' kept') : tokens = tokens' ∧ kept = kept' := by
  induction one generalizing tokens' kept' with
  | wait found =>
      cases two with
      | wait => exact ⟨rfl, rfl⟩
      | stop other | take other => simp [found] at other
  | stop found =>
      cases two with
      | stop => exact ⟨rfl, rfl⟩
      | wait other | take other => simp [found] at other
  | take found _ ih =>
      cases two with
      | wait other | stop other => simp [found] at other
      | take other rest =>
          obtain ⟨rfl, rfl⟩ := Finding.take.inj (found.symm.trans other)
          obtain ⟨rfl, rfl⟩ := ih rest
          exact ⟨rfl, rfl⟩

theorem Scan.waits {buffer rest : List β} {tokens : List μ} {kept : Option (List β)}
    (scan : S.Scan buffer tokens kept) (same : kept = some rest) : S.find rest = .wait := by
  induction scan with
  | wait found =>
      cases same
      exact found
  | stop => cases same
  | take _ _ ih => exact ih same

/-- Scanning a stream is scanning a part of it and then what was left with the rest. -/
theorem Scan.append {buffer : List β} {tokens : List μ} {kept : Option (List β)} (scan : S.Scan buffer tokens kept)
    (more : List β) :
    (kept = none → S.Scan (buffer ++ more) tokens none) ∧
    ∀ rest, kept = some rest → ∀ tokens' kept', S.Scan (rest ++ more) tokens' kept' →
      S.Scan (buffer ++ more) (tokens ++ tokens') kept' := by
  induction scan with
  | wait =>
      refine ⟨fun same => absurd same (by simp), ?_⟩
      rintro rest ⟨⟩ tokens' kept' later
      exact later
  | @stop buffer found =>
      refine ⟨fun _ => .stop ?_, fun rest same => absurd same (by simp)⟩
      rw [S.stable buffer more (by simp [found]), found]
  | @take buffer count token tokens kept found _ ih =>
      have longer : S.find (buffer ++ more) = .take count token := by
        rw [S.stable buffer more (by simp [found]), found]
      have front : (buffer ++ more).drop count = buffer.drop count ++ more :=
        List.drop_append_of_le_length (S.inside buffer count token found).2
      rw [← front] at ih
      refine ⟨fun stopped => .take longer (ih.1 stopped), fun rest same tokens' kept' later => ?_⟩
      rw [List.append_assoc]
      exact .take longer (ih.2 rest same tokens' kept' later)

theorem Scan.of_wait {buffer : List β} {tokens : List μ} {kept : Option (List β)} (scan : S.Scan buffer tokens kept)
    (found : S.find buffer = .wait) : tokens = [] ∧ kept = some buffer :=
  scan.unique (.wait found)

end Scanner

end ServerFramework.Library
