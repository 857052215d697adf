import Mathlib.Data.List.Basic

namespace ServerFramework.Library

/-- A self-delimiting code: `parse` takes one frame off the front of a buffer, waits for more bytes
(`none`), or fails. -/
structure Framing (ε α β μ : Type*) where
  Valid : α → Prop
  encode : α → List β
  view : α → μ
  parse : List β → Except ε (Option (μ × List β))
  parse_nil : parse [] = .ok none
  parse_encode : ∀ a rest, Valid a → parse (encode a ++ rest) = .ok (some (view a, rest))
  parse_partial : ∀ a p q, Valid a → encode a = p ++ q → q ≠ [] → parse p = .ok none

namespace Framing

variable {ε α β μ : Type*} (F : Framing ε α β μ)

def encodeAll (as : List α) : List β := as.flatMap F.encode

@[simp] theorem encodeAll_nil : F.encodeAll [] = [] := rfl

@[simp] theorem encodeAll_cons (a : α) (as : List α) :
    F.encodeAll (a :: as) = F.encode a ++ F.encodeAll as := List.flatMap_cons

@[simp] theorem encodeAll_append (as bs : List α) :
    F.encodeAll (as ++ bs) = F.encodeAll as ++ F.encodeAll bs := List.flatMap_append

/-- On any cut of a stream of frames, the parser either takes exactly the first frame or waits; it
waits with nothing behind the cut only at the end of the stream. -/
theorem parse_stream {buf tail : List β} {as : List α} (valid : ∀ a ∈ as, F.Valid a)
    (stream : buf ++ tail = F.encodeAll as) :
    (F.parse buf = .ok none ∧ (tail = [] → as = [] ∧ buf = [])) ∨
    ∃ a rest as', as = a :: as' ∧ F.parse buf = .ok (some (F.view a, rest)) ∧
      rest ++ tail = F.encodeAll as' := by
  cases as with
  | nil =>
      obtain ⟨rfl, rfl⟩ := List.append_eq_nil_iff.mp stream
      exact Or.inl ⟨F.parse_nil, fun _ => ⟨rfl, rfl⟩⟩
  | cons a as =>
      have first := valid a (by simp)
      rw [encodeAll_cons] at stream
      rcases List.append_eq_append_iff.mp stream with ⟨missing, split, behind⟩ | ⟨rest, rfl, behind⟩
      · by_cases complete : missing = []
        · subst complete
          refine Or.inr ⟨a, [], as, rfl, ?_, by simpa using behind⟩
          rw [List.append_nil] at split
          rw [← split]
          simpa using F.parse_encode a [] first
        · refine Or.inl ⟨F.parse_partial a buf missing first split complete, fun empty => ?_⟩
          rw [empty] at behind
          exact absurd (List.append_eq_nil_iff.mp behind.symm).1 complete
      · exact Or.inr ⟨a, rest, as, rfl, F.parse_encode a rest first, behind.symm⟩

end Framing

end ServerFramework.Library
