import ServerFramework.Library.Runs
import Mathlib.Algebra.BigOperators.Fin

namespace ServerFramework.Library

variable {σ α : Type*}

/-- No quiet step is left to take. -/
def AtRest (step : σ → α → Option σ) (quiet : α → Prop) (s : σ) : Prop := ∀ a, quiet a → step s a = none

/-- Left to quiet steps alone, a state comes to rest under every schedule, and `Q` holds where it does. -/
structure Settles (step : σ → α → Option σ) (quiet : α → Prop) (Q : σ → Prop) (bound : Nat) (s : σ) : Prop where
  short : ∀ as t, (∀ a ∈ as, quiet a) → exec step s as = some t → as.length ≤ bound
  ends : ∀ as t, (∀ a ∈ as, quiet a) → exec step s as = some t →
    ∃ more u, (∀ a ∈ more, quiet a) ∧ exec step t more = some u ∧ AtRest step quiet u
  good : ∀ as t, (∀ a ∈ as, quiet a) → exec step s as = some t → AtRest step quiet t → Q t

section

variable {step : σ → α → Option σ} {quiet : α → Prop} {I Q : σ → Prop} {measure : σ → Nat}

theorem quiet_invariant (preserved : ∀ s a t, step s a = some t → quiet a → I s → I t) {s t : σ} {as : List α}
    (calm : ∀ a ∈ as, quiet a) (run : exec step s as = some t) (initial : I s) : I t :=
  @exec_invariant_of_respects _ _ step (fun _ a => quiet a) I preserved s t as run (respects_of_forall calm s) initial

theorem quiet_length (preserved : ∀ s a t, step s a = some t → quiet a → I s → I t)
    (less : ∀ s a t, step s a = some t → quiet a → I s → measure t < measure s) {s t : σ} {as : List α}
    (calm : ∀ a ∈ as, quiet a) (run : exec step s as = some t) (initial : I s) :
    as.length + measure t ≤ measure s := by
  induction as generalizing s with
  | nil =>
      cases run
      simp
  | cons a as ih =>
      obtain ⟨u, first, rest⟩ := exec_cons.mp run
      have quiet := calm a (by simp)
      have later := ih (fun b member => calm b (by simp [member])) rest (preserved s a u first quiet initial)
      have lower := less s a u first quiet initial
      rw [List.length_cons]
      omega

theorem reaches_rest (preserved : ∀ s a t, step s a = some t → quiet a → I s → I t)
    (less : ∀ s a t, step s a = some t → quiet a → I s → measure t < measure s) {s : σ} (initial : I s) :
    ∃ more u, (∀ a ∈ more, quiet a) ∧ exec step s more = some u ∧ AtRest step quiet u := by
  induction left : measure s using Nat.strongRecOn generalizing s with
  | ind n ih =>
      by_cases rest : AtRest step quiet s
      · exact ⟨[], s, by simp, rfl, rest⟩
      · obtain ⟨a, calm, moves⟩ : ∃ a, quiet a ∧ step s a ≠ none := by simpa [AtRest] using rest
        obtain ⟨t, first⟩ := Option.ne_none_iff_exists'.mp moves
        have lower := less s a t first calm initial
        obtain ⟨more, u, others, run, resting⟩ := ih (measure t) (left ▸ lower) (preserved s a t first calm initial) rfl
        refine ⟨a :: more, u, ?_, exec_cons.mpr ⟨t, first, run⟩, resting⟩
        intro b member
        rcases List.mem_cons.mp member with rfl | later
        · exact calm
        · exact others b later

theorem settles (preserved : ∀ s a t, step s a = some t → quiet a → I s → I t)
    (less : ∀ s a t, step s a = some t → quiet a → I s → measure t < measure s)
    (good : ∀ s, I s → AtRest step quiet s → Q s) {s : σ} (initial : I s) : Settles step quiet Q (measure s) s where
  short as t calm run := by
    have := quiet_length preserved less calm run initial
    omega
  ends as t calm run := reaches_rest preserved less (quiet_invariant preserved calm run initial)
  good as t calm run := good t (quiet_invariant preserved calm run initial)

end

/-! ## What the threads have left to do -/

section

variable {ι β : Type*} [Fintype ι] [DecidableEq ι]

def total (rank : β → Nat) (threads : ι → β) : Nat := ∑ i, rank (threads i)

theorem total_update (rank : β → Nat) (threads : ι → β) (i : ι) (b : β) :
    total rank (Function.update threads i b) + rank (threads i) = total rank threads + rank b := by
  have moved : ∀ j, rank (Function.update threads i b j) =
      Function.update (fun j => rank (threads j)) i (rank b) j := by
    intro j
    by_cases same : j = i
    · subst same
      simp
    · simp [same]
  have split := Finset.sum_eq_add_sum_sdiff_singleton_of_mem (Finset.mem_univ i) fun j => rank (threads j)
  rw [total, total, Finset.sum_congr rfl fun j _ => moved j, Finset.sum_update_of_mem (Finset.mem_univ i), split]
  omega

end

section

variable {β : Type*} (rank : β → Nat)

def weight (threads : List β) : Nat := (threads.map rank).sum

theorem weight_snoc (threads : List β) (b : β) : weight rank (threads ++ [b]) = weight rank threads + rank b := by
  simp [weight]

theorem weight_set {threads : List β} {i : Nat} {b : β} (here : threads[i]? = some b) (c : β) :
    weight rank (threads.set i c) + rank b = weight rank threads + rank c := by
  induction threads generalizing i with
  | nil => simp at here
  | cons d threads ih =>
      cases i with
      | zero =>
          obtain rfl : d = b := by simpa using here
          simp only [weight, List.set_cons_zero, List.map_cons, List.sum_cons]
          omega
      | succ i =>
          have later := ih (i := i) (by simpa using here)
          simp only [weight, List.set_cons_succ, List.map_cons, List.sum_cons] at later ⊢
          omega

theorem weight_eq_zero {threads : List β} (idle : ∀ b ∈ threads, rank b = 0) : weight rank threads = 0 := by
  refine List.sum_eq_zero fun n member => ?_
  obtain ⟨b, among, rfl⟩ := List.mem_map.mp member
  exact idle b among

end

end ServerFramework.Library
