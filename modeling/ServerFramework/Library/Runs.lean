import Mathlib.Data.List.Basic
import Mathlib.Logic.Relation

namespace ServerFramework.Library

variable {σ α ρ : Type*}

def exec (step : σ → α → Option σ) : σ → List α → Option σ
  | s, [] => some s
  | s, a :: as => (step s a).bind fun t => exec step t as

def Respects (allowed : σ → α → Prop) (step : σ → α → Option σ) : σ → List α → Prop
  | _, [] => True
  | s, a :: as => allowed s a ∧ ∀ t, step s a = some t → Respects allowed step t as

theorem exec_cons {step : σ → α → Option σ} {s u : σ} {a : α} {as : List α} :
    exec step s (a :: as) = some u ↔ ∃ t, step s a = some t ∧ exec step t as = some u := by
  simp [exec, Option.bind_eq_some_iff]

theorem exec_append (step : σ → α → Option σ) (s : σ) (as bs : List α) :
    exec step s (as ++ bs) = (exec step s as).bind fun t => exec step t bs := by
  induction as generalizing s with
  | nil => rfl
  | cons a as ih =>
      cases h : step s a with
      | none => simp [exec, h]
      | some t => simp [exec, h, ih]

theorem exec_snoc {step : σ → α → Option σ} {s u : σ} {as : List α} {a : α} :
    exec step s (as ++ [a]) = some u ↔ ∃ t, exec step s as = some t ∧ step t a = some u := by
  simp [exec_append, exec, Option.bind_eq_some_iff]

theorem exists_exec {step : σ → α → Option σ} {s t : σ}
    (reaches : Relation.ReflTransGen (fun s t => ∃ a, step s a = some t) s t) : ∃ as, exec step s as = some t := by
  induction reaches using Relation.ReflTransGen.head_induction_on with
  | refl => exact ⟨[], rfl⟩
  | head first _ ih =>
      obtain ⟨a, stepped⟩ := first
      obtain ⟨as, ran⟩ := ih
      exact ⟨a :: as, exec_cons.mpr ⟨_, stepped, ran⟩⟩

theorem exec_total {step : σ → α → Option σ} {P : σ → Prop}
    (enabled : ∀ s a, P s → ∃ t, step s a = some t ∧ P t) {s : σ} (as : List α) (initial : P s) :
    ∃ t, exec step s as = some t ∧ P t := by
  induction as generalizing s with
  | nil => exact ⟨s, rfl, initial⟩
  | cons a as ih =>
      obtain ⟨u, first, holds⟩ := enabled s a initial
      obtain ⟨t, rest, last⟩ := ih holds
      exact ⟨t, exec_cons.mpr ⟨u, first, rest⟩, last⟩

theorem exec_invariant_of_respects {step : σ → α → Option σ} {allowed : σ → α → Prop}
    {P : σ → Prop} (preserved : ∀ s a t, step s a = some t → allowed s a → P s → P t)
    {s t : σ} {as : List α} (run : exec step s as = some t)
    (respects : Respects allowed step s as) (initial : P s) : P t := by
  induction as generalizing s with
  | nil => cases run; exact initial
  | cons a as ih =>
      obtain ⟨u, first, rest⟩ := exec_cons.mp run
      exact ih rest (respects.2 u first) (preserved s a u first respects.1 initial)

theorem respects_cons {step : σ → α → Option σ} {allowed : σ → α → Prop} {s t : σ} {a : α} {as : List α}
    (first : step s a = some t) (permitted : allowed s a) (rest : Respects allowed step t as) :
    Respects allowed step s (a :: as) :=
  ⟨permitted, fun u same => by rwa [← Option.some.inj (first.symm.trans same)]⟩

theorem respects_cons_iff {step : σ → α → Option σ} {allowed : σ → α → Prop} {s : σ} {a : α} {as : List α} :
    Respects allowed step s (a :: as) ↔ allowed s a ∧ (step s a).elim True fun t => Respects allowed step t as := by
  cases first : step s a with
  | none => simp [Respects, first]
  | some t => simp [Respects, first]

instance decidableRespects {step : σ → α → Option σ} {allowed : σ → α → Prop} [∀ s a, Decidable (allowed s a)] :
    ∀ s as, Decidable (Respects allowed step s as)
  | _, [] => isTrue trivial
  | s, a :: as =>
      have : Decidable ((step s a).elim True fun t => Respects allowed step t as) :=
        match step s a with
        | none => isTrue trivial
        | some t => decidableRespects t as
      decidable_of_iff _ respects_cons_iff.symm

theorem respects_of_forall {step : σ → α → Option σ} {allowed : α → Prop} {as : List α}
    (all : ∀ a ∈ as, allowed a) (s : σ) : Respects (fun _ a => allowed a) step s as := by
  induction as generalizing s with
  | nil => trivial
  | cons a as ih =>
      exact ⟨all a (by simp), fun t _ => ih (fun b member => all b (by simp [member])) t⟩

theorem respects_iff_forall {step : σ → α → Option σ} {allowed : α → Prop} {s t : σ} {as : List α}
    (run : exec step s as = some t) : Respects (fun _ a => allowed a) step s as ↔ ∀ a ∈ as, allowed a := by
  constructor
  · intro respects
    induction as generalizing s with
    | nil => exact fun a member => absurd member List.not_mem_nil
    | cons b as ih =>
        obtain ⟨u, first, rest⟩ := exec_cons.mp run
        intro a member
        rcases List.mem_cons.mp member with rfl | later
        · exact respects.1
        · exact ih rest (respects.2 u first) a later
  · exact fun all => respects_of_forall all s

theorem exec_invariant {step : σ → α → Option σ} {P : σ → Prop}
    (preserved : ∀ s a t, step s a = some t → P s → P t) {s t : σ} {as : List α}
    (run : exec step s as = some t) (initial : P s) : P t := by
  have unrestricted : Respects (fun _ _ => True) step s as := respects_of_forall (fun _ _ => trivial) s
  exact exec_invariant_of_respects (fun s a t stepped _ => preserved s a t stepped) run unrestricted initial

/-- An invariant that also speaks of what was done so far. -/
theorem exec_history {step : σ → α → Option σ} {P : List α → σ → Prop}
    (preserved : ∀ done s a t, step s a = some t → P done s → P (done ++ [a]) t) {s t : σ} {done as : List α}
    (run : exec step s as = some t) (initial : P done s) : P (done ++ as) t := by
  induction as generalizing s done with
  | nil =>
      cases run
      rwa [List.append_nil]
  | cons a as ih =>
      obtain ⟨u, first, rest⟩ := exec_cons.mp run
      have later := ih rest (preserved done s a u first initial)
      rwa [List.append_assoc] at later

theorem exec_congr {step step' : σ → α → Option σ} {P : σ → Prop} (same : ∀ s a, P s → step' s a = step s a)
    (preserved : ∀ s a t, step s a = some t → P s → P t) {s : σ} (as : List α) (initial : P s) :
    exec step' s as = exec step s as := by
  induction as generalizing s with
  | nil => rfl
  | cons a as ih =>
      rw [exec, exec, same s a initial]
      cases first : step s a with
      | none => rfl
      | some t => exact ih (preserved s a t first initial)

theorem exec_simulated {τ : Type*} {step : σ → α → Option σ} {see : σ → τ} {abstract : τ → τ → Prop}
    (steps : ∀ s a t, step s a = some t → Relation.ReflTransGen abstract (see s) (see t)) {s t : σ} {as : List α}
    (run : exec step s as = some t) : Relation.ReflTransGen abstract (see s) (see t) := by
  induction as generalizing s with
  | nil =>
      cases run
      exact .refl
  | cons a as ih =>
      obtain ⟨u, first, rest⟩ := exec_cons.mp run
      exact (steps s a u first).trans (ih rest)

theorem Respects.and {step : σ → α → Option σ} {first second : σ → α → Prop} {s : σ} {as : List α}
    (one : Respects first step s as) (two : Respects second step s as) :
    Respects (fun s a => first s a ∧ second s a) step s as := by
  induction as generalizing s with
  | nil => trivial
  | cons a as ih => exact ⟨⟨one.1, two.1⟩, fun t stepped => ih (one.2 t stepped) (two.2 t stepped)⟩

theorem Respects.of_invariant {step : σ → α → Option σ} {simple allowed : σ → α → Prop} {I : σ → Prop}
    (enough : ∀ s a, I s → simple s a → allowed s a)
    (preserved : ∀ s a t, step s a = some t → allowed s a → I s → I t) {s : σ} {as : List α}
    (respects : Respects simple step s as) (initial : I s) : Respects allowed step s as := by
  induction as generalizing s with
  | nil => trivial
  | cons a as ih =>
      have permitted := enough s a initial respects.1
      exact ⟨permitted, fun t stepped => ih (respects.2 t stepped) (preserved s a t stepped permitted initial)⟩

/-- A run beside an account `f` that is kept of it: the two stay related exactly when every step was allowed.
Allowed steps keep an invariant that gives the relation, and a step that was not allowed shows in the state behind
it. -/
theorem always_related_iff_respects {β : Type*} {step : σ → α → Option σ} {f : β → α → β} {given allowed : σ → α → Prop}
    {I P : σ → β → Prop}
    (preserved : ∀ s b a t, step s a = some t → given s a → allowed s a → I s b → I t (f b a))
    (sound : ∀ s b, I s b → P s b) (visible : ∀ s b a t, step s a = some t → I s b → P t (f b a) → allowed s a)
    {s t : σ} {b : β} {as : List α} (premise : Respects given step s as) (run : exec step s as = some t)
    (initial : I s b) :
    (∀ n u, exec step s (as.take n) = some u → P u ((as.take n).foldl f b)) ↔ Respects allowed step s as := by
  induction as generalizing s b with
  | nil => exact ⟨fun _ => trivial, fun _ n u same => by cases n <;> cases same <;> exact sound s b initial⟩
  | cons a as ih =>
      obtain ⟨u, first, rest⟩ := exec_cons.mp run
      obtain ⟨holds, others⟩ := premise
      constructor
      · intro always
        have permitted := visible s b a u first initial (always 1 u (exec_cons.mpr ⟨u, first, rfl⟩))
        have later := ih (others u first) rest (preserved s b a u first holds permitted initial)
        exact respects_cons first permitted (later.mp fun n w reached =>
          always (n + 1) w (exec_cons.mpr ⟨u, first, reached⟩))
      · rintro ⟨permitted, after⟩ n w reached
        cases n with
        | zero =>
            cases reached
            exact sound s b initial
        | succ n =>
            obtain ⟨v, second, reached⟩ := exec_cons.mp reached
            obtain rfl := Option.some.inj (first.symm.trans second)
            exact (ih (others u first) rest (preserved s b a u first holds permitted initial)).mpr (after u first) n w
              reached

theorem always_iff_respects_of {step : σ → α → Option σ} {given allowed : σ → α → Prop} {I P : σ → Prop}
    (preserved : ∀ s a t, step s a = some t → given s a → allowed s a → I s → I t) (sound : ∀ s, I s → P s)
    (visible : ∀ s a t, step s a = some t → I s → P t → allowed s a) {s t : σ} {as : List α}
    (premise : Respects given step s as) (run : exec step s as = some t) (initial : I s) :
    (∀ n u, exec step s (as.take n) = some u → P u) ↔ Respects allowed step s as :=
  @always_related_iff_respects σ α Unit step (fun _ _ => ()) given allowed (fun s _ => I s) (fun s _ => P s)
    (fun s _ => preserved s) (fun s _ => sound s) (fun s _ => visible s) s t () as premise run initial

theorem always_iff_respects {step : σ → α → Option σ} {allowed : σ → α → Prop} {I P : σ → Prop}
    (preserved : ∀ s a t, step s a = some t → allowed s a → I s → I t) (sound : ∀ s, I s → P s)
    (visible : ∀ s a t, step s a = some t → I s → P t → allowed s a) {s t : σ} {as : List α}
    (run : exec step s as = some t) (initial : I s) :
    (∀ n u, exec step s (as.take n) = some u → P u) ↔ Respects allowed step s as :=
  @always_iff_respects_of σ α step (fun _ _ => True) allowed I P (fun s a t stepped _ => preserved s a t stepped) sound
    visible s t as (respects_of_forall (fun _ _ => trivial) s) run initial

def observed {β : Type*} (see : σ → α → σ → List β) (step : σ → α → Option σ) : σ → List α → List β
  | _, [] => []
  | s, a :: as => match step s a with
      | none => []
      | some t => see s a t ++ observed see step t as

theorem exec_observed {β : Type*} {see : σ → α → σ → List β} {step : σ → α → Option σ} {allowed : σ → α → Prop}
    {P : σ → List β → Prop}
    (preserved : ∀ s a t seen, step s a = some t → allowed s a → P s seen → P t (seen ++ see s a t)) {s t : σ}
    {as : List α} (run : exec step s as = some t) (respects : Respects allowed step s as) {seen : List β}
    (initial : P s seen) : P t (seen ++ observed see step s as) := by
  induction as generalizing s seen with
  | nil =>
      cases run
      simpa [observed] using initial
  | cons a as ih =>
      obtain ⟨u, first, rest⟩ := exec_cons.mp run
      have later := ih rest (respects.2 u first) (preserved s a u seen first respects.1 initial)
      rw [List.append_assoc] at later
      simpa only [observed, first] using later

def orFault {ε : Type*} (step : σ → α → Option (Except ε σ)) : Except ε σ → α → Option (Except ε σ)
  | .ok s, a => step s a
  | .error _, _ => none

theorem exec_orFault {ε : Type*} {step : σ → α → Option (Except ε σ)} {P : σ → Prop}
    (preserved : ∀ s a r, step s a = some r → P s → ∃ t, r = .ok t ∧ P t) {s : σ} {r : Except ε σ}
    {as : List α} (run : exec (orFault step) (.ok s) as = some r) (initial : P s) :
    ∃ t, r = .ok t ∧ P t := by
  refine exec_invariant (P := fun r => ∃ t, r = .ok t ∧ P t) ?_ run ⟨s, rfl, initial⟩
  rintro _ a r stepped ⟨t, rfl, holds⟩
  exact preserved t a r stepped holds

theorem exec_orFault_ok {ε : Type*} {step : σ → α → Option (Except ε σ)} {P : σ → Prop}
    (preserved : ∀ s a t, step s a = some (.ok t) → P s → P t) {s t : σ} {as : List α}
    (run : exec (orFault step) (.ok s) as = some (.ok t)) (initial : P s) : P t := by
  refine exec_invariant (P := fun r => ∀ t, r = .ok t → P t) ?_ run (fun _ same => ?_) t rfl
  · rintro (e | u) a r stepped holds v rfl
    · cases stepped
    · exact preserved u a v stepped (holds u rfl)
  · cases same
    exact initial

/-- A `while` loop with a bound on its iterations: `inl` goes round again, `inr` leaves. -/
def loop (body : σ → σ ⊕ ρ) : Nat → σ → Option ρ
  | 0, _ => none
  | n + 1, s => match body s with
      | .inl t => loop body n t
      | .inr r => some r

theorem loop_mono {body : σ → σ ⊕ ρ} {n m : Nat} {s : σ} {r : ρ} (done : loop body n s = some r)
    (more : n ≤ m) : loop body m s = some r := by
  induction n generalizing m s with
  | zero => cases done
  | succ n ih =>
      obtain ⟨m, rfl⟩ : ∃ k, m = k + 1 := ⟨m - 1, by omega⟩
      rw [loop] at done ⊢
      cases round : body s with
      | inl t =>
          rw [round] at done
          exact ih done (Nat.le_of_succ_le_succ more)
      | inr r =>
          rw [round] at done
          exact done

theorem loop_agree {body : σ → σ ⊕ ρ} {n m : Nat} {s : σ} {r r' : ρ} (first : loop body n s = some r)
    (second : loop body m s = some r') : r = r' := by
  have both := loop_mono first (Nat.le_max_left n m)
  rw [loop_mono second (Nat.le_max_right n m)] at both
  exact (Option.some.inj both).symm

theorem loop_invariant {body : σ → σ ⊕ ρ} {P : σ → Prop} {Q : ρ → Prop} (around : ∀ s t, P s → body s = .inl t → P t)
    (left : ∀ s r, P s → body s = .inr r → Q r) {n : Nat} {s : σ} {r : ρ} (initial : P s)
    (done : loop body n s = some r) : Q r := by
  induction n generalizing s with
  | zero => cases done
  | succ n ih =>
      rw [loop] at done
      cases round : body s with
      | inl t =>
          rw [round] at done
          exact ih (around s t initial round) done
      | inr r' =>
          rw [round] at done
          obtain rfl : r' = r := Option.some.inj done
          exact left s r' initial round

/-- Some rounds lead from one state to the other, whichever of the bodies the loop has. -/
def Goes {ι : Type*} (body : ι → σ → σ ⊕ ρ) : σ → σ → Prop :=
  Relation.ReflTransGen fun s t => ∀ i, body i s = .inl t

theorem Goes.one {ι : Type*} {body : ι → σ → σ ⊕ ρ} {s t : σ} (round : ∀ i, body i s = .inl t) :
    Goes body s t :=
  Relation.ReflTransGen.single round

theorem Goes.loop {ι : Type*} {body : ι → σ → σ ⊕ ρ} {s t : σ} (goes : Goes body s t) :
    ∃ n, ∀ i m, loop (body i) (n + m) s = loop (body i) m t := by
  induction goes using Relation.ReflTransGen.head_induction_on with
  | refl => exact ⟨0, fun i m => by rw [Nat.zero_add]⟩
  | head round _ ih =>
      obtain ⟨n, rest⟩ := ih
      refine ⟨n + 1, fun i m => ?_⟩
      rw [Nat.add_right_comm, Library.loop, round i]
      exact rest i m

end ServerFramework.Library
