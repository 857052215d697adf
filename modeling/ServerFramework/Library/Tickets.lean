import Mathlib.Data.List.Nodup
import Mathlib.Data.List.Perm.Subperm

namespace ServerFramework.Library

theorem append_subset_append {α : Type*} {xs xs' ys ys' : List α} (first : xs ⊆ xs') (second : ys ⊆ ys') :
    xs ++ ys ⊆ xs' ++ ys' :=
  List.append_subset.mpr ⟨List.subset_append_of_subset_left _ first, List.subset_append_of_subset_right _ second⟩

theorem subperm_map {α β : Type*} (f : α → β) {xs ys : List α} (fewer : xs.Subperm ys) :
    (xs.map f).Subperm (ys.map f) := by
  obtain ⟨between, same, fewer⟩ := fewer
  exact ⟨between.map f, same.map f, fewer.map f⟩

/-- Ids from a counter that stands at `bound`: each is held once, leaves when it is used, and can be revoked as
long as it is held. -/
structure Tickets (bound : Int) (held usable used : List Int) (revoked : Int → Prop) : Prop where
  unique : held.Nodup
  known : ∀ id ∈ held, id ≤ bound
  spent : ∀ id ∈ used, id ≤ bound ∧ id ∉ held
  silent : ∀ id, revoked id → id ≤ bound ∧ id ∉ used ∧ id ∉ usable

namespace Tickets

variable {bound : Int} {held held' usable usable' used : List Int} {revoked revoked' : Int → Prop}

theorem none_issued : Tickets 0 [] [] [] fun _ => False := by
  constructor <;> simp

theorem keep (tickets : Tickets bound held usable used revoked) (fewer : held'.Subperm held)
    (still : usable' ⊆ usable) : Tickets bound held' usable' used revoked where
  unique :=
    have ⟨_, same, fewer⟩ := fewer
    same.nodup_iff.mp (tickets.unique.sublist fewer)
  known id member := tickets.known id (fewer.subset member)
  spent id member := ⟨(tickets.spent id member).1, fun again => (tickets.spent id member).2 (fewer.subset again)⟩
  silent id gone :=
    have ⟨below, unused, dead⟩ := tickets.silent id gone
    ⟨below, unused, fun alive => dead (still alive)⟩

theorem issue (tickets : Tickets bound held usable used revoked) (one : held'.Perm ((bound + 1) :: held))
    (still : usable' ⊆ (bound + 1) :: usable) : Tickets (bound + 1) held' usable' used revoked where
  unique := by
    refine one.nodup_iff.mpr (List.nodup_cons.mpr ⟨?_, tickets.unique⟩)
    intro member
    have below := tickets.known _ member
    omega
  known id member := by
    rcases List.mem_cons.mp (one.mem_iff.mp member) with rfl | old
    · exact Int.le_refl _
    · have below := tickets.known id old
      omega
  spent id member := by
    obtain ⟨below, gone⟩ := tickets.spent id member
    refine ⟨by omega, ?_⟩
    intro again
    rcases List.mem_cons.mp (one.mem_iff.mp again) with rfl | old
    · omega
    · exact gone old
  silent id gone := by
    obtain ⟨below, unused, dead⟩ := tickets.silent id gone
    refine ⟨by omega, unused, ?_⟩
    intro alive
    rcases List.mem_cons.mp (still alive) with rfl | old
    · omega
    · exact dead old

theorem raise (tickets : Tickets bound held usable used revoked) : Tickets (bound + 1) held usable used revoked :=
  (tickets.issue (.refl _) (List.subset_cons_self ..)).keep (List.sublist_cons_self ..).subperm (List.Subset.refl _)

theorem use (tickets : Tickets bound held usable used revoked) {id : Int} (one : held.Perm (id :: held'))
    (alive : id ∈ usable) (still : usable' ⊆ usable) : Tickets bound held' usable' (used ++ [id]) revoked := by
  have unique := List.nodup_cons.mp (one.nodup_iff.mp tickets.unique)
  have rest := tickets.keep (((List.sublist_cons_self id held').subperm).trans one.symm.subperm) still
  refine { rest with spent := ?_, silent := ?_ }
  · intro other member
    rcases List.mem_append.mp member with old | new
    · exact rest.spent other old
    · rw [List.mem_singleton.mp new]
      exact ⟨tickets.known id (one.mem_iff.mpr List.mem_cons_self), unique.1⟩
  · intro other gone
    obtain ⟨below, unused, dead⟩ := rest.silent other gone
    refine ⟨below, ?_, dead⟩
    intro member
    rcases List.mem_append.mp member with old | new
    · exact unused old
    · rw [List.mem_singleton.mp new] at gone
      exact (tickets.silent id gone).2.2 alive

theorem revoke (tickets : Tickets bound held usable used revoked)
    (dead : ∀ id, revoked' id → revoked id ∨ (id ∈ held ∧ id ∉ usable)) :
    Tickets bound held usable used revoked' where
  unique := tickets.unique
  known := tickets.known
  spent := tickets.spent
  silent id gone := by
    rcases dead id gone with old | ⟨member, unusable⟩
    · exact tickets.silent id old
    · exact ⟨tickets.known id member, fun again => (tickets.spent id again).2 member, unusable⟩

end Tickets

end ServerFramework.Library
