import ServerFramework.Base.SubscribeHub
import ServerFramework.Library.Table
import Mathlib.Data.List.Nodup

namespace ServerFramework.Base
open Library

variable {τ : Type} {δ : τ → Type} {σ ε : Type}

namespace Value

theorem ne_anyOf (v : Value δ) : v ≠ .anyOf v := by
  induction v with
  | plain type data => nofun
  | emptyAny => nofun
  | anyOf held ih =>
      intro same
      exact ih (Value.anyOf.inj same)

variable [DecidableEq τ]

theorem cast_plain {msg : Value δ} (plain : msg.type ≠ .any) : anyCast msg.toAny msg.type = some msg := by
  cases msg with
  | plain type data => simp [anyCast, toAny, Value.type]
  | emptyAny | anyOf held => exact absurd rfl plain

theorem cast_any {msg : Value δ} (any : msg.type = .any) : anyCast msg.toAny msg.type ≠ some msg := by
  cases msg with
  | plain type data => cases any
  | emptyAny => nofun
  | anyOf held =>
      intro same
      obtain ⟨holds, -⟩ := Option.filter_eq_some_iff.mp same
      exact ne_anyOf held (Option.some.inj holds)

end Value

namespace SubscribeHub

/-! ## The hub as an ordered set of subscriptions -/

structure Subscription (δ : τ → Type) (σ ε : Type) where
  id : Int
  type : TypeIndex τ
  cb : SubscribeCallback δ σ ε

/-- What the hub is for: the subscriptions there are, in their order. -/
structure Registry (δ : τ → Type) (σ ε : Type) where
  current : List (Subscription δ σ ε) := []
  next : Int := 1
  world : σ
  answers : List (Answer δ) := []

variable [DecidableEq τ]

def Registry.apply (registry : Registry δ σ ε) : Action δ σ ε → Registry δ σ ε
  | .subscribe type cb =>
      { registry with
        current := registry.current ++ [⟨registry.next, type, cb⟩]
        next := registry.next + 1
        answers := registry.answers ++ [.subscribed registry.next] }
  | .unsubscribe type subId =>
      { registry with
        current := registry.current.filter fun sub => ¬ (sub.id = subId ∧ sub.type = type)
        answers := registry.answers ++ [.unsubscribed (registry.current.any fun sub => sub.id = subId ∧ sub.type = type)] }
  | .publish msg =>
      let chosen := registry.current.filter fun sub => sub.type = msg.type
      { registry with
        world := chosen.foldl (fun world sub => (sub.cb msg world).1) registry.world
        answers := registry.answers ++ [.published (chosen.map fun sub => (sub.id, msg))] }

def Registry.under (registry : Registry δ σ ε) (type : TypeIndex τ) : List (Subscription δ σ ε) :=
  registry.current.filter fun sub => sub.type = type

def stored (sub : Subscription δ σ ε) : AnyCallback δ σ ε := adapt sub.type sub.id sub.cb

/-- The hub does what the registry does: the same answers, the same calls with the same effects. -/
def Agrees (hub : SubscribeHub δ σ ε) (registry : Registry δ σ ε) : Prop :=
  hub.answers = registry.answers ∧ hub.world = registry.world

structure Refines (hub : SubscribeHub δ σ ε) (registry : Registry δ σ ε) : Prop where
  listed : ∀ type, hub.listed type = (registry.under type).map stored
  next : hub.nextSubId = registry.next
  unique : (registry.current.map Subscription.id).Nodup
  below : ∀ sub ∈ registry.current, sub.id < registry.next
  agrees : Agrees hub registry

def Wrapped (hub : SubscribeHub δ σ ε) : Action δ σ ε → Prop
  | .publish msg => msg.type = .any → hub.listed .any = []
  | _ => True

instance (hub : SubscribeHub δ σ ε) : ∀ action, Decidable (Wrapped hub action)
  | .publish msg =>
      have : Decidable (hub.listed .any = []) := decidable_of_iff _ List.isEmpty_iff
      inferInstanceAs (Decidable (msg.type = .any → _))
  | .subscribe _ _ | .unsubscribe _ _ => isTrue trivial

/-! ## One operation -/

section Operations

variable {hub : SubscribeHub δ σ ε} {registry : Registry δ σ ε}

theorem listed_insert {later : SubscribeHub δ σ ε} {type : TypeIndex τ} {vec : List (AnyCallback δ σ ε)}
    (inserted : later.callbacks = hub.callbacks.insert type vec) (other : TypeIndex τ) :
    later.listed other = if other = type then vec else hub.listed other := by
  rw [listed, inserted, lookup_insert]
  split
  · rfl
  · rfl

theorem Refines.subscribe (refines : Refines hub registry) (type : TypeIndex τ) (cb : SubscribeCallback δ σ ε) :
    Refines (hub.subscribe type cb) (registry.apply (.subscribe type cb)) := by
  obtain ⟨answers, world⟩ := refines.agrees
  refine ⟨?_, ?_, ?_, ?_, ?_, world⟩
  · intro other
    rw [@listed_insert _ _ _ _ _ hub (hub.subscribe type cb) _ _ rfl other]
    by_cases same : other = type
    · subst same
      rw [if_pos rfl, refines.listed, refines.next]
      simp [Registry.under, Registry.apply, stored]
    · rw [if_neg same, refines.listed]
      simp [Registry.under, Registry.apply, Ne.symm same]
  · exact congrArg (· + 1) refines.next
  · rw [Registry.apply, List.map_append, List.map_singleton, ← List.concat_eq_append]
    apply List.Nodup.concat _ refines.unique
    intro member
    obtain ⟨sub, inside, same⟩ := List.mem_map.mp member
    have low := refines.below sub inside
    change sub.id = registry.next at same
    omega
  · intro sub member
    change sub.id < registry.next + 1
    rcases List.mem_append.mp member with old | new
    · have low := refines.below sub old
      omega
    · rw [List.mem_singleton.mp new]
      exact Int.lt_succ _
  · change hub.answers ++ [.subscribed hub.nextSubId] = registry.answers ++ [.subscribed registry.next]
    rw [answers, refines.next]

/-! ### `unsubscribe` -/

theorem eraseIdx_of_unique {α : Type} {key : α → Int} {xs : List α} {k : Int} {i : Nat} (unique : (xs.map key).Nodup)
    (found : xs.findIdx? (fun x => key x = k) = some i) : xs.eraseIdx i = xs.filter fun x => key x ≠ k := by
  induction xs generalizing i with
  | nil => cases found
  | cons x xs ih =>
      obtain ⟨absent, others⟩ := List.nodup_cons.mp unique
      by_cases here : key x = k
      · rw [List.findIdx?_cons, if_pos (decide_eq_true here)] at found
        cases found
        rw [List.eraseIdx_cons_zero, List.filter_cons_of_neg (by simp [here])]
        refine (List.filter_eq_self.mpr fun y member => ?_).symm
        have apart : key y ≠ k := fun same => absent (List.mem_map.mpr ⟨y, member, same.trans here.symm⟩)
        exact decide_eq_true apart
      · rw [List.findIdx?_cons, if_neg (by simp [here])] at found
        obtain ⟨j, later, rfl⟩ := Option.map_eq_some_iff.mp found
        rw [List.eraseIdx_cons_succ, ih others later, List.filter_cons_of_pos (by simp [here])]

theorem unsubscribe_cases (type : TypeIndex τ) (subId : Int) :
    hub.unsubscribe type subId = match (hub.listed type).findIdx? (·.id = subId) with
      | none => { hub with answers := hub.answers ++ [.unsubscribed false] }
      | some i =>
          { hub with
            callbacks := hub.callbacks.insert type ((hub.listed type).eraseIdx i)
            answers := hub.answers ++ [.unsubscribed true] } := by
  rw [unsubscribe, listed]
  cases hub.callbacks.lookup type with
  | none => rfl
  | some vec => rfl

theorem under_removed (type other : TypeIndex τ) (subId : Int) :
    (registry.apply (.unsubscribe type subId)).under other =
      (registry.under other).filter fun sub => ¬ (sub.id = subId ∧ sub.type = type) := by
  rw [Registry.under, Registry.under, Registry.apply, List.filter_filter, List.filter_filter]
  exact List.filter_congr fun sub _ => Bool.and_comm _ _

theorem Refines.known (refines : Refines hub registry) (type : TypeIndex τ) (subId : Int) :
    (registry.current.any fun sub => sub.id = subId ∧ sub.type = type) =
      ((hub.listed type).any fun cb => cb.id = subId) := by
  rw [refines.listed, List.any_map, Registry.under, List.any_filter]
  congr 1
  funext sub
  by_cases same : sub.id = subId
  · simp [stored, adapt, same]
  · simp [stored, adapt, same]

theorem Refines.kept (refines : Refines hub registry) (type other : TypeIndex τ) (subId : Int)
    (apart : other = type → ∀ cb ∈ hub.listed type, cb.id ≠ subId) :
    (registry.apply (.unsubscribe type subId)).under other = registry.under other := by
  rw [under_removed, List.filter_eq_self]
  intro sub member
  have under : sub.type = other := of_decide_eq_true (List.mem_filter.mp member).2
  apply decide_eq_true
  rintro ⟨same, rfl⟩
  refine apart under.symm (stored sub) ?_ same
  rw [refines.listed, under]
  exact List.mem_map_of_mem member

theorem Refines.unsubscribe (refines : Refines hub registry) (type : TypeIndex τ) (subId : Int) :
    Refines (hub.unsubscribe type subId) (registry.apply (.unsubscribe type subId)) := by
  obtain ⟨answers, world⟩ := refines.agrees
  have unique : ((registry.apply (.unsubscribe type subId)).current.map Subscription.id).Nodup :=
    refines.unique.sublist (List.filter_sublist.map _)
  have below : ∀ sub ∈ (registry.apply (.unsubscribe type subId)).current, sub.id < registry.next :=
    fun sub member => refines.below sub (List.mem_filter.mp member).1
  have known := refines.known type subId
  rw [unsubscribe_cases]
  cases found : (hub.listed type).findIdx? (·.id = subId) with
  | none =>
      have apart := List.findIdx?_eq_none_iff.mp found
      refine ⟨?_, refines.next, unique, below, ?_, world⟩
      · intro other
        rw [refines.kept type other subId (fun _ cb member => of_decide_eq_false (apart cb member))]
        exact refines.listed other
      · have unknown : ((hub.listed type).any fun cb => cb.id = subId) = false := by
          rw [List.any_eq_false]
          intro cb member
          simpa using apart cb member
        rw [Registry.apply, known, unknown, answers]
  | some i =>
      obtain ⟨inside, here, -⟩ := List.findIdx?_eq_some_iff_getElem.mp found
      refine ⟨?_, refines.next, unique, below, ?_, world⟩
      · intro other
        rw [@listed_insert _ _ _ _ _ hub _ _ _ rfl other]
        by_cases same : other = type
        · subst same
          have ids : ((hub.listed other).map AnyCallback.id).Nodup := by
            rw [refines.listed, List.map_map]
            exact refines.unique.sublist (List.filter_sublist.map _)
          rw [if_pos rfl, eraseIdx_of_unique ids found, under_removed, refines.listed, List.filter_map]
          congr 1
          apply List.filter_congr
          intro sub member
          have under : sub.type = other := of_decide_eq_true (List.mem_filter.mp member).2
          simp [stored, adapt, under]
        · rw [if_neg same, refines.kept type other subId (fun contrary => absurd contrary same)]
          exact refines.listed other
      · have present : ((hub.listed type).any fun cb => cb.id = subId) = true :=
          List.any_eq_true.mpr ⟨_, List.getElem_mem inside, here⟩
        rw [Registry.apply, known, present, answers]

/-! ### `publish` -/

theorem stored_fn {sub : Subscription δ σ ε} {type : TypeIndex τ} (under : sub.type = type) (a : Option (Value δ))
    (effects : Effects δ σ) :
    ((stored sub).fn a effects).1 = match Value.anyCast a type with
      | none => effects
      | some msg => (invoke sub.id sub.cb msg effects).1 := by
  subst under
  rw [stored, adapt]
  dsimp only
  cases Value.anyCast a sub.type with
  | none => rfl
  | some msg => rfl

theorem deliver_all (chosen : List (Subscription δ σ ε)) {type : TypeIndex τ} (all : ∀ sub ∈ chosen, sub.type = type)
    (a : Option (Value δ)) (effects : Effects δ σ) :
    broadcast a (chosen.map stored) effects =
      match Value.anyCast a type with
      | none => effects
      | some msg => ⟨chosen.foldl (fun world sub => (sub.cb msg world).1) effects.world,
          effects.invoked ++ chosen.map fun sub => (sub.id, msg)⟩ := by
  induction chosen generalizing effects with
  | nil =>
      cases Value.anyCast a type with
      | none => rfl
      | some msg => simp [broadcast]
  | cons sub chosen ih =>
      have others : ∀ sub ∈ chosen, sub.type = type := fun other member => all other (List.mem_cons_of_mem _ member)
      have one : broadcast a ((sub :: chosen).map stored) effects =
          broadcast a (chosen.map stored) ((stored sub).fn a effects).1 := rfl
      rw [one, ih others, stored_fn (all sub List.mem_cons_self)]
      cases Value.anyCast a type with
      | none => rfl
      | some msg => simp [invoke]

theorem publish_eq (msg : Value δ) :
    hub.publish msg = { hub with
      world := (broadcast msg.toAny (hub.listed msg.type) ⟨hub.world, []⟩).world
      answers := hub.answers ++ [.published (broadcast msg.toAny (hub.listed msg.type) ⟨hub.world, []⟩).invoked] } := by
  rw [publish, listed]
  cases hub.callbacks.lookup msg.type with
  | none => rfl
  | some vec => rfl

theorem under_type (registry : Registry δ σ ε) (type : TypeIndex τ) : ∀ sub ∈ registry.under type, sub.type = type :=
  fun _ member => of_decide_eq_true (List.mem_filter.mp member).2

theorem Refines.publish (refines : Refines hub registry) {msg : Value δ} (wrapped : Wrapped hub (.publish msg)) :
    Refines (hub.publish msg) (registry.apply (.publish msg)) := by
  obtain ⟨answers, world⟩ := refines.agrees
  have delivered : broadcast msg.toAny (hub.listed msg.type) ⟨hub.world, []⟩ =
      ⟨(registry.under msg.type).foldl (fun world sub => (sub.cb msg world).1) registry.world,
        (registry.under msg.type).map fun sub => (sub.id, msg)⟩ := by
    by_cases any : msg.type = .any
    · have empty := wrapped any
      rw [refines.listed, List.map_eq_nil_iff] at empty
      rw [refines.listed, any, empty, world]
      rfl
    · rw [refines.listed, deliver_all _ (under_type registry msg.type), Value.cast_plain any, world]
      rfl
  rw [publish_eq, delivered]
  refine ⟨refines.listed, refines.next, refines.unique, refines.below, ?_, rfl⟩
  rw [answers]
  rfl

theorem Refines.visible (refines : Refines hub registry) {msg : Value δ}
    (agrees : Agrees (hub.publish msg) (registry.apply (.publish msg))) : Wrapped hub (.publish msg) := by
  intro any
  obtain ⟨answers, -⟩ := agrees
  rw [publish_eq, refines.listed, deliver_all _ (under_type registry msg.type)] at answers
  simp only [Registry.apply, refines.agrees.1, List.append_cancel_left_eq, List.cons.injEq, Answer.published.injEq,
    and_true] at answers
  rw [refines.listed, ← any]
  cases cast : Value.anyCast msg.toAny msg.type with
  | none =>
      rw [cast] at answers
      have empty : registry.under msg.type = [] := List.map_eq_nil_iff.mp answers.symm
      rw [empty, List.map_nil]
  | some other =>
      rw [cast] at answers
      cases chosen : registry.under msg.type with
      | nil => rfl
      | cons sub rest =>
          exfalso
          apply Value.cast_any any
          rw [cast]
          change [] ++ (registry.under msg.type).map (fun sub => (sub.id, other)) =
            (registry.under msg.type).map (fun sub => (sub.id, msg)) at answers
          rw [chosen, List.nil_append, List.map_cons, List.map_cons] at answers
          have same : other = msg := congrArg Prod.snd (List.cons.inj answers).1
          rw [same]

end Operations

/-! ## Whole runs -/

theorem step_refines {hub later : SubscribeHub δ σ ε} {registry : Registry δ σ ε} {action : Action δ σ ε}
    (stepped : hub.step action = some later) (wrapped : Wrapped hub action) (refines : Refines hub registry) :
    Refines later (registry.apply action) := by
  cases action with
  | subscribe type cb =>
      obtain ⟨-, same⟩ := Option.ite_none_right_eq_some.mp stepped
      cases same
      exact refines.subscribe type cb
  | unsubscribe type subId =>
      cases stepped
      exact refines.unsubscribe type subId
  | publish msg =>
      cases stepped
      exact refines.publish wrapped

theorem initial_refines (world : σ) :
    Refines ({ world := world } : SubscribeHub δ σ ε) { world := world } := by
  refine ⟨fun type => rfl, rfl, List.nodup_nil, ?_, rfl, rfl⟩
  exact fun sub member => absurd member List.not_mem_nil

theorem hub_agrees_iff (world : σ) (actions : List (Action δ σ ε)) (hub : SubscribeHub δ σ ε)
    (ran : exec step { world := world } actions = some hub) :
    (∀ n earlier, exec step { world := world } (actions.take n) = some earlier →
      Agrees earlier ((actions.take n).foldl Registry.apply { world := world })) ↔
      Respects Wrapped step { world := world } actions := by
  apply always_related_iff_respects (I := Refines) _ (fun _ _ refines => refines.agrees) _
    (respects_of_forall (fun _ _ => trivial) _) ran (initial_refines world)
  · intro before registry action after stepped _ wrapped refines
    exact step_refines stepped wrapped refines
  · intro before registry action after stepped refines agrees
    cases action with
    | publish msg =>
        cases stepped
        exact refines.visible agrees
    | _ => trivial

abbrev Numbers : Nat → Type := fun _ => Int

def counting : SubscribeCallback Numbers Nat String := fun _ count => (count + 1, some "thrown")

def twoSubscribers : List (Action Numbers Nat String) :=
  [.subscribe (.plain 0) counting, .subscribe (.plain 0) counting, .publish (.plain 0 7), .unsubscribe (.plain 1) 1,
    .unsubscribe (.plain 0) 1, .publish (.plain 0 8)]

theorem two_subscribers_agree :
    ∃ hub, exec step { world := 0 } twoSubscribers = some hub ∧
      Agrees hub (twoSubscribers.foldl Registry.apply { world := 0 }) := by
  obtain ⟨hub, ran⟩ : ∃ hub, exec step { world := 0 } twoSubscribers = some hub := ⟨_, rfl⟩
  exact ⟨hub, ran, (hub_agrees_iff 0 twoSubscribers hub ran).mpr (by decide) 6 hub ran⟩

/-- A `std::any` is published to a subscriber of `std::any`, whose callback is never called. -/
def anyPublished : List (Action Numbers Nat String) :=
  [.subscribe .any counting, .publish (.anyOf (.plain 0 5))]

theorem any_subscriber_skipped :
    ∃ hub, exec step { world := 0 } anyPublished = some hub ∧
      hub.answers = [.subscribed 1, .published []] ∧ hub.world = 0 ∧
      (anyPublished.foldl Registry.apply { world := 0 }).answers =
        [.subscribed 1, .published [(1, .anyOf (.plain 0 5))]] ∧
      ¬ Agrees hub (anyPublished.foldl Registry.apply { world := 0 }) := by
  refine ⟨_, rfl, rfl, rfl, rfl, ?_⟩
  rintro ⟨-, same⟩
  cases same

end SubscribeHub

end ServerFramework.Base
