import ServerFramework.Base.EventFd
import ServerFramework.Library.Table

namespace ServerFramework.Base
open Library

namespace FdEvents

/-- The event types that `flags` signal, and no other. -/
def signalled (flags : UInt32) : EventType :=
  (if flags &&& EPOLLIN ≠ 0 then EventType.READ else 0) ||| (if flags &&& EPOLLOUT ≠ 0 then EventType.WRITE else 0) |||
    (if flags &&& EPOLLERR ≠ 0 then EventType.ERROR else 0) ||| (if flags &&& EPOLLHUP ≠ 0 then EventType.CLOSED else 0)

def dueCall (loop : FdEvents) (signal : Int32 × UInt32) : Option HandlerCall :=
  (loop.fdHandlers.lookup signal.1).bind fun handler =>
    if handler = 0 then none else some ⟨handler, signal.1, signalled signal.2⟩

def due (loop : FdEvents) (signals : List (Int32 × UInt32)) : List HandlerCall := signals.filterMap loop.dueCall

/-- Some of the ready descriptors are reported, one with a handler if there is one, and their due calls made. -/
def Faithful (loop : FdEvents) (signals : List (Int32 × UInt32)) (calls : List HandlerCall) : Prop :=
  ∃ reported, List.Sublist reported signals ∧ calls = loop.due reported ∧
    (loop.due signals ≠ [] → loop.due reported ≠ [])

/-! ## The array for the events stays empty -/

def registered (epollFd : Int32) (actions : List Action) : FdEvents := actions.foldl apply (new.init epollFd).2

theorem registered_invariant {P : FdEvents → Prop} (epollFd : Int32) (actions : List Action)
    (initial : P (new.init epollFd).2) (kept : ∀ loop action, P loop → P (loop.apply action)) :
    P (registered epollFd actions) :=
  List.foldlRecOn actions apply initial fun loop holds action _ => kept loop action holds

theorem addFd_cases (loop : FdEvents) (fd : Int32) (type : EventType) (handler : UInt64) (accepts : Bool) :
    (loop.addFd fd type handler accepts).2 = loop ∨
    (loop.addFd fd type handler accepts).2 = { loop with
      interest := loop.interest.insert fd (eventOf fd type handler)
      fdHandlers := loop.fdHandlers.insert fd handler } := by
  rw [addFd]
  cases called : loop.epollCtl (if (loop.fdHandlers.lookup fd).isSome then .mod else .add) fd
      (eventOf fd type handler) accepts with
  | none => exact Or.inl rfl
  | some next =>
      simp only [epollCtl, Option.ite_none_left_eq_some, Option.some.injEq] at called
      obtain ⟨-, rfl⟩ := called
      exact Or.inr rfl

theorem addFd_eventsSize (loop : FdEvents) (fd : Int32) (type : EventType) (handler : UInt64) (accepts : Bool) :
    (loop.addFd fd type handler accepts).2.eventsSize = loop.eventsSize := by
  rcases loop.addFd_cases fd type handler accepts with same | added
  · rw [same]
  · rw [added]

theorem apply_eventsSize (loop : FdEvents) (action : Action) : (loop.apply action).eventsSize = loop.eventsSize := by
  cases action with
  | addFd fd type handler accepts => exact addFd_eventsSize ..
  | delFd fd => rfl
  | modFd fd type accepts =>
      simp only [apply, modFd]
      split
      · rfl
      · exact addFd_eventsSize ..

theorem registered_eventsSize (epollFd : Int32) (actions : List Action) : (registered epollFd actions).eventsSize = 0 :=
  registered_invariant (P := fun loop => loop.eventsSize = 0) epollFd actions rfl fun loop action empty =>
    (loop.apply_eventsSize action).trans empty

theorem runOnce_of_empty {loop : FdEvents} (empty : loop.eventsSize = 0) (signals : List (Int32 × UInt32)) :
    loop.runOnce signals = [] := by
  rw [runOnce, empty, epollWait, if_pos rfl]
  split <;> rfl

theorem faithful_iff_nothing_due (epollFd : Int32) (actions : List Action) (signals : List (Int32 × UInt32)) :
    Faithful (registered epollFd actions) signals ((registered epollFd actions).runOnce signals) ↔
      (registered epollFd actions).due signals = [] := by
  rw [runOnce_of_empty (registered_eventsSize epollFd actions)]
  constructor
  · rintro ⟨reported, -, nothing, progress⟩
    by_contra something
    exact progress something nothing.symm
  · intro nothing
    exact ⟨[], List.nil_sublist _, rfl, fun something => absurd nothing something⟩

/-- A socket registered for reading becomes readable, and its handler is not called. -/
theorem readable_not_dispatched :
    let loop := registered 3 [.addFd 4 .READ 0x7FFC12345678 true]
    loop.due [(4, EPOLLIN)] = [⟨0x7FFC12345678, 4, .READ⟩] ∧ loop.runOnce [(4, EPOLLIN)] = [] ∧
      ¬ Faithful loop [(4, EPOLLIN)] (loop.runOnce [(4, EPOLLIN)]) := by
  intro loop
  have due : loop.due [(4, EPOLLIN)] = [⟨0x7FFC12345678, 4, .READ⟩] := by decide
  have silent : loop.runOnce [(4, EPOLLIN)] = [] := runOnce_of_empty rfl _
  refine ⟨due, silent, ?_⟩
  rintro ⟨reported, -, nothing, progress⟩
  rw [silent] at nothing
  exact progress (by rw [due]; nofun) nothing.symm

/-! ## What an event in the array would lead to -/

structure Consistent (loop : FdEvents) : Prop where
  stored : ∀ fd ev, loop.interest.lookup fd = some ev → loop.fdHandlers.lookup fd = some ev.data
  kept : ∀ fd handler, loop.fdHandlers.lookup fd = some handler → (loop.interest.lookup fd).isSome = true

theorem addFd_consistent {loop : FdEvents} (consistent : Consistent loop) (fd : Int32) (type : EventType)
    (handler : UInt64) (accepts : Bool) : Consistent (loop.addFd fd type handler accepts).2 := by
  rcases loop.addFd_cases fd type handler accepts with same | added
  · rwa [same]
  · rw [added]
    refine ⟨?_, ?_⟩
    · intro k ev found
      rw [lookup_insert] at found ⊢
      split at found
      · cases found
        rw [if_pos ‹_›]
        rfl
      · rw [if_neg ‹_›]
        exact consistent.stored k ev found
    · intro k other found
      rw [lookup_insert] at found ⊢
      split at found
      · rw [if_pos ‹_›]
        rfl
      · rw [if_neg ‹_›]
        exact consistent.kept k other found

theorem apply_consistent {loop : FdEvents} (consistent : Consistent loop) (action : Action) :
    Consistent (loop.apply action) := by
  cases action with
  | addFd fd type handler accepts => exact addFd_consistent consistent ..
  | delFd fd =>
      refine ⟨?_, ?_⟩
      · intro k ev found
        simp only [apply, delFd, lookup_erase] at found ⊢
        split at found
        · cases found
        · rw [if_neg ‹_›]
          exact consistent.stored k ev found
      · intro k handler found
        simp only [apply, delFd, lookup_erase] at found ⊢
        split at found
        · cases found
        · rw [if_neg ‹_›]
          exact consistent.kept k handler found
  | modFd fd type accepts =>
      simp only [apply, modFd]
      split
      · exact consistent
      · exact addFd_consistent consistent ..

theorem registered_consistent (epollFd : Int32) (actions : List Action) : Consistent (registered epollFd actions) :=
  registered_invariant epollFd actions ⟨nofun, nofun⟩ fun _ action consistent => apply_consistent consistent action

theorem typeOf_eq_signalled_iff (flags : UInt32) : typeOf flags = signalled flags ↔ flags &&& EPOLLIN ≠ 0 := by
  unfold typeOf signalled
  by_cases input : flags &&& EPOLLIN = 0 <;> by_cases output : flags &&& EPOLLOUT = 0 <;>
    by_cases error : flags &&& EPOLLERR = 0 <;> by_cases hangup : flags &&& EPOLLHUP = 0 <;>
    simp only [input, output, error, hangup, ne_eq, not_true_eq_false, not_false_eq_true, if_true, if_false] <;> decide

/-- An event that did reach the array would be dispatched as it should only to a handler whose address has the
descriptor for its low half, and only if it is readable. -/
theorem dispatch_due_iff {epollFd : Int32} {actions : List Action} {fd : Int32} {ev : EpollEvent}
    (stored : (registered epollFd actions).interest.lookup fd = some ev) (present : ev.data ≠ 0) (flags : UInt32) :
    dispatch { ev with events := flags } = (registered epollFd actions).dueCall (fd, flags) ↔
      ev.data.toUInt32.toInt32 = fd ∧ flags &&& EPOLLIN ≠ 0 := by
  have handler := (registered_consistent epollFd actions).stored fd ev stored
  rw [← typeOf_eq_signalled_iff]
  simp [dispatch, dueCall, handler, EpollEvent.ptr, EpollEvent.fd, present]

end FdEvents

end ServerFramework.Base
