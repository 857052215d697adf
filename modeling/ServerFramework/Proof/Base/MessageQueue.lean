import ServerFramework.Base.MessageQueue
import Mathlib.Data.List.Nodup

namespace ServerFramework.Base
open Library

theorem Message.cast_self {τ : Type} [DecidableEq τ] {δ : τ → Type} (msg : Message δ) :
    msg.cast msg.type = some msg.data := by
  rw [Message.cast, dif_pos rfl]

namespace MessageQueue

variable {τ : Type} {δ : τ → Type}

def Call.asks : Call δ → Option τ
  | .receiving asked _ | .trying asked => some asked
  | .sending _ | .sent | .comparing _ _ | .returned _ _ => none

/-- Where a message is that this call has taken: the call is about to return true with it, or did so. -/
def Delivers (call : Call δ) (msg : Message δ) : Prop :=
  call = .comparing msg.type msg ∨ call = .returned msg.type (some msg.data)

/-- What was sent stands in the queue or, in the order of sending, was taken by a call of its own that returns true
with it; what returned false took nothing. -/
structure NothingLost [DecidableEq τ] (s : MessageQueue δ) : Prop where
  conserved : s.sent = s.taken.map Prod.snd ++ s.queue
  once : (s.taken.map Prod.fst).Nodup
  delivered : ∀ entry ∈ s.taken, ∃ call ∈ s.calls[entry.1]?, Delivers call entry.2
  inOrder : ∀ type, ((s.taken.map Prod.snd).filter (·.type = type)).IsPrefix (s.sent.filter (·.type = type))
  untouched : ∀ i asked, s.calls[i]? = some (.returned asked none) → i ∉ s.taken.map Prod.fst

/-- A call that pops finds a message of the type it asks for in front. -/
def Fitting (s : MessageQueue δ) : Action δ → Prop
  | .advance i => ∀ call ∈ s.calls[i]?, ∀ asked ∈ call.asks, ∀ msg ∈ s.queue.head?, msg.type = asked
  | _ => True

instance [DecidableEq τ] (s : MessageQueue δ) : ∀ action, Decidable (Fitting s action)
  | .advance i => inferInstanceAs (Decidable (∀ call ∈ s.calls[i]?, ∀ asked ∈ call.asks, ∀ msg ∈ s.queue.head?, _ = _))
  | .send _ | .recv _ _ | .tryRecv _ | .timeOut _ => isTrue trivial

theorem asks_idle {call : Call δ} {asked : τ} (asks : call.asks = some asked) (msg : Message δ) :
    ¬ Delivers call msg := by
  rintro (rfl | rfl)
  · cases asks
  · cases asks

theorem sending_idle (sending msg : Message δ) : ¬ Delivers (.sending sending) msg := by
  rintro (absent | absent)
  · cases absent
  · cases absent

variable [DecidableEq τ]

/-! ## What a step can do -/

inductive Steps (s : MessageQueue δ) : Action δ → MessageQueue δ → Prop
  | begin {action : Action δ} (call : Call δ) (new : ∀ asked out, call ≠ .returned asked out) : Steps s action (s.begin call)
  | push {i : Nat} {msg : Message δ} (here : s.calls[i]? = some (.sending msg)) : Steps s (.advance i) (s.push i msg)
  | pop {i : Nat} {call : Call δ} {asked : τ} {msg : Message δ} {rest : List (Message δ)}
      (here : s.calls[i]? = some call) (asks : call.asks = some asked) (front : s.queue = msg :: rest) :
      Steps s (.advance i) (s.pop i asked msg rest)
  | giveUp {action : Action δ} {i : Nat} {call : Call δ} {asked : τ} (here : s.calls[i]? = some call)
      (asks : call.asks = some asked) (empty : s.queue = []) : Steps s action (s.answer i asked none)
  | compare {i : Nat} {asked : τ} {msg : Message δ} (here : s.calls[i]? = some (.comparing asked msg)) :
      Steps s (.advance i) (s.answer i asked (msg.cast asked))

theorem step_cases {s t : MessageQueue δ} {action : Action δ} (stepped : s.step action = some t) :
    Steps s action t := by
  cases action with
  | send msg | recv asked timeoutMs | tryRecv asked =>
      cases stepped
      exact .begin _ nofun
  | advance i =>
      obtain ⟨call, here, turned⟩ := Option.bind_eq_some_iff.mp stepped
      cases call with
      | sending msg =>
          cases turned
          exact .push here
      | receiving asked timeoutMs =>
          rw [turn] at turned
          cases front : s.queue with
          | nil =>
              rw [front] at turned
              cases turned
          | cons msg rest =>
              rw [front] at turned
              cases turned
              exact .pop here rfl front
      | trying asked =>
          rw [turn] at turned
          cases front : s.queue with
          | nil =>
              rw [front] at turned
              cases turned
              exact .giveUp here rfl front
          | cons msg rest =>
              rw [front] at turned
              cases turned
              exact .pop here rfl front
      | comparing asked msg =>
          cases turned
          exact .compare here
      | sent | returned asked out => cases turned
  | timeOut i =>
      obtain ⟨call, here, expired⟩ := Option.bind_eq_some_iff.mp stepped
      cases call with
      | receiving asked timeoutMs =>
          obtain ⟨⟨-, empty⟩, same⟩ := Option.ite_none_right_eq_some.mp expired
          cases same
          exact .giveUp here rfl (List.isEmpty_iff.mp empty)
      | _ => cases expired

/-! ## What keeps the messages -/

section Kept

variable {s : MessageQueue δ} {i : Nat} {call : Call δ}

theorem NothingLost.apart (fine : NothingLost s) (here : s.calls[i]? = some call) (idle : ∀ msg, ¬ Delivers call msg) :
    ∀ entry ∈ s.taken, entry.1 ≠ i := by
  rintro ⟨j, msg⟩ member rfl
  obtain ⟨other, there, delivers⟩ := fine.delivered ⟨j, msg⟩ member
  obtain rfl := Option.some.inj (here.symm.trans there)
  exact idle msg delivers

theorem NothingLost.delivered_set (fine : NothingLost s) (later : Call δ)
    (replaced : ∀ entry ∈ s.taken, entry.1 = i → Delivers later entry.2) :
    ∀ entry ∈ s.taken, ∃ call ∈ (s.calls.set i later)[entry.1]?, Delivers call entry.2 := by
  intro entry member
  obtain ⟨old, there, delivers⟩ := fine.delivered entry member
  by_cases same : entry.1 = i
  · subst same
    exact ⟨later, List.getElem?_set_self (List.getElem?_eq_some_iff.mp there).1, replaced entry member rfl⟩
  · exact ⟨old, (List.getElem?_set_ne (Ne.symm same)).trans there, delivers⟩

theorem NothingLost.untouched_set (fine : NothingLost s) {later : Call δ}
    (empty : ∀ asked, later = .returned asked none → i ∉ s.taken.map Prod.fst) (j : Nat) (asked : τ)
    (returned : (s.calls.set i later)[j]? = some (.returned asked none)) : j ∉ s.taken.map Prod.fst := by
  by_cases same : i = j
  · subst same
    have inside : i < s.calls.length := by
      by_contra outside
      rw [List.set_eq_of_length_le (by omega), List.getElem?_eq_none (by omega)] at returned
      cases returned
    rw [List.getElem?_set_self inside] at returned
    exact empty asked (Option.some.inj returned)
  · rw [List.getElem?_set_ne same] at returned
    exact fine.untouched j asked returned

theorem NothingLost.begin (fine : NothingLost s) (new : ∀ asked out, call ≠ .returned asked out) :
    NothingLost (s.begin call) := by
  refine ⟨fine.conserved, fine.once, ?_, fine.inOrder, ?_⟩
  · intro entry member
    obtain ⟨old, there, delivers⟩ := fine.delivered entry member
    exact ⟨old, (List.getElem?_append_left (List.getElem?_eq_some_iff.mp there).1).trans there, delivers⟩
  · intro j asked returned
    simp only [MessageQueue.begin] at returned
    by_cases inside : j < s.calls.length
    · rw [List.getElem?_append_left inside] at returned
      exact fine.untouched j asked returned
    · have last := List.mem_of_getElem? (List.getElem?_append_right (Nat.le_of_not_lt inside) ▸ returned)
      exact absurd (List.mem_singleton.mp last).symm (new asked none)

theorem NothingLost.push (fine : NothingLost s) {msg : Message δ} (here : s.calls[i]? = some (.sending msg)) :
    NothingLost (s.push i msg) := by
  have apart := fine.apart here (sending_idle msg)
  refine ⟨?_, fine.once, ?_, ?_, ?_⟩
  · simp only [MessageQueue.push]
    rw [fine.conserved, List.append_assoc]
  · exact fine.delivered_set _ fun entry member same => absurd same (apart entry member)
  · intro type
    simp only [MessageQueue.push]
    rw [List.filter_append]
    exact (fine.inOrder type).trans (List.prefix_append _ _)
  · exact fine.untouched_set nofun

theorem NothingLost.pop (fine : NothingLost s) {msg : Message δ} {rest : List (Message δ)}
    (here : s.calls[i]? = some call) (asks : call.asks = some msg.type) (front : s.queue = msg :: rest) :
    NothingLost (s.pop i msg.type msg rest) := by
  have apart := fine.apart here (asks_idle asks)
  have conserved : s.sent = (s.taken ++ [(i, msg)]).map Prod.snd ++ rest := by
    rw [fine.conserved, front, List.map_append, List.append_assoc]
    rfl
  refine ⟨conserved, ?_, ?_, ?_, ?_⟩
  · simp only [MessageQueue.pop, List.map_append, List.map_singleton]
    rw [← List.concat_eq_append]
    apply List.Nodup.concat _ fine.once
    intro member
    obtain ⟨entry, inside, same⟩ := List.mem_map.mp member
    exact apart entry inside same
  · intro entry member
    rcases List.mem_append.mp member with old | new
    · exact fine.delivered_set _ (fun entry member same => absurd same (apart entry member)) entry old
    · rw [List.mem_singleton.mp new]
      exact ⟨_, List.getElem?_set_self (List.getElem?_eq_some_iff.mp here).1, .inl rfl⟩
  · intro type
    simp only [MessageQueue.pop]
    rw [conserved, List.filter_append]
    exact List.prefix_append _ _
  · intro j asked returned member
    simp only [MessageQueue.pop, List.map_append, List.map_singleton] at returned member
    rcases List.mem_append.mp member with old | new
    · have quiet : ∀ other, Call.comparing msg.type msg = .returned other none → i ∉ s.taken.map Prod.fst := nofun
      exact fine.untouched_set quiet j asked returned old
    · rw [List.mem_singleton.mp new, List.getElem?_set_self (List.getElem?_eq_some_iff.mp here).1] at returned
      cases returned

theorem NothingLost.giveUp (fine : NothingLost s) {asked : τ} (here : s.calls[i]? = some call)
    (asks : call.asks = some asked) : NothingLost (s.answer i asked none) := by
  have apart := fine.apart here (asks_idle asks)
  refine ⟨fine.conserved, fine.once, ?_, fine.inOrder, ?_⟩
  · exact fine.delivered_set _ fun entry member same => absurd same (apart entry member)
  · apply fine.untouched_set
    intro other _ member
    obtain ⟨entry, inside, same⟩ := List.mem_map.mp member
    exact apart entry inside same

theorem NothingLost.compare (fine : NothingLost s) {asked : τ} {msg : Message δ}
    (here : s.calls[i]? = some (.comparing asked msg)) : NothingLost (s.answer i asked (msg.cast asked)) := by
  have promised : ∀ entry ∈ s.taken, entry.1 = i → entry.2 = msg ∧ asked = msg.type := by
    rintro ⟨j, other⟩ member rfl
    obtain ⟨call, there, delivers⟩ := fine.delivered ⟨j, other⟩ member
    obtain rfl := Option.some.inj (here.symm.trans there)
    rcases delivers with same | absent
    · cases same
      exact ⟨rfl, rfl⟩
    · cases absent
  refine ⟨fine.conserved, fine.once, ?_, fine.inOrder, ?_⟩
  · apply fine.delivered_set
    intro entry member same
    obtain ⟨rfl, rfl⟩ := promised entry member same
    right
    rw [Message.cast_self]
  · apply fine.untouched_set
    intro other returned member
    obtain ⟨entry, inside, same⟩ := List.mem_map.mp member
    obtain ⟨rfl, rfl⟩ := promised entry inside same
    rw [Message.cast_self] at returned
    cases returned

theorem steps_kept {t : MessageQueue δ} {action : Action δ} (steps : Steps s action t) (fitting : Fitting s action)
    (fine : NothingLost s) : NothingLost t := by
  cases steps with
  | begin call new => exact fine.begin new
  | push here => exact fine.push here
  | pop here asks front =>
      obtain rfl := fitting _ here _ asks _ (by rw [front]; rfl)
      exact fine.pop here asks front
  | giveUp here asks empty => exact fine.giveUp here asks
  | compare here => exact fine.compare here

/-- A pop of another type shows in the state behind it: the call holds a message that it will not return. -/
theorem fitting_of_kept {t : MessageQueue δ} {action : Action δ} (stepped : s.step action = some t)
    (fine : NothingLost t) : Fitting s action := by
  cases action with
  | advance i =>
      intro call here asked asks msg front
      obtain ⟨rest, queue⟩ := List.head?_eq_some_iff.mp front
      have popped : t = s.pop i asked msg rest := by
        obtain ⟨other, there, turned⟩ := Option.bind_eq_some_iff.mp stepped
        obtain rfl := Option.some.inj (here.symm.trans there)
        cases call with
        | receiving wanted timeoutMs =>
            cases asks
            rw [turn, queue] at turned
            exact (Option.some.inj turned).symm
        | trying wanted =>
            cases asks
            rw [turn, queue] at turned
            exact (Option.some.inj turned).symm
        | _ => cases asks
      subst popped
      obtain ⟨holder, there, delivers⟩ := fine.delivered (i, msg) (List.mem_append_right _ (List.mem_singleton_self _))
      have stands := (List.getElem?_set_self (List.getElem?_eq_some_iff.mp here).1).symm.trans there
      obtain rfl := Option.some.inj stands
      rcases delivers with same | absent
      · cases same
        rfl
      · cases absent
  | _ => trivial

end Kept

/-! ## Whole runs -/

theorem initial_kept : NothingLost ({} : MessageQueue δ) := by
  refine ⟨rfl, List.nodup_nil, ?_, fun _ => List.prefix_rfl, ?_⟩
  · exact fun entry member => absurd member List.not_mem_nil
  · exact fun i asked _ => List.not_mem_nil

theorem nothing_lost_iff (actions : List (Action δ)) (s : MessageQueue δ) (ran : exec step {} actions = some s) :
    (∀ n earlier, exec step {} (actions.take n) = some earlier → NothingLost earlier) ↔
      Respects Fitting step {} actions := by
  apply always_iff_respects (I := NothingLost) _ (fun _ fine => fine) _ ran initial_kept
  · intro before action after stepped fitting fine
    exact steps_kept (step_cases stepped) fitting fine
  · intro before action after stepped _ fine
    exact fitting_of_kept stepped fine

inductive Sample
  | int
  | string
  deriving DecidableEq

def Sample.Data : Sample → Type
  | .int => Int
  | .string => String

def bothTypes : List (Action Sample.Data) :=
  [.recv .int (-1), .send ⟨.int, (42 : Int)⟩, .send ⟨.string, "hi"⟩, .advance 1, .advance 2, .advance 0,
    .tryRecv .string, .advance 3, .advance 3, .advance 0]

theorem both_types_delivered : ∃ s, exec step {} bothTypes = some s ∧ NothingLost s := by
  obtain ⟨s, ran⟩ : ∃ s, exec step {} bothTypes = some s := ⟨_, rfl⟩
  exact ⟨s, ran, (nothing_lost_iff bothTypes s ran).mpr (by decide) 10 s ran⟩

/-- A number is sent, a string is asked for: the call returns false, the queue is empty, and the number is gone. -/
theorem mismatch_drops_message :
    ∃ s : MessageQueue Sample.Data, exec step {} [.send ⟨.int, (42 : Int)⟩, .advance 0, .tryRecv .string, .advance 1,
        .advance 1] = some s ∧
      s.sent = [⟨.int, (42 : Int)⟩] ∧ s.queue = [] ∧ s.calls = [.sent, .returned .string none] ∧ ¬ NothingLost s := by
  refine ⟨_, rfl, rfl, rfl, rfl, ?_⟩
  intro fine
  obtain ⟨call, there, delivers⟩ := fine.delivered (1, ⟨.int, (42 : Int)⟩) (List.mem_singleton_self _)
  cases there
  rcases delivers with absent | absent
  · cases absent
  · cases absent

end MessageQueue

end ServerFramework.Base
