import ServerFramework.Base.CvQueue
import ServerFramework.Library.Draining

namespace ServerFramework.Base
open Library

namespace CvQueue

variable {τ : Type} {δ : τ → Type}

/-! ## What a step can do -/

/-- No new call, no time that passes, nobody wakes without cause. -/
def Action.internal : Action δ → Bool
  | .advance _ | .notifyOne _ _ => true
  | .send _ | .recv _ _ | .tryRecv _ | .spurious _ | .timeOut _ => false

def Thread.fresh : Thread δ → Bool
  | .sending _ | .checking _ _ | .trying _ => true
  | _ => false

/-- What a call that is about to look at the queue asks for, and where it goes when it finds nothing. -/
def Thread.looks : Thread δ → Option (τ × Thread δ)
  | .checking asked timeoutMs | .woken asked timeoutMs => some (asked, .waiting asked timeoutMs)
  | .expired asked _ | .trying asked => some (asked, .returned asked none)
  | _ => none

inductive Expires : Thread δ → Thread δ → Prop
  | waiting (asked : τ) (timeoutMs : Nat) : Expires (.waiting asked timeoutMs) (.expired asked timeoutMs)
  | woken (asked : τ) (timeoutMs : Nat) : Expires (.woken asked timeoutMs) (.expired asked timeoutMs)

inductive Steps [DecidableEq τ] (s : CvQueue δ) : Action δ → CvQueue δ → Prop
  | begin {action : Action δ} {thread : Thread δ} (outer : action.internal = false) (fresh : thread.fresh = true) :
      Steps s action (s.begin thread)
  | push {i : Nat} {msg : Message δ} (here : s.threads[i]? = some (.sending msg)) : Steps s (.advance i) (s.push i msg)
  | miss {i : Nat} {thread empty : Thread δ} {asked : τ} (here : s.threads[i]? = some thread)
      (looks : thread.looks = some (asked, empty)) (nothing : s.queue = []) : Steps s (.advance i) (s.put i empty)
  | pop {i : Nat} {thread empty : Thread δ} {asked : τ} {msg : Message δ} {rest : List (Message δ)}
      (here : s.threads[i]? = some thread) (looks : thread.looks = some (asked, empty)) (front : s.queue = msg :: rest) :
      Steps s (.advance i) (s.pop i asked msg rest)
  | compare {i : Nat} {asked : τ} {msg : Message δ} (here : s.threads[i]? = some (.comparing asked msg)) :
      Steps s (.advance i) (s.put i (.returned asked (msg.cast asked)))
  | notifyNobody {i : Nat} (here : s.threads[i]? = some .notifying)
      (nobody : ∀ thread ∈ s.threads, thread.waits = false) : Steps s (.notifyOne i none) (s.put i .sent)
  | notifyOne {i j : Nat} {asked : τ} {timeoutMs : Int} (here : s.threads[i]? = some .notifying)
      (there : s.threads[j]? = some (.waiting asked timeoutMs)) :
      Steps s (.notifyOne i (some j)) ((s.put j (.woken asked timeoutMs)).put i .sent)
  | wake {i : Nat} {asked : τ} {timeoutMs : Int} (here : s.threads[i]? = some (.waiting asked timeoutMs)) :
      Steps s (.spurious i) (s.put i (.woken asked timeoutMs))
  | expire {i : Nat} {thread later : Thread δ} (here : s.threads[i]? = some thread) (expires : Expires thread later) :
      Steps s (.timeOut i) (s.put i later)

theorem wake_eq_some {thread later : Thread δ} (woke : wake thread = some later) :
    ∃ asked timeoutMs, thread = .waiting asked timeoutMs ∧ later = .woken asked timeoutMs := by
  cases thread with
  | waiting asked timeoutMs => exact ⟨asked, timeoutMs, rfl, (Option.some.inj woke).symm⟩
  | _ => cases woke

theorem expire_eq_some {thread later : Thread δ} (expired : expire thread = some later) : Expires thread later := by
  have whole {timeoutMs : Int} (nonneg : 0 ≤ timeoutMs) : ∃ n : Nat, timeoutMs = n :=
    ⟨timeoutMs.toNat, (Int.toNat_of_nonneg nonneg).symm⟩
  cases thread with
  | waiting asked timeoutMs =>
      obtain ⟨nonneg, same⟩ := Option.ite_none_right_eq_some.mp expired
      obtain ⟨n, rfl⟩ := whole nonneg
      cases same
      exact .waiting asked n
  | woken asked timeoutMs =>
      obtain ⟨nonneg, same⟩ := Option.ite_none_right_eq_some.mp expired
      obtain ⟨n, rfl⟩ := whole nonneg
      cases same
      exact .woken asked n
  | _ => cases expired

/-! ## Without the condition variable -/

def Thread.call : Thread δ → MessageQueue.Call δ
  | .sending msg => .sending msg
  | .notifying | .sent => .sent
  | .checking asked timeoutMs | .waiting asked timeoutMs | .woken asked timeoutMs => .receiving asked timeoutMs
  | .expired asked timeoutMs => .receiving asked timeoutMs
  | .trying asked => .trying asked
  | .comparing asked msg => .comparing asked msg
  | .returned asked out => .returned asked out

/-- What `MessageQueue` sees of it: a thread that waits is one that has not received yet. -/
def view (s : CvQueue δ) : MessageQueue δ where
  queue := s.queue
  calls := s.threads.map Thread.call
  sent := s.sent
  taken := s.taken

theorem notifier_stays {threads : List (Thread δ)} {i j : Nat} {asked : τ} {timeoutMs : Int}
    (here : threads[i]? = some .notifying) (there : threads[j]? = some (.waiting asked timeoutMs)) (later : Thread δ) :
    (threads.set j later)[i]? = some .notifying := by
  have apart : j ≠ i := by
    rintro rfl
    cases here.symm.trans there
  rw [List.getElem?_set_ne apart, here]

theorem call_of {s : CvQueue δ} {i : Nat} {thread : Thread δ} (here : s.threads[i]? = some thread) :
    s.view.calls[i]? = some thread.call := by
  rw [view, List.getElem?_map, here]
  rfl

theorem view_put {s : CvQueue δ} {i : Nat} {thread : Thread δ} (here : s.threads[i]? = some thread) (later : Thread δ)
    (same : later.call = thread.call) : (s.put i later).view = s.view := by
  have unmoved : (s.threads.map Thread.call).set i later.call = s.threads.map Thread.call := by
    obtain ⟨inside, found⟩ := List.getElem?_eq_some_iff.mp (call_of here)
    rw [same, ← found]
    exact List.set_getElem_self inside
  rw [view, put, List.map_set, unmoved]
  rfl

theorem view_pop (s : CvQueue δ) (i : Nat) (asked : τ) (msg : Message δ) (rest : List (Message δ)) :
    (s.pop i asked msg rest).view = s.view.pop i asked msg rest := by
  rw [view, pop, put, List.map_set]
  rfl

theorem view_answer (s : CvQueue δ) (i : Nat) (asked : τ) (out : Option (δ asked)) :
    (s.put i (.returned asked out)).view = s.view.answer i asked out := by
  rw [view, put, List.map_set]
  rfl

theorem Expires.call {thread later : Thread δ} (expires : Expires thread later) : later.call = thread.call := by
  cases expires with
  | waiting => rfl
  | woken => rfl

/-! ## Nobody sleeps over a message -/

/-- It will look at the queue, or wake somebody who does. -/
def Thread.eager : Thread δ → Nat
  | .notifying | .checking _ _ | .woken _ _ | .expired _ _ => 1
  | _ => 0

/-- As long as a thread waits, there is somebody to come for each message. -/
def Watched (s : CvQueue δ) : Prop :=
  (∃ thread ∈ s.threads, thread.waits = true) → s.queue.length ≤ weight Thread.eager s.threads

theorem waits_of_set {threads : List (Thread δ)} {i : Nat} {later : Thread δ} (awake : later.waits = false) :
    (∃ thread ∈ threads.set i later, thread.waits = true) → ∃ thread ∈ threads, thread.waits = true := by
  rintro ⟨thread, member, waits⟩
  rcases List.mem_or_eq_of_mem_set member with before | rfl
  · exact ⟨thread, before, waits⟩
  · rw [awake] at waits
    cases waits

theorem eager_of_looks {thread empty : Thread δ} {asked : τ} (looks : thread.looks = some (asked, empty)) :
    thread.eager ≤ 1 := by
  cases thread with
  | checking | woken | expired | trying => exact Nat.le_of_ble_eq_true rfl
  | _ => cases looks

theorem fresh_waits {thread : Thread δ} (fresh : thread.fresh = true) : thread.waits = false := by
  cases thread with
  | sending | checking | trying => rfl
  | _ => cases fresh

theorem Expires.eager {thread later : Thread δ} (expires : Expires thread later) :
    thread.eager ≤ later.eager ∧ later.waits = false := by
  cases expires with
  | waiting => exact ⟨Nat.zero_le _, rfl⟩
  | woken => exact ⟨Nat.le_refl _, rfl⟩

/-! ## What is left to do -/

def Thread.rank : Thread δ → Nat
  | .sending _ => 4
  | .notifying => 3
  | .checking _ _ | .woken _ _ | .expired _ _ | .trying _ => 2
  | .comparing _ _ => 1
  | .sent | .waiting _ _ | .returned _ _ => 0

def work (s : CvQueue δ) : Nat := weight Thread.rank s.threads

theorem rank_of_looks {thread empty : Thread δ} {asked : τ} (looks : thread.looks = some (asked, empty)) :
    thread.rank = 2 ∧ empty.rank = 0 := by
  cases thread with
  | checking | woken | expired | trying =>
      cases looks
      exact ⟨rfl, rfl⟩
  | _ => cases looks

variable [DecidableEq τ]

/-! ## The cases of a step -/

theorem look_cases {s t : CvQueue δ} {i : Nat} {thread empty : Thread δ} {asked : τ}
    (here : s.threads[i]? = some thread) (looks : thread.looks = some (asked, empty))
    (looked : some (s.look i asked empty) = some t) : Steps s (.advance i) t := by
  cases looked
  cases front : s.queue with
  | nil =>
      rw [look, front]
      exact .miss here looks front
  | cons msg rest =>
      rw [look, front]
      exact .pop here looks front

theorem step_cases {s t : CvQueue δ} {action : Action δ} (stepped : s.step action = some t) : Steps s action t := by
  cases action with
  | send msg | recv asked timeoutMs | tryRecv asked =>
      cases stepped
      exact .begin rfl rfl
  | advance i =>
      obtain ⟨thread, here, turned⟩ := Option.bind_eq_some_iff.mp stepped
      cases thread with
      | sending msg =>
          cases turned
          exact .push here
      | checking asked timeoutMs | woken asked timeoutMs | expired asked timeoutMs | trying asked =>
          exact look_cases here rfl turned
      | comparing asked msg =>
          cases turned
          exact .compare here
      | notifying | sent | waiting asked timeoutMs | returned asked out => cases turned
  | notifyOne i target =>
      obtain ⟨thread, here, notified⟩ := Option.bind_eq_some_iff.mp stepped
      cases thread with
      | notifying =>
          cases target with
          | none =>
              obtain ⟨nobody, same⟩ := Option.ite_none_right_eq_some.mp notified
              cases same
              exact .notifyNobody here nobody
          | some j =>
              obtain ⟨later, woke, rfl⟩ := Option.map_eq_some_iff.mp notified
              obtain ⟨sleeper, there, wakes⟩ := Option.bind_eq_some_iff.mp woke
              obtain ⟨asked, timeoutMs, rfl, rfl⟩ := wake_eq_some wakes
              exact .notifyOne here there
      | _ => cases notified
  | spurious i =>
      obtain ⟨later, woke, rfl⟩ := Option.map_eq_some_iff.mp stepped
      obtain ⟨thread, here, wakes⟩ := Option.bind_eq_some_iff.mp woke
      obtain ⟨asked, timeoutMs, rfl, rfl⟩ := wake_eq_some wakes
      exact .wake here
  | timeOut i =>
      obtain ⟨later, passed, rfl⟩ := Option.map_eq_some_iff.mp stepped
      obtain ⟨thread, here, expires⟩ := Option.bind_eq_some_iff.mp passed
      exact .expire here (expire_eq_some expires)

/-! ## The steps without the condition variable -/

/-- Some step of `MessageQueue`. -/
def Moves (s t : MessageQueue δ) : Prop := ∃ action, s.step action = some t

theorem reaches_put {s : CvQueue δ} {i : Nat} {thread later : Thread δ} (here : s.threads[i]? = some thread)
    (same : later.call = thread.call) : Relation.ReflTransGen Moves s.view (s.put i later).view := by
  rw [view_put here later same]

theorem moves_begin (s : CvQueue δ) {thread : Thread δ} (fresh : thread.fresh = true) :
    Moves s.view (s.begin thread).view := by
  have added : (s.begin thread).view = s.view.begin thread.call := by
    rw [view, begin, List.map_append]
    rfl
  rw [added]
  cases thread with
  | sending msg => exact ⟨.send msg, rfl⟩
  | checking asked timeoutMs => exact ⟨.recv asked timeoutMs, rfl⟩
  | trying asked => exact ⟨.tryRecv asked, rfl⟩
  | _ => cases fresh

theorem moves_advance {s : CvQueue δ} {t : MessageQueue δ} {i : Nat} {thread : Thread δ}
    (here : s.threads[i]? = some thread) (turned : s.view.turn i thread.call = some t) : Moves s.view t :=
  ⟨.advance i, Option.bind_eq_some_iff.mpr ⟨_, call_of here, turned⟩⟩

theorem moves_pop {s : CvQueue δ} {i : Nat} {thread empty : Thread δ} {asked : τ} {msg : Message δ}
    {rest : List (Message δ)} (here : s.threads[i]? = some thread) (looks : thread.looks = some (asked, empty))
    (front : s.queue = msg :: rest) : Moves s.view (s.pop i asked msg rest).view := by
  have same : s.view.queue = msg :: rest := front
  rw [view_pop]
  cases thread with
  | checking | woken | expired | trying =>
      cases looks
      exact moves_advance here (by rw [Thread.call, MessageQueue.turn, same])
  | _ => cases looks

theorem reaches_miss {s : CvQueue δ} {i : Nat} {thread empty : Thread δ} {asked : τ}
    (here : s.threads[i]? = some thread) (looks : thread.looks = some (asked, empty)) (nothing : s.queue = []) :
    Relation.ReflTransGen Moves s.view (s.put i empty).view := by
  have same : s.view.queue = [] := nothing
  cases thread with
  | checking | woken =>
      cases looks
      exact reaches_put here rfl
  | trying =>
      cases looks
      rw [view_answer]
      exact .single (moves_advance here (by rw [Thread.call, MessageQueue.turn, same]))
  | expired asked timeoutMs =>
      cases looks
      rw [view_answer]
      have ended : s.view.expire i (.receiving asked timeoutMs) = some (s.view.answer i asked none) :=
        if_pos ⟨Int.natCast_nonneg timeoutMs, by rw [same]; rfl⟩
      exact .single ⟨.timeOut i, Option.bind_eq_some_iff.mpr ⟨_, call_of here, ended⟩⟩
  | _ => cases looks

theorem step_reaches (s : CvQueue δ) (action : Action δ) (t : CvQueue δ) (stepped : s.step action = some t) :
    Relation.ReflTransGen Moves s.view t.view := by
  cases step_cases stepped with
  | begin _ fresh => exact .single (moves_begin s fresh)
  | @push i msg here =>
      have pushed : (s.push i msg).view = s.view.push i msg := by
        rw [view, push, put, List.map_set]
        rfl
      rw [pushed]
      exact .single (moves_advance here rfl)
  | miss here looks nothing => exact reaches_miss here looks nothing
  | pop here looks front => exact .single (moves_pop here looks front)
  | compare here =>
      rw [view_answer]
      exact .single (moves_advance here rfl)
  | notifyNobody here => exact reaches_put here rfl
  | @notifyOne i j asked timeoutMs here there =>
      have still : (s.put j (.woken asked timeoutMs)).threads[i]? = some .notifying := notifier_stays here there _
      rw [view_put still .sent rfl]
      exact reaches_put there rfl
  | wake here => exact reaches_put here rfl
  | expire here expires => exact reaches_put here expires.call

theorem step_watched {s t : CvQueue δ} {action : Action δ} (stepped : s.step action = some t) (watched : Watched s) :
    Watched t := by
  cases step_cases stepped with
  | @begin _ thread _ fresh =>
      rintro ⟨other, member, waits⟩
      have before : other ∈ s.threads := by
        rcases List.mem_append.mp member with before | new
        · exact before
        · rw [List.mem_singleton.mp new, fresh_waits fresh] at waits
          cases waits
      have enough := watched ⟨other, before, waits⟩
      have more := weight_snoc Thread.eager s.threads thread
      simp only [begin]
      omega
  | @push i msg here =>
      intro waiting
      have enough := watched (waits_of_set rfl waiting)
      have moved := weight_set Thread.eager here .notifying
      simp only [Thread.eager] at moved
      simp only [push, put, List.length_append, List.length_singleton]
      omega
  | miss here looks nothing =>
      intro _
      simp [put, nothing]
  | @pop i thread _ asked msg rest here looks front =>
      intro waiting
      have enough := watched (waits_of_set rfl waiting)
      have moved := weight_set Thread.eager here (.comparing asked msg)
      have one := eager_of_looks looks
      rw [front, List.length_cons] at enough
      simp only [show (Thread.comparing asked msg : Thread δ).eager = 0 from rfl] at moved
      simp only [pop, put]
      omega
  | @compare i asked msg here =>
      intro waiting
      have enough := watched (waits_of_set rfl waiting)
      have moved := weight_set Thread.eager here (.returned asked (msg.cast asked))
      simp only [Thread.eager] at moved
      simp only [put]
      omega
  | notifyNobody here nobody =>
      intro waiting
      obtain ⟨thread, member, waits⟩ := waits_of_set rfl waiting
      rw [nobody thread member] at waits
      cases waits
  | @notifyOne i j asked timeoutMs here there =>
      intro waiting
      have enough := watched (waits_of_set rfl (waits_of_set rfl waiting))
      have still := notifier_stays here there (.woken asked timeoutMs)
      have woke := weight_set Thread.eager there (.woken asked timeoutMs)
      have moved := weight_set Thread.eager still .sent
      simp only [Thread.eager] at woke moved
      simp only [put]
      omega
  | @wake i asked timeoutMs here =>
      intro waiting
      have enough := watched (waits_of_set rfl waiting)
      have moved := weight_set Thread.eager here (.woken asked timeoutMs)
      simp only [Thread.eager] at moved
      simp only [put]
      omega
  | @expire i thread later here expires =>
      obtain ⟨more, awake⟩ := expires.eager
      intro waiting
      have enough := watched (waits_of_set awake waiting)
      have moved := weight_set Thread.eager here later
      simp only [put]
      omega

theorem internal_work {s t : CvQueue δ} {action : Action δ} (stepped : s.step action = some t)
    (internal : action.internal = true) : t.work < s.work := by
  cases step_cases stepped with
  | begin outer =>
      rw [outer] at internal
      cases internal
  | wake | expire => cases internal
  | @push i msg here =>
      have moved := weight_set Thread.rank here .notifying
      simp only [Thread.rank] at moved
      simp only [work, push, put]
      omega
  | @miss i thread empty asked here looks nothing =>
      have moved := weight_set Thread.rank here empty
      rw [(rank_of_looks looks).1, (rank_of_looks looks).2] at moved
      simp only [work, put]
      omega
  | @pop i thread empty asked msg rest here looks front =>
      have moved := weight_set Thread.rank here (.comparing asked msg)
      rw [(rank_of_looks looks).1] at moved
      simp only [Thread.rank] at moved
      simp only [work, pop, put]
      omega
  | @compare i asked msg here =>
      have moved := weight_set Thread.rank here (.returned asked (msg.cast asked))
      simp only [Thread.rank] at moved
      simp only [work, put]
      omega
  | @notifyNobody i here nobody =>
      have moved := weight_set Thread.rank here .sent
      simp only [Thread.rank] at moved
      simp only [work, put]
      omega
  | @notifyOne i j asked timeoutMs here there =>
      have still := notifier_stays here there (.woken asked timeoutMs)
      have woke := weight_set Thread.rank there (.woken asked timeoutMs)
      have moved := weight_set Thread.rank still .sent
      simp only [Thread.rank] at woke moved
      simp only [work, put]
      omega

/-! ## Where it comes to rest -/

def Thread.ended : Thread δ → Bool
  | .sent | .returned _ _ => true
  | _ => false

/-- Every call has ended or waits, and none waits while there is a message. -/
def Rested (s : CvQueue δ) : Prop :=
  (∀ thread ∈ s.threads, thread.ended = true ∨ thread.waits = true) ∧
  ((∃ thread ∈ s.threads, thread.waits = true) → s.queue = [])

theorem notified {s : CvQueue δ} {i : Nat} (here : s.threads[i]? = some .notifying) :
    ∃ target t, s.step (.notifyOne i target) = some t := by
  by_cases nobody : ∀ thread ∈ s.threads, thread.waits = false
  · exact ⟨none, s.put i .sent, Option.bind_eq_some_iff.mpr ⟨_, here, if_pos nobody⟩⟩
  · simp only [not_forall, Bool.not_eq_false] at nobody
    obtain ⟨thread, member, waits⟩ := nobody
    obtain ⟨j, there⟩ := List.mem_iff_getElem?.mp member
    cases thread with
    | waiting asked timeoutMs =>
        refine ⟨some j, (s.put j (.woken asked timeoutMs)).put i .sent, Option.bind_eq_some_iff.mpr ⟨_, here, ?_⟩⟩
        rw [notify, there]
        rfl
    | _ => cases waits

theorem rest_thread {s : CvQueue δ} (rest : AtRest step (·.internal = true) s) {thread : Thread δ}
    (member : thread ∈ s.threads) : thread.ended = true ∨ thread.waits = true := by
  obtain ⟨i, here⟩ := List.mem_iff_getElem?.mp member
  have advance := rest (.advance i) rfl
  rw [step, here] at advance
  cases thread with
  | sent | returned => exact .inl rfl
  | waiting => exact .inr rfl
  | notifying =>
      obtain ⟨target, t, moves⟩ := notified here
      cases moves.symm.trans (rest (.notifyOne i target) rfl)
  | _ => cases advance

theorem rested {s : CvQueue δ} (watched : Watched s) (rest : AtRest step (·.internal = true) s) : Rested s := by
  refine ⟨fun thread member => rest_thread rest member, fun waiting => ?_⟩
  have nobody : weight Thread.eager s.threads = 0 := by
    refine weight_eq_zero Thread.eager fun thread member => ?_
    have settled := rest_thread rest member
    cases thread with
    | notifying | checking | woken | expired => simp [Thread.ended, Thread.waits] at settled
    | _ => rfl
  have enough := watched waiting
  exact List.eq_nil_of_length_eq_zero (by omega)

/-- `recv` waits on `cv_` just as if it popped a message the moment there is one: nothing happens that could not happen
so, and left alone the threads leave no message in front of one that waits. -/
theorem waits_for_messages (actions : List (Action δ)) (s : CvQueue δ) (ran : exec step {} actions = some s) :
    (∃ calls, exec MessageQueue.step {} calls = some s.view) ∧
    Settles step (·.internal = true) Rested s.work s := by
  have watched : Watched s := by
    refine exec_invariant (P := Watched) (fun _ _ _ stepped => step_watched stepped) ran ?_
    rintro ⟨thread, member, -⟩
    cases member
  refine ⟨exists_exec (@exec_simulated _ _ _ step view Moves step_reaches _ _ _ ran), ?_⟩
  exact @settles _ _ step (·.internal = true) Watched Rested work (fun _ _ _ stepped _ => step_watched stepped)
    (fun _ _ _ stepped internal _ => internal_work stepped internal) (fun _ => rested) s watched

-- a receiver sleeps, and its message has been pushed but not announced
def sleeperRun : List (Action fun _ : Unit => Nat) := [.recv () (-1), .advance 0, .send ⟨(), 42⟩, .advance 1]

theorem waits_for_messages_of_sleeperRun :
    ∃ s, exec step {} sleeperRun = some s ∧ (∃ calls, exec MessageQueue.step {} calls = some s.view) ∧
      Settles step (·.internal = true) Rested s.work s := by
  obtain ⟨s, ran⟩ : ∃ s, exec step {} sleeperRun = some s := ⟨_, rfl⟩
  exact ⟨s, ran, waits_for_messages sleeperRun s ran⟩

end CvQueue

end ServerFramework.Base
