import ServerFramework.Base.TimerLoop
import ServerFramework.Proof.Base.Timer

namespace ServerFramework.Base
open Library Library.Heap

def LoopPhase.hand {κ : Type} : LoopPhase κ → List (TimerItem κ)
  | .running fired => fired
  | .rearming _ fired => fired
  | .storing _ fired => fired
  | .pushing nt fired => nt :: fired
  | .idle | .merging | .resting | .firing => []

def LoopPhase.loaded {κ : Type} : LoopPhase κ → List (TimerItem κ)
  | .storing nt _ => [nt]
  | .idle | .merging | .resting | .firing | .running _ | .rearming .. | .pushing .. => []

/-- The next step of the thread loads `next_id`. -/
def LoopPhase.loads {κ : Type} : LoopPhase κ → Bool
  | .rearming t _ => 0 < t.intervalMs
  | .idle | .merging | .resting | .firing | .running _ | .storing .. | .pushing .. => false

namespace TimerLoop

variable {κ : Type} (heap : HeapAlgorithms (@TimerItem.expireAt κ))

/-! ## What a step can do -/

/-- The increments of `next_id` that are under way, between their load and their store. -/
def incrementing (loop : TimerLoop κ) : List (TimerItem κ) := loop.phase.loaded ++ loop.loading

def Unraced (loop : TimerLoop κ) : Action κ → Prop
  | .add .. | .addRepeating .. => loop.incrementing = []
  | .rearm _ => loop.phase.loads = true → loop.incrementing = []
  | _ => True

def afterLoad (loop : TimerLoop κ) (item : TimerItem κ) : TimerLoop κ := { loop with loading := loop.loading ++ [item] }

def afterMerge (loop : TimerLoop κ) : TimerLoop κ :=
  { loop with items := heap.pushHeap (loop.items ++ loop.pendingAdd), pendingAdd := [], phase := .resting }

inductive Effect (loop : TimerLoop κ) : Action κ → TimerLoop κ → Prop
  | control {action : Action κ} (running : Bool) (phase : LoopPhase κ) (sleepMs : Int)
      (hand : phase.hand.Sublist loop.phase.hand) (loaded : phase.loaded.Sublist loop.phase.loaded) :
      Effect loop action { loop with running := running, phase := phase, sleepMs := sleepMs }
  | load {action : Action κ} (item : TimerItem κ) (fresh : item.id = loop.nextId + 1)
      (unraced : Unraced loop action → loop.incrementing = []) : Effect loop action (loop.afterLoad item)
  | store {i : Nat} {item : TimerItem κ} (here : loop.loading[i]? = some item) :
      Effect loop (.store i) (loop.store i item)
  | queue {i : Nat} {item : TimerItem κ} (here : loop.adding[i]? = some item) :
      Effect loop (.queue i) (loop.queue i item)
  | cancel (id : Int) : Effect loop (.cancel id) (loop.cancel id)
  | merge (running : loop.running = true) (some_pending : loop.pendingAdd ≠ []) (hand : loop.phase.hand = []) :
      Effect loop .merge (loop.afterMerge heap)
  | fire {now2 : Int} {left fired : List (TimerItem κ)} (hand : loop.phase.hand = [])
      (taken : Timer.extract heap now2 loop.items = some (left, fired)) :
      Effect loop (.fire now2) (loop.afterFire left fired)
  | invoke {t : TimerItem κ} {fired : List (TimerItem κ)} (hand : loop.phase.hand = t :: fired) :
      Effect loop .invoke (loop.afterInvoke t fired)
  | rearm (now3 : Int) (t : TimerItem κ) {fired : List (TimerItem κ)} (hand : loop.phase.hand = fired)
      (unraced : Unraced loop (.rearm now3) → loop.incrementing = []) :
      Effect loop (.rearm now3) (loop.afterRearm now3 t fired)
  | storeRearm {nt : TimerItem κ} {fired : List (TimerItem κ)} (storing : loop.phase = .storing nt fired) :
      Effect loop .storeRearm (loop.afterStore nt fired)
  | pushRearm {nt : TimerItem κ} {fired : List (TimerItem κ)} (hand : loop.phase.hand = nt :: fired) :
      Effect loop .pushRearm (loop.afterPush heap nt fired)

theorem merge_effect (loop : TimerLoop κ) (hand : loop.phase.hand = []) :
    Effect heap loop .merge (loop.merge heap) := by
  unfold merge
  split
  · rename_i running
    split
    · exact .control _ .resting _ (List.nil_sublist _) (List.nil_sublist _)
    · rename_i some_pending
      exact .merge running some_pending hand
  · exact .control _ .idle _ (List.nil_sublist _) (List.nil_sublist _)

theorem addImpl_effect {loop next : TimerLoop κ} {action : Action κ} {now afterMs intervalMs : Int} {cb : Option κ}
    (added : loop.addImpl now afterMs cb intervalMs = some next)
    (unraced : Unraced loop action → loop.incrementing = []) : Effect heap loop action next := by
  simp only [addImpl, Option.ite_none_right_eq_some, Option.some.injEq] at added
  obtain ⟨-, rfl⟩ := added
  exact .load _ rfl unraced

theorem step_effect {loop next : TimerLoop κ} {action : Action κ} (stepped : loop.step heap action = some next) :
    Effect heap loop action next := by
  cases action with
  | start =>
      simp only [step, start] at stepped
      split at stepped
      · cases stepped
        exact .control _ _ _ (.refl _) (.refl _)
      · split at stepped
        · cases stepped
          exact .control _ _ _ (List.nil_sublist _) (List.nil_sublist _)
        · cases stepped
  | stop =>
      cases stepped
      exact .control _ _ _ (.refl _) (.refl _)
  | add now afterMs cb => exact addImpl_effect heap stepped id
  | addRepeating now intervalMs cb => exact addImpl_effect heap stepped id
  | store i =>
      obtain ⟨item, here, rfl⟩ := Option.map_eq_some_iff.mp stepped
      exact .store here
  | queue i =>
      obtain ⟨item, here, rfl⟩ := Option.map_eq_some_iff.mp stepped
      exact .queue here
  | cancel id =>
      cases stepped
      exact .cancel id
  | merge =>
      cases phase : loop.phase <;> simp only [step, phase] at stepped <;> cases stepped
      exact merge_effect heap loop (by rw [phase]; rfl)
  | rest now =>
      cases phase : loop.phase <;> simp only [step, phase] at stepped <;> cases stepped
      exact .control _ _ _ (List.nil_sublist _) (List.nil_sublist _)
  | fire now2 =>
      cases phase : loop.phase with
      | firing =>
          simp only [step, phase] at stepped
          obtain ⟨⟨left, fired⟩, taken, rfl⟩ := Option.map_eq_some_iff.mp stepped
          exact .fire (by rw [phase]; rfl) taken
      | _ => simp [step, phase] at stepped
  | invoke =>
      cases phase : loop.phase with
      | running fired =>
          cases fired with
          | nil =>
              simp only [step, phase] at stepped
              cases stepped
              exact .control _ _ _ (List.nil_sublist _) (List.nil_sublist _)
          | cons t fired =>
              simp only [step, phase] at stepped
              split at stepped
              · cases stepped
                exact .control _ _ _ (by rw [phase]; exact List.sublist_cons_self t fired) (List.nil_sublist _)
              · cases stepped
                exact .invoke (by rw [phase]; rfl)
      | _ => simp [step, phase] at stepped
  | rearm now3 =>
      cases phase : loop.phase with
      | rearming t fired =>
          simp only [step, phase] at stepped
          split at stepped
          · rename_i repeating
            simp only [Option.ite_none_right_eq_some, Option.some.injEq] at stepped
            obtain ⟨-, rfl⟩ := stepped
            exact .rearm now3 t (by rw [phase]; rfl) fun unraced => unraced (by rw [phase]; exact decide_eq_true repeating)
          · cases stepped
            exact .control _ _ _ (by rw [phase]; exact .refl _) (List.nil_sublist _)
      | _ => simp [step, phase] at stepped
  | storeRearm =>
      cases phase : loop.phase with
      | storing nt fired =>
          simp only [step, phase, Option.some.injEq] at stepped
          subst stepped
          exact .storeRearm phase
      | _ => simp [step, phase] at stepped
  | pushRearm =>
      cases phase : loop.phase with
      | pushing nt fired =>
          simp only [step, phase, Option.some.injEq] at stepped
          subst stepped
          exact .pushRearm (by rw [phase]; rfl)
      | _ => simp [step, phase] at stepped

/-! ## The heap -/

/-- What `push_heap` needs: all that it gets but the last element is a heap already. -/
def PushReady (loop : TimerLoop κ) : Action κ → Prop
  | .merge => loop.running = true → loop.pendingAdd ≠ [] →
      IsMinHeap TimerItem.expireAt (loop.items ++ loop.pendingAdd.dropLast)
  | _ => True

theorem pushed_batch {loop : TimerLoop κ} (some_pending : loop.pendingAdd ≠ [])
    (ready : IsMinHeap TimerItem.expireAt (loop.items ++ loop.pendingAdd.dropLast)) :
    IsMinHeap TimerItem.expireAt (loop.afterMerge heap).items ∧
      (loop.afterMerge heap).items.Perm (loop.items ++ loop.pendingAdd) := by
  have split : loop.items ++ loop.pendingAdd =
      (loop.items ++ loop.pendingAdd.dropLast) ++ [loop.pendingAdd.getLast some_pending] := by
    rw [List.append_assoc, List.dropLast_append_getLast]
  have items : (loop.afterMerge heap).items = heap.pushHeap (loop.items ++ loop.pendingAdd) := rfl
  rw [items, split]
  exact ⟨heap.push_heap _ _ ready, heap.push_perm _ _ ready⟩

theorem step_ordered {loop next : TimerLoop κ} {action : Action κ} (stepped : loop.step heap action = some next)
    (ready : PushReady loop action) (ordered : IsMinHeap TimerItem.expireAt loop.items) :
    IsMinHeap TimerItem.expireAt next.items := by
  cases step_effect heap stepped with
  | cancel id => exact Timer.cancelItem_ordered id ordered
  | merge running some_pending => exact (pushed_batch heap some_pending (ready running some_pending)).1
  | fire hand taken => exact (Timer.extract_extraction heap ordered taken).heap
  | pushRearm => exact heap.push_heap _ _ ordered
  | _ => exact ordered

def OnePending (loop : TimerLoop κ) : Action κ → Prop
  | .merge => loop.pendingAdd.length ≤ 1
  | _ => True

instance (loop : TimerLoop κ) : ∀ action, Decidable (OnePending loop action)
  | .merge => inferInstanceAs (Decidable (loop.pendingAdd.length ≤ 1))
  | .start | .stop | .add .. | .addRepeating .. | .store _ | .queue _ | .cancel _ | .rest _ | .fire _ | .invoke
  | .rearm _ | .storeRearm | .pushRearm => isTrue trivial

theorem push_ready_of_one_pending {actions : List (Action κ)} (single : Respects OnePending (step heap) {} actions) :
    Respects PushReady (step heap) {} actions := by
  refine Respects.of_invariant (I := fun loop => IsMinHeap TimerItem.expireAt loop.items) ?_ ?_ single isMinHeap_nil
  · intro loop action ordered short
    cases action with
    | merge =>
        intro _ _
        have nothing : loop.pendingAdd.dropLast = [] := by
          rw [List.dropLast_eq_take, List.take_eq_nil_iff]
          exact .inl (Nat.sub_eq_zero_of_le short)
        rw [nothing, List.append_nil]
        exact ordered
    | _ => trivial
  · intro before action after stepped ready ordered
    exact step_ordered heap stepped ready ordered

theorem no_due_timer_left (actions : List (Action κ)) (loop : TimerLoop κ)
    (ran : exec (step heap) {} actions = some loop) (ready : Respects PushReady (step heap) {} actions) :
    IsMinHeap TimerItem.expireAt loop.items ∧
    (loop.phase = .firing → ∀ now2, ∃ next, loop.step heap (.fire now2) = some next ∧
      ∀ item ∈ next.items, item.cancelled = false → now2 < item.expireAt) := by
  have ordered : IsMinHeap TimerItem.expireAt loop.items := by
    apply exec_invariant_of_respects (P := fun loop => IsMinHeap TimerItem.expireAt loop.items) _ ran ready
    · exact isMinHeap_nil
    · intro before action after stepped permitted holds
      exact step_ordered heap stepped permitted holds
  refine ⟨ordered, ?_⟩
  intro firing now2
  obtain ⟨left, fired, taken, extraction⟩ := Timer.extract_spec heap now2 ordered
  refine ⟨loop.afterFire left fired, ?_, fun item member _ => extraction.late item member⟩
  simp only [step, firing, taken, Option.map_some]

theorem no_due_timer_left_behind_two_merges :
    ∃ loop, exec (step (sifting (@TimerItem.expireAt Nat))) {}
        [.start, .add 0 30 (some 1), .store 0, .queue 0, .merge, .rest 0, .fire 1, .invoke, .add 1 10 (some 2),
          .store 0, .queue 0, .merge, .rest 1] = some loop ∧
      IsMinHeap TimerItem.expireAt loop.items ∧ loop.items.map TimerItem.id = [2, 1] ∧
      ∃ next, loop.step (sifting TimerItem.expireAt) (.fire 11) = some next ∧
        ∀ item ∈ next.items, item.cancelled = false → 11 < item.expireAt := by
  obtain ⟨loop, ran, firing, ids⟩ : ∃ loop, exec (step (sifting (@TimerItem.expireAt Nat))) {}
      [.start, .add 0 30 (some 1), .store 0, .queue 0, .merge, .rest 0, .fire 1, .invoke, .add 1 10 (some 2),
        .store 0, .queue 0, .merge, .rest 1] = some loop ∧ loop.phase = .firing ∧ loop.items.map TimerItem.id = [2, 1] :=
    ⟨_, rfl, rfl, rfl⟩
  obtain ⟨ordered, due⟩ := no_due_timer_left (sifting (@TimerItem.expireAt Nat)) _ loop ran
    (push_ready_of_one_pending _ (by decide))
  exact ⟨loop, ran, ordered, ids, due firing 11⟩

/-- Timers for 10, 5 and 20 come in together; the front is the first of them. -/
theorem due_timer_left_behind :
    ∃ loop next, exec (step (sifting (@TimerItem.expireAt Nat))) {}
        [.start, .add 0 10 (some 1), .store 0, .queue 0, .add 0 5 (some 2), .store 0, .queue 0, .add 0 20 (some 3),
          .store 0, .queue 0, .merge, .rest 0] = some loop ∧
      ¬ IsMinHeap TimerItem.expireAt loop.items ∧
      loop.step (sifting TimerItem.expireAt) (.fire 7) = some next ∧
      ⟨2, 5, 0, some 2, false⟩ ∈ next.items := by
  refine ⟨_, _, rfl, ?_, rfl, ?_⟩
  · intro ordered
    exact absurd (ordered 1) (by decide)
  · decide

end TimerLoop

end ServerFramework.Base
