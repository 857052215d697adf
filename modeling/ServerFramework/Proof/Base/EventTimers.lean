import ServerFramework.Proof.Base.EventLoop
import ServerFramework.Proof.Base.TimerLoopCancel

namespace ServerFramework.Base
open Library Library.Heap Timer

/-- Entries that `process_timers` took out of the heap when its clock stood at `now`. -/
structure Due {κ : Type} (clock now : Int) (entries : List (TimerEntry κ)) : Prop where
  reached : now ≤ clock
  expired : ∀ t ∈ entries, t.expireAt ≤ now
  alive : ∀ t ∈ entries, t.cancelled = false
  callbacks : ∀ t ∈ entries, t.callback.isSome

structure Successor {κ : Type} (now : Int) (t nt : TimerEntry κ) : Prop where
  repeating : t.intervalMs > 0
  copied : nt = { t with id := nt.id, expireAt := now + t.intervalMs }

namespace RunPhase

variable {κ τ : Type}

def hand : RunPhase κ τ → List (TimerEntry κ)
  | .firing _ fired => fired
  | .calling _ _ fired => fired
  | .rearming _ _ fired => fired
  | .restoring _ _ nt fired => nt :: fired
  | _ => []

def away : RunPhase κ τ → List (TimerEntry κ)
  | .firing _ fired => fired
  | .calling _ t fired => t :: fired
  | .rearming _ t fired => t :: fired
  | .restoring _ _ nt fired => nt :: fired
  | _ => []

/-- The entry that ran and whose successor is not in the heap yet. -/
def owed : RunPhase κ τ → List (TimerEntry κ)
  | .calling _ t _ => [t].filter TimerItem.isRepeating
  | .rearming _ t _ => [t].filter TimerItem.isRepeating
  | .restoring _ t _ _ => [t]
  | _ => []

def Ready (clock : Int) : RunPhase κ τ → Prop
  | .locking now => now ≤ clock
  | .firing now fired => Due clock now fired
  | .calling now t fired => Due clock now (t :: fired)
  | .rearming now t fired => Due clock now (t :: fired)
  | .restoring now t nt fired => Due clock now (t :: fired) ∧ Successor now t nt
  | _ => True

end RunPhase

theorem Due.later {κ : Type} {clock clock' now : Int} {entries : List (TimerEntry κ)} (due : Due clock now entries)
    (later : clock ≤ clock') : Due clock' now entries :=
  { due with reached := Int.le_trans due.reached later }

theorem Due.tail {κ : Type} {clock now : Int} {t : TimerEntry κ} {entries : List (TimerEntry κ)}
    (due : Due clock now (t :: entries)) : Due clock now entries where
  reached := due.reached
  expired other member := due.expired other (List.mem_cons_of_mem t member)
  alive other member := due.alive other (List.mem_cons_of_mem t member)
  callbacks other member := due.callbacks other (List.mem_cons_of_mem t member)

theorem RunPhase.Ready.later {κ τ : Type} {clock clock' : Int} {phase : RunPhase κ τ} (ready : phase.Ready clock)
    (later : clock ≤ clock') : phase.Ready clock' := by
  cases phase with
  | locking now => exact Int.le_trans ready later
  | firing now fired => exact Due.later ready later
  | calling now t fired => exact Due.later ready later
  | rearming now t fired => exact Due.later ready later
  | restoring now t nt fired => exact ⟨ready.1.later later, ready.2⟩
  | _ => trivial

namespace RunPhase.Moves

variable {κ τ : Type} {clock : Int} {before after : RunPhase κ τ}

theorem ready (moves : before.Moves clock after) (ready : before.Ready clock) : after.Ready clock := by
  cases moves with
  | stay => exact ready
  | read => exact Int.le_refl clock
  | called => exact ready
  | oneShot => exact Due.tail ready
  | _ => trivial

theorem hand (moves : before.Moves clock after) : after.hand.Sublist before.hand := by
  cases moves <;> exact .refl _

theorem away (moves : before.Moves clock after) : after.away.Sublist before.away := by
  cases moves with
  | oneShot => exact List.sublist_cons_self _ _
  | _ => exact .refl _

theorem owed (moves : before.Moves clock after) : after.owed = before.owed := by
  cases moves with
  | @oneShot now t fired once =>
      have stays : ¬ t.isRepeating = true := by simpa [TimerItem.isRepeating] using once
      change [] = [t].filter TimerItem.isRepeating
      rw [List.filter_cons_of_neg stays]
      rfl
  | _ => rfl

end RunPhase.Moves

namespace EventLoop

variable {κ τ : Type} (heap : HeapAlgorithms (@TimerItem.expireAt κ))

/-! ## The heap and the entries taken out of it -/

structure Kept (loop : EventLoop κ τ) : Prop where
  ordered : IsMinHeap TimerItem.expireAt loop.timers
  callbacks : ∀ t ∈ loop.timers ++ loop.adding, t.callback.isSome
  ready : loop.phase.Ready loop.clock

theorem initial_kept : Kept ({} : EventLoop κ τ) where
  ordered := isMinHeap_nil
  callbacks _ member := absurd member List.not_mem_nil
  ready := trivial

theorem Kept.extract {loop : EventLoop κ τ} (kept : Kept loop) {now : Int} {left fired : List (TimerEntry κ)}
    (phase : loop.phase = .locking now) (extraction : Extraction now loop.timers left fired) :
    Kept (loop.afterExtract now left fired) where
  ordered := extraction.heap
  callbacks t member := by
    apply kept.callbacks t
    rcases List.mem_append.mp member with remains | waits
    · exact List.mem_append_left _ (extraction.parts.subset (List.mem_append_left _ remains))
    · exact List.mem_append_right _ waits
  ready := by
    have reached := kept.ready
    rw [phase] at reached
    have taken (t : TimerEntry κ) (member : t ∈ fired) := extraction.fired_live t member
    refine ⟨reached, extraction.due, fun t member => (taken t member).2, fun t member => ?_⟩
    exact kept.callbacks t (List.mem_append_left _ (taken t member).1)

theorem visit_eq {loop : EventLoop κ τ} {now : Int} {t : TimerEntry κ} {fired : List (TimerEntry κ)}
    (due : Due loop.clock now (t :: fired)) : loop.visit now t fired = { loop with
      phase := .calling now t fired
      log := loop.log ++ [.invoked t (loop.registration t.id) loop.clock] } := by
  have alive := due.alive t List.mem_cons_self
  have given := due.callbacks t List.mem_cons_self
  rw [visit, if_neg (by simp [alive]), if_pos given]

theorem Kept.visit {loop : EventLoop κ τ} (kept : Kept loop) {now : Int} {t : TimerEntry κ}
    {fired : List (TimerEntry κ)} (phase : loop.phase = .firing now (t :: fired)) :
    Kept (loop.visit now t fired) := by
  have due := kept.ready
  rw [phase] at due
  rw [visit_eq due]
  exact ⟨kept.ordered, kept.callbacks, due⟩

theorem Kept.renew {loop : EventLoop κ τ} (kept : Kept loop) {now : Int} {t : TimerEntry κ}
    {fired : List (TimerEntry κ)} (phase : loop.phase = .rearming now t fired) (repeating : t.intervalMs > 0) :
    Kept (loop.renew now t fired) := by
  have due := kept.ready
  rw [phase] at due
  have alive := due.alive t List.mem_cons_self
  refine ⟨kept.ordered, kept.callbacks, due, repeating, ?_⟩
  rw [← alive]

theorem Kept.restore {loop : EventLoop κ τ} (kept : Kept loop) {now : Int} {t nt : TimerEntry κ}
    {fired : List (TimerEntry κ)} (phase : loop.phase = .restoring now t nt fired) :
    Kept (loop.restore heap now t nt fired) := by
  have ready := kept.ready
  rw [phase] at ready
  obtain ⟨due, successor⟩ := ready
  refine ⟨heap.push_heap _ nt kept.ordered, ?_, due.tail⟩
  intro other member
  rcases List.mem_append.mp member with pushed | waits
  · rcases List.mem_append.mp ((heap.push_perm _ nt kept.ordered).mem_iff.mp pushed) with old | new
    · exact kept.callbacks other (List.mem_append_left _ old)
    · rw [List.mem_singleton.mp new, successor.copied]
      exact due.callbacks t List.mem_cons_self
  · exact kept.callbacks other (List.mem_append_right _ waits)

theorem inserted_perm {loop : EventLoop κ τ} (ordered : IsMinHeap TimerItem.expireAt loop.timers) {i : Nat}
    {entry : TimerEntry κ} (here : loop.adding[i]? = some entry) (others : List (TimerEntry κ)) :
    ((loop.insert heap i entry).timers ++ (others ++ (loop.insert heap i entry).adding)).Perm
      (loop.timers ++ (others ++ loop.adding)) := by
  obtain ⟨inside, rfl⟩ := List.getElem?_eq_some_iff.mp here
  have pushed : (loop.insert heap i loop.adding[i]).timers.Perm (loop.timers ++ [loop.adding[i]]) :=
    heap.push_perm _ _ ordered
  have back : (loop.adding[i] :: (others ++ loop.adding.eraseIdx i)).Perm (others ++ loop.adding) :=
    List.perm_middle.symm.trans ((List.getElem_cons_eraseIdx_perm inside).append_left others)
  refine (pushed.append_right _).trans ?_
  rw [List.append_assoc]
  exact back.append_left loop.timers

theorem step_kept {loop next : EventLoop κ τ} {action : Action κ τ} (stepped : loop.step heap action = some next)
    (kept : Kept loop) : Kept next := by
  cases step_effect heap stepped with
  | quiet later moves => exact ⟨kept.ordered, kept.callbacks, (moves.ready kept.ready).later later⟩
  | add fresh given =>
      refine ⟨kept.ordered, ?_, kept.ready⟩
      intro t member
      rw [afterAdd, ← List.append_assoc] at member
      rcases List.mem_append.mp member with old | new
      · exact kept.callbacks t old
      · rw [List.mem_singleton.mp new]
        exact given
  | insert here =>
      refine ⟨heap.push_heap _ _ kept.ordered, ?_, kept.ready⟩
      intro t member
      exact kept.callbacks t ((inserted_perm heap kept.ordered here []).mem_iff.mp member)
  | cancel id =>
      refine ⟨cancelItem_ordered id kept.ordered, ?_, kept.ready⟩
      rw [List.forall_mem_append]
      obtain ⟨timers, adding⟩ := List.forall_mem_append.mp kept.callbacks
      exact ⟨cancelItem_callbacks id timers, adding⟩
  | extract phase taken => exact kept.extract phase (extract_extraction heap kept.ordered taken)
  | visit phase => exact kept.visit phase
  | renew phase repeating => exact kept.renew phase repeating
  | restore phase => exact kept.restore heap phase
  | push => exact { kept with }
  | take phase =>
      unfold processTasks
      split <;> exact ⟨kept.ordered, kept.callbacks, trivial⟩
  | execute => exact { kept with ready := trivial }

/-! ## Where the ids and the timers are -/

def keys (f : Int → Int) (entries : List (TimerEntry κ)) : List Int := entries.map fun t => f t.id

def held (loop : EventLoop κ τ) (hand : List (TimerEntry κ)) : List (TimerEntry κ) :=
  loop.timers ++ (hand ++ loop.adding)

def carriers (loop : EventLoop κ τ) (hand : List (TimerEntry κ)) : List (TimerEntry κ) :=
  live loop.timers ++ (hand ++ loop.adding)

-- The ids are tickets, and so are the timers that the entries belong to; `f` says which of the two.
def Ledger (loop : EventLoop κ τ) (f : Int → Int) (hand : List (TimerEntry κ)) (used : List Int)
    (revoked : Int → Prop) : Prop :=
  Tickets loop.timerIdCounter (keys f (loop.held hand)) (keys f (loop.carriers hand)) used revoked

theorem keys_append (f : Int → Int) (entries others : List (TimerEntry κ)) :
    keys f (entries ++ others) = keys f entries ++ keys f others :=
  List.map_append

namespace Ledger

variable {loop : EventLoop κ τ} {f : Int → Int} {hand : List (TimerEntry κ)} {used : List Int} {revoked : Int → Prop}

theorem keep (ledger : Ledger loop f hand used revoked) {next : EventLoop κ τ} {hand' : List (TimerEntry κ)}
    (counter : next.timerIdCounter = loop.timerIdCounter) (fewer : (next.held hand').Subperm (loop.held hand))
    (still : next.carriers hand' ⊆ loop.carriers hand) : Ledger next f hand' used revoked := by
  unfold Ledger
  rw [counter]
  exact Tickets.keep ledger (subperm_map _ fewer) (List.map_subset _ still)

theorem move (ledger : Ledger loop f hand used revoked) {next : EventLoop κ τ} {hand' : List (TimerEntry κ)}
    (counter : next.timerIdCounter = loop.timerIdCounter) (timers : next.timers = loop.timers)
    (adding : next.adding = loop.adding) (fewer : hand'.Sublist hand) : Ledger next f hand' used revoked := by
  have inner := fewer.append (List.Sublist.refl loop.adding)
  apply ledger.keep counter
  · rw [held, held, timers, adding]
    exact (inner.append_left loop.timers).subperm
  · rw [carriers, carriers, timers, adding]
    exact (inner.append_left (live loop.timers)).subset

theorem add (ledger : Ledger loop f hand used revoked) {entry : TimerEntry κ}
    (fresh : f entry.id = loop.timerIdCounter + 1) : Ledger (loop.afterAdd entry) f hand used revoked := by
  have more (entries : List (TimerEntry κ)) : (keys f (entries ++ (hand ++ (loop.adding ++ [entry])))).Perm
      ((loop.timerIdCounter + 1) :: keys f (entries ++ (hand ++ loop.adding))) := by
    rw [← fresh]
    simp only [← List.append_assoc]
    exact (List.perm_append_singleton entry _).map _
  exact Tickets.issue ledger (more loop.timers) (more (live loop.timers)).subset

theorem insert (ledger : Ledger loop f hand used revoked) (ordered : IsMinHeap TimerItem.expireAt loop.timers)
    {i : Nat} {entry : TimerEntry κ} (here : loop.adding[i]? = some entry) :
    Ledger (loop.insert heap i entry) f hand used revoked := by
  refine ledger.keep rfl (inserted_perm heap ordered here hand).subperm ?_
  have alive : (live (loop.insert heap i entry).timers).Perm (live loop.timers ++ live [entry]) := by
    rw [← live_append]
    exact (heap.push_perm _ _ ordered).filter _
  intro t member
  rcases List.mem_append.mp member with among | others
  · rcases List.mem_append.mp (alive.mem_iff.mp among) with old | new
    · exact List.mem_append_left _ old
    · rw [List.mem_singleton.mp (mem_live.mp new).1]
      exact List.mem_append_right _ (List.mem_append_right _ (List.mem_of_getElem? here))
  · apply List.mem_append_right
    rcases List.mem_append.mp others with out | waits
    · exact List.mem_append_left _ out
    · exact List.mem_append_right _ (List.mem_of_mem_eraseIdx waits)

theorem extract {now : Int} {left fired : List (TimerEntry κ)} (ledger : Ledger loop f [] used revoked)
    (extraction : Extraction now loop.timers left fired) : Ledger (loop.afterExtract now left fired) f fired used revoked := by
  refine ledger.keep rfl ?_ ?_
  · rw [held, held, List.nil_append, ← List.append_assoc]
    exact (List.subperm_append_right _).mpr extraction.parts
  · rw [carriers, carriers, List.nil_append, ← List.append_assoc]
    refine append_subset_append ?_ (List.Subset.refl _)
    exact (List.perm_append_comm.trans extraction.alive.symm).subset

theorem restore {now : Int} {t nt : TimerEntry κ} {fired : List (TimerEntry κ)}
    (ledger : Ledger loop f (nt :: fired) used revoked) (ordered : IsMinHeap TimerItem.expireAt loop.timers) :
    Ledger (loop.restore heap now t nt fired) f fired used revoked := by
  have pushed : (loop.restore heap now t nt fired).timers.Perm (loop.timers ++ [nt]) := heap.push_perm _ nt ordered
  refine ledger.keep rfl ?_ ?_
  · have moved := pushed.append_right (fired ++ loop.adding)
    rw [List.append_assoc] at moved
    exact moved.subperm
  · intro other member
    have origin : other ∈ live loop.timers ++ live [nt] ++ (fired ++ loop.adding) := by
      rw [← live_append]
      exact ((pushed.filter _).append_right _).mem_iff.mp member
    have smaller : live [nt] ⊆ [nt] := List.filter_sublist.subset
    rw [List.append_assoc] at origin
    exact append_subset_append (List.Subset.refl _)
      (append_subset_append smaller (List.Subset.refl (fired ++ loop.adding))) origin

theorem cancel (ledger : Ledger loop f hand used revoked) {id : Int} {revoked' : Int → Prop}
    (more : ∀ key, revoked' key → revoked key ∨ ((loop.cancelTimer id).1 = true ∧ key = f id)) :
    Ledger (loop.cancelTimer id).2 f hand used revoked' := by
  have entries : keys f (cancelItem id loop.timers).2 = keys f loop.timers := by
    have mapped := congrArg (List.map f) (cancelItem_ids id loop.timers)
    rwa [List.map_map, List.map_map] at mapped
  have same : keys f ((loop.cancelTimer id).2.held hand) = keys f (loop.held hand) := by
    rw [keys, held, List.map_append]
    exact (congrArg (· ++ keys f (hand ++ loop.adding)) entries).trans List.map_append.symm
  have fewer : (loop.cancelTimer id).2.carriers hand ⊆ loop.carriers hand :=
    append_subset_append (cancelItem_live id loop.timers) (List.Subset.refl _)
  have kept := Tickets.keep ledger (List.Subperm.refl _) (List.map_subset _ fewer)
  rw [← same] at kept
  apply kept.revoke
  intro key gone
  rcases more key gone with old | ⟨found, rfl⟩
  · exact .inl old
  · have present := List.mem_map.mp ((cancelItem_result id loop.timers).mp found)
    obtain ⟨dead, among, rfl, cancelled⟩ := cancelItem_found present
    have silent : f dead.id ∉ keys f ((loop.cancelTimer dead.id).2.carriers hand) :=
      dead_apart kept.unique among cancelled
    exact .inr ⟨List.mem_map.mpr ⟨dead, List.mem_append_left _ among, rfl⟩, silent⟩

theorem use {t : TimerEntry κ} (ledger : Ledger loop f (t :: hand) used revoked) {next : EventLoop κ τ}
    (counter : next.timerIdCounter = loop.timerIdCounter) (timers : next.timers = loop.timers)
    (adding : next.adding = loop.adding) : Ledger next f hand (used ++ [f t.id]) revoked := by
  have parted (entries : List (TimerEntry κ)) : (entries ++ (t :: hand ++ loop.adding)).Perm
      (t :: (entries ++ (hand ++ loop.adding))) := List.perm_middle
  have alive : t ∈ loop.carriers (t :: hand) := (parted _).mem_iff.mpr List.mem_cons_self
  have still : next.carriers hand ⊆ loop.carriers (t :: hand) := by
    rw [carriers, timers, adding]
    exact fun _ member => (parted _).mem_iff.mpr (List.mem_cons_of_mem _ member)
  have one : (keys f (loop.held (t :: hand))).Perm (f t.id :: keys f (next.held hand)) := by
    rw [held, held, timers, adding]
    exact (parted loop.timers).map _
  unfold Ledger
  rw [counter]
  exact Tickets.use ledger one (List.mem_map_of_mem alive) (List.map_subset _ still)

theorem issue {t : TimerEntry κ} (ledger : Ledger loop f hand used revoked) {next : EventLoop κ τ}
    (counter : next.timerIdCounter = loop.timerIdCounter + 1) (timers : next.timers = loop.timers)
    (adding : next.adding = loop.adding) (fresh : f t.id = loop.timerIdCounter + 1) :
    Ledger next f (t :: hand) used revoked := by
  have parted (entries : List (TimerEntry κ)) : (keys f (entries ++ (t :: hand ++ loop.adding))).Perm
      ((loop.timerIdCounter + 1) :: keys f (entries ++ (hand ++ loop.adding))) := by
    rw [← fresh]
    exact List.perm_middle.map _
  unfold Ledger
  rw [counter, held, carriers, timers, adding]
  exact Tickets.issue ledger (parted loop.timers) (parted (live loop.timers)).subset

end Ledger

/-! ## What the log says -/

def invocations (log : List (LoopRecord κ)) : List (TimerEntry κ) :=
  log.filterMap fun
    | .invoked t _ _ => some t
    | _ => none

def restorations (log : List (LoopRecord κ)) : List (TimerEntry κ) :=
  log.filterMap fun
    | .restored t _ _ => some t
    | _ => none

def cancels (log : List (LoopRecord κ)) : List (Int × Int) :=
  log.filterMap fun
    | .cancelled id root true => some (id, root)
    | _ => none

theorem invocations_append (log more : List (LoopRecord κ)) :
    invocations (log ++ more) = invocations log ++ invocations more :=
  List.filterMap_append

theorem restorations_append (log more : List (LoopRecord κ)) :
    restorations (log ++ more) = restorations log ++ restorations more :=
  List.filterMap_append

theorem cancels_append (log more : List (LoopRecord κ)) : cancels (log ++ more) = cancels log ++ cancels more :=
  List.filterMap_append

theorem cancels_concat {α : Type} (f : Int × Int → α) (log : List (LoopRecord κ)) (id root : Int) {found : Bool} {key : α}
    (member : key ∈ (cancels (log ++ [.cancelled id root found])).map f) :
    key ∈ (cancels log).map f ∨ (found = true ∧ key = f (id, root)) := by
  rw [cancels_append, List.map_append] at member
  apply (List.mem_append.mp member).imp_right
  intro new
  cases found with
  | true => exact ⟨rfl, List.mem_singleton.mp new⟩
  | false => exact absurd new List.not_mem_nil

structure Tracked (loop : EventLoop κ τ) : Prop where
  ids : Ledger loop (fun id => id) loop.phase.hand ((invocations loop.log).map TimerItem.id)
    (· ∈ (cancels loop.log).map Prod.fst)
  roots : Ledger loop loop.registration loop.phase.away [] (· ∈ (cancels loop.log).map Prod.snd)
  unrooted : ∀ id, loop.timerIdCounter < id → loop.registration id = id

theorem initial_tracked : Tracked ({} : EventLoop κ τ) where
  ids := Tickets.none_issued.revoke fun _ member => absurd member List.not_mem_nil
  roots := Tickets.none_issued.revoke fun _ member => absurd member List.not_mem_nil
  unrooted _ _ := rfl

theorem Tracked.move {loop next : EventLoop κ τ} (tracked : Tracked loop)
    (counter : next.timerIdCounter = loop.timerIdCounter) (timers : next.timers = loop.timers)
    (adding : next.adding = loop.adding) (registration : next.registration = loop.registration)
    (log : next.log = loop.log) (hand : next.phase.hand.Sublist loop.phase.hand)
    (away : next.phase.away.Sublist loop.phase.away) : Tracked next where
  ids := by
    rw [log]
    exact tracked.ids.move counter timers adding hand
  roots := by
    rw [log, registration]
    exact tracked.roots.move counter timers adding away
  unrooted := by
    rw [counter, registration]
    exact tracked.unrooted

theorem Tracked.add {loop : EventLoop κ τ} (tracked : Tracked loop) {entry : TimerEntry κ}
    (fresh : entry.id = loop.timerIdCounter + 1) : Tracked (loop.afterAdd entry) where
  ids := tracked.ids.add fresh
  roots := by
    apply tracked.roots.add
    rw [fresh]
    exact tracked.unrooted _ (Int.lt_succ _)
  unrooted id above := tracked.unrooted id (Int.lt_trans (Int.lt_succ _) above)

theorem Tracked.cancel {loop : EventLoop κ τ} (tracked : Tracked loop) (id : Int) :
    Tracked (loop.cancelTimer id).2 := by
  have calls : invocations (loop.cancelTimer id).2.log = invocations loop.log :=
    (invocations_append ..).trans (List.append_nil _)
  refine ⟨?_, ?_, tracked.unrooted⟩
  · rw [calls]
    exact tracked.ids.cancel fun _ gone => cancels_concat Prod.fst loop.log id _ gone
  · exact tracked.roots.cancel fun _ gone => cancels_concat Prod.snd loop.log id _ gone

theorem Tracked.extract {loop : EventLoop κ τ} (tracked : Tracked loop) {now : Int} {left fired : List (TimerEntry κ)}
    (phase : loop.phase = .locking now) (extraction : Extraction now loop.timers left fired) :
    Tracked (loop.afterExtract now left fired) := by
  obtain ⟨ids, roots, unrooted⟩ := tracked
  rw [phase] at ids roots
  exact ⟨ids.extract extraction, roots.extract extraction, unrooted⟩

theorem Tracked.visit {loop : EventLoop κ τ} (tracked : Tracked loop) {now : Int} {t : TimerEntry κ}
    {fired : List (TimerEntry κ)} (phase : loop.phase = .firing now (t :: fired))
    (due : Due loop.clock now (t :: fired)) : Tracked (loop.visit now t fired) := by
  obtain ⟨ids, roots, unrooted⟩ := tracked
  rw [phase] at ids roots
  rw [visit_eq due]
  have gone : cancels (loop.log ++ [.invoked t (loop.registration t.id) loop.clock]) = cancels loop.log :=
    (cancels_append ..).trans (List.append_nil _)
  refine ⟨?_, ?_, unrooted⟩
  · rw [gone, invocations_append, List.map_append]
    exact Ledger.use ids rfl rfl rfl
  · rw [gone]
    exact Ledger.move roots rfl rfl rfl (.refl _)

theorem Tracked.renew {loop : EventLoop κ τ} (tracked : Tracked loop) {now : Int} {t : TimerEntry κ}
    {fired : List (TimerEntry κ)} (phase : loop.phase = .rearming now t fired) :
    Tracked (loop.renew now t fired) := by
  obtain ⟨ids, roots, unrooted⟩ := tracked
  rw [phase] at ids roots
  have old (u : TimerEntry κ) (member : u ∈ loop.held fired) :
      (loop.renew now t fired).registration u.id = loop.registration u.id := by
    have known : u.id ≤ loop.timerIdCounter := ids.known u.id (List.mem_map_of_mem member)
    exact Function.update_of_ne (by omega) _ _
  have new : (loop.renew now t fired).registration (loop.timerIdCounter + 1) = loop.registration t.id :=
    Function.update_self ..
  have same (entries : List (TimerEntry κ)) (among : entries ⊆ loop.timers) :
      keys (loop.renew now t fired).registration
          (entries ++ ((loop.renew now t fired).phase.away ++ (loop.renew now t fired).adding)) =
        keys loop.registration (entries ++ (t :: fired ++ loop.adding)) := by
    have first : keys (loop.renew now t fired).registration entries = keys loop.registration entries :=
      List.map_congr_left fun u member => old u (List.mem_append_left _ (among member))
    have rest : keys (loop.renew now t fired).registration (fired ++ loop.adding) =
        keys loop.registration (fired ++ loop.adding) :=
      List.map_congr_left fun u member => old u (List.mem_append_right _ member)
    rw [keys_append _ entries, keys_append _ entries, first]
    exact congrArg (keys loop.registration entries ++ ·) (congrArg₂ List.cons new rest)
  refine ⟨ids.issue rfl rfl rfl rfl, ?_, ?_⟩
  · change Tickets (loop.timerIdCounter + 1) (keys _ (loop.timers ++ _)) (keys _ (live loop.timers ++ _)) _ _
    rw [same loop.timers (List.Subset.refl _), same (live loop.timers) List.filter_sublist.subset]
    exact Tickets.raise roots
  · intro id above
    have before : loop.timerIdCounter < id := Int.lt_trans (Int.lt_succ _) above
    exact (Function.update_of_ne (Int.ne_of_gt above) _ _).trans (unrooted id before)

theorem Tracked.restore {loop : EventLoop κ τ} (tracked : Tracked loop) {now : Int} {t nt : TimerEntry κ}
    {fired : List (TimerEntry κ)} (phase : loop.phase = .restoring now t nt fired)
    (ordered : IsMinHeap TimerItem.expireAt loop.timers) : Tracked (loop.restore heap now t nt fired) := by
  obtain ⟨ids, roots, unrooted⟩ := tracked
  rw [phase] at ids roots
  have calls : invocations (loop.restore heap now t nt fired).log = invocations loop.log :=
    (invocations_append ..).trans (List.append_nil _)
  have gone : cancels (loop.restore heap now t nt fired).log = cancels loop.log :=
    (cancels_append ..).trans (List.append_nil _)
  refine ⟨?_, ?_, unrooted⟩
  · rw [calls, gone]
    exact Ledger.restore heap ids ordered
  · rw [gone]
    exact Ledger.restore heap roots ordered

theorem step_tracked {loop next : EventLoop κ τ} {action : Action κ τ} (stepped : loop.step heap action = some next)
    (kept : Kept loop) (tracked : Tracked loop) : Tracked next := by
  cases step_effect heap stepped with
  | quiet later moves => exact tracked.move rfl rfl rfl rfl rfl moves.hand moves.away
  | add fresh => exact tracked.add fresh
  | insert here =>
      exact ⟨tracked.ids.insert heap kept.ordered here, tracked.roots.insert heap kept.ordered here, tracked.unrooted⟩
  | cancel id => exact tracked.cancel id
  | extract phase taken => exact tracked.extract phase (extract_extraction heap kept.ordered taken)
  | visit phase =>
      have due := kept.ready
      rw [phase] at due
      exact tracked.visit phase due
  | renew phase => exact tracked.renew phase
  | restore phase => exact tracked.restore heap phase kept.ordered
  | push => exact tracked.move rfl rfl rfl rfl rfl (.refl _) (.refl _)
  | take =>
      unfold processTasks
      split <;> exact tracked.move rfl rfl rfl rfl rfl (List.nil_sublist _) (List.nil_sublist _)
  | execute => exact tracked.move rfl rfl rfl rfl rfl (List.nil_sublist _) (List.nil_sublist _)

/-! ## Once, in time, not after a cancel, and back in the heap -/

def Heeded (earlier later : LoopRecord κ) : Prop :=
  ∀ id root t root' clock, earlier = .cancelled id root true → later = .invoked t root' clock → t.id ≠ id ∧ root' ≠ root

/-- No entry runs twice or early, none runs behind a cancel of its timer, and each repeating entry that ran has one
successor, the last maybe not yet. -/
structure TimersSafe (loop : EventLoop κ τ) : Prop where
  once : ((invocations loop.log).map TimerItem.id).Nodup
  timely : ∀ t root clock, .invoked t root clock ∈ loop.log → t.expireAt ≤ clock
  heeded : loop.log.Pairwise Heeded
  restored : (invocations loop.log).filter TimerItem.isRepeating = restorations loop.log ++ loop.phase.owed
  copied : ∀ t nt now, .restored t nt now ∈ loop.log → Successor now t nt

theorem initial_safe : TimersSafe ({} : EventLoop κ τ) where
  once := .nil
  timely _ _ _ member := absurd member List.not_mem_nil
  heeded := .nil
  restored := rfl
  copied _ _ _ member := absurd member List.not_mem_nil

theorem TimersSafe.move {loop next : EventLoop κ τ} (safe : TimersSafe loop) (log : next.log = loop.log)
    (owed : next.phase.owed = loop.phase.owed) : TimersSafe next := by
  obtain ⟨once, timely, heeded, restored, copied⟩ := safe
  rw [← log] at once timely heeded restored copied
  rw [← owed] at restored
  exact ⟨once, timely, heeded, restored, copied⟩

theorem TimersSafe.record {loop next : EventLoop κ τ} (safe : TimersSafe loop) {record : LoopRecord κ}
    (log : next.log = loop.log ++ [record])
    (fresh : ∀ t ∈ invocations [record], t.id ∉ (invocations loop.log).map TimerItem.id)
    (timely : ∀ t root clock, record = .invoked t root clock → t.expireAt ≤ clock)
    (heeded : ∀ earlier ∈ loop.log, Heeded earlier record)
    (balance : loop.phase.owed ++ (invocations [record]).filter TimerItem.isRepeating =
      restorations [record] ++ next.phase.owed)
    (copied : ∀ t nt now, record = .restored t nt now → Successor now t nt) : TimersSafe next := by
  have single : ((invocations [record]).map TimerItem.id).Nodup := by
    cases record <;> simp [invocations]
  constructor
  · rw [log, invocations_append, List.map_append]
    refine List.nodup_append.mpr ⟨safe.once, single, ?_⟩
    rintro id old _ new rfl
    obtain ⟨t, member, rfl⟩ := List.mem_map.mp new
    exact fresh t member old
  · intro t root clock member
    rw [log] at member
    rcases List.mem_append.mp member with old | new
    · exact safe.timely t root clock old
    · exact timely t root clock (List.mem_singleton.mp new).symm
  · rw [log]
    refine List.pairwise_append.mpr ⟨safe.heeded, List.pairwise_singleton _ _, ?_⟩
    intro earlier member later new
    rw [List.mem_singleton.mp new]
    exact heeded earlier member
  · rw [log, invocations_append, restorations_append, List.filter_append, safe.restored, List.append_assoc, balance,
      ← List.append_assoc]
  · intro t nt now member
    rw [log] at member
    rcases List.mem_append.mp member with old | new
    · exact safe.copied t nt now old
    · exact copied t nt now (List.mem_singleton.mp new).symm

theorem TimersSafe.cancel {loop : EventLoop κ τ} (safe : TimersSafe loop) (id : Int) :
    TimersSafe (loop.cancelTimer id).2 := by
  refine safe.record rfl ?_ nofun ?_ (List.append_nil _) ?_
  · exact fun t member => absurd member List.not_mem_nil
  · exact fun _ _ _ _ _ _ _ _ same => nomatch same
  · exact fun _ _ _ same => nomatch same

theorem mem_cancels {log : List (LoopRecord κ)} {id root : Int} (member : .cancelled id root true ∈ log) :
    (id, root) ∈ cancels log :=
  List.mem_filterMap.mpr ⟨_, member, rfl⟩

theorem TimersSafe.visit {loop : EventLoop κ τ} (safe : TimersSafe loop) (tracked : Tracked loop) {now : Int}
    {t : TimerEntry κ} {fired : List (TimerEntry κ)} (phase : loop.phase = .firing now (t :: fired))
    (due : Due loop.clock now (t :: fired)) : TimersSafe (loop.visit now t fired) := by
  obtain ⟨ids, roots, -⟩ := tracked
  rw [phase] at ids roots
  have here (entries : List (TimerEntry κ)) : t ∈ entries ++ (t :: fired ++ loop.adding) :=
    List.mem_append_right _ List.mem_cons_self
  rw [visit_eq due]
  refine safe.record rfl ?_ ?_ ?_ (by rw [phase]; rfl) (fun _ _ _ same => nomatch same)
  · intro u single ran
    rw [List.mem_singleton.mp single] at ran
    exact (ids.spent t.id ran).2 (List.mem_map_of_mem (here loop.timers))
  · rintro _ _ _ ⟨⟩
    exact Int.le_trans (due.expired t List.mem_cons_self) due.reached
  · rintro _ member id root _ _ _ rfl ⟨⟩
    have cancelled := mem_cancels member
    constructor
    · rintro rfl
      exact (ids.silent _ (List.mem_map_of_mem cancelled)).2.2 (List.mem_map_of_mem (here _))
    · rintro rfl
      exact (roots.silent _ (List.mem_map_of_mem cancelled)).2.2 (List.mem_map_of_mem (here _))

theorem TimersSafe.restore {loop : EventLoop κ τ} (safe : TimersSafe loop) {now : Int} {t nt : TimerEntry κ}
    {fired : List (TimerEntry κ)} (phase : loop.phase = .restoring now t nt fired) (successor : Successor now t nt) :
    TimersSafe (loop.restore heap now t nt fired) := by
  refine safe.record rfl ?_ nofun ?_ (by rw [phase]; rfl) ?_
  · exact fun t member => absurd member List.not_mem_nil
  · exact fun _ _ _ _ _ _ _ _ same => nomatch same
  · rintro _ _ _ ⟨⟩
    exact successor

theorem step_safe {loop next : EventLoop κ τ} {action : Action κ τ} (stepped : loop.step heap action = some next)
    (kept : Kept loop) (tracked : Tracked loop) (safe : TimersSafe loop) : TimersSafe next := by
  have ready := kept.ready
  cases step_effect heap stepped with
  | quiet later moves => exact safe.move rfl moves.owed
  | add => exact safe.move rfl rfl
  | insert => exact safe.move rfl rfl
  | cancel id => exact safe.cancel id
  | extract phase => exact safe.move rfl (by rw [phase]; rfl)
  | visit phase =>
      rw [phase] at ready
      exact safe.visit tracked phase ready
  | @renew now t fired phase repeating =>
      refine safe.move rfl ?_
      have again : t.isRepeating = true := by simpa [TimerItem.isRepeating] using repeating
      rw [phase]
      exact (List.filter_cons_of_pos (l := []) again).symm
  | restore phase =>
      rw [phase] at ready
      exact safe.restore heap phase ready.2
  | push => exact safe.move rfl rfl
  | take phase =>
      unfold processTasks
      split <;> exact safe.move rfl (by rw [phase]; rfl)
  | execute phase => exact safe.move rfl (by rw [phase]; rfl)

/-! ## Whole runs -/

theorem run_sound {actions : List (Action κ τ)} {loop : EventLoop κ τ}
    (ran : exec (step heap) {} actions = some loop) : Kept loop ∧ Tracked loop ∧ TimersSafe loop := by
  refine exec_invariant (P := fun loop => Kept loop ∧ Tracked loop ∧ TimersSafe loop) ?_ ran ?_
  · rintro before action after stepped ⟨kept, tracked, safe⟩
    exact ⟨step_kept heap stepped kept, step_tracked heap stepped kept tracked, step_safe heap stepped kept tracked safe⟩
  · exact ⟨initial_kept, initial_tracked, initial_safe⟩

theorem timers_safe (actions : List (Action κ τ)) (loop : EventLoop κ τ)
    (ran : exec (step heap) {} actions = some loop) :
    IsMinHeap TimerItem.expireAt loop.timers ∧
    (∀ front ∈ loop.timers.head?, ∀ t ∈ loop.timers, front.expireAt ≤ t.expireAt) ∧ TimersSafe loop ∧
    ((loop.held loop.phase.away).map fun t => loop.registration t.id).Nodup ∧
    ∀ now t nt fired, loop.phase = .restoring now t nt fired → ∃ next, loop.step heap .restore = some next ∧
      next.timers.Perm (nt :: loop.timers) ∧ next.log = loop.log ++ [.restored t nt now] := by
  obtain ⟨kept, tracked, safe⟩ := run_sound heap ran
  refine ⟨kept.ordered, ?_, safe, tracked.roots.unique, ?_⟩
  · intro front first t member
    obtain ⟨rest, split⟩ := List.head?_eq_some_iff.mp first
    have ordered := kept.ordered
    rw [split] at ordered member
    exact ordered.front_le t member
  · intro now t nt fired phase
    refine ⟨loop.restore heap now t nt fired, by simp only [step, phase], ?_, rfl⟩
    exact (heap.push_perm _ nt kept.ordered).trans (List.perm_append_singleton nt loop.timers)

theorem timers_safe_throwing_callback :
    ∃ loop : EventLoop Nat Nat, exec (step (sifting TimerItem.expireAt)) {}
        [.addTimer 0 10 (some 1) 10, .insert 0, .addTimer 0 15 (some 2) 0, .insert 0, .cancelTimer 2, .tick 20,
          .processTasks, .readTick, .extract, .visit, .addTimer 20 5 (some 3) 0, .insert 0,
          .endCallback .stdException, .rearm, .restore, .visit, .poll] = some loop ∧
      loop.log = [.cancelled 2 2 true, .invoked ⟨1, 10, 10, some 1, false⟩ 1 20,
        .restored ⟨1, 10, 10, some 1, false⟩ ⟨4, 30, 10, some 1, false⟩ 20] ∧
      loop.timers.map TimerItem.id = [3, 4] ∧ IsMinHeap TimerItem.expireAt loop.timers ∧ TimersSafe loop := by
  have result : (exec (step (sifting (@TimerItem.expireAt Nat))) ({} : EventLoop Nat Nat)
      [.addTimer 0 10 (some 1) 10, .insert 0, .addTimer 0 15 (some 2) 0, .insert 0, .cancelTimer 2, .tick 20,
        .processTasks, .readTick, .extract, .visit, .addTimer 20 5 (some 3) 0, .insert 0,
        .endCallback .stdException, .rearm, .restore, .visit, .poll]).map
      (fun loop => (loop.log, loop.timers.map TimerItem.id)) =
        some ([.cancelled 2 2 true, .invoked ⟨1, 10, 10, some 1, false⟩ 1 20,
          .restored ⟨1, 10, 10, some 1, false⟩ ⟨4, 30, 10, some 1, false⟩ 20], [3, 4]) := by
    decide +kernel
  obtain ⟨loop, ran, same⟩ := Option.map_eq_some_iff.mp result
  obtain ⟨log, ids⟩ := Prod.mk.inj same
  obtain ⟨ordered, -, safe, -, -⟩ := timers_safe (sifting TimerItem.expireAt) _ loop ran
  exact ⟨loop, ran, log, ids, ordered, safe⟩

end EventLoop

end ServerFramework.Base
