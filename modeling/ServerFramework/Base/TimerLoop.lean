import ServerFramework.Base.Timer

namespace ServerFramework.Base
open Library Library.Heap

/-- Where `thread_loop` stands; `running` has the rest of `fired`, the first of them comes next, and `rearming` is
between the callback of an item and its way back into the heap. `nt` is the new item: `storing` has loaded `next_id`
for it, `pushing` has stored it. -/
inductive LoopPhase (κ : Type)
  | idle
  | merging
  | resting
  | firing
  | running (fired : List (TimerItem κ))
  | rearming (t : TimerItem κ) (fired : List (TimerItem κ))
  | storing (nt : TimerItem κ) (fired : List (TimerItem κ))
  | pushing (nt : TimerItem κ) (fired : List (TimerItem κ))
  deriving DecidableEq, Repr

-- `timely`: `add` had returned the id and its item had not been taken out for firing.
structure CancelCall where
  id : Int
  timely : Bool
  result : Bool
  deriving DecidableEq, Repr

-- `loading` has the items of the calls of `add_impl` that have loaded `next_id`, a plain `int64_t`, and not stored it
-- yet, `adding` those of the calls that wait for `pending_mtx`. The last four fields only record: the results of `add`,
-- the ids whose items left the heap, the calls of `cancel` and the callbacks that ran.
structure TimerLoop (κ : Type) where
  running : Bool := false
  phase : LoopPhase κ := .idle
  items : List (TimerItem κ) := []
  nextId : Int := 0
  pendingAdd : List (TimerItem κ) := []
  loading : List (TimerItem κ) := []
  adding : List (TimerItem κ) := []
  sleepMs : Int := 0
  returned : List Int := []
  extracted : List Int := []
  cancels : List CancelCall := []
  invoked : List Int := []
  deriving DecidableEq, Repr

namespace TimerLoop

inductive Action (κ : Type)
  | start
  | stop
  | add (now afterMs : Int) (cb : Option κ)
  | addRepeating (now intervalMs : Int) (cb : Option κ)
  | store (i : Nat)
  | queue (i : Nat)
  | cancel (id : Int)
  | merge
  | rest (now : Int)
  | fire (now2 : Int)
  | invoke
  | rearm (now3 : Int)
  | storeRearm
  | pushRearm

variable {κ : Type} (heap : HeapAlgorithms (@TimerItem.expireAt κ))

def start (loop : TimerLoop κ) : Option (TimerLoop κ) :=
  if loop.running then some loop
  else match loop.phase with
    | .idle => some { loop with running := true, phase := .merging }
    | _ => none

/-- `add_impl` up to the load in `++next_id`, which overflows at the bound. -/
def addImpl (loop : TimerLoop κ) (now afterMs : Int) (cb : Option κ) (intervalMs : Int) : Option (TimerLoop κ) :=
  if loop.nextId + 1 < 2 ^ 63 then
    some { loop with
      loading := loop.loading ++ [⟨loop.nextId + 1, int64 (now + afterMs), intervalMs, cb, false⟩] }
  else none

/-- The store of `++next_id`. -/
def store (loop : TimerLoop κ) (i : Nat) (item : TimerItem κ) : TimerLoop κ :=
  { loop with
    nextId := item.id
    loading := loop.loading.eraseIdx i
    adding := loop.adding ++ [item] }

def queue (loop : TimerLoop κ) (i : Nat) (item : TimerItem κ) : TimerLoop κ :=
  { loop with
    adding := loop.adding.eraseIdx i
    pendingAdd := loop.pendingAdd ++ [item]
    returned := loop.returned ++ [item.id] }

def cancel (loop : TimerLoop κ) (id : Int) : TimerLoop κ :=
  let (found, items) := Timer.cancelItem id loop.items
  { loop with
    items := items
    cancels := loop.cancels ++ [⟨id, id ∈ loop.returned ∧ id ∉ loop.extracted, found⟩] }

/-- One `push_heap` for all that came in. -/
def merge (loop : TimerLoop κ) : TimerLoop κ :=
  if loop.running then
    if loop.pendingAdd = [] then { loop with phase := .resting }
    else { loop with
      items := heap.pushHeap (loop.items ++ loop.pendingAdd)
      pendingAdd := []
      phase := .resting }
  else { loop with phase := .idle }

def sleepFor (items : List (TimerItem κ)) (now : Int) : Int :=
  let wanted := match items with
    | [] => 100
    | front :: _ => max 1 (int64 (front.expireAt - now))
  max (min wanted 500) 1

def missing (items left : List (TimerItem κ)) : List Int :=
  (items.filter fun item => left.all fun other => other.id ≠ item.id).map TimerItem.id

def afterFire (loop : TimerLoop κ) (left fired : List (TimerItem κ)) : TimerLoop κ :=
  { loop with
    items := left
    phase := .running fired
    extracted := loop.extracted ++ missing loop.items left }

def afterInvoke (loop : TimerLoop κ) (t : TimerItem κ) (fired : List (TimerItem κ)) : TimerLoop κ :=
  { loop with
    phase := .rearming t fired
    invoked := if t.callback.isSome then loop.invoked ++ [t.id] else loop.invoked }

def nt (loop : TimerLoop κ) (now3 : Int) (t : TimerItem κ) : TimerItem κ :=
  ⟨loop.nextId + 1, int64 (now3 + t.intervalMs), t.intervalMs, t.callback, false⟩

def afterRearm (loop : TimerLoop κ) (now3 : Int) (t : TimerItem κ) (fired : List (TimerItem κ)) : TimerLoop κ :=
  { loop with phase := .storing (loop.nt now3 t) fired }

def afterStore (loop : TimerLoop κ) (nt : TimerItem κ) (fired : List (TimerItem κ)) : TimerLoop κ :=
  { loop with nextId := nt.id, phase := .pushing nt fired }

def afterPush (loop : TimerLoop κ) (nt : TimerItem κ) (fired : List (TimerItem κ)) : TimerLoop κ :=
  { loop with items := heap.pushHeap (loop.items ++ [nt]), phase := .running fired }

def step (loop : TimerLoop κ) : Action κ → Option (TimerLoop κ)
  | .start => loop.start
  | .stop => some { loop with running := false }
  | .add now afterMs cb => loop.addImpl now afterMs cb 0
  | .addRepeating now intervalMs cb => loop.addImpl now intervalMs cb intervalMs
  | .store i => loop.loading[i]?.map (loop.store i)
  | .queue i => loop.adding[i]?.map (loop.queue i)
  | .cancel id => some (loop.cancel id)
  | .merge => match loop.phase with
      | .merging => some (loop.merge heap)
      | _ => none
  | .rest now => match loop.phase with
      | .resting => some { loop with phase := .firing, sleepMs := sleepFor loop.items now }
      | _ => none
  | .fire now2 => match loop.phase with
      | .firing => (Timer.extract heap now2 loop.items).map fun (left, fired) => loop.afterFire left fired
      | _ => none
  | .invoke => match loop.phase with
      | .running [] => some { loop with phase := .merging }
      | .running (t :: fired) =>
          if t.cancelled then some { loop with phase := .running fired } else some (loop.afterInvoke t fired)
      | _ => none
  | .rearm now3 => match loop.phase with
      | .rearming t fired =>
          if t.intervalMs > 0 then
            if loop.nextId + 1 < 2 ^ 63 then some (loop.afterRearm now3 t fired) else none
          else some { loop with phase := .running fired }
      | _ => none
  | .storeRearm => match loop.phase with
      | .storing nt fired => some (loop.afterStore nt fired)
      | _ => none
  | .pushRearm => match loop.phase with
      | .pushing nt fired => some (loop.afterPush heap nt fired)
      | _ => none

end TimerLoop

end ServerFramework.Base
