import ServerFramework.Library.Draining

namespace ServerFramework.Library

/-- A loop that a thread goes round while a flag is set. The thread's `own` steps end the loop only where they find the
flag down; what others do around it neither moves the thread nor looks at the flag. -/
structure LoopThread (σ α : Type*) where
  step : σ → α → Option σ
  own : α → Bool
  flag : σ → Bool
  setFlag : Bool → σ → σ
  alive : σ → Bool
  launch : σ → σ
  flag_setFlag : ∀ b s, flag (setFlag b s) = b
  setFlag_setFlag : ∀ b c s, setFlag b (setFlag c s) = setFlag b s
  setFlag_flag : ∀ s, setFlag (flag s) s = s
  alive_setFlag : ∀ b s, alive (setFlag b s) = alive s
  flag_launch : ∀ s, flag (launch s) = flag s
  alive_launch : ∀ s, alive (launch s) = true
  flag_step : ∀ s a t, step s a = some t → flag t = flag s
  own_alive : ∀ s a t, step s a = some t → own a = true → alive s = true
  own_ends : ∀ s a t, step s a = some t → own a = true → alive t = false → flag s = false
  other_alive : ∀ s a t, step s a = some t → own a = false → alive t = alive s
  other_flag : ∀ b s a t, step s a = some t → own a = false → step (setFlag b s) a = some (setFlag b t)

/-- Where a call of `start` or `stop` stands: at the test of the flag, at its store, and then at the creation of the
thread or at `joinable` and `join`. -/
inductive Control
  | starting
  | raising
  | spawning
  | stopping
  | lowering
  | testing
  | joining
  deriving DecidableEq, Repr

-- `broken`: a thread was assigned to a handle that had one, or joined through a handle that had none.
structure Background (σ : Type*) where
  body : σ
  joinable : Bool := false
  calls : List Control := []
  broken : Bool := false
  deriving DecidableEq, Repr

def Control.rises : Control → Bool
  | .starting | .raising | .spawning => true
  | .stopping | .lowering | .testing | .joining => false

namespace Background

inductive Action (α : Type*)
  | start
  | stop
  | advance (i : Nat) (ok : Bool)
  | body (a : α)
  deriving DecidableEq, Repr

variable {σ α : Type*}

def begin (s : Background σ) (call : Control) : Background σ := { s with calls := s.calls ++ [call] }

def put (s : Background σ) (i : Nat) : Option Control → Background σ
  | none => { s with calls := s.calls.eraseIdx i }
  | some call => { s with calls := s.calls.set i call }

end Background

namespace LoopThread

variable {σ α : Type*} (thread : LoopThread σ α)

open Background (Action)

/-- The creation of a thread can fail; the exception then leaves `start`. -/
def proceed (s : Background σ) (ok : Bool) : Control → Option (Background σ × Option Control)
  | .starting => some (s, if thread.flag s.body then none else some .raising)
  | .raising => some ({ s with body := thread.setFlag true s.body }, some .spawning)
  | .spawning =>
      if !ok then some (s, none)
      else if s.joinable then some ({ s with broken := true }, none)
      else some ({ s with body := thread.launch s.body, joinable := true }, none)
  | .stopping => some (s, if thread.flag s.body then some .lowering else none)
  | .lowering => some ({ s with body := thread.setFlag false s.body }, some .testing)
  | .testing => some (s, if s.joinable then some .joining else none)
  | .joining =>
      if thread.alive s.body then none
      else if s.joinable then some ({ s with joinable := false }, none)
      else some ({ s with broken := true }, none)

def control (s : Background σ) (action : Action α) : Option (Background σ) :=
  if s.broken then none
  else match action with
    | .start => some (s.begin .starting)
    | .stop => some (s.begin .stopping)
    | .advance i ok => s.calls[i]?.bind fun call => (thread.proceed s ok call).map fun (t, next) => t.put i next
    | .body a => (thread.step s.body a).map fun body => { s with body := body }

/-- The calls of `start` and `stop` do not overlap. -/
def Alone (s : Background σ) : Action α → Prop
  | .start | .stop => s.calls = []
  | .advance _ _ | .body _ => True

instance (s : Background σ) : ∀ action : Action α, Decidable (Alone s action)
  | .start | .stop => inferInstanceAs (Decidable (s.calls = []))
  | .advance _ _ | .body _ => isTrue trivial

/-! ## One call at a time -/

def Settled (s : Background σ) : Prop :=
  s.joinable = thread.alive s.body ∧ (thread.alive s.body = true → thread.flag s.body = true)

/-- What the flag, the thread and its handle are while a call stands there. -/
def Fits (s : Background σ) : Control → Prop
  | .starting | .stopping => thread.Settled s
  | .raising => thread.flag s.body = false ∧ thread.alive s.body = false ∧ s.joinable = false
  | .spawning => thread.flag s.body = true ∧ thread.alive s.body = false ∧ s.joinable = false
  | .lowering => thread.flag s.body = true ∧ s.joinable = thread.alive s.body
  | .testing => thread.flag s.body = false ∧ (thread.alive s.body = true → s.joinable = true)
  | .joining => thread.flag s.body = false ∧ s.joinable = true

/-- At most one call is under way, and it finds what it needs. -/
inductive Orderly (s : Background σ) : Prop
  | resting (whole : s.broken = false) (none : s.calls = []) (settled : thread.Settled s)
  | calling (whole : s.broken = false) {call : Control} (one : s.calls = [call]) (fits : thread.Fits s call)

/-- The loop where its thread is created and the flag raised in one step. -/
def view (s : Background σ) : σ := if thread.alive s.body then s.body else thread.setFlag false s.body

/-- The loop with `start` and `stop` as one step each. -/
inductive Once (s : σ) : σ → Prop
  | start (down : thread.flag s = false) (gone : thread.alive s = false) :
      Once s (thread.launch (thread.setFlag true s))
  | stop : Once s (thread.setFlag false s)
  | body {a : α} {t : σ} (stepped : thread.step s a = some t) : Once s t

/-- No call under way will raise the flag again. -/
structure Lowered (s : Background σ) : Prop where
  flag : thread.flag s.body = false
  stops : ∀ call ∈ s.calls, call.rises = false

/-- With the flag down the thread is soon through: it is never stuck inside the loop, and each of its steps brings it
nearer to the end. -/
structure Winds (I : σ → Prop) (measure : σ → Nat) : Prop where
  keeps : ∀ s a t, thread.step s a = some t → thread.own a = true → thread.flag s = false → I s → I t
  less : ∀ s a t, thread.step s a = some t → thread.own a = true → thread.flag s = false → I s → measure t < measure s
  moves : ∀ s, thread.flag s = false → thread.alive s = true → I s → ∃ a, thread.own a = true ∧ thread.step s a ≠ none

/-- A call of `stop` has lowered the flag, or has just returned. -/
structure Winding (I : σ → Prop) (s : Background σ) : Prop where
  orderly : thread.Orderly s
  flag : thread.flag s.body = false
  calls : ∀ call ∈ s.calls, call = .testing ∨ call = .joining
  holds : I s.body

end LoopThread

/-- What a call still has to do once it has lowered the flag. -/
def Control.rank : Control → Nat
  | .testing => 2
  | .joining => 1
  | .starting | .raising | .spawning | .stopping | .lowering => 0

namespace LoopThread

variable {σ α : Type*} {thread : LoopThread σ α}

open Background (Action)

/-- Nothing new is called, and nobody but the thread does anything to the loop. -/
def quiet (thread : LoopThread σ α) : Action α → Bool
  | .start | .stop => false
  | .advance _ _ => true
  | .body a => thread.own a

theorem body_alive {s t : σ} {a : α} (stepped : thread.step s a = some t) :
    thread.alive t = thread.alive s ∨
      thread.alive s = true ∧ thread.alive t = false ∧ thread.flag s = false := by
  cases own : thread.own a with
  | false => exact .inl (thread.other_alive s a t stepped own)
  | true =>
      have before := thread.own_alive s a t stepped own
      cases after : thread.alive t with
      | true => exact .inl before.symm
      | false => exact .inr ⟨before, rfl, thread.own_ends s a t stepped own after⟩

theorem settled_body {s : Background σ} {body : σ} {a : α} (stepped : thread.step s.body a = some body)
    (settled : thread.Settled s) : thread.Settled { s with body := body } := by
  obtain ⟨handle, up⟩ := settled
  have same := thread.flag_step _ _ _ stepped
  rcases body_alive stepped with still | ⟨alive, -, down⟩
  · exact ⟨by rw [still]; exact handle, fun alive => by rw [same]; exact up (by rw [← still]; exact alive)⟩
  · rw [up alive] at down
    cases down

theorem fits_body {s : Background σ} {body : σ} {a : α} {call : Control} (stepped : thread.step s.body a = some body)
    (fits : thread.Fits s call) : thread.Fits { s with body := body } call := by
  have same := thread.flag_step _ _ _ stepped
  cases call with
  | starting | stopping => exact settled_body stepped fits
  | raising | spawning =>
      obtain ⟨flag, gone, handle⟩ := fits
      refine ⟨same.trans flag, ?_, handle⟩
      rcases body_alive stepped with still | ⟨-, ended, -⟩
      · exact still.trans gone
      · exact ended
  | lowering =>
      obtain ⟨flag, handle⟩ := fits
      refine ⟨same.trans flag, ?_⟩
      rcases body_alive stepped with still | ⟨-, -, down⟩
      · exact handle.trans still.symm
      · rw [flag] at down
        cases down
  | testing =>
      obtain ⟨flag, handle⟩ := fits
      refine ⟨same.trans flag, fun alive => handle ?_⟩
      rcases body_alive stepped with still | ⟨before, -, -⟩
      · exact still.symm.trans alive
      · exact before
  | joining => exact ⟨same.trans fits.1, fits.2⟩

/-- What a call does next when it finds what it needs. -/
inductive Progress (thread : LoopThread σ α) (s : Background σ) : Control → Background σ → Option Control → Prop
  | upAlready (up : thread.flag s.body = true) : Progress thread s .starting s none
  | start (down : thread.flag s.body = false) : Progress thread s .starting s (some .raising)
  | raise : Progress thread s .raising { s with body := thread.setFlag true s.body } (some .spawning)
  | fail : Progress thread s .spawning s none
  | spawn : Progress thread s .spawning { s with body := thread.launch s.body, joinable := true } none
  | downAlready (down : thread.flag s.body = false) : Progress thread s .stopping s none
  | stop (up : thread.flag s.body = true) : Progress thread s .stopping s (some .lowering)
  | lower : Progress thread s .lowering { s with body := thread.setFlag false s.body } (some .testing)
  | noThread (bare : s.joinable = false) : Progress thread s .testing s none
  | thread (handle : s.joinable = true) : Progress thread s .testing s (some .joining)
  | join (gone : thread.alive s.body = false) : Progress thread s .joining { s with joinable := false } none

theorem proceed_progress {s t : Background σ} {ok : Bool} {call : Control} {next : Option Control}
    (went : thread.proceed s ok call = some (t, next)) (fits : thread.Fits s call) : Progress thread s call t next := by
  cases call with
  | starting =>
      cases flag : thread.flag s.body <;> simp only [proceed, flag] at went <;> cases went
      · exact .start flag
      · exact .upAlready flag
  | raising =>
      cases went
      exact .raise
  | spawning =>
      cases ok <;> simp only [proceed, fits.2.2] at went <;> cases went
      · exact .fail
      · exact .spawn
  | stopping =>
      cases flag : thread.flag s.body <;> simp only [proceed, flag] at went <;> cases went
      · exact .downAlready flag
      · exact .stop flag
  | lowering =>
      cases went
      exact .lower
  | testing =>
      cases handle : s.joinable <;> simp only [proceed, handle] at went <;> cases went
      · exact .noThread handle
      · exact .thread handle
  | joining =>
      cases alive : thread.alive s.body <;> simp only [proceed, fits.2, alive] at went <;> cases went
      exact .join alive

theorem Progress.kept {s t : Background σ} {call : Control} {next : Option Control}
    (progress : Progress thread s call t next) : t.calls = s.calls ∧ t.broken = s.broken := by
  cases progress <;> exact ⟨rfl, rfl⟩

theorem Progress.fits {s t : Background σ} {call later : Control} (progress : Progress thread s call t (some later))
    (fits : thread.Fits s call) : thread.Fits t later := by
  cases progress with
  | start down =>
      have gone : thread.alive s.body = false := Bool.eq_false_iff.mpr fun alive => by simp [fits.2 alive] at down
      exact ⟨down, gone, fits.1.trans gone⟩
  | raise => exact ⟨thread.flag_setFlag _ _, (thread.alive_setFlag _ _).trans fits.2.1, fits.2.2⟩
  | stop up => exact ⟨up, fits.1⟩
  | lower =>
      refine ⟨thread.flag_setFlag _ _, fun alive => fits.2.trans ?_⟩
      exact (thread.alive_setFlag _ _).symm.trans alive
  | thread handle => exact ⟨fits.1, handle⟩

theorem Progress.settled {s t : Background σ} {call : Control} (progress : Progress thread s call t none)
    (fits : thread.Fits s call) : thread.Settled t := by
  cases progress with
  | upAlready | downAlready => exact fits
  | fail => exact ⟨fits.2.2.trans fits.2.1.symm, fun _ => fits.1⟩
  | spawn => exact ⟨(thread.alive_launch _).symm, fun _ => (thread.flag_launch _).trans fits.1⟩
  | noThread bare =>
      have gone : thread.alive s.body = false := Bool.eq_false_iff.mpr fun alive => by simp [fits.2 alive] at bare
      exact ⟨bare.trans gone.symm, fun alive => by simp [gone] at alive⟩
  | join gone => exact ⟨gone.symm, fun alive => by simp [gone] at alive⟩

/-! ## What a step can do -/

inductive Moves (thread : LoopThread σ α) (s : Background σ) : Action α → Background σ → Prop
  | start : Moves thread s .start (s.begin .starting)
  | stop : Moves thread s .stop (s.begin .stopping)
  | advance {i : Nat} {ok : Bool} {call : Control} {t : Background σ} {next : Option Control}
      (here : s.calls[i]? = some call) (went : thread.proceed s ok call = some (t, next)) :
      Moves thread s (.advance i ok) (t.put i next)
  | body {a : α} {body : σ} (stepped : thread.step s.body a = some body) :
      Moves thread s (.body a) { s with body := body }

theorem control_moves {s t : Background σ} {action : Action α} (stepped : thread.control s action = some t) :
    Moves thread s action t := by
  simp only [control, Option.ite_none_left_eq_some] at stepped
  obtain ⟨-, stepped⟩ := stepped
  cases action with
  | start =>
      cases stepped
      exact .start
  | stop =>
      cases stepped
      exact .stop
  | advance i ok =>
      obtain ⟨call, here, mapped⟩ := Option.bind_eq_some_iff.mp stepped
      obtain ⟨⟨u, next⟩, went, rfl⟩ := Option.map_eq_some_iff.mp mapped
      exact .advance here went
  | body a =>
      obtain ⟨body, worked, rfl⟩ := Option.map_eq_some_iff.mp stepped
      exact .body worked

theorem Orderly.whole {s : Background σ} (orderly : thread.Orderly s) : s.broken = false := by
  cases orderly <;> assumption

theorem Orderly.settled {s : Background σ} (orderly : thread.Orderly s) (none : s.calls = []) : thread.Settled s := by
  cases orderly with
  | resting whole none settled => exact settled
  | calling whole one => simp [none] at one

theorem Orderly.one {s : Background σ} (orderly : thread.Orderly s) {i : Nat} {call : Control}
    (here : s.calls[i]? = some call) : i = 0 ∧ s.calls = [call] ∧ thread.Fits s call := by
  cases orderly with
  | resting whole none => simp [none] at here
  | calling whole one fits =>
      rw [one, List.getElem?_singleton] at here
      split at here
      · cases here
        exact ⟨‹_›, one, fits⟩
      · cases here

theorem put_first {s : Background σ} {call : Control} (one : s.calls = [call]) (next : Option Control) :
    s.put 0 next = { s with calls := next.toList } := by
  cases next <;> simp [Background.put, one]

theorem control_orderly {s t : Background σ} {action : Action α} (stepped : thread.control s action = some t)
    (alone : Alone s action) (orderly : thread.Orderly s) : thread.Orderly t := by
  have whole := orderly.whole
  cases control_moves stepped with
  | start | stop =>
      exact .calling whole (congrArg (· ++ [_]) alone) (orderly.settled alone)
  | @advance i ok call t next here went =>
      obtain ⟨rfl, one, fits⟩ := orderly.one here
      have progress := proceed_progress went fits
      obtain ⟨calls, broken⟩ := progress.kept
      rw [put_first (calls.trans one)]
      cases next with
      | none => exact .resting (broken.trans whole) rfl (progress.settled fits)
      | some later => exact .calling (broken.trans whole) rfl (progress.fits fits)
  | body worked =>
      cases orderly with
      | resting _ none settled => exact .resting whole none (settled_body worked settled)
      | calling _ one fits => exact .calling whole one (fits_body worked fits)

theorem exec_orderly {s t : Background σ} {actions : List (Action α)} (run : exec thread.control s actions = some t)
    (alone : Respects Alone thread.control s actions) (orderly : thread.Orderly s) : thread.Orderly t :=
  exec_invariant_of_respects (fun _ _ _ => control_orderly) run alone orderly

/-! ## Calls as one step -/

theorem view_of_alive {s : Background σ} (alive : thread.alive s.body = true) : thread.view s = s.body := if_pos alive

theorem view_of_gone {s : Background σ} (gone : thread.alive s.body = false) :
    thread.view s = thread.setFlag false s.body := if_neg (by simp [gone])

theorem view_put (s : Background σ) (i : Nat) (next : Option Control) : thread.view (s.put i next) = thread.view s := by
  cases next <;> rfl

theorem Progress.once {s t : Background σ} {call : Control} {next : Option Control}
    (progress : Progress thread s call t next) (fits : thread.Fits s call) :
    Relation.ReflTransGen thread.Once (thread.view s) (thread.view t) := by
  cases progress with
  | raise =>
      have before := view_of_gone fits.2.1
      have after : thread.view { s with body := thread.setFlag true s.body } =
          thread.setFlag false (thread.setFlag true s.body) :=
        view_of_gone ((thread.alive_setFlag _ _).trans fits.2.1)
      rw [before, after, thread.setFlag_setFlag]
  | spawn =>
      obtain ⟨up, gone, -⟩ := fits
      have after : thread.view { s with body := thread.launch s.body, joinable := true } = thread.launch s.body :=
        view_of_alive (thread.alive_launch _)
      rw [view_of_gone gone, after]
      have once : thread.Once (thread.setFlag false s.body) _ :=
        .start (thread.flag_setFlag _ _) ((thread.alive_setFlag _ _).trans gone)
      rw [thread.setFlag_setFlag, ← up, thread.setFlag_flag] at once
      exact .single once
  | lower =>
      cases alive : thread.alive s.body with
      | true =>
          have after : thread.view { s with body := thread.setFlag false s.body } = thread.setFlag false s.body :=
            view_of_alive ((thread.alive_setFlag _ _).trans alive)
          rw [view_of_alive alive, after]
          exact .single .stop
      | false =>
          have after : thread.view { s with body := thread.setFlag false s.body } =
              thread.setFlag false (thread.setFlag false s.body) :=
            view_of_gone ((thread.alive_setFlag _ _).trans alive)
          rw [view_of_gone alive, after, thread.setFlag_setFlag]
  | _ => exact .refl

theorem lowered_of_resting {s : Background σ} (none : s.calls = []) (flag : thread.flag s.body = false) :
    thread.Lowered s :=
  ⟨flag, by simp [none]⟩

theorem put_stops {s : Background σ} {i : Nat} {next : Option Control} (later : ∀ call ∈ next, call.rises = false)
    (stops : ∀ call ∈ s.calls, call.rises = false) : ∀ call ∈ (s.put i next).calls, call.rises = false := by
  intro call member
  cases next with
  | none => exact stops call (List.mem_of_mem_eraseIdx member)
  | some new =>
      rcases List.mem_or_eq_of_mem_set member with old | rfl
      · exact stops call old
      · exact later _ rfl

theorem proceed_lowered {s t : Background σ} {ok : Bool} {call : Control} {next : Option Control}
    (went : thread.proceed s ok call = some (t, next)) (stops : call.rises = false) (flag : thread.flag s.body = false) :
    t.body = s.body ∧ t.calls = s.calls ∧ ∀ later ∈ next, later.rises = false := by
  cases call with
  | starting | raising | spawning => cases stops
  | stopping =>
      simp only [proceed, flag] at went
      cases went
      exact ⟨rfl, rfl, by simp⟩
  | lowering =>
      cases went
      have same : thread.setFlag false s.body = s.body := by rw [← flag, thread.setFlag_flag]
      exact ⟨same, rfl, by simp [Control.rises]⟩
  | testing =>
      cases handle : s.joinable <;> simp only [proceed, handle] at went <;> cases went
      · exact ⟨rfl, rfl, by simp⟩
      · exact ⟨rfl, rfl, by simp [Control.rises]⟩
  | joining =>
      simp only [proceed, Option.ite_none_left_eq_some] at went
      obtain ⟨-, went⟩ := went
      split at went <;> cases went <;> exact ⟨rfl, rfl, by simp⟩

theorem control_lowered {s t : Background σ} {action : Action α} (stepped : thread.control s action = some t)
    (unstarted : action ≠ .start) (lowered : thread.Lowered s) :
    thread.Lowered t ∧ (t.body = s.body ∨ ∃ a, thread.step s.body a = some t.body) := by
  cases control_moves stepped with
  | start => exact absurd rfl unstarted
  | stop =>
      refine ⟨⟨lowered.flag, ?_⟩, .inl rfl⟩
      intro call member
      rcases List.mem_append.mp member with old | new
      · exact lowered.stops call old
      · rw [List.mem_singleton.mp new]
        rfl
  | @advance i ok call u next here went =>
      obtain ⟨body, calls, later⟩ := proceed_lowered went (lowered.stops _ (List.mem_of_getElem? here)) lowered.flag
      have kept : (u.put i next).body = u.body := by cases next <;> rfl
      refine ⟨⟨by rw [kept, body]; exact lowered.flag, put_stops later (by rw [calls]; exact lowered.stops)⟩, .inl ?_⟩
      rw [kept, body]
  | body worked =>
      exact ⟨⟨(thread.flag_step _ _ _ worked).trans lowered.flag, lowered.stops⟩, .inr ⟨_, worked⟩⟩

theorem exec_lowered {P : σ → Prop}
    (preserved : ∀ s a t, thread.step s a = some t → thread.flag s = false → P s → P t) {s t : Background σ}
    {actions : List (Action α)} (run : exec thread.control s actions = some t)
    (unstarted : ∀ action ∈ actions, action ≠ .start) (lowered : thread.Lowered s) (holds : P s.body) : P t.body := by
  refine (@exec_invariant_of_respects _ _ thread.control (fun _ action => action ≠ .start)
    (fun u => thread.Lowered u ∧ P u.body) ?_ _ _ _ run (respects_of_forall unstarted s) ⟨lowered, holds⟩).2
  rintro before action after stepped permitted ⟨down, holds⟩
  obtain ⟨later, kept | ⟨a, worked⟩⟩ := control_lowered stepped permitted down
  · exact ⟨later, by rw [kept]; exact holds⟩
  · exact ⟨later, preserved _ _ _ worked down.flag holds⟩

/-- Where nobody is inside the loop any more, what only the thread changes stays as it is until the next `start`. -/
theorem exec_outside {β : Type*} (f : σ → β)
    (frame : ∀ s a t, thread.step s a = some t → thread.own a = false → f t = f s) {s t : Background σ}
    {actions : List (Action α)} (run : exec thread.control s actions = some t)
    (unstarted : ∀ action ∈ actions, action ≠ .start) (lowered : thread.Lowered s)
    (gone : thread.alive s.body = false) : thread.alive t.body = false ∧ f t.body = f s.body := by
  refine exec_lowered (P := fun body => thread.alive body = false ∧ f body = f s.body) ?_ run unstarted lowered
    ⟨gone, rfl⟩
  rintro before a after worked - ⟨outside, same⟩
  cases own : thread.own a with
  | true =>
      have alive := thread.own_alive _ _ _ worked own
      rw [outside] at alive
      cases alive
  | false => exact ⟨(thread.other_alive _ _ _ worked own).trans outside, (frame _ _ _ worked own).trans same⟩

theorem gone_of_resting {s : Background σ} (orderly : thread.Orderly s) (none : s.calls = [])
    (flag : thread.flag s.body = false) : thread.alive s.body = false :=
  Bool.eq_false_iff.mpr fun alive => by simp [(orderly.settled none).2 alive] at flag

/-! ## `stop` returns -/

def work (measure : σ → Nat) (s : Background σ) : Nat := weight Control.rank s.calls + measure s.body

variable {I : σ → Prop} {measure : σ → Nat}

theorem quiet_winding (winds : thread.Winds I measure) {s t : Background σ} {action : Action α}
    (stepped : thread.control s action = some t) (calm : thread.quiet action = true)
    (winding : thread.Winding I s) :
    thread.Winding I t ∧ work measure t < work measure s := by
  have orderly : thread.Orderly t := by
    refine control_orderly stepped ?_ winding.orderly
    cases action with
    | start | stop => cases calm
    | advance | body => trivial
  cases control_moves stepped with
  | start | stop => cases calm
  | @advance i ok call u next here went =>
      obtain ⟨rfl, one, fits⟩ := winding.orderly.one here
      have progress := proceed_progress went fits
      rw [put_first (progress.kept.1.trans one)] at orderly ⊢
      have late := winding.calls _ (List.mem_of_getElem? here)
      have before : work measure s = call.rank + measure s.body := by simp [work, weight, one]
      rw [before]
      cases progress with
      | noThread bare =>
          refine ⟨⟨orderly, winding.flag, by simp, winding.holds⟩, ?_⟩
          simp [work, weight, Control.rank]
      | thread handle =>
          refine ⟨⟨orderly, winding.flag, by simp, winding.holds⟩, ?_⟩
          simp [work, weight, Control.rank]
      | join gone =>
          refine ⟨⟨orderly, winding.flag, by simp, winding.holds⟩, ?_⟩
          simp [work, weight, Control.rank]
      | _ => simp at late
  | body worked =>
      have flag := (thread.flag_step _ _ _ worked).trans winding.flag
      refine ⟨⟨orderly, flag, winding.calls, winds.keeps _ _ _ worked calm winding.flag winding.holds⟩, ?_⟩
      have less := winds.less _ _ _ worked calm winding.flag winding.holds
      simp only [work]
      omega

theorem rest_returned (winds : thread.Winds I measure) {s : Background σ} (winding : thread.Winding I s)
    (rest : AtRest thread.control (thread.quiet · = true) s) : s.calls = [] := by
  have whole := winding.orderly.whole
  cases calls : s.calls with
  | nil => rfl
  | cons call others =>
      have here : s.calls[0]? = some call := by rw [calls]; rfl
      obtain ⟨-, one, fits⟩ := winding.orderly.one here
      have stuck := rest (.advance 0 true) rfl
      simp only [control, whole, Bool.false_eq_true, if_false, here, Option.bind_some, Option.map_eq_none_iff] at stuck
      rcases winding.calls call (List.mem_of_getElem? here) with rfl | rfl
      · simp [proceed] at stuck
      · cases alive : thread.alive s.body with
        | true =>
            obtain ⟨a, own, moves⟩ := winds.moves _ winding.flag alive winding.holds
            have idle := rest (.body a) own
            simp only [control, whole, Bool.false_eq_true, if_false, Option.map_eq_none_iff] at idle
            exact absurd idle moves
        | false => simp [proceed, alive, fits.2] at stuck

theorem lowered_of_stopping {s : Background σ} (orderly : thread.Orderly s)
    (late : s.calls = [.testing] ∨ s.calls = [.joining]) : thread.Lowered s := by
  refine ⟨?_, by rcases late with one | one <;> simp [one, Control.rises]⟩
  cases orderly with
  | resting _ none => simp [none] at late
  | @calling _ call one fits =>
      rcases late with stops | stops <;> cases one.symm.trans stops
      · exact fits.1
      · exact fits.1

/-- However the steps of the thread and of `stop` fall, `stop` returns, and nobody is left inside the loop. -/
theorem stop_returns (winds : thread.Winds I measure) {s : Background σ} (orderly : thread.Orderly s)
    (late : s.calls = [.testing] ∨ s.calls = [.joining]) (holds : I s.body) :
    Settles thread.control (thread.quiet · = true)
      (fun t => t.calls = [] ∧ t.joinable = false ∧ thread.flag t.body = false ∧ thread.alive t.body = false)
      (work measure s) s := by
  have calls : ∀ call ∈ s.calls, call = .testing ∨ call = .joining := by
    rcases late with one | one <;> simp [one]
  refine @settles _ _ thread.control (thread.quiet · = true) (thread.Winding I) _ (work measure) ?_ ?_ ?_ s
    ⟨orderly, (lowered_of_stopping orderly late).flag, calls, holds⟩
  · intro before action after stepped calm winding
    exact (quiet_winding winds stepped calm winding).1
  · intro before action after stepped calm winding
    exact (quiet_winding winds stepped calm winding).2
  · intro later winding rest
    have none := rest_returned winds winding rest
    have gone := gone_of_resting winding.orderly none winding.flag
    exact ⟨none, (winding.orderly.settled none).1.trans gone, winding.flag, gone⟩

/-- What one owner of the loop gets from `start` and `stop`. -/
structure Managed (thread : LoopThread σ α) (I : σ → Prop) (measure : σ → Nat) (s : Background σ) : Prop where
  whole : s.broken = false
  handle : s.calls = [] → s.joinable = thread.alive s.body ∧ (thread.alive s.body = true → thread.flag s.body = true)
  stops : s.calls = [.testing] ∨ s.calls = [.joining] → I s.body →
    Settles thread.control (thread.quiet · = true)
      (fun t => t.calls = [] ∧ t.joinable = false ∧ thread.flag t.body = false ∧ thread.alive t.body = false)
      (work measure s) s

theorem exec_managed (winds : thread.Winds I measure) {s t : Background σ} {actions : List (Action α)}
    (run : exec thread.control s actions = some t) (alone : Respects Alone thread.control s actions)
    (orderly : thread.Orderly s) : Managed thread I measure t :=
  have reached := exec_orderly run alone orderly
  ⟨reached.whole, reached.settled, fun late holds => stop_returns winds reached late holds⟩

end LoopThread

end ServerFramework.Library
