import Mathlib.Data.List.Infix
import Mathlib.Data.List.Nodup
import ServerFramework.Proof.Example.Gateway

namespace ServerFramework.Example
open Protocol Tcp ServerFramework.Core Business Library

def Job.replyTo (sid : Int) (job : Job) : Option Packet := if job.sessionId = sid then Gateway.reply job.pkt else none

namespace Gateway

variable {n : Nat}

/-! ## The replies by the tasks that gave them -/

theorem range_filterMap {α β : Type} (l : List α) (f : α → Option β) :
    (List.range l.length).filterMap (fun i => l[i]?.bind f) = l.filterMap f := by
  induction l using List.reverseRecOn with
  | nil => rfl
  | append_singleton l a ih =>
      rw [List.length_append, List.length_singleton, List.range_succ, List.filterMap_append, List.filterMap_append, ← ih]
      congr 1
      · apply List.filterMap_congr
        intro i member
        rw [List.getElem?_append_left (List.mem_range.mp member)]
      · cases image : f a <;> simp [image]

def repliesOf (g : Gateway n) (sid : Int) (tickets : List Nat) : List Packet :=
  tickets.filterMap fun ticket => g.jobs[ticket]?.bind (Job.replyTo sid)

theorem jobs_repliesOf (g : Gateway n) (sid : Int) :
    g.repliesOf sid (List.range g.jobs.length) = (g.jobsOf sid).filterMap reply := by
  rw [repliesOf, range_filterMap, jobsOf, List.filterMap_map]
  induction g.jobs with
  | nil => rfl
  | cons job jobs ih =>
      by_cases same : job.sessionId = sid
      · rw [List.filter_cons_of_pos (by simpa using same), List.filterMap_cons, List.filterMap_cons, ih]
        simp [Job.replyTo, same]
      · rw [List.filter_cons_of_neg (by simpa using same), List.filterMap_cons, ih]
        simp [Job.replyTo, same]

theorem Accounted.replies_eq {g : Gateway n} (accounted : Accounted g) (sid : Int) :
    g.replies sid = g.repliesOf sid g.answered := by
  rw [replies, accounted.calls, repliesOf]
  induction g.answered with
  | nil => rfl
  | cons ticket answered ih =>
      rw [List.filterMap_cons, List.filterMap_cons]
      cases g.jobs[ticket]? with
      | none => exact ih
      | some job =>
          cases answers : reply job.pkt with
          | none => simpa [Job.call, Job.replyTo, answers] using ih
          | some answer =>
              by_cases same : job.sessionId = sid
              · simpa [Job.call, Job.replyTo, answers, same] using ih
              · simpa [Job.call, Job.replyTo, answers, same] using ih

theorem Accounted.started_once {g : Gateway n} (accounted : Accounted g) (ticket : Nat) :
    g.pool.started.count ticket ≤ 1 := by
  have balance := accounted.pool.balance ticket
  split at balance <;> omega

theorem Accounted.answered_subperm {g : Gateway n} (accounted : Accounted g) :
    g.answered.Subperm (List.range g.jobs.length) := by
  refine List.subperm_of_subset (List.nodup_iff_count_le_one.mpr fun ticket => ?_) fun ticket member => ?_
  · have once := accounted.started_once ticket
    rw [accounted.balance ticket] at once
    omega
  · exact List.mem_range.mpr (accounted.answered_known member)

theorem jobsOf_replies {g : Gateway n} (accounted : Accounted g) (p : Nat) :
    (g.jobsOf (p + 1)).filterMap reply <+: (g.messages p).filterMap reply := by
  rw [← accounted.read p, List.filterMap_append]
  exact List.prefix_append _ _

theorem Accounted.replies_subperm {g : Gateway n} (accounted : Accounted g) (p : Nat) :
    (g.replies (p + 1)).Subperm ((g.messages p).filterMap reply) := by
  obtain ⟨tickets, same, among⟩ := accounted.answered_subperm
  have fewer : (g.repliesOf (p + 1) tickets).Sublist (g.repliesOf (p + 1) (List.range g.jobs.length)) :=
    among.filterMap _
  rw [jobs_repliesOf] at fewer
  rw [accounted.replies_eq]
  exact ⟨_, same.filterMap _, fewer.trans (jobsOf_replies accounted p).sublist⟩

/-! ## The frames -/

theorem addressed_filterMap {calls : List (Option Int × Packet)} (direct : ∀ call ∈ calls, call.1 ≠ none) (sid : Int) :
    calls.filterMap (addressed sid) = ((calls.filter fun call => call.1 = some sid).map Prod.snd).map encode := by
  induction calls with
  | nil => rfl
  | cons call calls ih =>
      have rest := ih fun other member => direct other (by simp [member])
      have named := direct call (by simp)
      by_cases same : call.1 = some sid
      · rw [List.filter_cons_of_pos (by simpa using same), List.filterMap_cons, rest]
        simp [addressed, same]
      · rw [List.filter_cons_of_neg (by simpa using same), List.filterMap_cons, rest]
        simp [addressed, named, same]

theorem Accounted.direct {g : Gateway n} (accounted : Accounted g) : ∀ call ∈ g.net.calls, call.1 ≠ none := by
  intro call member
  obtain ⟨job, -, session, -⟩ := accounted.call_job member
  simp [session]

theorem Accounted.frames {g : Gateway n} (accounted : Accounted g) {p : Nat} {c : Connection}
    (here : g.net.server.made[p]? = some c) :
    ∃ queued, queued <+: g.replies (p + 1) ∧ g.net.frames p = queued.map encode ∧
      (p ∈ g.net.server.pointers → queued = g.replies (p + 1)) := by
  have known := (List.getElem?_eq_some_iff.mp here).1
  obtain ⟨lo, since⟩ : ∃ lo, g.net.joined[p]? = some lo :=
    ⟨_, List.getElem?_eq_getElem (accounted.net.joined ▸ known)⟩
  obtain ⟨hi, ⟨low, high, sent⟩, open_⟩ := accounted.net.window p c lo here since
  have direct : ∀ call ∈ g.net.calls.take hi, call.1 ≠ none :=
    fun call member => accounted.direct call (List.mem_of_mem_take member)
  have before : (g.net.calls.take lo).filterMap (addressed (p + 1)) = [] :=
    List.filterMap_eq_nil_iff.mpr fun call member => by
      have other := accounted.fresh p lo since call member
      have named := accounted.direct call (List.mem_of_mem_take member)
      simp [addressed, named, other]
  have split : g.net.frames p = (g.net.calls.take hi).filterMap (addressed (p + 1)) := by
    have halves := List.take_append_drop lo (g.net.calls.take hi)
    rw [List.take_take, Nat.min_eq_left low] at halves
    rw [sent, accounted.net.registry.sessionId here, ← halves, List.filterMap_append, before, List.nil_append, halves]
  rw [addressed_filterMap direct] at split
  refine ⟨_, ?_, split, fun member => ?_⟩
  · exact ((List.take_prefix hi g.net.calls).filter _).map _
  · rw [open_ member, List.take_length]
    rfl

/-- Whatever the workers do, a session gets no answer to another session's message and none twice, its connection is
pushed a prefix of its answers, and its `write_loop` hands on the bytes of a prefix of these. -/
theorem gateway_answers (actions : List (Action n)) (g : Gateway n) (ran : exec step {} actions = some g) (p : Nat)
    (c : Connection) (here : g.net.server.made[p]? = some c) :
    (g.replies c.sessionId).Subperm (c.reader.delivered.filterMap reply) ∧
    (∃ queued, queued <+: g.replies c.sessionId ∧ g.net.frames p = queued.map encode ∧
      (p ∈ g.net.server.pointers → queued = g.replies c.sessionId) ∧ g.net.out p <+: queued.flatMap encode) ∧
    g.sessions.sessions = ∅ := by
  have accounted := exec_accounted ran
  have subperm := accounted.replies_subperm p
  obtain ⟨queued, front, frames, open_⟩ := accounted.frames here
  rw [accounted.net.registry.sessionId here]
  refine ⟨?_, ⟨queued, front, frames, open_, ?_⟩, accounted.sessions⟩
  · simpa [messages, here] using subperm
  · have out := (accounted.net.piped p c here).front
    rwa [frames, ← List.flatMap_def] at out

/-! ## Two messages to two workers -/

/-- A client that sends a login and then some data, and the reader that takes both. -/
def twoMessages : List (Action n) :=
  [.net .start 0, .net .accept 0, .net (.begin 0) 0, .net (.read 0 [] .run) 0,
    .net (.read 0 (encode ⟨cmdLogin, []⟩ ++ encode ⟨cmdData, [7]⟩) (.recv (.chunk 13))) 0, .net (.read 0 [] .run) 0,
    .append 0, .net (.read 0 [] .run) 0, .append 0]

def takes (i : Fin n) : List (Action n) :=
  [.worker (.acquire i), .worker (.evaluate i), .worker (.take i), .execute i]

def answers (i : Fin n) : List (Action n) := [.enter i, .handle i, .unlock i, .finish i]

/-- Each worker takes a message, and the second is the first at the router; then the first bytes go out. -/
def overtaking : List (Action 2) :=
  [twoMessages, takes ⟨0, Nat.two_pos⟩, takes ⟨1, Nat.one_lt_two⟩, answers ⟨1, Nat.one_lt_two⟩,
    answers ⟨0, Nat.two_pos⟩, [.net (.write 0 .run) 0, .net (.write 0 .run) 0, .net (.write 0 .run) 0,
    .net (.write 0 (.send (.sent 4))) 0]].flatten

theorem gateway_answers_of_overtaking :
    ∃ g c, exec step {} overtaking = some g ∧ g.net.server.made[0]? = some c ∧
      (g.replies c.sessionId).Subperm (c.reader.delivered.filterMap reply) ∧
      g.replies 1 = [⟨cmdData, [7]⟩, ⟨cmdLogin, loginOk⟩] ∧
      g.net.frames 0 = [encode ⟨cmdData, [7]⟩, encode ⟨cmdLogin, loginOk⟩] ∧ g.net.out 0 = [0, 0, 0, 7] := by
  obtain ⟨g, ran, registered, replies, out⟩ : ∃ g, exec step {} overtaking = some g ∧ 0 ∈ g.net.server.pointers ∧
      g.replies 1 = [⟨cmdData, [7]⟩, ⟨cmdLogin, loginOk⟩] ∧ g.net.out 0 = [0, 0, 0, 7] :=
    ⟨_, rfl, .head _, rfl, rfl⟩
  obtain ⟨c, here, session⟩ : ∃ c, g.net.server.made[0]? = some c ∧ c.sessionId = 1 := by
    rw [← Option.some.inj ran]
    exact ⟨_, rfl, rfl⟩
  obtain ⟨subperm, ⟨queued, -, frames, open_, -⟩, -⟩ := gateway_answers overtaking g ran 0 c here
  rw [open_ registered, session, replies] at frames
  exact ⟨g, c, ran, here, subperm, replies, frames, out⟩

end Gateway

end ServerFramework.Example
