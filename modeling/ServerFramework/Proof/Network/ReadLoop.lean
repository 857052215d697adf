import ServerFramework.Proof.Network.Agreement

namespace ServerFramework.Tcp
open Protocol Bytes Library

/-! ## The frames at the front of some bytes -/

inductive Frames : List UInt8 → List Packet → List UInt8 → Prop
  | rest {bytes : List UInt8} (none : ∀ pkt more, (encode pkt).length < 2 ^ 32 → bytes ≠ encode pkt ++ more) :
      Frames bytes [] bytes
  | frame {pkt : Packet} {bytes left : List UInt8} {pkts : List Packet} (small : (encode pkt).length < 2 ^ 32)
      (later : Frames bytes pkts left) : Frames (encode pkt ++ bytes) (pkt :: pkts) left

def Waiting (bytes : List UInt8) : Prop :=
  bytes.length < 4 ∨ lengthField bytes = 0 ∨ bytes.length < (lengthField bytes).toNat

/-- A length field from 1 to 5, and as many bytes as it announces. -/
structure Malformed (bytes : List UInt8) : Prop where
  enough : 4 ≤ bytes.length
  positive : lengthField bytes ≠ 0
  small : (lengthField bytes).toNat < 6
  whole : (lengthField bytes).toNat ≤ bytes.length

theorem front_cases (bytes : List UInt8) :
    Waiting bytes ∨ Malformed bytes ∨ ∃ pkt more, (encode pkt).length < 2 ^ 32 ∧ bytes = encode pkt ++ more := by
  by_cases waits : Waiting bytes
  · exact .inl waits
  simp only [Waiting, not_or, Nat.not_lt] at waits
  obtain ⟨enough, positive, whole⟩ := waits
  by_cases six : 6 ≤ (lengthField bytes).toNat
  · obtain ⟨pkt, front⟩ : ∃ pkt, bytes.take (lengthField bytes).toNat = encode pkt :=
      ⟨_, take_eq_encode six whole⟩
    refine .inr (.inr ⟨pkt, bytes.drop (lengthField bytes).toNat, ?_, ?_⟩)
    · rw [← front, List.length_take_of_le whole]
      exact (lengthField bytes).toNat_lt
    · rw [← front, List.take_append_drop]
  · exact .inr (.inl ⟨enough, positive, Nat.lt_of_not_le six, whole⟩)

theorem frame_size {pkt : Packet} (more : List UInt8) (small : (encode pkt).length < 2 ^ 32) :
    4 ≤ (encode pkt ++ more).length ∧ 6 ≤ (lengthField (encode pkt ++ more)).toNat ∧
      (lengthField (encode pkt ++ more)).toNat ≤ (encode pkt ++ more).length := by
  rw [lengthField_encode pkt more small, List.length_append, encode_length]
  omega

theorem Waiting.no_frame {bytes : List UInt8} (waits : Waiting bytes) (pkt : Packet) (more : List UInt8)
    (small : (encode pkt).length < 2 ^ 32) : bytes ≠ encode pkt ++ more := by
  rintro rfl
  have size := frame_size more small
  rcases waits with short | zero | missing
  · omega
  · rw [zero] at size
    exact absurd size.2.1 (by decide)
  · omega

theorem Malformed.no_frame {bytes : List UInt8} (bad : Malformed bytes) (pkt : Packet) (more : List UInt8)
    (small : (encode pkt).length < 2 ^ 32) : bytes ≠ encode pkt ++ more := by
  rintro rfl
  have size := frame_size more small
  have bound := bad.small
  omega

theorem Malformed.not_waiting {bytes : List UInt8} (bad : Malformed bytes) : ¬ Waiting bytes := by
  rintro (short | zero | missing)
  · exact Nat.not_lt.mpr bad.enough short
  · exact bad.positive zero
  · exact Nat.not_lt.mpr bad.whole missing

theorem encode_append_inj {pkt pkt' : Packet} {more more' : List UInt8} (small : (encode pkt).length < 2 ^ 32)
    (small' : (encode pkt').length < 2 ^ 32) (same : encode pkt ++ more = encode pkt' ++ more') :
    pkt = pkt' ∧ more = more' := by
  have first := decodeFrom_encode pkt more small
  rw [same, decodeFrom_encode pkt' more' small'] at first
  obtain ⟨rfl, -⟩ : pkt' = pkt ∧ _ := by simpa using first
  exact ⟨rfl, List.append_cancel_left same⟩

theorem Frames.unique {bytes left left' : List UInt8} {pkts pkts' : List Packet} (frames : Frames bytes pkts left)
    (frames' : Frames bytes pkts' left') : pkts = pkts' ∧ left = left' := by
  induction frames generalizing pkts' with
  | rest none =>
      cases frames' with
      | rest _ => exact ⟨rfl, rfl⟩
      | frame small _ => exact absurd rfl (none _ _ small)
  | @frame pkt bytes left pkts small later ih =>
      generalize same : encode pkt ++ bytes = whole at frames'
      cases frames' with
      | rest none => exact absurd same.symm (none _ _ small)
      | frame small' later' =>
          obtain ⟨rfl, rfl⟩ := encode_append_inj small small' same
          obtain ⟨rfl, rfl⟩ := ih later'
          exact ⟨rfl, rfl⟩

theorem frames_exist (bytes : List UInt8) :
    ∃ pkts left, Frames bytes pkts left ∧ (Waiting left ∨ Malformed left) := by
  generalize size : bytes.length = n
  induction n using Nat.strongRecOn generalizing bytes with
  | ind n ih =>
      subst size
      rcases front_cases bytes with waits | bad | ⟨pkt, more, small, rfl⟩
      · exact ⟨[], bytes, .rest waits.no_frame, .inl waits⟩
      · exact ⟨[], bytes, .rest bad.no_frame, .inr bad⟩
      · obtain ⟨pkts, left, later, ends⟩ := ih more.length (by rw [List.length_append, encode_length]; omega) more rfl
        exact ⟨pkt :: pkts, left, .frame small later, ends⟩

theorem Frames.append {bytes left last more : List UInt8} {pkts pkts' : List Packet}
    (frames : Frames bytes pkts left) (later : Frames (left ++ more) pkts' last) :
    Frames (bytes ++ more) (pkts ++ pkts') last := by
  induction frames with
  | rest none => exact later
  | frame small _ ih =>
      rw [List.append_assoc]
      exact .frame small (ih later)

theorem Frames.append_iff {bytes left last more : List UInt8} {pkts all : List Packet} (frames : Frames bytes pkts left) :
    Frames (bytes ++ more) all last ↔ ∃ later, all = pkts ++ later ∧ Frames (left ++ more) later last := by
  constructor
  · intro whole
    obtain ⟨later, last', behind, -⟩ := frames_exist (left ++ more)
    obtain ⟨rfl, rfl⟩ := whole.unique (frames.append behind)
    exact ⟨later, rfl, behind⟩
  · rintro ⟨later, rfl, behind⟩
    exact frames.append behind

theorem Malformed.append {bytes : List UInt8} (bad : Malformed bytes) (more : List UInt8) : Malformed (bytes ++ more) := by
  obtain ⟨enough, positive, small, whole⟩ := bad
  rw [← lengthField_append more enough] at positive small whole
  refine ⟨?_, positive, small, ?_⟩
  · rw [List.length_append]
    exact Nat.le_add_right_of_le enough
  · rw [List.length_append]
    exact Nat.le_add_right_of_le whole

theorem Frames.left_length {bytes left : List UInt8} {pkts : List Packet} (frames : Frames bytes pkts left) :
    left.length ≤ bytes.length := by
  induction frames with
  | rest _ => exact Nat.le_refl _
  | frame _ _ ih =>
      rw [List.length_append]
      exact Nat.le_trans ih (Nat.le_add_left _ _)

theorem Frames.ends {bytes left : List UInt8} {pkts : List Packet} (frames : Frames bytes pkts left) :
    Waiting left ∨ Malformed left := by
  obtain ⟨pkts', left', frames', ends⟩ := frames_exist bytes
  obtain ⟨-, rfl⟩ := frames.unique frames'
  exact ends

theorem malformed_length {bytes chunk left : List UInt8} {pkts : List Packet} (waits : Waiting bytes)
    (frames : Frames (bytes ++ chunk) pkts left) (bad : Malformed left) : left.length < chunk.length + 6 := by
  generalize whole : bytes ++ chunk = all at frames
  cases frames with
  | rest _ =>
      subst whole
      have small := bad.small
      rw [List.length_append]
      by_cases short : bytes.length < 4
      · omega
      have same : lengthField (bytes ++ chunk) = lengthField bytes := lengthField_append chunk (Nat.le_of_not_lt short)
      rcases waits with few | zero | missing
      · omega
      · exact absurd (same.trans zero) bad.positive
      · rw [same] at small
        omega
  | @frame pkt behind _ _ fits later =>
      rcases List.append_eq_append_iff.mp whole with ⟨inner, -, rest⟩ | ⟨inner, front, -⟩
      · have shorter := later.left_length
        rw [rest, List.length_append]
        omega
      · exact absurd front (waits.no_frame pkt inner fits)

/-! ## The reading thread -/

namespace TcpConnection

theorem processRead_waiting {bytes : List UInt8} (waits : Waiting bytes) : processRead bytes = .ok none := by
  apply processRead_none
  by_cases short : bytes.length < 4
  · exact decodeFrom_short short
  have enough : 4 ≤ bytes.length := Nat.le_of_not_lt short
  rcases waits with few | zero | missing
  · exact decodeFrom_short few
  · exact decodeFrom_zero enough zero
  · exact decodeFrom_wait enough missing

theorem processRead_malformed {bytes : List UInt8} (bad : Malformed bytes) (bounded : bytes.length < 2 ^ 32) :
    processRead bytes = .error .outOfBounds := by
  have wraps := sub_six_wrapped bad.small
  rw [processRead, decodeFrom_outside bad.enough bad.positive bad.small bad.whole (by omega)]
  rfl

theorem processRead_encode {pkt : Packet} (small : (encode pkt).length < 2 ^ 32) (more : List UInt8) :
    processRead (encode pkt ++ more) = .ok (some (pkt, more)) := by
  rw [processRead, decodeFrom_encode pkt more small]
  exact congrArg (fun rest => Except.ok (some (pkt, rest))) (List.drop_left' rfl)

def Session.Goes : Session → Session → Prop := Library.Goes fun _ : Unit => Session.step

def Session.Ends (s final : Session) : Prop := ∃ fuel, s.run fuel = some final

theorem Session.Goes.ends_iff {s t : Session} (goes : s.Goes t) (final : Session) : s.Ends final ↔ t.Ends final := by
  obtain ⟨n, same⟩ := Library.Goes.loop goes
  constructor
  · rintro ⟨fuel, ended⟩
    refine ⟨fuel, (same () fuel).symm.trans ?_⟩
    exact loop_mono ended (Nat.le_add_left fuel n)
  · rintro ⟨fuel, ended⟩
    exact ⟨n + fuel, (same () fuel).trans ended⟩

theorem Session.ends_iff_of_stop {s t : Session} (stops : s.step = .inr t) (final : Session) :
    s.Ends final ↔ final = t := by
  constructor
  · rintro ⟨fuel, ended⟩
    have one : s.run 1 = some t := by rw [run, loop, stops]
    exact loop_agree ended one
  · rintro rfl
    exact ⟨1, by rw [run, loop, stops]⟩

def reading (errno : Errno) (bytes : List UInt8) (delivered : List Packet) : ReadSide Packet where
  errno := errno
  readBuf := bytes
  phase := .receiving
  delivered := delivered

theorem step_parsing {errno : Errno} {bytes : List UInt8} {delivered : List Packet} {script : List Recv} {calls : Nat}
    {result : Except Fault (Option (Packet × List UInt8))} (parsed : processRead bytes = result) :
    Session.step ⟨{ reading errno bytes delivered with phase := .parsing }, script, calls⟩ =
      .inl (Session.move ⟨{ reading errno bytes delivered with phase := .parsing }, script, calls⟩
        (ReadSide.parsed { reading errno bytes delivered with phase := .parsing } result) script) := by
  rw [← parsed]
  cases script <;> rfl

theorem goes_parse {bytes left : List UInt8} {pkts : List Packet} (frames : Frames bytes pkts left)
    (errno : Errno) (delivered : List Packet) (script : List Recv) (calls : Nat) :
    Session.Goes ⟨{ reading errno bytes delivered with phase := .parsing }, script, calls⟩
      ⟨{ reading errno left (delivered ++ pkts) with phase := .parsing }, script, calls⟩ := by
  induction frames generalizing delivered with
  | rest _ =>
      rw [List.append_nil]
      exact .refl
  | @frame pkt bytes left pkts small _ ih =>
      have round : Session.step ⟨{ reading errno (encode pkt ++ bytes) delivered with phase := .parsing }, script, calls⟩ =
          .inl ⟨{ reading errno bytes (delivered ++ [pkt]) with phase := .parsing }, script, calls⟩ := by
        rw [step_parsing (processRead_encode small bytes)]
        rfl
      have later := ih (delivered ++ [pkt])
      rw [List.append_assoc] at later
      exact .head (fun _ => round) later

theorem goes_top {r : ReadSide Packet} (outside : r.phase = .top) (alive : r.alive = true) (script : List Recv)
    (calls : Nat) : Session.Goes ⟨r, script, calls⟩ ⟨{ r with phase := .receiving }, script, calls⟩ := by
  apply Library.Goes.one
  intro _
  cases script <;> simp [Session.step, readLoop, outside, alive, Session.move]

theorem goes_waiting {bytes : List UInt8} (waits : Waiting bytes) (errno : Errno) (delivered : List Packet)
    (script : List Recv) (calls : Nat) :
    Session.Goes ⟨{ reading errno bytes delivered with phase := .parsing }, script, calls⟩
      ⟨reading errno bytes delivered, script, calls⟩ := by
  have leaves : Session.Goes ⟨{ reading errno bytes delivered with phase := .parsing }, script, calls⟩
      ⟨{ reading errno bytes delivered with phase := .top }, script, calls⟩ :=
    Library.Goes.one fun _ => step_parsing (processRead_waiting waits)
  exact leaves.trans (goes_top rfl rfl script calls)

theorem goes_data (errno : Errno) (bytes : List UInt8) (delivered : List Packet) {chunk : List UInt8}
    (size : 1 ≤ chunk.length ∧ chunk.length ≤ 8192) (script : List Recv) (calls : Nat) :
    Session.Goes ⟨reading errno bytes delivered, .data chunk size :: script, calls⟩
      ⟨{ reading errno (bytes ++ chunk) delivered with phase := .parsing }, script, calls⟩ := by
  apply Library.Goes.one
  intro _
  have whole : chunk.take chunk.length = chunk := List.take_length
  simp [Session.step, readLoop, reading, Recv.result, Recv.bytes, ReadSide.receive, size, whole, Session.move]

def Recv.failed : Recv → Bool
  | data _ _ => false
  | _ => true

def Recv.errno (before : Errno) : Recv → Errno
  | data _ _ => before
  | interrupted => .eintr
  | wouldBlock => .eagain
  | eof => before
  | broken => .other

theorem step_failed {recv : Recv} (failed : recv.failed = true) (errno : Errno) (bytes : List UInt8)
    (delivered : List Packet) (script : List Recv) (calls : Nat) :
    Session.step ⟨reading errno bytes delivered, recv :: script, calls⟩ =
      .inl (Session.move ⟨reading errno bytes delivered, recv :: script, calls⟩
        (recvFailed (reading (recv.errno errno) bytes delivered)) script) := by
  cases recv with
  | data chunk size => cases failed
  | interrupted => rfl
  | wouldBlock => rfl
  | eof => rfl
  | broken => rfl

theorem goes_again {recv : Recv} (failed : recv.failed = true) {errno : Errno} (again : recv.errno errno = .eintr)
    (bytes : List UInt8) (delivered : List Packet) (script : List Recv) (calls : Nat) :
    Session.Goes ⟨reading errno bytes delivered, recv :: script, calls⟩ ⟨reading .eintr bytes delivered, script, calls⟩ := by
  have back : Session.Goes ⟨reading errno bytes delivered, recv :: script, calls⟩
      ⟨{ reading .eintr bytes delivered with phase := .top }, script, calls⟩ := by
    apply Library.Goes.one
    intro _
    rw [step_failed failed, again]
    rfl
  exact back.trans (goes_top rfl rfl script calls)

theorem goes_closed {recv : Recv} (failed : recv.failed = true) {errno : Errno} (ends : recv.errno errno ≠ .eintr)
    (bytes : List UInt8) (delivered : List Packet) (script : List Recv) (calls : Nat) :
    Session.Goes ⟨reading errno bytes delivered, recv :: script, calls⟩
      ⟨finishRead (reading (recv.errno errno) bytes delivered), script, calls + 1⟩ := by
  apply Library.Goes.one
  intro _
  have closed : recvFailed (reading (recv.errno errno) bytes delivered) =
      finishRead (reading (recv.errno errno) bytes delivered) := if_neg ends
  rw [step_failed failed, closed]
  rfl

theorem ends_finished {r : ReadSide Packet} (finished : r.phase = .finished ∨ r.phase = .crashed) (script : List Recv)
    (calls : Nat) (final : Session) : Session.Ends ⟨r, script, calls⟩ final ↔ final = ⟨r, script, calls⟩ := by
  apply Session.ends_iff_of_stop
  rcases finished with phase | phase <;> cases script <;> simp [Session.step, readLoop, phase]

theorem ends_closed {recv : Recv} (failed : recv.failed = true) {errno : Errno} (ends : recv.errno errno ≠ .eintr)
    (bytes : List UInt8) (delivered : List Packet) (script : List Recv) (calls : Nat) (final : Session) :
    Session.Ends ⟨reading errno bytes delivered, recv :: script, calls⟩ final ↔
      final = ⟨finishRead (reading (recv.errno errno) bytes delivered), script, calls + 1⟩ := by
  rw [(goes_closed failed ends bytes delivered script calls).ends_iff]
  exact ends_finished (.inl rfl) script (calls + 1) final

theorem ends_blocked (errno : Errno) (bytes : List UInt8) (delivered : List Packet) (calls : Nat) (final : Session) :
    Session.Ends ⟨reading errno bytes delivered, [], calls⟩ final ↔ final = ⟨reading errno bytes delivered, [], calls⟩ :=
  Session.ends_iff_of_stop rfl final

theorem ends_data {bytes chunk left : List UInt8} {pkts : List Packet} (waits : Waiting bytes)
    (size : 1 ≤ chunk.length ∧ chunk.length ≤ 8192) (frames : Frames (bytes ++ chunk) pkts left)
    (errno : Errno) (delivered : List Packet) (script : List Recv) (calls : Nat) (final : Session) :
    Session.Ends ⟨reading errno bytes delivered, .data chunk size :: script, calls⟩ final ↔
      (Waiting left ∧ Session.Ends ⟨reading errno left (delivered ++ pkts), script, calls⟩ final) ∨
      (Malformed left ∧
        final = ⟨{ reading errno left (delivered ++ pkts) with phase := .crashed }, script, calls⟩) := by
  have parses := (goes_data errno bytes delivered size script calls).trans
    (goes_parse frames errno delivered script calls)
  rw [Session.Goes.ends_iff parses]
  rcases frames.ends with behind | bad
  · have healthy : ¬ Malformed left := fun bad => bad.not_waiting behind
    simp only [behind, healthy, true_and, false_and, or_false]
    exact (goes_waiting behind errno (delivered ++ pkts) script calls).ends_iff final
  · have bounded := malformed_length waits frames bad
    have fault := processRead_malformed bad (by omega)
    have crashes : Session.Goes ⟨{ reading errno left (delivered ++ pkts) with phase := .parsing }, script, calls⟩
        ⟨{ reading errno left (delivered ++ pkts) with phase := .crashed }, script, calls⟩ :=
      Library.Goes.one fun _ => step_parsing fault
    simp only [bad, bad.not_waiting, true_and, false_and, false_or]
    rw [crashes.ends_iff]
    exact ends_finished (.inr rfl) script calls final

/-! ## End of the connection -/

def Recv.goesOn : Recv → Bool
  | data _ _ => true
  | interrupted => true
  | wouldBlock => true
  | eof => false
  | broken => false

def received (script : List Recv) : List UInt8 := script.flatMap Recv.bytes

/-- How a thread that only reacts to the end of the connection ends, from `bytes` left over: it has used
`script` up to and with the first end of file or error, and delivered the frames before it. Interrupts and
empty socket buffers before that end play no part in this. -/
structure Reacted (script : List Recv) (bytes : List UInt8) (delivered : List Packet) (final : Session) : Prop where
  frames : ∃ pkts left, Frames (bytes ++ received (script.takeWhile Recv.goesOn)) pkts left ∧
    final.reader.delivered = delivered ++ pkts
  consumed : final.script = (script.dropWhile Recv.goesOn).tail
  closed : if script.all Recv.goesOn then final.reader.phase = .receiving ∧ final.reader.alive ∧ final.closeCalls = 0
    else final.reader.phase = .finished ∧ final.reader.alive = false ∧ final.closeCalls = 1

def ReactsOnlyToEnd (script : List Recv) : Prop :=
  ∃ fuel final, Session.run fuel { script } = some final ∧ Reacted script [] [] final

structure Undisturbed (errno : Errno) (bytes : List UInt8) (script : List Recv) : Prop where
  no_block : .wouldBlock ∉ script.takeWhile Recv.goesOn
  no_stale : (script.dropWhile Recv.goesOn).head? = some .eof →
    errno ≠ .eintr ∧ .interrupted ∉ script.takeWhile Recv.goesOn
  readable : ∀ pkts left, Frames (bytes ++ received (script.takeWhile Recv.goesOn)) pkts left → Waiting left

theorem takeWhile_on {recv : Recv} (on : recv.goesOn = true) (script : List Recv) :
    (recv :: script).takeWhile Recv.goesOn = recv :: script.takeWhile Recv.goesOn :=
  List.takeWhile_cons_of_pos on

theorem takeWhile_end {recv : Recv} (ends : recv.goesOn = false) (script : List Recv) :
    (recv :: script).takeWhile Recv.goesOn = [] ∧ (recv :: script).dropWhile Recv.goesOn = recv :: script := by
  rw [List.takeWhile_cons_of_neg (by simp [ends]), List.dropWhile_cons_of_neg (by simp [ends])]
  exact ⟨rfl, rfl⟩

theorem frames_waiting {bytes : List UInt8} (waits : Waiting bytes) : Frames (bytes ++ []) [] bytes := by
  rw [List.append_nil]
  exact .rest waits.no_frame

theorem readable_waiting {bytes : List UInt8} (waits : Waiting bytes) (pkts : List Packet) (left : List UInt8)
    (frames : Frames (bytes ++ []) pkts left) : Waiting left := by
  obtain ⟨-, rfl⟩ := (frames_waiting waits).unique frames
  exact waits

theorem received_behind (bytes : List UInt8) {chunk : List UInt8} (size : 1 ≤ chunk.length ∧ chunk.length ≤ 8192)
    (script : List Recv) : bytes ++ received ((Recv.data chunk size :: script).takeWhile Recv.goesOn) =
      bytes ++ chunk ++ received (script.takeWhile Recv.goesOn) := by
  rw [takeWhile_on rfl, received, List.flatMap_cons, List.append_assoc]
  rfl

theorem reacted_data {bytes chunk left : List UInt8} {pkts : List Packet} (frames : Frames (bytes ++ chunk) pkts left)
    (size : 1 ≤ chunk.length ∧ chunk.length ≤ 8192) (script : List Recv) (delivered : List Packet) (final : Session) :
    Reacted (.data chunk size :: script) bytes delivered final ↔ Reacted script left (delivered ++ pkts) final := by
  have behind := received_behind bytes size script
  constructor
  · rintro ⟨⟨all, last, whole, got⟩, consumed, closed⟩
    rw [behind, frames.append_iff] at whole
    obtain ⟨later, rfl, rest⟩ := whole
    exact ⟨⟨later, last, rest, by rw [got, List.append_assoc]⟩, consumed, closed⟩
  · rintro ⟨⟨later, last, rest, got⟩, consumed, closed⟩
    refine ⟨⟨pkts ++ later, last, ?_, by rw [got, List.append_assoc]⟩, consumed, closed⟩
    rw [behind]
    exact frames.append rest

theorem reacted_interrupted (script : List Recv) (bytes : List UInt8) (delivered : List Packet) (final : Session) :
    Reacted (.interrupted :: script) bytes delivered final ↔ Reacted script bytes delivered final :=
  ⟨fun ⟨frames, consumed, closed⟩ => ⟨frames, consumed, closed⟩,
    fun ⟨frames, consumed, closed⟩ => ⟨frames, consumed, closed⟩⟩

theorem undisturbed_data {bytes chunk left : List UInt8} {pkts : List Packet} (frames : Frames (bytes ++ chunk) pkts left)
    (size : 1 ≤ chunk.length ∧ chunk.length ≤ 8192) (script : List Recv) (errno : Errno) :
    Undisturbed errno bytes (.data chunk size :: script) ↔ Waiting left ∧ Undisturbed errno left script := by
  have behind := received_behind bytes size script
  have block : (Recv.wouldBlock ∉ (Recv.data chunk size :: script).takeWhile Recv.goesOn) ↔
      Recv.wouldBlock ∉ script.takeWhile Recv.goesOn := by
    rw [takeWhile_on rfl]
    simp
  have stale : (Recv.interrupted ∉ (Recv.data chunk size :: script).takeWhile Recv.goesOn) ↔
      Recv.interrupted ∉ script.takeWhile Recv.goesOn := by
    rw [takeWhile_on rfl]
    simp
  constructor
  · rintro ⟨no_block, no_stale, readable⟩
    simp only [behind, frames.append_iff] at readable
    rw [block] at no_block
    rw [stale] at no_stale
    refine ⟨?_, no_block, no_stale, fun later last rest => readable _ last ⟨later, rfl, rest⟩⟩
    rcases frames.ends with waits | bad
    · exact waits
    · have worse := bad.append (received (script.takeWhile Recv.goesOn))
      exact absurd (readable _ _ ⟨[], rfl, .rest worse.no_frame⟩) worse.not_waiting
  · rintro ⟨-, no_block, no_stale, readable⟩
    refine ⟨block.mpr no_block, fun ends => ⟨(no_stale ends).1, stale.mpr (no_stale ends).2⟩, ?_⟩
    simp only [behind, frames.append_iff]
    rintro _ last ⟨later, rfl, rest⟩
    exact readable later last rest

theorem undisturbed_interrupted (errno : Errno) (bytes : List UInt8) (script : List Recv) :
    Undisturbed errno bytes (.interrupted :: script) ↔ Undisturbed .eintr bytes script := by
  constructor
  · rintro ⟨no_block, no_stale, readable⟩
    rw [takeWhile_on rfl] at no_block no_stale
    refine ⟨fun blocks => no_block (List.mem_cons_of_mem _ blocks), fun ends => ?_, readable⟩
    exact absurd List.mem_cons_self (no_stale ends).2
  · rintro ⟨no_block, no_stale, readable⟩
    refine ⟨?_, fun ends => absurd rfl (no_stale ends).1, readable⟩
    rw [takeWhile_on rfl]
    simpa using no_block

theorem ends_shorter {bytes : List UInt8} (waits : Waiting bytes) {script : List Recv} {errno : Errno}
    {delivered : List Packet} {calls : Nat} {final : Session}
    (ended : Session.Ends ⟨reading errno bytes delivered, script, calls⟩ final)
    (finished : final.reader.phase = .finished) : final.script.length < script.length := by
  induction script generalizing bytes errno delivered with
  | nil =>
      obtain rfl := (ends_blocked errno bytes delivered calls final).mp ended
      cases finished
  | cons recv script ih =>
      rw [List.length_cons]
      cases failed : recv.failed with
      | false =>
          cases recv with
          | data chunk size =>
              obtain ⟨pkts, left, frames, -⟩ := frames_exist (bytes ++ chunk)
              rw [ends_data waits size frames] at ended
              rcases ended with ⟨behind, later⟩ | ⟨-, rfl⟩
              · exact Nat.lt_succ_of_lt (ih behind later)
              · cases finished
          | _ => cases failed
      | true =>
          by_cases again : recv.errno errno = .eintr
          · rw [(goes_again failed again bytes delivered script calls).ends_iff] at ended
            exact Nat.lt_succ_of_lt (ih waits ended)
          · rw [ends_closed failed again] at ended
            subst ended
            exact Nat.lt_succ_self _

theorem reacts_at_end {recv : Recv} (ends : recv.goesOn = false) (failed : recv.failed = true) {errno : Errno}
    (closes : recv.errno errno ≠ .eintr) (calm : recv = .eof → errno ≠ .eintr) {bytes : List UInt8}
    (waits : Waiting bytes) (script : List Recv) (delivered : List Packet) :
    (∃ final, Session.Ends ⟨reading errno bytes delivered, recv :: script, 0⟩ final ∧
      Reacted (recv :: script) bytes delivered final) ∧ Undisturbed errno bytes (recv :: script) := by
  obtain ⟨before, behind⟩ := takeWhile_end ends script
  constructor
  · refine ⟨_, (ends_closed failed closes bytes delivered script 0 _).mpr rfl, ⟨[], bytes, ?_, ?_⟩, ?_, ?_⟩
    · rw [before]
      exact frames_waiting waits
    · simp [finishRead, reading]
    · rw [behind]
      rfl
    · simp [ends, finishRead]
  · refine ⟨by simp [before], fun front => ⟨?_, by simp [before]⟩, ?_⟩
    · rw [behind] at front
      exact calm (Option.some.inj front)
    · rw [before]
      exact readable_waiting waits

theorem all_of_dropWhile_tail {script : List Recv} (same : script = (script.dropWhile Recv.goesOn).tail) :
    script.all Recv.goesOn = true := by
  have length := congrArg List.length same
  have shorter := (List.dropWhile_sublist Recv.goesOn (l := script)).length_le
  rw [List.length_tail] at length
  have empty : script.length = 0 := by omega
  rw [List.length_eq_zero_iff.mp empty]
  rfl

theorem reacts_iff {bytes : List UInt8} (waits : Waiting bytes) (script : List Recv) (errno : Errno)
    (delivered : List Packet) :
    (∃ final, Session.Ends ⟨reading errno bytes delivered, script, 0⟩ final ∧ Reacted script bytes delivered final) ↔
      Undisturbed errno bytes script := by
  induction script generalizing bytes errno delivered with
  | nil =>
      simp only [ends_blocked, exists_eq_left]
      refine ⟨fun _ => ⟨by simp, by simp, readable_waiting waits⟩, fun _ => ⟨⟨[], bytes, frames_waiting waits, ?_⟩, rfl, ?_⟩⟩
      · simp [reading]
      · exact ⟨rfl, rfl, rfl⟩
  | cons recv script ih =>
      cases recv with
      | data chunk size =>
          obtain ⟨pkts, left, frames, -⟩ := frames_exist (bytes ++ chunk)
          simp only [ends_data waits size frames, reacted_data frames, undisturbed_data frames]
          constructor
          · rintro ⟨final, ⟨behind, ended⟩ | ⟨-, rfl⟩, reacted⟩
            · exact ⟨behind, (ih behind errno (delivered ++ pkts)).mp ⟨final, ended, reacted⟩⟩
            · have closed := reacted.closed
              split at closed <;> cases closed.1
          · rintro ⟨behind, undisturbed⟩
            obtain ⟨final, ended, reacted⟩ := (ih behind errno (delivered ++ pkts)).mpr undisturbed
            exact ⟨final, .inl ⟨behind, ended⟩, reacted⟩
      | interrupted =>
          have again : Recv.interrupted.errno errno = .eintr := rfl
          simp only [(goes_again rfl again bytes delivered script 0).ends_iff, reacted_interrupted,
            undisturbed_interrupted]
          exact ih waits .eintr delivered
      | wouldBlock =>
          have closes : Recv.wouldBlock.errno errno ≠ .eintr := by simp [Recv.errno]
          simp only [ends_closed rfl closes, exists_eq_left]
          constructor
          · intro reacted
            have all : script.all Recv.goesOn = true := all_of_dropWhile_tail reacted.consumed
            have closed := reacted.closed
            rw [if_pos (by exact all)] at closed
            cases closed.1
          · intro undisturbed
            exact absurd (by rw [takeWhile_on rfl]; exact List.mem_cons_self) undisturbed.no_block
      | eof =>
          by_cases stale : errno = .eintr
          · have again : Recv.eof.errno errno = .eintr := stale
            have behind : (Recv.eof :: script).dropWhile Recv.goesOn = .eof :: script := rfl
            simp only [(goes_again rfl again bytes delivered script 0).ends_iff]
            constructor
            · rintro ⟨final, ended, reacted⟩
              have consumed := reacted.consumed
              rw [behind, List.tail_cons] at consumed
              have shorter := ends_shorter waits ended reacted.closed.1
              rw [consumed] at shorter
              exact absurd shorter (Nat.lt_irrefl _)
            · intro undisturbed
              exact absurd stale (undisturbed.no_stale (by rw [behind]; rfl)).1
          · have closes : Recv.eof.errno errno ≠ .eintr := stale
            obtain ⟨reacts, undisturbed⟩ := reacts_at_end rfl rfl closes (fun _ => stale) waits script delivered
            exact ⟨fun _ => undisturbed, fun _ => reacts⟩
      | broken =>
          have closes : Recv.broken.errno errno ≠ .eintr := by simp [Recv.errno]
          obtain ⟨reacts, undisturbed⟩ := reacts_at_end rfl rfl closes (by simp) waits script delivered
          exact ⟨fun _ => undisturbed, fun _ => reacts⟩

theorem reactsOnlyToEnd_iff (script : List Recv) : ReactsOnlyToEnd script ↔ Undisturbed .zero [] script := by
  have start : Session.Goes { script } ⟨reading .zero [] [], script, 0⟩ := goes_top rfl rfl script 0
  rw [← reacts_iff (.inl (by decide)) script .zero []]
  constructor
  · rintro ⟨fuel, final, ended, reacted⟩
    exact ⟨final, (start.ends_iff final).mp ⟨fuel, ended⟩, reacted⟩
  · rintro ⟨final, ended, reacted⟩
    obtain ⟨fuel, run⟩ := (start.ends_iff final).mpr ended
    exact ⟨fuel, final, run, reacted⟩

theorem readLoop_misreads_errno :
    ¬ ReactsOnlyToEnd [.wouldBlock, .eof] ∧ ¬ ReactsOnlyToEnd [.interrupted, .eof] ∧
    Session.run 3 { script := [.wouldBlock, .eof] } =
      some ⟨{ alive := false, errno := .eagain, phase := .finished }, [.eof], 1⟩ ∧
    Session.run 6 { script := [.interrupted, .eof] } = some ⟨reading .eintr [] [], [], 0⟩ := by
  have blocked : Session.run 3 { script := [.wouldBlock, .eof] } =
      some ⟨{ alive := false, errno := .eagain, phase := .finished }, [.eof], 1⟩ := rfl
  have interrupted : Session.run 6 { script := [.interrupted, .eof] } = some ⟨reading .eintr [] [], [], 0⟩ := rfl
  refine ⟨?_, ?_, blocked, interrupted⟩
  · rintro ⟨fuel, final, ended, reacted⟩
    obtain rfl := loop_agree ended blocked
    cases reacted.consumed
  · rintro ⟨fuel, final, ended, reacted⟩
    obtain rfl := loop_agree ended interrupted
    cases reacted.closed.1

end TcpConnection

end ServerFramework.Tcp
