import ServerFramework.Proof.Network.Parsers

namespace ServerFramework.Tcp
open Protocol Bytes Library

/-! ## The parsing loop -/

section
variable {μ : Type} {parse : List UInt8 → Except Fault (Option (μ × List UInt8))} {r : ReadSide μ}

theorem parseRound_none (waits : parse r.readBuf = .ok none) : r.parseRound parse = .inr { r with phase := .top } := by
  simp [ReadSide.parseRound, ReadSide.parsed, waits]

theorem parseRound_fault {fault : Fault} (outside : parse r.readBuf = .error fault) :
    r.parseRound parse = .inr { r with phase := .crashed } := by
  simp [ReadSide.parseRound, ReadSide.parsed, outside]

theorem parseRound_some (parsing : r.phase = .parsing) {msg : μ} {rest : List UInt8}
    (found : parse r.readBuf = .ok (some (msg, rest))) :
    r.parseRound parse = .inl { r with readBuf := rest, delivered := r.delivered ++ [msg] } := by
  simp [ReadSide.parseRound, ReadSide.parsed, found, parsing]

end

/-! ## Both parsers on one buffer -/

def Agree (client : ReadSide (List UInt8)) (server : ReadSide Packet) : Prop :=
  ∃ fuel c s, client.parseAll TcpClient.parseMessage fuel = some c ∧
    server.parseAll TcpConnection.processRead fuel = some s ∧ c.phase = .top ∧ s.phase = .top ∧
    c.delivered = s.delivered.map Packet.data ∧ c.readBuf = s.readBuf

def ParsersAgree (buf : List UInt8) : Prop :=
  Agree { readBuf := buf, phase := .parsing } { readBuf := buf, phase := .parsing }

/-- The buffer is cut into pieces by length fields from 6 on, up to fewer than four bytes or a piece that
is not there as a whole. A length field from 1 to 5 only passes with four gigabytes behind it. -/
inductive Framed : List UInt8 → Prop
  | short {buf : List UInt8} (short : buf.length < 4) : Framed buf
  | wait {buf : List UInt8} (enough : 4 ≤ buf.length) (missing : buf.length < (lengthField buf).toNat) : Framed buf
  | frame {buf : List UInt8} (six : 6 ≤ (lengthField buf).toNat) (whole : (lengthField buf).toNat ≤ buf.length)
      (rest : Framed (buf.drop (lengthField buf).toNat)) : Framed buf
  | wrapped {buf : List UInt8} (positive : 0 < (lengthField buf).toNat) (small : (lengthField buf).toNat < 6)
      (huge : 2 ^ 32 + (lengthField buf).toNat ≤ buf.length)
      (rest : Framed (buf.drop (lengthField buf).toNat)) : Framed buf

theorem parseMessage_wait {buf : List UInt8} (enough : 4 ≤ buf.length)
    (missing : buf.length < (lengthField buf).toNat) : TcpClient.parseMessage buf = .ok none := by
  rw [parseMessage_long enough, if_pos missing]

theorem parseMessage_inside {buf : List UInt8} (enough : 4 ≤ buf.length)
    (whole : (lengthField buf).toNat ≤ buf.length) (inside : 6 + (lengthField buf - 6).toNat ≤ buf.length) :
    TcpClient.parseMessage buf = .ok (some ((buf.drop 6).take (lengthField buf - 6).toNat,
      buf.drop (lengthField buf).toNat)) := by
  rw [parseMessage_long enough, if_neg (Nat.not_lt.mpr whole), memcpy_inside inside]
  rfl

theorem parseMessage_outside {buf : List UInt8} (enough : 4 ≤ buf.length)
    (whole : (lengthField buf).toNat ≤ buf.length) (outside : ¬ 6 + (lengthField buf - 6).toNat ≤ buf.length) :
    TcpClient.parseMessage buf = .error .outOfBounds := by
  rw [parseMessage_long enough, if_neg (Nat.not_lt.mpr whole), memcpy_outside outside]
  rfl

theorem processRead_inside {buf : List UInt8} (enough : 4 + 2 ≤ buf.length) (positive : 0 < (lengthField buf).toNat)
    (whole : (lengthField buf).toNat ≤ buf.length) (inside : 6 + (lengthField buf - 6).toNat ≤ buf.length) :
    ∃ cmd, TcpConnection.processRead buf = .ok (some (⟨cmd, (buf.drop 6).take (lengthField buf - 6).toNat⟩,
      buf.drop (lengthField buf).toNat)) := by
  have nonzero : lengthField buf ≠ 0 := fun zero => by simp [zero] at positive
  rw [TcpConnection.processRead, decodeFrom_inside enough nonzero whole inside]
  exact ⟨_, rfl⟩

theorem processRead_none {buf : List UInt8} (waits : decodeFrom buf = .ok none) :
    TcpConnection.processRead buf = .ok none := by
  rw [TcpConnection.processRead, waits]
  rfl

structure SameRound (client : ReadSide (List UInt8)) (server : ReadSide Packet) (buf : List UInt8) : Prop where
  parsing : client.phase = .parsing ∧ server.phase = .parsing
  buffers : client.readBuf = buf ∧ server.readBuf = buf
  payloads : client.delivered = server.delivered.map Packet.data

theorem agree_of_none {client : ReadSide (List UInt8)} {server : ReadSide Packet} {buf : List UInt8}
    (same : SameRound client server buf) (left : TcpClient.parseMessage buf = .ok none)
    (right : TcpConnection.processRead buf = .ok none) : Agree client server := by
  rw [← same.buffers.1] at left
  rw [← same.buffers.2] at right
  refine ⟨1, { client with phase := .top }, { server with phase := .top }, ?_, ?_, rfl, rfl, same.payloads, ?_⟩
  · rw [ReadSide.parseAll, loop, parseRound_none left]
  · rw [ReadSide.parseAll, loop, parseRound_none right]
  · exact same.buffers.1.trans same.buffers.2.symm

theorem agree_of_some {client : ReadSide (List UInt8)} {server : ReadSide Packet} {buf data rest : List UInt8}
    {cmd : UInt16} (same : SameRound client server buf) (left : TcpClient.parseMessage buf = .ok (some (data, rest)))
    (right : TcpConnection.processRead buf = .ok (some (⟨cmd, data⟩, rest)))
    (later : ∀ {c s}, SameRound c s rest → Agree c s) : Agree client server := by
  rw [← same.buffers.1] at left
  rw [← same.buffers.2] at right
  have next : SameRound { client with readBuf := rest, delivered := client.delivered ++ [data] }
      { server with readBuf := rest, delivered := server.delivered ++ [⟨cmd, data⟩] } rest :=
    ⟨same.parsing, ⟨rfl, rfl⟩, by simp [same.payloads]⟩
  obtain ⟨fuel, c, s, ended, ended', agreed⟩ := later next
  refine ⟨fuel + 1, c, s, ?_, ?_, agreed⟩
  · rw [ReadSide.parseAll, loop, parseRound_some same.parsing.1 left]
    exact ended
  · rw [ReadSide.parseAll, loop, parseRound_some same.parsing.2 right]
    exact ended'

theorem agree_of_framed {buf : List UInt8} (framed : Framed buf) {client : ReadSide (List UInt8)}
    {server : ReadSide Packet} (same : SameRound client server buf) : Agree client server := by
  induction framed generalizing client server with
  | short short =>
      exact agree_of_none same (parseMessage_short short) (processRead_none (decodeFrom_short short))
  | wait enough missing =>
      exact agree_of_none same (parseMessage_wait enough missing) (processRead_none (decodeFrom_wait enough missing))
  | frame six whole _ ih =>
      have inside := sub_six_toNat six
      obtain ⟨cmd, right⟩ := processRead_inside (by omega) (by omega) whole (by omega)
      exact agree_of_some same (parseMessage_inside (by omega) whole (by omega)) right ih
  | wrapped positive small huge _ ih =>
      have inside := sub_six_wrapped small
      obtain ⟨cmd, right⟩ := processRead_inside (by omega) positive (by omega) (by omega)
      exact agree_of_some same (parseMessage_inside (by omega) (by omega) (by omega)) right ih

/-- The client's loop only stops on a framed buffer: a length field of 0 takes nothing off it. -/
theorem framed_of_stops {client c : ReadSide (List UInt8)} {fuel : Nat} (parsing : client.phase = .parsing)
    (stops : client.parseAll TcpClient.parseMessage fuel = some c) (outside : c.phase = .top) :
    Framed client.readBuf := by
  induction fuel generalizing client with
  | zero => cases stops
  | succ fuel ih =>
      rw [ReadSide.parseAll, loop] at stops
      by_cases short : client.readBuf.length < 4
      · exact .short short
      have enough : 4 ≤ client.readBuf.length := Nat.le_of_not_lt short
      by_cases missing : client.readBuf.length < (lengthField client.readBuf).toNat
      · exact .wait enough missing
      have whole : (lengthField client.readBuf).toNat ≤ client.readBuf.length := Nat.le_of_not_lt missing
      by_cases inside : 6 + (lengthField client.readBuf - 6).toNat ≤ client.readBuf.length
      · rw [parseRound_some parsing (parseMessage_inside enough whole inside)] at stops
        have later : ReadSide.parseAll TcpClient.parseMessage fuel { client with
            readBuf := client.readBuf.drop (lengthField client.readBuf).toNat
            delivered := client.delivered ++ [(client.readBuf.drop 6).take (lengthField client.readBuf - 6).toNat] } =
          some c := stops
        have rest : Framed (client.readBuf.drop (lengthField client.readBuf).toNat) := ih (by exact parsing) later
        by_cases six : 6 ≤ (lengthField client.readBuf).toNat
        · exact .frame six whole rest
        have wraps := sub_six_wrapped (Nat.lt_of_not_le six)
        cases field : (lengthField client.readBuf).toNat with
        | zero =>
            rw [field] at rest
            exact rest
        | succ n => exact .wrapped (by omega) (Nat.lt_of_not_le six) (by omega) rest
      · rw [parseRound_fault (parseMessage_outside enough whole inside)] at stops
        obtain rfl := Option.some.inj stops
        cases outside

theorem parsersAgree_iff (buf : List UInt8) : ParsersAgree buf ↔ Framed buf := by
  constructor
  · rintro ⟨fuel, c, s, stops, -, outside, -⟩
    exact framed_of_stops rfl stops outside
  · intro framed
    exact agree_of_framed framed ⟨⟨rfl, rfl⟩, ⟨rfl, rfl⟩, rfl⟩

/-- Four zero bytes: the server waits, the client copies four gigabytes from behind the buffer. -/
theorem parsers_differ_on_zero_length :
    ¬ ParsersAgree [0, 0, 0, 0] ∧
    ReadSide.parseAll TcpConnection.processRead 1 { readBuf := [0, 0, 0, 0], phase := .parsing } =
      some { readBuf := [0, 0, 0, 0] } ∧
    ReadSide.parseAll TcpClient.parseMessage 1 { readBuf := [0, 0, 0, 0], phase := .parsing } =
      some { readBuf := [0, 0, 0, 0], phase := .crashed } := by
  have four : 4 ≤ ([0, 0, 0, 0] : List UInt8).length := Nat.le_refl 4
  have field : lengthField [0, 0, 0, 0] = 0 := by rw [lengthField]; rfl
  have client : ReadSide.parseAll TcpClient.parseMessage 1 { readBuf := [0, 0, 0, 0], phase := .parsing } =
      some { readBuf := [0, 0, 0, 0], phase := .crashed } := by
    have outside : TcpClient.parseMessage [0, 0, 0, 0] = .error .outOfBounds :=
      parseMessage_outside four (by rw [field]; exact Nat.zero_le _)
        (by rw [field]; decide)
    rw [ReadSide.parseAll, loop, parseRound_fault outside]
  refine ⟨?_, ?_, client⟩
  · rintro ⟨fuel, c, s, stops, -, outside, -⟩
    have same := loop_agree client stops
    rw [← same] at outside
    cases outside
  · have waits := processRead_none (decodeFrom_zero four field)
    rw [ReadSide.parseAll, loop, parseRound_none waits]

end ServerFramework.Tcp
