import ServerFramework.Proof.Core.MonitorPeaks

namespace ServerFramework.Core
open Library

theorem int32_of_small {x : Int} (lower : -2 ^ 31 ≤ x) (upper : x < 2 ^ 31) : int32 x = x :=
  Int.bmod_eq_of_le (by omega) (by omega)

theorem int32_overflow : int32 (2 ^ 31 - 1 + 1) = -2 ^ 31 := by decide

namespace Monitor

def Call.connects : Call → Bool
  | .onConnect _ => true
  | _ => false

def Call.disconnects : Call → Bool
  | .onDisconnect => true
  | _ => false

def opened (calls : List Call) : Nat := calls.countP Call.connects

def closed (calls : List Call) : Nat := calls.countP Call.disconnects

def Matched (calls : List Call) : Prop := ∀ n ≤ calls.length, closed (calls.take n) ≤ opened (calls.take n)

instance (calls : List Call) : Decidable (Matched calls) := inferInstanceAs (Decidable (∀ n ≤ _, _))

/-- What `snapshot` shows behind these calls: the peak is the largest value that the connections alive have had. -/
structure PeakIsPeak (calls : List Call) (stats : MonitorStats) : Prop where
  greatest : IsGreatest {alive | ∃ k, (after (calls.take k)).connectionsAlive = alive} stats.connectionsPeak
  aliveBelow : stats.connectionsAlive ≤ stats.connectionsPeak
  peakBelow : stats.connectionsPeak ≤ stats.connectionsTotal

/-- No connection has gone yet, and one more can be counted. -/
def FirstWave (m : Monitor) : Prop :=
  m.connectionsAlive = m.connectionsTotal ∧ m.connectionsTotal < 2 ^ 31 - 1

instance (m : Monitor) : Decidable (FirstWave m) := inferInstanceAs (Decidable (_ ∧ _))

@[simp]
theorem snapshot_alive (m : Monitor) (tick : UInt64) : (m.snapshot tick).connectionsAlive = m.connectionsAlive := rfl

@[simp]
theorem snapshot_total (m : Monitor) (tick : UInt64) : (m.snapshot tick).connectionsTotal = m.connectionsTotal := rfl

@[simp]
theorem snapshot_peak (m : Monitor) (tick : UInt64) : (m.snapshot tick).connectionsPeak = m.connectionsPeak.value := rfl

/-! ## One more call -/

section Connect

variable (m : Monitor) (spurious : Nat)

@[simp]
theorem connect_alive : (m.call (.onConnect spurious)).connectionsAlive = int32 (m.connectionsAlive + 1) := rfl

@[simp]
theorem connect_total : (m.call (.onConnect spurious)).connectionsTotal = int32 (m.connectionsTotal + 1) := rfl

@[simp]
theorem connect_peak : (m.call (.onConnect spurious)).connectionsPeak.value =
    max m.connectionsPeak.value (int32 (m.connectionsTotal + 1)) :=
  Atomic.raise_value _ spurious m.connectionsPeak

end Connect

theorem after_snoc (calls : List Call) (c : Call) : after (calls ++ [c]) = (after calls).call c := by
  rw [after, List.foldl_append]
  rfl

theorem alive_snoc {calls : List Call} {c : Call} {x : Int} :
    (∃ k, (after ((calls ++ [c]).take k)).connectionsAlive = x) ↔
      (∃ k, (after (calls.take k)).connectionsAlive = x) ∨ ((after calls).call c).connectionsAlive = x := by
  constructor
  · rintro ⟨k, reached⟩
    by_cases inside : k ≤ calls.length
    · rw [List.take_append_of_le_length inside] at reached
      exact .inl ⟨k, reached⟩
    · rw [List.take_of_length_le (by simp; omega), after_snoc] at reached
      exact .inr reached
  · rintro (⟨k, reached⟩ | last)
    · refine ⟨min k calls.length, ?_⟩
      rw [List.take_append_of_le_length (Nat.min_le_right _ _), ← reached]
      by_cases inside : k ≤ calls.length
      · rw [Nat.min_eq_left inside]
      · rw [Nat.min_eq_right (by omega), List.take_length, List.take_of_length_le (by omega)]
    · refine ⟨calls.length + 1, ?_⟩
      rw [List.take_of_length_le (by simp), after_snoc]
      exact last

theorem call_other {m : Monitor} {c : Call} (quiet : c.connects = false) (still : c.disconnects = false) :
    (m.call c).connectionsAlive = m.connectionsAlive ∧ (m.call c).connectionsTotal = m.connectionsTotal ∧
      (m.call c).connectionsPeak = m.connectionsPeak := by
  cases c with
  | onConnect spurious => cases quiet
  | onDisconnect => cases still
  | refresh usage spurious => cases usage <;> exact ⟨rfl, rfl, rfl⟩
  | _ => exact ⟨rfl, rfl, rfl⟩

structure Wave (calls : List Call) : Prop where
  alive : (after calls).connectionsAlive = opened calls - closed calls
  total : (after calls).connectionsTotal = opened calls
  peak : (after calls).connectionsPeak.value = opened calls
  bound : opened calls ≤ 2 ^ 31 - 1
  matched : closed calls ≤ opened calls
  greatest : IsGreatest {alive | ∃ k, (after (calls.take k)).connectionsAlive = alive} (opened calls : Int)

theorem wave_nil : Wave [] := by
  refine ⟨rfl, rfl, rfl, by decide, le_rfl, ⟨0, rfl⟩, ?_⟩
  rintro alive ⟨k, rfl⟩
  rw [List.take_nil]
  exact le_rfl

theorem Wave.holds {calls : List Call} (wave : Wave calls) (tick : UInt64) :
    PeakIsPeak calls ((after calls).snapshot tick) := by
  have alive := wave.alive
  have total := wave.total
  have peak := wave.peak
  have matched := wave.matched
  refine ⟨?_, ?_, ?_⟩
  · rw [snapshot_peak, peak]
    exact wave.greatest
  · rw [snapshot_alive, snapshot_peak, peak, alive]
    omega
  · rw [snapshot_peak, snapshot_total, peak, total]

theorem Wave.connect {calls : List Call} (wave : Wave calls) (first : FirstWave (after calls)) (spurious : Nat) :
    Wave (calls ++ [.onConnect spurious]) := by
  have opens : opened (calls ++ [.onConnect spurious]) = opened calls + 1 := by simp [opened, Call.connects]
  have closes : closed (calls ++ [.onConnect spurious]) = closed calls := by simp [closed, Call.disconnects]
  obtain ⟨full, room⟩ := first
  rw [wave.total] at room
  rw [wave.total, wave.alive] at full
  have none_closed : closed calls = 0 := by omega
  have counted : int32 ((opened calls : Int) + 1) = (opened calls : Int) + 1 := int32_of_small (by omega) (by omega)
  have alive : ((after calls).call (.onConnect spurious)).connectionsAlive = opened calls + 1 := by
    rw [connect_alive, wave.alive, none_closed]
    simpa using counted
  have total : ((after calls).call (.onConnect spurious)).connectionsTotal = opened calls + 1 := by
    rw [connect_total, wave.total, counted]
  have peak : ((after calls).call (.onConnect spurious)).connectionsPeak.value = opened calls + 1 := by
    rw [connect_peak, wave.total, wave.peak, counted]
    omega
  refine ⟨?_, ?_, ?_, ?_, ?_, ?_, ?_⟩
  · rw [after_snoc, alive, opens, closes, none_closed]
    omega
  · rw [after_snoc, total, opens]
    omega
  · rw [after_snoc, peak, opens]
    omega
  · rw [opens]
    omega
  · rw [opens, closes]
    omega
  · rw [Set.mem_ofPred, alive_snoc, opens]
    exact .inr alive
  · intro x reached
    rw [opens]
    rcases alive_snoc.mp reached with old | last
    · have below := wave.greatest.2 old
      omega
    · rw [← last, alive]
      omega

theorem Wave.disconnect {calls : List Call} (wave : Wave calls)
    (matched : closed (calls ++ [.onDisconnect]) ≤ opened (calls ++ [.onDisconnect])) :
    Wave (calls ++ [.onDisconnect]) := by
  have opens : opened (calls ++ [.onDisconnect]) = opened calls := by simp [opened, Call.connects]
  have closes : closed (calls ++ [.onDisconnect]) = closed calls + 1 := by simp [closed, Call.disconnects]
  rw [opens, closes] at matched
  have bound := wave.bound
  have alive : ((after calls).call .onDisconnect).connectionsAlive = (opened calls : Int) - closed calls - 1 := by
    simp only [call, onDisconnect, wave.alive]
    exact int32_of_small (by omega) (by omega)
  refine ⟨?_, ?_, ?_, ?_, ?_, ?_, ?_⟩
  · rw [after_snoc, alive, opens, closes]
    omega
  · rw [after_snoc, opens]
    exact wave.total
  · rw [after_snoc, opens]
    exact wave.peak
  · rw [opens]
    exact bound
  · rw [opens, closes]
    exact matched
  · rw [Set.mem_ofPred, alive_snoc, opens]
    exact .inl wave.greatest.1
  · intro x reached
    rw [opens]
    rcases alive_snoc.mp reached with old | last
    · exact wave.greatest.2 old
    · rw [← last, alive]
      omega

theorem Wave.other {calls : List Call} {c : Call} (wave : Wave calls) (quiet : c.connects = false)
    (still : c.disconnects = false) : Wave (calls ++ [c]) := by
  have opens : opened (calls ++ [c]) = opened calls := by simp [opened, quiet]
  have closes : closed (calls ++ [c]) = closed calls := by simp [closed, still]
  obtain ⟨alive, total, peak⟩ := @call_other (after calls) c quiet still
  refine ⟨?_, ?_, ?_, ?_, ?_, ?_, ?_⟩
  · rw [after_snoc, alive, opens, closes]
    exact wave.alive
  · rw [after_snoc, total, opens]
    exact wave.total
  · rw [after_snoc, peak, opens]
    exact wave.peak
  · rw [opens]
    exact wave.bound
  · rw [opens, closes]
    exact wave.matched
  · rw [Set.mem_ofPred, alive_snoc, opens]
    exact .inl wave.greatest.1
  · intro x reached
    rw [opens]
    rcases alive_snoc.mp reached with old | last
    · exact wave.greatest.2 old
    · rw [← last, alive]
      exact wave.greatest.2 ⟨calls.length, by rw [List.take_length]⟩

theorem Wave.snoc {calls : List Call} {c : Call} (wave : Wave calls)
    (matched : closed (calls ++ [c]) ≤ opened (calls ++ [c])) (first : c.connects → FirstWave (after calls)) :
    Wave (calls ++ [c]) := by
  by_cases connects : c.connects
  · cases c with
    | onConnect spurious => exact wave.connect (first connects) spurious
    | _ => cases connects
  · by_cases disconnects : c.disconnects
    · cases c with
      | onDisconnect => exact wave.disconnect matched
      | _ => cases disconnects
    · exact wave.other (by simpa using connects) (by simpa using disconnects)

/-- A connect outside the first wave takes `connections_peak_` past every value there was. -/
theorem Wave.visible {calls : List Call} {spurious : Nat} {tick : UInt64} (wave : Wave calls)
    (holds : PeakIsPeak (calls ++ [.onConnect spurious]) ((after (calls ++ [.onConnect spurious])).snapshot tick)) :
    FirstWave (after calls) := by
  have bound := wave.bound
  have matched := wave.matched
  have below := holds.peakBelow
  have greatest := holds.greatest.1
  rw [after_snoc, snapshot_peak, snapshot_total, connect_peak, connect_total, wave.total, wave.peak] at below
  rw [after_snoc, snapshot_peak, connect_peak, wave.total, wave.peak] at greatest
  by_cases room : opened calls < 2 ^ 31 - 1
  · have counted : int32 ((opened calls : Int) + 1) = (opened calls : Int) + 1 := int32_of_small (by omega) (by omega)
    rw [counted, max_eq_right (by omega)] at greatest
    refine ⟨?_, by rw [wave.total]; omega⟩
    rcases alive_snoc.mp greatest with old | last
    · have above := wave.greatest.2 old
      omega
    · rw [connect_alive, wave.alive, int32_of_small (by omega) (by omega)] at last
      rw [wave.alive, wave.total]
      omega
  · have full : (opened calls : Int) = 2 ^ 31 - 1 := by omega
    rw [full, int32_overflow] at below
    exact absurd below (by decide)

/-! ## Whole runs -/

theorem peak_is_peak_iff (calls : List Call) (matched : Matched calls) :
    (∀ n tick, PeakIsPeak (calls.take n) ((after (calls.take n)).snapshot tick)) ↔
      ∀ n spurious, calls[n]? = some (.onConnect spurious) → FirstWave (after (calls.take n)) := by
  have one_more (n : Nat) (wave : Wave (calls.take n))
      (first : ∀ spurious, calls[n]? = some (.onConnect spurious) → FirstWave (after (calls.take n))) :
      Wave (calls.take (n + 1)) := by
    cases here : calls[n]? with
    | none => rwa [List.take_add_one, here, Option.toList_none, List.append_nil]
    | some c =>
        have known := matched (n + 1) (List.getElem?_eq_some_iff.mp here).1
        rw [List.take_add_one, here, Option.toList_some] at known ⊢
        apply wave.snoc known
        intro connects
        cases c with
        | onConnect spurious => exact first spurious here
        | _ => cases connects
  constructor
  · intro holds
    have visible (n spurious : Nat) (wave : Wave (calls.take n)) (here : calls[n]? = some (.onConnect spurious)) :
        FirstWave (after (calls.take n)) := by
      have next := holds (n + 1) 0
      rw [List.take_add_one, here, Option.toList_some] at next
      exact wave.visible next
    have waves (n : Nat) : Wave (calls.take n) := by
      induction n with
      | zero => exact wave_nil
      | succ n ih => exact one_more n ih fun spurious => visible n spurious ih
    exact fun n spurious => visible n spurious (waves n)
  · intro first n tick
    have wave : Wave (calls.take n) := by
      induction n with
      | zero => exact wave_nil
      | succ n ih => exact one_more n ih (first n)
    exact wave.holds tick

theorem one_wave_peak :
    PeakIsPeak [.onConnect 2, .onConnect 0, .onDisconnect, .onMsgSent 5]
      ((after [.onConnect 2, .onConnect 0, .onDisconnect, .onMsgSent 5]).snapshot 9) := by
  refine (peak_is_peak_iff [.onConnect 2, .onConnect 0, .onDisconnect, .onMsgSent 5] (by decide)).mpr ?_ 4 9
  intro n spurious here
  rcases n with _ | _ | _ | _ | n
  · decide
  · decide
  · cases here
  · cases here
  · cases here

theorem reconnect_raises_peak :
    Matched [.onConnect 0, .onDisconnect, .onConnect 0] ∧
    (∀ k, (after (([.onConnect 0, .onDisconnect, .onConnect 0] : List Call).take k)).connectionsAlive ≤ 1) ∧
    ((after [.onConnect 0, .onDisconnect, .onConnect 0]).snapshot 0).connectionsPeak = 2 ∧
    ¬ PeakIsPeak [.onConnect 0, .onDisconnect, .onConnect 0]
      ((after [.onConnect 0, .onDisconnect, .onConnect 0]).snapshot 0) := by
  have low : ∀ k, (after (([.onConnect 0, .onDisconnect, .onConnect 0] : List Call).take k)).connectionsAlive ≤ 1 := by
    intro k
    rcases k with _ | _ | _ | k
    · decide
    · decide
    · decide
    · rw [List.take_of_length_le (by simp)]
      decide
  refine ⟨by decide, low, by decide, ?_⟩
  intro holds
  obtain ⟨k, reached⟩ := holds.greatest.1
  have bound := low k
  rw [reached] at bound
  exact absurd bound (by decide)

end Monitor

end ServerFramework.Core
