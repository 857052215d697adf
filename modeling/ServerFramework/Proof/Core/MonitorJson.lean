import ServerFramework.Core.MonitorJson
import ServerFramework.Proof.Base.ConfigOverflow
import ServerFramework.Proof.Base.JsonLayout

namespace ServerFramework.Core.Monitor
open Base

/-! ## The document of a snapshot -/

/-- A number of the status document; `total_logs` is not in it. -/
inductive Field
  | timestamp
  | alive
  | total
  | peak
  | taskQueueLength
  | active
  | threads
  | sent
  | recv
  | error
  | bytesSent
  | bytesRecv
  | rssKb
  | peakRssKb
  deriving DecidableEq, Repr

def Field.value (s : MonitorStats) : Field → Int
  | .timestamp => s.timestamp
  | .alive => s.connectionsAlive
  | .total => s.connectionsTotal
  | .peak => s.connectionsPeak
  | .taskQueueLength => s.taskQueueLength
  | .active => s.threadpoolActive
  | .threads => s.threadpoolTotal
  | .sent => s.msgsSent.toNat
  | .recv => s.msgsRecv.toNat
  | .error => s.msgsError.toNat
  | .bytesSent => s.bytesSent.toNat
  | .bytesRecv => s.bytesRecv.toNat
  | .rssKb => s.memoryRssKb
  | .peakRssKb => s.memoryPeakRssKb

def Field.keys : Field → List Text
  | .timestamp => ["timestamp".toList]
  | .alive => ["connections".toList, "alive".toList]
  | .total => ["connections".toList, "total".toList]
  | .peak => ["connections".toList, "peak".toList]
  | .taskQueueLength => ["task_queue_length".toList]
  | .active => ["threadpool".toList, "active".toList]
  | .threads => ["threadpool".toList, "total".toList]
  | .sent => ["messages".toList, "sent".toList]
  | .recv => ["messages".toList, "recv".toList]
  | .error => ["messages".toList, "error".toList]
  | .bytesSent => ["bytes".toList, "sent".toList]
  | .bytesRecv => ["bytes".toList, "recv".toList]
  | .rssKb => ["memory".toList, "rss_kb".toList]
  | .peakRssKb => ["memory".toList, "peak_rss_kb".toList]

def Field.path (field : Field) : Text := joined field.keys

def number (s : MonitorStats) (field : Field) : Json := .int (field.value s)

def group (s : MonitorStats) (fields : List (Text × Field)) : Json := .object (fields.map fun m => (m.1, number s m.2))

def document (s : MonitorStats) : List (Text × Json) :=
  [("timestamp".toList, number s .timestamp),
    ("connections".toList, group s [("alive".toList, .alive), ("total".toList, .total), ("peak".toList, .peak)]),
    ("task_queue_length".toList, number s .taskQueueLength),
    ("threadpool".toList, group s [("active".toList, .active), ("total".toList, .threads)]),
    ("messages".toList, group s [("sent".toList, .sent), ("recv".toList, .recv), ("error".toList, .error)]),
    ("bytes".toList, group s [("sent".toList, .bytesSent), ("recv".toList, .bytesRecv)]),
    ("memory".toList, group s [("rss_kb".toList, .rssKb), ("peak_rss_kb".toList, .peakRssKb)])]

theorem jsonWrites_lines (s : MonitorStats) :
    (jsonWrites s).map String.toList = Json.lines 0 [] [] (.object (document s)) := by
  simp only [jsonWrites, document, group, number, Field.value, Json.lines, Json.memberLines, List.map_cons, List.map_nil,
    List.cons_append, List.nil_append, String.toList_append]
  rfl

theorem group_simple (s : MonitorStats) {fields : List (Text × Field)} (keys : ∀ m ∈ fields, Ordinary m.1) :
    (group s fields).Simple :=
  .object (List.forall_mem_map.mpr keys) (List.forall_mem_map.mpr fun m _ => .int (m.2.value s))

theorem document_simple (s : MonitorStats) : (Json.object (document s)).Simple := by
  refine .object ?_ ?_
  · simp only [document, List.forall_mem_cons]
    decide
  · simp only [document, List.forall_mem_cons]
    exact ⟨.int _, group_simple s (by decide), .int _, group_simple s (by decide), group_simple s (by decide),
      group_simple s (by decide), group_simple s (by decide), fun _ none_left => absurd none_left List.not_mem_nil⟩

theorem toJson_renders (m : Monitor) (tick : UInt64) :
    RendersText (m.toJson tick) (.object (document (m.snapshot tick))) := by
  obtain ⟨body, rendered, same⟩ := (document_simple (m.snapshot tick)).lays 0 [] []
  rw [← jsonWrites_lines] at same
  have nothing : Blank [] := by simp [Blank]
  exact ⟨[], body, [], nothing, nothing, rendered, same⟩

/-! ## Reading it back -/

theorem group_proper {s : MonitorStats} (fits : ∀ field : Field, Fits 64 (field.value s)) {fields : List (Text × Field)}
    (keys : ∀ m ∈ fields, m.1 ≠ [] ∧ '.' ∉ m.1) (distinct : (fields.map Prod.fst).Nodup) : (group s fields).Proper := by
  refine .object (List.forall_mem_map.mpr keys) ?_ (List.forall_mem_map.mpr fun m _ => .int (fits m.2))
  rw [List.map_map]
  exact distinct

theorem document_proper {s : MonitorStats} (fits : ∀ field : Field, Fits 64 (field.value s)) :
    (Json.object (document s)).Proper := by
  refine .object ?_ ?_ ?_
  · simp only [document, List.forall_mem_cons]
    decide
  · simp only [document, List.map_cons, List.map_nil]
    decide
  · simp only [document, List.forall_mem_cons]
    exact ⟨.int (fits _), group_proper fits (by decide) (by decide), .int (fits _),
      group_proper fits (by decide) (by decide), group_proper fits (by decide) (by decide),
      group_proper fits (by decide) (by decide), group_proper fits (by decide) (by decide),
      fun _ none_left => absurd none_left List.not_mem_nil⟩

theorem document_find (s : MonitorStats) (field : Field) :
    (Json.object (document s)).find field.keys = some (number s field) := by
  cases field with
  | _ => rfl

theorem keys_plain (field : Field) : field.keys ≠ [] ∧ ∀ key ∈ field.keys, key ≠ [] ∧ '.' ∉ key := by
  cases field with
  | _ => decide

theorem document_fits {s : MonitorStats} (fitting : (Json.object (document s)).Fitting) (field : Field) :
    Fits 64 (field.value s) := by
  cases fitting.find (document_find s field) with
  | int fits => exact fits

/-- The status document is one of integers in any state, and the framework's own loader reads each of them back if all
of them fit into an `int64_t`; otherwise it throws. -/
theorem status_reads_back {δ : Type} (n₀ c₀ : Char) (stod : Text → Except StdException δ) (m : Monitor) (tick : UInt64) :
    RendersText (m.toJson tick) (.object (document (m.snapshot tick))) ∧
    ((∀ field : Field, Fits 64 (field.value (m.snapshot tick))) →
      ∃ root, Loads n₀ c₀ stod (m.toJson tick) root ∧ ∀ field : Field,
        ∃ node, Config.get root field.path = some node ∧ node.value = some (.int64 (field.value (m.snapshot tick)))) ∧
    ((∃ field : Field, ¬ Fits 64 (field.value (m.snapshot tick))) →
      Overflows n₀ c₀ stod (m.toJson tick)) := by
  have rendered := toJson_renders m tick
  refine ⟨rendered, fun fits => ?_, fun large => ?_⟩
  · have proper := document_proper fits
    refine ⟨_, loads_members n₀ c₀ stod proper.fitting proper.named rendered, fun field => ?_⟩
    obtain ⟨nonempty, keys⟩ := keys_plain field
    refine ⟨(number (m.snapshot tick) field).node, ?_, rfl⟩
    rw [Config.get, Field.path, getFrom_joined keys _ (Nat.le_refl _), follow_root proper nonempty, document_find]
    rfl
  · obtain ⟨field, large⟩ := large
    exact overflows_of_renders n₀ c₀ stod rendered fun fitting => large (document_fits fitting field)

end ServerFramework.Core.Monitor
