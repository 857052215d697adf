import ServerFramework.Db.ConnectionPool

namespace ServerFramework.Db
open Library

namespace ConnectionPool

theorem getConnection_length (pool : ConnectionPool) :
    pool.getConnection.2.freeList.length + pool.getConnection.1.toList.length = pool.freeList.length := by
  unfold getConnection
  split <;> simp [*]

theorem getConnection_type (pool : ConnectionPool) : pool.getConnection.2.type = pool.type := by
  unfold getConnection
  split <;> rfl

theorem getConnection_kept_iff (pool : ConnectionPool) :
    pool.getConnection.2.freeList.length = pool.freeList.length ↔ pool.freeList = [] := by
  unfold getConnection
  split <;> simp [*]

theorem executeSql_pool {pool : ConnectionPool} (sqlite : pool.type = .sqlite) (call : SqliteCall) :
    (pool.executeSql call).2 = pool.getConnection.2 := by
  simp [executeSql, sqlite]

theorem executeSqlAsync_pool (pool : ConnectionPool) (call : SqliteCall) (cb : DBCallback) :
    (pool.executeSqlAsync call cb).2 = (pool.executeSql call).2 := rfl

theorem initSqlite_spec (pool : ConnectionPool) (dbPath : String) (opens : List Bool) :
    (pool.initSqlite dbPath opens).type = .sqlite ∧
    (pool.initSqlite dbPath opens).freeList.length = pool.freeList.length + opens.count true := by
  rw [initSqlite]
  generalize start : ({ pool with type := DBType.sqlite, sqlitePath := dbPath } : ConnectionPool) = p
  have same : pool.freeList = p.freeList := by rw [← start]
  have sqlite : p.type = .sqlite := by rw [← start]
  rw [same]
  clear start same
  induction opens generalizing p with
  | nil => exact ⟨sqlite, rfl⟩
  | cons opened opens ih =>
      rw [List.foldl_cons]
      cases opened with
      | false => simpa using ih p sqlite
      | true =>
          obtain ⟨type, length⟩ := ih { p with
            pool := p.pool ++ [p.pool.length], freeList := p.freeList ++ [p.pool.length] } sqlite
          refine ⟨type, length.trans ?_⟩
          simp
          omega

end ConnectionPool

namespace Usage
open ConnectionPool

def Conserves (n : Nat) (usage : Usage) : Prop := usage.pool.freeList.length + usage.held.length = n

/-- SQL runs only when there is no connection left for it to take. -/
def TakesNone (usage : Usage) : Action → Prop
  | .getConnection => True
  | .executeSql _ => usage.pool.freeList = []
  | .executeSqlAsync .. => usage.pool.freeList = []

inductive Effect (usage : Usage) : Action → Usage → Prop
  | get : Effect usage .getConnection ⟨usage.pool.getConnection.2, usage.held ++ usage.pool.getConnection.1.toList⟩
  | sql {action : Action} (taken : TakesNone usage action ↔ usage.pool.freeList = []) :
      Effect usage action { usage with pool := usage.pool.getConnection.2 }

theorem step_effect {usage next : Usage} {action : Action} (sqlite : usage.pool.type = .sqlite)
    (stepped : usage.step action = some next) : Effect usage action next := by
  cases action with
  | getConnection =>
      cases stepped
      exact .get
  | executeSql call =>
      cases stepped
      rw [executeSql_pool sqlite]
      exact .sql Iff.rfl
  | executeSqlAsync call cb =>
      cases stepped
      rw [executeSqlAsync_pool, executeSql_pool sqlite]
      exact .sql Iff.rfl

theorem step_sqlite {usage next : Usage} {action : Action} (stepped : usage.step action = some next)
    (sqlite : usage.pool.type = .sqlite) : next.pool.type = .sqlite := by
  cases step_effect sqlite stepped with
  | get => exact (getConnection_type _).trans sqlite
  | sql taken => exact (getConnection_type _).trans sqlite

theorem step_conserves_iff {usage next : Usage} {action : Action} {n : Nat} (sqlite : usage.pool.type = .sqlite)
    (stepped : usage.step action = some next) (conserves : Conserves n usage) :
    Conserves n next ↔ TakesNone usage action := by
  unfold Conserves at conserves
  cases step_effect sqlite stepped with
  | get =>
      have moved := getConnection_length usage.pool
      change usage.pool.getConnection.2.freeList.length + (usage.held ++ _).length = n ↔ True
      rw [List.length_append]
      exact iff_of_true (by omega) trivial
  | sql taken =>
      rw [taken, ← getConnection_kept_iff]
      change usage.pool.getConnection.2.freeList.length + usage.held.length = n ↔ _
      omega

theorem step_total (usage : Usage) (action : Action) : ∃ next, usage.step action = some next := by
  cases action with
  | getConnection => exact ⟨_, rfl⟩
  | executeSql call => exact ⟨_, rfl⟩
  | executeSqlAsync call cb => exact ⟨_, rfl⟩

theorem conserves_iff_takesNone (dbPath : String) (opens : List Bool) (threadPool : Bool) (actions : List Action) :
    (∀ n usage, exec step (opened dbPath opens threadPool) (actions.take n) = some usage →
      usage.pool.freeList.length + usage.held.length = opens.count true) ↔
    Respects TakesNone step (opened dbPath opens threadPool) actions := by
  have enabled : ∀ usage action, True → ∃ next, step usage action = some next ∧ True :=
    fun usage action _ => (usage.step_total action).imp fun _ stepped => ⟨stepped, trivial⟩
  obtain ⟨last, ran, -⟩ := exec_total enabled (s := opened dbPath opens threadPool) actions trivial
  have start : Conserves (opens.count true) (opened dbPath opens threadPool) := by
    have length := (initSqlite_spec { threadPool := threadPool } dbPath opens).2
    exact length.trans (Nat.zero_add _)
  have sqlite : (opened dbPath opens threadPool).pool.type = .sqlite := (initSqlite_spec ..).1
  apply always_iff_respects (I := fun usage => usage.pool.type = .sqlite ∧ Conserves (opens.count true) usage) _ _ _ ran
    ⟨sqlite, start⟩
  · intro usage action next stepped permitted both
    exact ⟨step_sqlite stepped both.1, (step_conserves_iff both.1 stepped both.2).mpr permitted⟩
  · exact fun usage both => both.2
  · intro usage action next stepped both conserves
    exact (step_conserves_iff both.1 stepped both.2).mp conserves

/-- Two statements empty a pool of two connections, and a caller who asks then gets none. -/
theorem statements_exhaust_pool :
    ∃ usage, exec step (opened ":memory:" [true, true] false) [.executeSql (.done []), .executeSql (.done [])] =
      some usage ∧ usage.pool.freeList = [] ∧ usage.held = [] ∧
      usage.pool.freeList.length + usage.held.length ≠ [true, true].count true ∧
      usage.pool.getConnection.1 = none :=
  ⟨_, rfl, rfl, rfl, by decide, rfl⟩

end Usage

end ServerFramework.Db
