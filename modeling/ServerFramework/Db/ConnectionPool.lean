import ServerFramework.Library.Runs

namespace ServerFramework.Db

inductive DBType
  | mysql
  | sqlite
  deriving DecidableEq, Repr

structure DBResult where
  success : Bool := false
  affectedRows : Int := 0
  insertId : Int := 0
  errorMsg : String := ""
  rows : List (List String) := []
  cols : List String := []
  deriving DecidableEq, Repr

-- What `sqlite3_exec` hands to the callback for one row: the names may be missing, and so may each value.
structure SqliteRow where
  names : Option (List String)
  values : List (Option String)
  deriving DecidableEq, Repr

/-- What SQLite makes of one `execute_sql`. -/
inductive SqliteCall
  | openFailed (errmsg : String)
  | failed (rows : List SqliteRow) (err : Option String)
  | done (rows : List SqliteRow)
  deriving DecidableEq, Repr

-- A connection is its index in `pool`. Built with `USE_SQLITE`.
structure ConnectionPool where
  type : DBType := .sqlite
  pool : List Nat := []
  freeList : List Nat := []
  sqlitePath : String := ""
  initialized : Bool := false
  threadPool : Bool := false
  deriving DecidableEq, Repr

namespace ConnectionPool

/-- `opens` says of each of the `pool_size` rounds whether `sqlite3_open` succeeds. -/
def initSqlite (pool : ConnectionPool) (dbPath : String) (opens : List Bool) : ConnectionPool :=
  let opened := opens.foldl
    (fun p opened =>
      if opened then { p with pool := p.pool ++ [p.pool.length], freeList := p.freeList ++ [p.pool.length] } else p)
    { pool with type := .sqlite, sqlitePath := dbPath }
  { opened with initialized := true }

def getConnection (pool : ConnectionPool) : Option Nat × ConnectionPool :=
  match pool.freeList with
  | [] => (none, pool)
  | conn :: rest => (some conn, { pool with freeList := rest })

def readRow (res : DBResult) (row : SqliteRow) : DBResult :=
  { res with
    cols := if res.cols.isEmpty then row.names.getD [] else res.cols
    rows := res.rows ++ [row.values.map fun value => value.getD ""] }

def runSql : SqliteCall → DBResult
  | .openFailed errmsg => { success := false, errorMsg := errmsg }
  | .failed rows err => { rows.foldl readRow {} with success := false, errorMsg := err.getD "" }
  | .done rows => { rows.foldl readRow {} with success := true }

/-- The connection that `get_connection` returns goes out of scope; SQLite opens another one. -/
def executeSql (pool : ConnectionPool) (call : SqliteCall) : DBResult × ConnectionPool :=
  match pool.type with
  | .sqlite => (runSql call, pool.getConnection.2)
  | .mysql => ({ success := true }, pool)

inductive DBCallback
  | none
  | returns
  | throws
  deriving DecidableEq, Repr

-- `execute_sql_async` run to completion: the result its callback got, and whether an exception got out of it.
structure AsyncCall where
  delivered : Option DBResult
  escaped : Bool
  deriving DecidableEq, Repr

def executeSqlAsync (pool : ConnectionPool) (call : SqliteCall) (cb : DBCallback) : AsyncCall × ConnectionPool :=
  let (result, next) := pool.executeSql call
  let delivered := if cb = .none then none else some result
  -- without a thread pool the callback runs in the caller, outside any `try`
  (⟨delivered, cb = .throws && !pool.threadPool⟩, next)

end ConnectionPool

/-- A pool, and the connections that `get_connection` has returned to callers outside. -/
structure Usage where
  pool : ConnectionPool
  held : List Nat := []
  deriving DecidableEq, Repr

namespace Usage

inductive Action
  | getConnection
  | executeSql (call : SqliteCall)
  | executeSqlAsync (call : SqliteCall) (cb : ConnectionPool.DBCallback)
  deriving DecidableEq, Repr

def step (usage : Usage) : Action → Option Usage
  | .getConnection => some ⟨usage.pool.getConnection.2, usage.held ++ usage.pool.getConnection.1.toList⟩
  | .executeSql call => some { usage with pool := (usage.pool.executeSql call).2 }
  | .executeSqlAsync call cb => some { usage with pool := (usage.pool.executeSqlAsync call cb).2 }

def opened (dbPath : String) (opens : List Bool) (threadPool : Bool) : Usage :=
  ⟨({ threadPool := threadPool } : ConnectionPool).initSqlite dbPath opens, []⟩

end Usage

end ServerFramework.Db
