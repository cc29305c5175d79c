import MuxRuntime.Foundations.Registry
import MuxRuntime.Foundations.Machine
import MuxRuntime.Sql.Scanner
import MuxRuntime.Values.Value
import Mathlib

/-!
# Connections, transactions and result sets

The runtime keeps connections, transactions and result sets in registries and
gives the program shared values that hold their handles. A transaction takes its
connection out of the registry, a nested one takes it from its parent, and an
open result set holds a lease on what it was read from. Closing what is leased
is put off until the last lease is released.

The last reference to a value runs the destructor of its type, which may let go
of further values. These functions are written over the function `dec` that lets
go of a value; `rcDec` closes the recursion. What the databases answer, and in
which order a hash map is walked, is left to an `Environment`.
-/

namespace MuxRuntime
namespace Sql

/-- Handles count from one. -/
abbrev Handle := Nat

/-- A connection to a database. -/
structure SqlConnection where
  id : Nat
  backend : SqlBackend
deriving DecidableEq, Repr

/-- What is sent over a connection. -/
inductive Command where
  | execute (sql : List UInt8)
  | query (sql : List UInt8)
  | control (text : String)
deriving DecidableEq, Repr

/-! ## Statements that control transactions -/

/-- The isolation levels a program can ask for. -/
inductive Isolation where
  | default
  | readUncommitted
  | readCommitted
  | repeatableRead
  | serializable
deriving DecidableEq, Repr

def Isolation.text : Isolation → String
  | .default => "default"
  | .readUncommitted => "read uncommitted"
  | .readCommitted => "read committed"
  | .repeatableRead => "repeatable read"
  | .serializable => "serializable"

def normalizeIsolation (value : String) : Except String Isolation :=
  if value = "default" then .ok .default
  else if value = "read_uncommitted" then .ok .readUncommitted
  else if value = "read_committed" then .ok .readCommitted
  else if value = "repeatable_read" then .ok .repeatableRead
  else if value = "serializable" then .ok .serializable
  else .error ("unsupported transaction isolation '" ++ value ++ "'; use default, " ++
    "read_uncommitted, read_committed, repeatable_read, or serializable")

/-- The commands that open a transaction. The options are checked before the first
of them is sent. -/
def beginStatements (backend : SqlBackend) (isolation : String) (readOnly deferrable : Bool) :
    Except String (List Command) := do
  let isolation ← normalizeIsolation isolation
  match backend with
  | .sqlite =>
    if isolation ≠ .default || readOnly || deferrable then
      .error ("SQLite transaction options support only default isolation and read-write, " ++
        "non-deferrable transactions")
    else .ok [.control "BEGIN TRANSACTION"]
  | .postgres =>
    if deferrable && !(isolation = .serializable && readOnly) then
      .error "PostgreSQL deferrable transactions must be serializable and read-only"
    else
      .ok [.control ("BEGIN" ++
        (if isolation ≠ .default then " ISOLATION LEVEL " ++ isolation.text else "") ++
        (if readOnly then " READ ONLY" else "") ++ (if deferrable then " DEFERRABLE" else ""))]
  | .mySql =>
    if deferrable then .error "MySQL does not support deferrable transactions"
    else
      .ok ((if isolation ≠ .default then
          [.control ("SET TRANSACTION ISOLATION LEVEL " ++ isolation.text.toUpper)] else []) ++
        [.control (if readOnly then "START TRANSACTION READ ONLY" else "START TRANSACTION")])
  | .sqlServer =>
    if readOnly || deferrable then
      .error "SQL Server does not support read-only or deferrable transaction options"
    else
      .ok [.control ((if isolation ≠ .default then
        "SET TRANSACTION ISOLATION LEVEL " ++ isolation.text.toUpper ++ ";" else "") ++
          "BEGIN TRANSACTION")]

def commitStatement : SqlBackend → Command
  | .sqlServer => .control "COMMIT TRANSACTION"
  | .sqlite | .postgres | .mySql => .control "COMMIT"

def rollbackStatement : SqlBackend → Command
  | .sqlServer => .control "ROLLBACK TRANSACTION"
  | .sqlite | .postgres | .mySql => .control "ROLLBACK"

def savepointStatement (backend : SqlBackend) (name : String) : Command :=
  match backend with
  | .sqlServer => .control ("SAVE TRANSACTION " ++ name)
  | .sqlite | .postgres | .mySql => .control ("SAVEPOINT " ++ name)

/-- The commands of `finish_transaction_backend`. -/
def finishStatements (backend : SqlBackend) (parent : Option (Handle × String)) (commit : Bool) :
    List Command :=
  match parent with
  | some (_, name) =>
    if backend = .sqlServer then
      if commit then [] else [.control ("ROLLBACK TRANSACTION " ++ name)]
    else
      (if commit then [] else [.control ("ROLLBACK TO SAVEPOINT " ++ name)]) ++
        [.control ("RELEASE SAVEPOINT " ++ name)]
  | none => if commit then [commitStatement backend] else [rollbackStatement backend]

/-! ## Registries -/

/-- A row value, given by its handle. -/
abbrev Row := Handle

/-- An open transaction. -/
structure SqlTransaction where
  connectionHandle : Handle
  connection : Option SqlConnection
  active : Bool
  parent : Option (Handle × String)
  owner : Handle

/-- A result set. The cursor is what the provider is still going to deliver. -/
structure SqlResultSet where
  orderedRows : List Row
  nextOrderedIndex : Nat
  cursor : Option (List (Except String Row))
  closed : Bool
  connectionLease : Option Handle
  transactionLease : Option Handle

/-- The registered object types. -/
inductive Kind where
  | connection
  | transaction
  | resultset
deriving DecidableEq, Repr

/-- A shared value: the handle stored in it, the references the program has and
those that transactions have. -/
structure SharedValue where
  kind : Kind
  handle : Handle
  program : Nat
  owners : Nat

/-- What surrounds the registries: whether and how the last command fails, what a
query delivers, how many rows a statement affects, and the order in which the
entries of a hash map are walked. -/
structure Environment where
  failure : List (SqlConnection × Command) → Option String
  answer : List (SqlConnection × Command) → List Row × Option (List (Except String Row))
  affected : List (SqlConnection × Command) → Int
  order : List Handle → List Handle
  order_perm : ∀ handles, (order handles).Perm handles

/-- A database that answers every query with one row and never fails. -/
def calm : Environment where
  failure := fun _ => none
  answer := fun _ => ([7], none)
  affected := fun _ => 0
  order := id
  order_perm := fun _ => List.Perm.refl _

/-- All registries. -/
structure State where
  next : Handle
  connections : Registry SqlConnection
  transactions : Registry SqlTransaction
  resultsets : Registry SqlResultSet
  connectionLeases : Registry Nat
  transactionLeases : Registry Nat
  connectionClosePending : Finset Handle
  transactionClosePending : Finset Handle
  values : Registry SharedValue
  log : List (SqlConnection × Command)

/-- The registries of a fresh thread. -/
def State.initial : State where
  next := 1
  connections := fun _ => none
  transactions := fun _ => none
  resultsets := fun _ => none
  connectionLeases := fun _ => none
  transactionLeases := fun _ => none
  connectionClosePending := ∅
  transactionClosePending := ∅
  values := fun _ => none
  log := []

namespace State

variable (env : Environment)

/-! ## Commands -/

/-- Send one command; the answer is the failure it ends with, if any. -/
def issue (c : SqlConnection) (cmd : Command) (s : State) : Option String × State :=
  (env.failure (s.log ++ [(c, cmd)]), { s with log := s.log ++ [(c, cmd)] })

/-- Send commands until one fails. -/
def issueAll (c : SqlConnection) : List Command → State → Option String × State
  | [], s => (none, s)
  | cmd :: rest, s =>
    match s.issue env c cmd with
    | (none, s) => issueAll c rest s
    | (some failure, s) => (some failure, s)

/-! ## Values -/

/-- The handle in a value the program refers to. -/
def requireHandle (s : State) (value : Handle) (kind : Kind) (label : String) :
    Except String Handle :=
  match s.values value with
  | none => .error ("invalid " ++ label)
  | some v =>
    if v.program = 0 || v.kind ≠ kind || v.handle = 0 then .error ("invalid " ++ label)
    else .ok v.handle

def connectionHandle (s : State) (value : Handle) : Except String Handle :=
  s.requireHandle value .connection "sql connection"

def transactionHandle (s : State) (value : Handle) : Except String Handle :=
  s.requireHandle value .transaction "sql transaction"

def resultsetHandle (s : State) (value : Handle) : Except String Handle :=
  s.requireHandle value .resultset "sql result set"

/-- A new value for a handle, with one reference. -/
def createHandleValue (handle : Handle) (kind : Kind) (s : State) : State :=
  let v : SharedValue := { kind := kind, handle := handle, program := 1, owners := 0 }
  { s with values := s.values.insert handle v }

def writeHandle (value handle : Handle) (s : State) : State :=
  match s.values value with
  | none => s
  | some v => { s with values := s.values.insert value { v with handle := handle } }

/-- A transaction takes a reference. -/
def rcInc (value : Handle) (s : State) : State :=
  { s with values := match s.values value with
      | none => s.values
      | some v => s.values.insert value { v with owners := v.owners + 1 } }

/-! ## Leases -/

def connectionHasResultsetLease (s : State) (connection : Handle) : Bool :=
  decide (0 < (s.connectionLeases connection).getD 0)

def transactionHasResultsetLease (s : State) (transaction : Handle) : Bool :=
  decide (0 < (s.transactionLeases transaction).getD 0)

def connectionHasActiveTransaction (s : State) (handle : Handle) : Bool :=
  (s.transactions.keys s.next).any fun t =>
    (s.transactions t).any fun tx => tx.active && tx.connectionHandle == handle

/-! ## Giving up transactions and connections -/

/-- The transactions of a connection, in the order of the hash map. -/
def transactionsOf (s : State) (connection : Handle) : List Handle :=
  env.order ((s.transactions.keys s.next).filter fun t =>
    (s.transactions t).any fun tx => tx.connectionHandle == connection)

/-- Roll back what a removed transaction still holds and let go of its owner. -/
def discardTransaction (dec : Handle → State → State) (s : State) (tx : SqlTransaction) : State :=
  dec tx.owner <|
    match tx.connection with
    | some c => (s.issue env c (rollbackStatement c.backend)).2
    | none => s

def removeTransactionForConnection (dec : Handle → State → State) (connection : Handle)
    (s : State) : State :=
  let leased := (transactionsOf env s connection).filter fun t => s.transactionHasResultsetLease t
  let removable :=
    (transactionsOf env s connection).filter fun t => !s.transactionHasResultsetLease t
  (removable.filterMap s.transactions).foldl (discardTransaction env dec)
    { s with
      transactionClosePending := s.transactionClosePending ∪ leased.toFinset
      transactions := removable.foldl Registry.remove s.transactions }

/-- Give the connection of a finished transaction back to where it came from. -/
def restoreTransactionConnection (tx : SqlTransaction) (c : SqlConnection) (s : State) : State :=
  match tx.parent with
  | some (parent, _) =>
    match s.transactions parent with
    | some ptx =>
      { s with transactions := s.transactions.insert parent { ptx with connection := some c } }
    | none => s
  | none => { s with connections := s.connections.insert tx.connectionHandle c }

/-- Roll back a transaction that was taken out of the registry. -/
def rollBackTaken (dec : Handle → State → State) (tx : SqlTransaction) (s : State) : State :=
  dec tx.owner <|
    match tx.connection with
    | none => s
    | some c =>
      match s.issueAll env c (finishStatements c.backend tx.parent false) with
      | (none, s) => s.restoreTransactionConnection tx c
      | (some _, s) =>
        removeTransactionForConnection env dec tx.connectionHandle
          (s.issue env c (rollbackStatement c.backend)).2

def finishDeferredTransaction (dec : Handle → State → State) (t : Handle) (s : State) : State :=
  if t ∈ s.transactionClosePending then
    let s := { s with transactionClosePending := s.transactionClosePending.erase t }
    match s.transactions t with
    | none => s
    | some tx => rollBackTaken env dec tx { s with transactions := s.transactions.remove t }
  else s

def dropConnectionHandle (handle : Handle) (s : State) : State :=
  if handle = 0 then s
  else if s.connectionHasResultsetLease handle then
    { s with connectionClosePending := insert handle s.connectionClosePending }
  else { s with connections := s.connections.remove handle }

def dropTransactionHandle (dec : Handle → State → State) (handle : Handle) (s : State) : State :=
  if handle = 0 then s
  else if s.transactionHasResultsetLease handle then
    { s with transactionClosePending := insert handle s.transactionClosePending }
  else
    let s := finishDeferredTransaction env dec handle s
    match s.transactions handle with
    | none => s
    | some tx => rollBackTaken env dec tx { s with transactions := s.transactions.remove handle }

/-- Let go of the reference a transaction has to its owner. -/
def rcDec : Nat → Handle → State → State
  | 0, _, s => s
  | fuel + 1, owner, s =>
    match s.values owner with
    | none => s
    | some v =>
      let s := { s with values := s.values.insert owner { v with owners := v.owners - 1 } }
      if v.program + (v.owners - 1) = 0 then
        match v.kind with
        | .connection => s.dropConnectionHandle v.handle
        | .transaction => dropTransactionHandle env (rcDec fuel) v.handle s
        -- no transaction is begun on a result set
        | .resultset => s
      else s

/-- `mux_rc_dec` on the owner of a transaction. Every further value it drops is that
of a transaction that has left the registry. -/
def muxRcDec (owner : Handle) (s : State) : State :=
  rcDec env (s.transactions.size s.next + 1) owner s

/-! ## Releasing result sets -/

def releaseConnectionLease (connection : Handle) (s : State) : State :=
  match s.connectionLeases connection with
  | none => s
  | some count =>
    if count - 1 = 0 then
      let s := { s with connectionLeases := s.connectionLeases.remove connection }
      if connection ∈ s.connectionClosePending then
        { s with
          connectionClosePending := s.connectionClosePending.erase connection
          connections := s.connections.remove connection }
      else s
    else { s with connectionLeases := s.connectionLeases.insert connection (count - 1) }

def releaseTransactionLease (transaction : Handle) (s : State) : State :=
  match s.transactionLeases transaction with
  | none => s
  | some count =>
    if count - 1 = 0 then
      finishDeferredTransaction env (muxRcDec env) transaction
        { s with transactionLeases := s.transactionLeases.remove transaction }
    else { s with transactionLeases := s.transactionLeases.insert transaction (count - 1) }

def releaseResultsetLeases (connection transaction : Option Handle) (s : State) : State :=
  let s := match connection with
    | some c => s.releaseConnectionLease c
    | none => s
  match transaction with
  | some t => releaseTransactionLease env t s
  | none => s

def removeResultset (handle : Handle) (s : State) : State :=
  match s.resultsets handle with
  | none => s
  | some rs =>
    releaseResultsetLeases env rs.connectionLease rs.transactionLease
      { s with resultsets := s.resultsets.remove handle }

/-- The result set after `finish_resultset`; the leases it had are released by the
caller. -/
def finishResultset (rs : SqlResultSet) : SqlResultSet :=
  { rs with
    closed := true
    nextOrderedIndex := rs.orderedRows.length
    cursor := none
    connectionLease := none
    transactionLease := none }

/-- Finish the result set `handle` and release its leases. -/
def closeResultset (handle : Handle) (rs : SqlResultSet) (s : State) : State :=
  releaseResultsetLeases env rs.connectionLease rs.transactionLease
    { s with resultsets := s.resultsets.insert handle (finishResultset rs) }

/-- The next row, and the result set behind it. -/
def resultsetNextRow (rs : SqlResultSet) : Except String (Option Row) × SqlResultSet :=
  match rs.cursor with
  | some [] => (.ok none, rs)
  | some (.ok row :: rest) => (.ok (some row), { rs with cursor := some rest })
  | some (.error e :: rest) => (.error e, { rs with cursor := some rest })
  | none =>
    match rs.orderedRows[rs.nextOrderedIndex]? with
    | some row => (.ok (some row), { rs with nextOrderedIndex := rs.nextOrderedIndex + 1 })
    | none => (.ok none, rs)

/-- How many rows can still come. -/
def remaining (rs : SqlResultSet) : Nat :=
  match rs.cursor with
  | some items => items.length
  | none => rs.orderedRows.length - rs.nextOrderedIndex

/-- Read at most `requested` rows; the flag tells whether the end was met. -/
def readRows : Nat → SqlResultSet → List Row → Except String (List Row × Bool) × SqlResultSet
  | 0, rs, values => (.ok (values, false), rs)
  | requested + 1, rs, values =>
    match resultsetNextRow rs with
    | (.ok (some row), rs) => readRows requested rs (values ++ [row])
    | (.ok none, rs) => (.ok (values, true), rs)
    | (.error e, rs) => (.error e, rs)

end State

/-! ## What a program can do -/

/-- What a call returns. -/
inductive Reply where
  | unit
  | value (handle : Handle)
  | affected (rows : Int)
  | row (row : Option Row)
  | rows (rows : List Row)
deriving DecidableEq, Repr

namespace State

variable (env : Environment)

/-- Borrow a connection for an operation. -/
def withConnection {α : Type} (s : State) (handle : Handle)
    (op : SqlConnection → State → Except String α × State) : Except String α × State :=
  if s.connectionHasResultsetLease handle then
    (.error "sql connection is busy while a result set is open", s)
  else
    match s.connections handle with
    | none => (.error "invalid sql connection handle", s)
    | some c => op c s

/-- Borrow a transaction for an operation. -/
def withTransaction {α : Type} (s : State) (handle : Handle)
    (op : SqlTransaction → State → Except String α × State) : Except String α × State :=
  if s.transactionHasResultsetLease handle then
    (.error "sql transaction is busy while a result set is open", s)
  else
    match s.transactions handle with
    | none => (.error "invalid sql transaction handle", s)
    | some tx => op tx s

/-- The connection of a transaction, for a statement in it. -/
def withTransactionConnection {α : Type} (s : State) (handle : Handle)
    (op : SqlConnection → State → Except String α × State) : Except String α × State :=
  s.withTransaction handle fun tx s =>
    if !tx.active then (.error "transaction is no longer active", s)
    else
      match tx.connection with
      | none => (.error "transaction connection missing", s)
      | some c => op c s

def executeOnConnection (sql : List UInt8) (params : Nat) (c : SqlConnection) (s : State) :
    Except String Reply × State :=
  match rewritePositionalSql sql c.backend params with
  | .error e => (.error e, s)
  | .ok sql =>
    match s.issue env c (.execute sql) with
    | (some failure, s) => (.error failure, s)
    | (none, s) => (.ok (.affected (env.affected s.log)), s)

/-- Send a query; the result set is not stored yet. -/
def queryStreaming (sql : List UInt8) (params : Nat) (c : SqlConnection) (s : State) :
    Except String SqlResultSet × State :=
  match rewritePositionalSql sql c.backend params with
  | .error e => (.error e, s)
  | .ok sql =>
    match s.issue env c (.query sql) with
    | (some failure, s) => (.error failure, s)
    | (none, s) =>
      (.ok { orderedRows := (env.answer s.log).1
             nextOrderedIndex := 0
             cursor := (env.answer s.log).2
             closed := false
             connectionLease := none
             transactionLease := none }, s)

def storeConnection (c : SqlConnection) (s : State) : State :=
  { s with next := s.next + 1, connections := s.connections.insert s.next c }

def storeTransaction (tx : SqlTransaction) (s : State) : State :=
  { s with next := s.next + 1, transactions := s.transactions.insert s.next tx }

def storeResultset (rs : SqlResultSet) (s : State) : State :=
  { s with next := s.next + 1, resultsets := s.resultsets.insert s.next rs }

def storeConnectionResultset (rs : SqlResultSet) (connection : Handle) (s : State) : State :=
  let s := s.storeResultset { rs with connectionLease := some connection }
  let count := (s.connectionLeases connection).getD 0 + 1
  { s with connectionLeases := s.connectionLeases.insert connection count }

def storeTransactionResultset (rs : SqlResultSet) (transaction : Handle) (s : State) : State :=
  let s := s.storeResultset { rs with transactionLease := some transaction }
  let count := (s.transactionLeases transaction).getD 0 + 1
  { s with transactionLeases := s.transactionLeases.insert transaction count }

def connectionExecute (handle : Handle) (sql : List UInt8) (params : Nat) (s : State) :
    Except String Reply × State :=
  s.withConnection handle (executeOnConnection env sql params)

def connectionQuery (handle : Handle) (sql : List UInt8) (params : Nat) (s : State) :
    Except String Reply × State :=
  match s.withConnection handle (queryStreaming env sql params) with
  | (.error e, s) => (.error e, s)
  | (.ok rs, s) =>
    (.ok (.value s.next),
      (s.storeConnectionResultset rs handle).createHandleValue s.next .resultset)

def transactionExecute (handle : Handle) (sql : List UInt8) (params : Nat) (s : State) :
    Except String Reply × State :=
  s.withTransactionConnection handle (executeOnConnection env sql params)

def transactionQuery (handle : Handle) (sql : List UInt8) (params : Nat) (s : State) :
    Except String Reply × State :=
  match s.withTransactionConnection handle (queryStreaming env sql params) with
  | (.error e, s) => (.error e, s)
  | (.ok rs, s) =>
    (.ok (.value s.next),
      (s.storeTransactionResultset rs handle).createHandleValue s.next .resultset)

/-- What both ways of opening a transaction do once the options are known. -/
def openTransaction (value handle : Handle) (isolation : String) (readOnly deferrable : Bool)
    (s : State) : Except String Reply × State :=
  match s.connections handle with
  | none => (.error "invalid sql connection handle", s)
  | some c =>
    let s := { s with connections := s.connections.remove handle }
    let begun := match beginStatements c.backend isolation readOnly deferrable with
      | .error e => (some e, s)
      | .ok statements => s.issueAll env c statements
    match begun with
    | (some failure, s) => (.error failure, { s with connections := s.connections.insert handle c })
    | (none, s) =>
      let tx : SqlTransaction :=
        { connectionHandle := handle, connection := some c, active := true, parent := none,
          owner := value }
      (.ok (.value s.next),
        ((s.storeTransaction tx).rcInc value).createHandleValue s.next .transaction)

def connectionBeginTransaction (value handle : Handle) (s : State) : Except String Reply × State :=
  if s.connectionHasActiveTransaction handle then
    (.error "connection already has an active transaction", s)
  else openTransaction env value handle "default" false false s

def valueToString : Value → Except String String
  | .string text => .ok text
  | _ => .error "expected string"

def connectionBeginTransactionWithOptions (value handle : Handle)
    (isolation readOnly deferrable : Value) (s : State) : Except String Reply × State :=
  if s.connectionHasActiveTransaction handle then
    (.error "connection already has an active transaction", s)
  else
    match valueToString isolation with
    | .error e => (.error e, s)
    | .ok isolation =>
      match readOnly with
      | .bool readOnly =>
        match deferrable with
        | .bool deferrable => openTransaction env value handle isolation readOnly deferrable s
        | _ => (.error "deferrable must be a bool", s)
      | _ => (.error "read_only must be a bool", s)

/-- Begin a nested transaction; its parent is suspended until it ends. -/
def transactionBeginTransaction (value handle : Handle) (s : State) : Except String Reply × State :=
  s.withTransaction handle fun tx s =>
    match tx.connection with
    | none => (.error "transaction has an active nested transaction", s)
    | some c =>
      let name := "mux_nested_" ++ toString s.next
      let s := { s with next := s.next + 1 }
      match s.issue env c (savepointStatement c.backend name) with
      | (some failure, s) => (.error failure, s)
      | (none, s) =>
        let s := s.rcInc value
        let child : SqlTransaction :=
          { connectionHandle := tx.connectionHandle, connection := some c, active := true,
            parent := some (handle, name), owner := value }
        let s := { s with transactions := s.transactions.insert handle { tx with connection := none } }
        (.ok (.value s.next), (s.storeTransaction child).createHandleValue s.next .transaction)

def finishTransaction (handle : Handle) (commit : Bool) (s : State) : Except String Reply × State :=
  if s.transactionHasResultsetLease handle then
    (.error "sql transaction is busy while a result set is open", s)
  else
    match s.transactions handle with
    | none => (.error "invalid sql transaction handle", s)
    | some tx =>
      let s := { s with transactions := s.transactions.remove handle }
      match tx.connection with
      | none =>
        (.error "transaction has an active nested transaction",
          { s with transactions := s.transactions.insert handle tx })
      | some c =>
        match s.issueAll env c (finishStatements c.backend tx.parent commit) with
        | (some failure, s) =>
          (.error failure, { s with transactions := s.transactions.insert handle tx })
        | (none, s) => (.ok .unit, muxRcDec env tx.owner (s.restoreTransactionConnection tx c))

def connectionClose (value handle : Handle) (s : State) : State :=
  if s.connectionHasResultsetLease handle then
    ({ s with connectionClosePending := insert handle s.connectionClosePending }).writeHandle value 0
  else
    let s := if s.connectionHasActiveTransaction handle then
      removeTransactionForConnection env (muxRcDec env) handle s else s
    ({ s with connections := s.connections.remove handle }).writeHandle value 0

def withResultset (s : State) (handle : Handle)
    (op : SqlResultSet → State → Except String Reply × State) : Except String Reply × State :=
  match s.resultsets handle with
  | none => (.error "invalid sql result set handle", s)
  | some rs => op rs s

def resultsetClose (handle : Handle) (s : State) : Except String Reply × State :=
  s.withResultset handle fun rs s => (.ok .unit, closeResultset env handle rs s)

def resultsetRows (handle : Handle) (s : State) : Except String Reply × State :=
  s.withResultset handle fun rs s =>
    if rs.closed then (.ok (.rows []), s)
    else
      -- more rows than remain are never asked for, so that the end or a failure is met
      match readRows (remaining rs + 1) rs [] with
      | (.ok (values, _), rs) => (.ok (.rows values), closeResultset env handle rs s)
      | (.error e, rs) => (.error e, closeResultset env handle rs s)

def resultsetNext (handle : Handle) (s : State) : Except String Reply × State :=
  s.withResultset handle fun rs s =>
    if rs.closed then (.ok (.row none), s)
    else
      match resultsetNextRow rs with
      | (.error e, rs) => (.error e, closeResultset env handle rs s)
      | (.ok row, rs) =>
        let rs := if row.isNone then { rs with cursor := none } else rs
        if rs.cursor.isNone && rs.nextOrderedIndex == rs.orderedRows.length then
          (.ok (.row row), closeResultset env handle rs s)
        else (.ok (.row row), { s with resultsets := s.resultsets.insert handle rs })

def resultsetNextBatch (handle : Handle) (limit : Int) (s : State) : Except String Reply × State :=
  s.withResultset handle fun rs s =>
    if rs.closed || decide (limit ≤ 0) then (.ok (.rows []), s)
    else
      match readRows limit.toNat rs [] with
      | (.error e, rs) => (.error e, closeResultset env handle rs s)
      | (.ok (values, true), rs) => (.ok (.rows values), closeResultset env handle rs s)
      | (.ok (values, false), rs) =>
        (.ok (.rows values), { s with resultsets := s.resultsets.insert handle rs })

/-- The program copies a reference. -/
def retain (value : Handle) (s : State) : State :=
  match s.values value with
  | none => s
  | some v =>
    if v.program = 0 then s
    else { s with values := s.values.insert value { v with program := v.program + 1 } }

/-- The destructor of the type of a value. -/
def destroy (v : SharedValue) (s : State) : State :=
  match v.kind with
  | .connection => s.dropConnectionHandle v.handle
  | .transaction => dropTransactionHandle env (muxRcDec env) v.handle s
  | .resultset => if v.handle = 0 then s else removeResultset env v.handle s

/-- The program lets go of a reference; the last one runs the destructor. -/
def release (value : Handle) (s : State) : State :=
  match s.values value with
  | none => s
  | some v =>
    if v.program = 0 then s
    else
      let s := { s with values := s.values.insert value { v with program := v.program - 1 } }
      if v.program - 1 + v.owners = 0 then destroy env v s else s

end State

/-- The calls of a program; a value is given by the handle it was created for. -/
inductive Call where
  | connect (backend : SqlBackend)
  | execute (connection : Handle) (sql : List UInt8) (params : Nat)
  | query (connection : Handle) (sql : List UInt8) (params : Nat)
  | beginTransaction (connection : Handle)
  | beginTransactionWithOptions (connection : Handle) (isolation readOnly deferrable : Value)
  | close (connection : Handle)
  | transactionExecute (transaction : Handle) (sql : List UInt8) (params : Nat)
  | transactionQuery (transaction : Handle) (sql : List UInt8) (params : Nat)
  | beginNested (transaction : Handle)
  | commit (transaction : Handle)
  | rollback (transaction : Handle)
  | resultsetClose (resultset : Handle)
  | resultsetRows (resultset : Handle)
  | resultsetNext (resultset : Handle)
  | resultsetNextBatch (resultset : Handle) (limit : Int)
  | retain (value : Handle)
  | release (value : Handle)

namespace State

variable (env : Environment)

/-- Call an operation on the handle in a value. -/
def onHandle (s : State) (handle : Except String Handle)
    (op : Handle → State → Except String Reply × State) : Except String Reply × State :=
  match handle with
  | .error e => (.error e, s)
  | .ok handle => op handle s

/-- What a call returns, and the state it leaves. -/
def perform (s : State) : Call → Except String Reply × State
  | .connect backend =>
    (.ok (.value s.next),
      (s.storeConnection { id := s.next, backend := backend }).createHandleValue s.next .connection)
  | .execute v sql params => s.onHandle (s.connectionHandle v) fun h => connectionExecute env h sql params
  | .query v sql params => s.onHandle (s.connectionHandle v) fun h => connectionQuery env h sql params
  | .beginTransaction v => s.onHandle (s.connectionHandle v) (connectionBeginTransaction env v)
  | .beginTransactionWithOptions v isolation readOnly deferrable =>
    s.onHandle (s.connectionHandle v) fun h =>
      connectionBeginTransactionWithOptions env v h isolation readOnly deferrable
  | .close v =>
    match s.connectionHandle v with
    | .error _ => (.ok .unit, s)
    | .ok h => (.ok .unit, connectionClose env v h s)
  | .transactionExecute v sql params =>
    s.onHandle (s.transactionHandle v) fun t => transactionExecute env t sql params
  | .transactionQuery v sql params =>
    s.onHandle (s.transactionHandle v) fun t => transactionQuery env t sql params
  | .beginNested v => s.onHandle (s.transactionHandle v) (transactionBeginTransaction env v)
  | .commit v => s.onHandle (s.transactionHandle v) fun t => finishTransaction env t true
  | .rollback v => s.onHandle (s.transactionHandle v) fun t => finishTransaction env t false
  | .resultsetClose v => s.onHandle (s.resultsetHandle v) (resultsetClose env)
  | .resultsetRows v => s.onHandle (s.resultsetHandle v) (resultsetRows env)
  | .resultsetNext v => s.onHandle (s.resultsetHandle v) (resultsetNext env)
  | .resultsetNextBatch v limit =>
    s.onHandle (s.resultsetHandle v) fun r => resultsetNextBatch env r limit
  | .retain v => (.ok .unit, s.retain v)
  | .release v => (.ok .unit, release env v s)

/-- The state after a call. -/
def after (s : State) (call : Call) : State :=
  (s.perform env call).2

end State
end Sql
end MuxRuntime
