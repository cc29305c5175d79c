import MuxRuntime.Foundations.Session
import MuxRuntime.Foundations.Str
import MuxRuntime.Sql.Scanner
import MuxRuntime.Values.Value

/-!
# Schema migrations

A migrator has a set of migrations, each with a version, a script that applies it and
one that reverts it. Which of them are applied is recorded in a table. Going to a
version runs the scripts in between, in a transaction together with the changes of the
table.

Any command may fail. A transaction works on a copy of the table that replaces the table
when it is committed, and scripts leave both alone.
-/

namespace MuxRuntime

namespace Sql

open List

/-- The order of `i64`. -/
instance orderInt64 : LinearOrder Int64 where
  le_refl := Int64.le_refl
  le_trans := fun _ _ _ => Int64.le_trans
  lt_iff_le_not_ge := fun _ _ => by
    rw [Int64.not_le]
    exact ⟨fun h => ⟨Int64.le_of_lt h, h⟩, fun h => h.2⟩
  le_antisymm := fun _ _ => Int64.le_antisymm
  le_total := Int64.le_total
  toDecidableLE := fun a b => inferInstanceAs (Decidable (a ≤ b))
  toDecidableLT := fun a b => inferInstanceAs (Decidable (a < b))
  toDecidableEq := inferInstance

instance lawfulInt64 : LawfulBEq Int64 :=
  inferInstance

/-! ## Sets of migrations -/

/-- A migration. -/
structure MigrationDefinition where
  version : Int64
  name : String
  up : String
  down : String
  checksum : String
  version_pos : 0 < version

def maxMigrations : Nat := 4096

def maxMigrationSqlBytes : Nat := 16 * 1024 * 1024

def maxMigrationTotalBytes : Nat := 64 * 1024 * 1024

def validMigrationName (name : String) : Bool :=
  !name.isEmpty && decide (name.utf8ByteSize ≤ 128) &&
    name.toList.all fun c => c.isAlphanum || c == '_' || c == '-'

/-- One migration; `migrationChecksum` hashes the two scripts. -/
def migrationDefinition (migrationChecksum : String → String → String) (version : Int64)
    (name up down : String) : Except String MigrationDefinition :=
  if h : version ≤ 0 then .error "migration version must be positive"
  else if !validMigrationName name then
    .error "migration name must be 1-128 ASCII letters, digits, underscores, or hyphens"
  else if (Str.trim up.toList).isEmpty || (Str.trim down.toList).isEmpty then
    .error "migration up and down SQL must not be empty"
  else if maxMigrationSqlBytes < up.utf8ByteSize || maxMigrationSqlBytes < down.utf8ByteSize then
    .error "migration SQL exceeds the 16 MiB limit"
  else
    .ok
      { version := version, name := name, up := up, down := down
        checksum := migrationChecksum up down
        version_pos := not_le.mp h }

/-- The size of the scripts of a set, on top of `total`. -/
def migrationBytes (total : Nat) : List MigrationDefinition → Except String Nat
  | [] => .ok total
  | m :: rest =>
    if 2 ^ 64 ≤ total + m.up.utf8ByteSize + m.down.utf8ByteSize then
      .error "migration set size overflowed"
    else if maxMigrationTotalBytes < total + m.up.utf8ByteSize + m.down.utf8ByteSize then
      .error "migration set exceeds the 64 MiB limit"
    else migrationBytes (total + m.up.utf8ByteSize + m.down.utf8ByteSize) rest

def sortByVersion (migrations : List MigrationDefinition) : List MigrationDefinition :=
  migrations.insertionSort fun left right => left.version ≤ right.version

/-- The first version that was seen before. -/
def firstDuplicate (seen : List Int64) : List MigrationDefinition → Option Int64
  | [] => none
  | m :: rest =>
    if m.version ∈ seen then some m.version else firstDuplicate (m.version :: seen) rest

variable {migrations : List MigrationDefinition}

lemma firstDuplicate_eq_none_iff {seen : List Int64} : firstDuplicate seen migrations = none ↔
    (migrations.map MigrationDefinition.version).Nodup ∧ ∀ m ∈ migrations, m.version ∉ seen := by
  induction migrations generalizing seen with
  | nil => simp [firstDuplicate]
  | cons m rest ih =>
    rw [firstDuplicate]
    split_ifs with hm
    · simp [hm]
    · rw [ih, map_cons, nodup_cons]
      grind

/-- Sorted versions that are distinct ascend. -/
lemma ascending_of_firstDuplicate (h : firstDuplicate [] (sortByVersion migrations) = none) :
    (sortByVersion migrations).Pairwise fun left right => left.version < right.version := by
  have hsorted : (sortByVersion migrations).Pairwise
      fun left right => left.version ≤ right.version := by
    exact pairwise_insertionSort _ migrations
  have hne := pairwise_map.mp (firstDuplicate_eq_none_iff.mp h).1
  exact (hsorted.and hne).imp fun hboth => lt_of_le_of_ne hboth.1 hboth.2

/-- The migrations of a migrator, from the lowest version to the highest. -/
structure MigrationSet where
  migrations : List MigrationDefinition
  ascending : migrations.Pairwise fun left right => left.version < right.version

def validateMigrationSet (migrations : List MigrationDefinition) : Except String MigrationSet :=
  if migrations.isEmpty then .error "at least one migration is required"
  else if maxMigrations < migrations.length then
    .error ("at most " ++ toString maxMigrations ++ " migrations are supported")
  else
    match migrationBytes 0 migrations with
    | .error e => .error e
    | .ok _ =>
      match h : firstDuplicate [] (sortByVersion migrations) with
      | some version => .error ("duplicate migration version " ++ toString version)
      | none => .ok ⟨sortByVersion migrations, ascending_of_firstDuplicate h⟩

def MigrationDefinition.size (m : MigrationDefinition) : Nat :=
  m.up.utf8ByteSize + m.down.utf8ByteSize

lemma migrationBytes_accepts {total : Nat} (h : total ≤ maxMigrationTotalBytes) :
    (∃ n, migrationBytes total migrations = .ok n) ↔
      total + (migrations.map MigrationDefinition.size).sum ≤ maxMigrationTotalBytes := by
  have hmax : maxMigrationTotalBytes < 2 ^ 64 := by decide
  induction migrations generalizing total with
  | nil => simp [migrationBytes, h]
  | cons m rest ih =>
    rw [migrationBytes, map_cons, sum_cons, MigrationDefinition.size]
    split_ifs
    · simp only [exists_false, false_iff]
      omega
    · simp only [exists_false, false_iff]
      omega
    · exact (ih (by omega)).trans (by omega)

/-- Whichever order it is given in, a set is accepted unless it is empty, too long or too large
or repeats a version; its migrations are then kept by ascending version. -/
theorem validateMigrationSet_eq_ok_iff (migrations : List MigrationDefinition) (set : MigrationSet) :
    validateMigrationSet migrations = .ok set ↔ migrations ≠ [] ∧
      migrations.length ≤ maxMigrations ∧
      (migrations.map MigrationDefinition.size).sum ≤ maxMigrationTotalBytes ∧
      set.migrations.Perm migrations := by
  have hperm : (sortByVersion migrations).Perm migrations := perm_insertionSort _ _
  have hbytes : (∃ n, migrationBytes 0 migrations = .ok n) ↔ _ :=
    migrationBytes_accepts (Nat.zero_le _)
  rw [Nat.zero_add] at hbytes
  unfold validateMigrationSet
  constructor
  · intro hok
    split_ifs at hok with hempty hlong
    split at hok
    · cases hok
    · rename_i n hn
      split at hok
      · cases hok
      · cases hok
        exact ⟨by simpa using hempty, by omega, hbytes.mp ⟨n, hn⟩, hperm⟩
  · rintro ⟨hempty, hlong, hsmall, hset⟩
    obtain ⟨n, hn⟩ := hbytes.mpr hsmall
    have hnone : firstDuplicate [] (sortByVersion migrations) = none := by
      refine firstDuplicate_eq_none_iff.mpr ⟨?_, by simp⟩
      rw [((hperm.trans hset.symm).map _).nodup_iff]
      exact pairwise_map.mpr (set.ascending.imp ne_of_lt)
    have hsorted : sortByVersion migrations = set.migrations :=
      (hperm.trans hset.symm).eq_of_pairwise (fun _ _ _ _ h h' => absurd h h'.not_gt)
        (ascending_of_firstDuplicate hnone) set.ascending
    rw [if_neg (by simpa using hempty), if_neg (by omega), hn]
    dsimp only
    split
    · rename_i hsome
      rw [hnone] at hsome
      cases hsome
    · simp only [hsorted]

/-! ## The database -/

/-- The commands of a migration. -/
inductive MigrationCommand where
  | createTable
  | insertLock
  | beginTransaction
  | lock
  | select
  | script (sql : String)
  | insert (version : Int64) (name checksum : String)
  | delete (version : Int64)
  | commit
  | rollback
deriving DecidableEq, Repr

/-- The rows of the metadata table, as a query returns them. -/
abbrev MigrationTable := List (List Value)

/-- How the database answers: which commands fail, after those that were sent before, and
in which order rows come. Maps of the runtime are also iterated in this order. -/
structure MigrationDatabase where
  failure : List MigrationCommand → Option String
  order : {α : Type} → List α → List α
  order_perm : ∀ {α : Type} (items : List α), (order items).Perm items

/-- The table, and what was sent. -/
structure MigrationState where
  committed : Option MigrationTable
  working : Option MigrationTable
  log : List MigrationCommand

namespace MigrationState

/-- The table as the connection sees it. -/
def visible (s : MigrationState) : Option MigrationTable :=
  s.working <|> s.committed

/-- Change the table, in the transaction if there is one. -/
def modify (s : MigrationState) (change : MigrationTable → MigrationTable) : MigrationState :=
  match s.working with
  | some rows => { s with working := some (change rows) }
  | none => { s with committed := s.committed.map change }

end MigrationState

def isVersion (version : Int64) : List Value → Bool
  | .int v :: _ => v == version
  | _ => false

def lockRow : List Value :=
  [.int 0, .string "__lock__", .string "lock"]

/-- What a command does when it does not fail. -/
def MigrationCommand.effect (s : MigrationState) : MigrationCommand → MigrationState
  | .createTable =>
    match s.visible with
    | some _ => s
    | none => { s with committed := some [] }
  | .insertLock => s.modify fun rows => if rows.any (isVersion 0) then rows else rows ++ [lockRow]
  | .beginTransaction => { s with working := s.visible }
  | .lock | .select | .script _ => s
  | .insert version name checksum =>
    s.modify fun rows => rows ++ [[.int version, .string name, .string checksum]]
  | .delete version => s.modify fun rows => rows.filter fun row => !isVersion version row
  | .commit =>
    match s.working with
    | some rows => { s with committed := some rows, working := none }
    | none => s
  | .rollback => { s with working := none }

/-- Programs that talk to the database. -/
abbrev Migrating := EStateM String MigrationState

section Commands

variable (db : MigrationDatabase)

def send (command : MigrationCommand) : Migrating Unit := fun s =>
  match db.failure (s.log ++ [command]) with
  | some e => .error e { s with log := s.log ++ [command] }
  | none => .ok () (command.effect { s with log := s.log ++ [command] })

def queryRows : Migrating MigrationTable := do
  send db .select
  let s ← get
  match s.visible with
  | none => throw "no such table"
  | some rows => pure (db.order rows)

structure AppliedMigration where
  name : String
  checksum : String
deriving DecidableEq, Repr

/-- The applied migrations, by version. -/
abbrev Applied := List (Int64 × AppliedMigration)

namespace Applied

def versions (applied : Applied) : List Int64 :=
  applied.map Prod.fst

/-- The highest version, or zero. -/
def current (applied : Applied) : Int64 :=
  applied.versions.max?.getD 0

end Applied

/-- Read one row of the table. -/
def readApplied (applied : Applied) (row : List Value) : Except String Applied :=
  match row with
  | [version, name, checksum] =>
    match version with
    | .int version =>
      match name with
      | .string name =>
        match checksum with
        | .string checksum =>
          if 0 < version then
            if version ∈ applied.versions then
              .error ("duplicate applied migration version " ++ toString version)
            else .ok (applied ++ [(version, ⟨name, checksum⟩)])
          else .ok applied
        | _ => .error "migration metadata checksum is not a string"
      | _ => .error "migration metadata name is not a string"
    | _ => .error "migration metadata version is not an integer"
  | _ => .error "migration metadata table has an invalid row shape"

def appliedMigrations : Migrating Applied := do
  let rows ← queryRows db
  Session.ofExcept (rows.foldlM readApplied [])

/-- The check of one record. Versions of a set are distinct, so the first migration of
the version is the one of the map. -/
def validateRecord (migrations : List MigrationDefinition) (entry : Int64 × AppliedMigration) :
    Except String Unit :=
  match migrations.find? fun m => m.version == entry.1 with
  | none =>
    .error ("database contains migration " ++ toString entry.1 ++ ", but it is absent locally")
  | some m =>
    if entry.2.name ≠ m.name || entry.2.checksum ≠ m.checksum then
      .error ("migration " ++ toString entry.1 ++ " changed after it was applied")
    else .ok ()

/-- No version below the highest applied one is missing. -/
def validateHistory (applied : Applied) (highest : Int64) (m : MigrationDefinition) :
    Except String Unit :=
  if m.version ≤ highest && !applied.versions.contains m.version then
    .error ("migration history is missing locally defined version " ++ toString m.version)
  else .ok ()

def validateAppliedMigrations (applied : Applied) (migrations : List MigrationDefinition) :
    Except String Unit := do
  (db.order applied).forM (validateRecord migrations)
  match applied.versions.max? with
  | none => .ok ()
  | some highest => migrations.forM (validateHistory applied highest)

def ensureMigrationTable : Migrating Unit := do
  send db .createTable
  send db .insertLock

/-- SQLite locks the database as it begins; the others lock the first row. -/
def beginMigrationTransaction (backend : SqlBackend) : Migrating Unit := do
  send db .beginTransaction
  match backend with
  | .sqlite => pure ()
  | .postgres | .mySql | .sqlServer => send db .lock

/-- Apply one migration. -/
def applyMigration (count : Nat) (m : MigrationDefinition) : Migrating Nat := do
  send db (.script m.up)
  send db (.insert m.version m.name m.checksum)
  pure (count + 1)

/-- Revert the migration of one version. -/
def revertMigration (migrations : List MigrationDefinition) (count : Nat) (version : Int64) :
    Migrating Nat := do
  match migrations.find? fun m => m.version == version with
  | none => throw ("migration " ++ toString version ++ " is absent locally")
  | some m =>
    send db (.script m.down)
    send db (.delete version)
    pure (count + 1)

def descending (versions : List Int64) : List Int64 :=
  versions.insertionSort fun left right => right ≤ left

/-- What happens in the transaction. -/
def runMigrations (migrations : List MigrationDefinition) (target : Int64) : Migrating Nat := do
  let applied ← appliedMigrations db
  Session.ofExcept (validateAppliedMigrations db applied migrations)
  let current := applied.current
  if target = current then pure 0
  else if current < target then
    (migrations.filter fun m => current < m.version && m.version ≤ target).foldlM
      (applyMigration db) 0
  else
    ((descending (db.order applied.versions)).filter fun version => target < version).foldlM
      (revertMigration db migrations) 0

/-- To a version, in a transaction. -/
def migrateTo (backend : SqlBackend) (set : MigrationSet) (target : Int64) : Migrating Nat := do
  ensureMigrationTable db
  beginMigrationTransaction db backend
  match ← Session.observe (runMigrations db set.migrations target) with
  | .ok count =>
    send db .commit
    pure count
  | .error e =>
    let _ ← Session.observe (send db .rollback)
    throw e

end Commands

end Sql
end MuxRuntime
