import Soveren.Relational.Process
import Soveren.Relational.Run
import Soveren.Relational.Text
import Soveren.Relational.Transaction

/-! The migration runner: scripts that are applied once for a namespace, each in a transaction with its
record, and the baseline that records all of them on a schema that matches. -/
namespace Soveren.Migrations
open Relational Process

/-- A row of `sqlite_master`. -/
structure SchemaObject where
  kind : String
  name : String
  table : String
  sql : Option String
  deriving DecidableEq, Repr

structure MigrationRow where
  ns : String
  version : String
  appliedAt : Int
  deriving DecidableEq, Repr

/-- The database file: the schema and the data outside of `schema_migrations`, and the rows of that table,
which is not there before its first use. It is the table that the runner creates; nobody else has put a
trigger or an index on it. -/
structure Database (σ : Type) where
  content : σ
  migrations : Option (List MigrationRow)
  deriving DecidableEq, Repr

/-- The database engine inside a transaction, and `str.lower`. A statement of a script may touch all of the
file. It does not end the transaction that it runs in. -/
structure Engine (σ : Type) where
  completeStatement : String → Bool
  run : String → Database σ → Except String (Database σ)
  master : σ → List SchemaObject
  tableInfo : σ → String → List String
  lower : String → String
  empty : σ

structure SchemaIssue where
  objectName : String
  message : String
  deriving DecidableEq, Repr

structure PlatformSchemaReport where
  expectedMigrations : List String
  appliedMigrations : List String
  missingMigrations : List String
  issues : List SchemaIssue
  deriving DecidableEq, Repr

def PlatformSchemaReport.ok (r : PlatformSchemaReport) : Bool :=
  r.missingMigrations.isEmpty && r.issues.isEmpty

inductive Failure
  | sql (message : String)
  | integrity
  | key
  | schemaValidation (report : PlatformSchemaReport)
  deriving DecidableEq, Repr

/-- A migration file: its stem and its text. -/
structure Script where
  version : String
  body : String
  deriving DecidableEq, Repr

variable {σ : Type}

section Statements

abbrev Statement (σ α : Type) := EStateM Failure (Database σ) α

def noTable : Failure := .sql "no such table: schema_migrations"

/-- `CREATE TABLE IF NOT EXISTS schema_migrations`. -/
def ensureMeta : Statement σ Unit :=
  execute fun db => .ok { db with migrations := some (db.migrations.getD []) }

def versionsOf (ns : String) (rows : List MigrationRow) : List String :=
  (rows.filter (·.ns = ns)).map (·.version)

def applied (ns : String) : Statement σ (List String) :=
  query fun db => match db.migrations with
    | none => .error noTable
    | some rows => .ok (versionsOf ns rows)

def insertMigration (row : MigrationRow) : Statement σ Unit :=
  execute fun db => match db.migrations with
    | none => .error noTable
    | some rows =>
      if rows.any fun r => r.ns = row.ns && r.version = row.version then .error .integrity
      else .ok { db with migrations := some (rows ++ [row]) }

variable (engine : Engine σ)

/-- Run one statement of a script. -/
def runStatement (statement : String) : Statement σ Unit :=
  execute fun db => (engine.run statement db).mapError .sql

def executeSqlScriptFrom : List Char → List Char → Statement σ Unit
  | statement, [] =>
    if Text.blank (String.ofList statement) then pure () else runStatement engine (String.ofList statement)
  | statement, c :: cs =>
    let candidate := statement ++ [c]
    if c = ';' ∧ engine.completeStatement (String.ofList candidate) = true then do
      runStatement engine (String.ofList candidate)
      executeSqlScriptFrom [] cs
    else executeSqlScriptFrom candidate cs

def executeSqlScript (body : String) : Statement σ Unit := executeSqlScriptFrom engine [] body.toList

/-- The body of the transaction for one script; it tells whether the script was fresh. -/
def migrateOnce (ns : String) (now : Int) (script : Script) : Statement σ Bool := do
  let versions ← applied ns
  if versions.contains script.version then pure false
  else
    executeSqlScript engine script.body
    insertMigration ⟨ns, script.version, now⟩
    pure true

end Statements

section Programs

/-- What a runner asks the database for: single statements and whole transactions. -/
inductive Op
  | ensureMeta
  | applied (ns : String)
  | migrate (ns : String) (script : Script)
  | baseline

abbrev Res : Op → Type
  | .ensureMeta => Except Failure Unit
  | .applied _ => Except Failure (List String)
  | .migrate _ _ => Except Failure Bool
  | .baseline => Except Failure (List String)

abbrev Program (α : Type) := Proc Op Res (Except Failure α)

/-- The loop over the files, with the versions seen as applied and the fresh ones so far. -/
def applyEach (ns : String) : List Script → List String → List String → Program (List String)
  | [], _, fresh => .ret (.ok fresh)
  | script :: scripts, seen, fresh =>
    if seen.contains script.version then applyEach ns scripts seen fresh
    else .call (.migrate ns script) fun
      | .error e => .ret (.error e)
      | .ok false => applyEach ns scripts (script.version :: seen) fresh
      | .ok true => applyEach ns scripts seen (fresh ++ [script.version])

/-- The part of `applyMigrationsFromDir` from its first query on. -/
def applyPending (ns : String) (scripts : List Script) : Program (List String) :=
  .call (.applied ns) fun
    | .error e => .ret (.error e)
    | .ok seen => applyEach ns scripts seen []

def applyMigrationsFromDir (ns : String) (scripts : List Script) : Program (List String) :=
  .call .ensureMeta fun
    | .error e => .ret (.error e)
    | .ok () => applyPending ns scripts

def platformNamespace : String := "platform"

def applyPlatformMigrations (scripts : List Script) : Program (List String) :=
  applyMigrationsFromDir platformNamespace scripts

def expectedPlatformMigrations (scripts : List Script) : List String := scripts.map (·.version)

end Programs

section Schema

variable (engine : Engine σ)

def tableExists (content : σ) (table : String) : Bool :=
  (engine.master content).any fun o => o.kind = "table" && o.name = table

def tableColumns (content : σ) (table : String) : Option (List String) :=
  if tableExists engine content table then some (engine.tableInfo content table) else none

def normalizeSchemaSql (sql : String) : String := engine.lower (Text.strip (Text.normalize sql))

def schemaObjectSql (content : σ) (kind name : String) : Option String :=
  ((engine.master content).find? fun o => o.kind = kind && o.name = name && o.sql.isSome).bind
    fun o => o.sql.map (normalizeSchemaSql engine)

/-- The platform's part of the schema, by kind and name. -/
def schemaObjects (tables : List (String × List String)) (content : σ) : List ((String × String) × String) :=
  (engine.master content).filterMap fun o =>
    if (o.kind = "table" && (tables.map (·.1)).contains o.name) ||
        ((o.kind = "index" || o.kind = "trigger") && (tables.map (·.1)).contains o.table) then
      o.sql.map fun sql => ((o.kind, o.name), normalizeSchemaSql engine sql)
    else none

/-- The columns of `expected` that `existing` lacks, in order. -/
def columnsBeyond (expected existing : List String) : List String :=
  (expected.filter fun c => !existing.contains c).mergeSort fun a b => decide (a ≤ b)

def tableIssue (expected : List ((String × String) × String)) (content : σ) (table : String)
    (columns : List String) : Except Failure (List SchemaIssue) :=
  match tableColumns engine content table with
  | none => .ok [⟨table, "missing table"⟩]
  | some existing =>
    let missing := columnsBeyond columns existing
    let extra := columnsBeyond existing columns
    if missing ≠ [] then .ok [⟨table, "missing columns: " ++ ", ".intercalate missing⟩]
    else if extra ≠ [] then .ok [⟨table, "unexpected columns: " ++ ", ".intercalate extra⟩]
    else match expected.lookup ("table", table) with
      | none => .error .key
      | some sql =>
        if schemaObjectSql engine content "table" table = some sql then .ok []
        else .ok [⟨table, "table definition differs from the platform schema"⟩]

def objectIssue (content : σ) (o : (String × String) × String) : List SchemaIssue :=
  if o.1.1 = "index" ∨ o.1.1 = "trigger" then
    match schemaObjectSql engine content o.1.1 o.1.2 with
    | none => [⟨o.1.2, "missing " ++ o.1.1⟩]
    | some sql =>
      if sql = o.2 then [] else [⟨o.1.2, o.1.1 ++ " definition differs from the platform schema"⟩]
  else []

def schemaIssues (tables : List (String × List String)) (expected : List ((String × String) × String))
    (content : σ) : Except Failure (List SchemaIssue) := do
  let perTable ← tables.mapM fun t => tableIssue engine expected content t.1 t.2
  .ok (perTable.flatten ++ expected.flatMap (objectIssue engine content))

end Schema

/-- What the package ships: its scripts in the order of their files and the columns of its tables. -/
structure Platform (σ : Type) where
  engine : Engine σ
  tables : List (String × List String)
  scripts : List Script

namespace Platform
variable (p : Platform σ)

def versions : List String := expectedPlatformMigrations p.scripts

section Baseline

variable (expected : List ((String × String) × String))

/-- The body of the baseline's transaction. -/
def baselineOnce (now : Int) : Statement σ (List String) := do
  let seen ← applied platformNamespace
  let content ← query fun db => .ok db.content
  if seen ≠ [] ∨ (p.tables.any fun t => tableExists p.engine content t.1) = false then pure []
  else
    let issues ← query fun _ => schemaIssues p.engine p.tables expected content
    if issues ≠ [] then query fun _ => .error (.schemaValidation ⟨p.versions, [], p.versions, issues⟩)
    else
      p.versions.forM fun version => insertMigration ⟨platformNamespace, version, now⟩
      pure p.versions

def settleOp (m : Statement σ α) (db : Database σ) : Database σ × Except Failure α :=
  match m db with
  | .ok a db' => (db', .ok a)
  | .error e db' => (db', .error e)

/-- One operation on the file. A fault is an exception that the database raises before it has committed. -/
def performWith (now : Int) (fault : Option Failure) (db : Database σ) : (o : Op) → Database σ × Res o
  | .ensureMeta => match fault with
    | some e => (db, .error e)
    | none => settleOp ensureMeta db
  | .applied ns => match fault with
    | some e => (db, .error e)
    | none => settleOp (applied ns) db
  | .migrate ns script => match fault with
    | some e => (db, .error e)
    | none => settleOp (transaction (migrateOnce p.engine ns now script)) db
  | .baseline => match fault with
    | some e => (db, .error e)
    | none => settleOp (transaction (p.baselineOnce expected now)) db

end Baseline

/-- The schema of a new database that the scripts were applied to. -/
def expectedPlatformSchemaObjects : Except Failure (List ((String × String) × String)) :=
  let run := Proc.runAlone (fun _ db o => p.performWith [] 0 none db o) 0 ⟨p.engine.empty, none⟩
    (applyPlatformMigrations p.scripts)
  run.2.2.map fun _ => schemaObjects p.engine p.tables run.1.content

def platformSchemaIssues (content : σ) : Except Failure (List SchemaIssue) := do
  let expected ← p.expectedPlatformSchemaObjects
  schemaIssues p.engine p.tables expected content

def perform (now : Int) (fault : Option Failure) (db : Database σ) (o : Op) : Database σ × Res o :=
  match p.expectedPlatformSchemaObjects with
  | .ok expected => p.performWith expected now fault db o
  | .error _ => p.performWith [] now fault db o

def baselinePlatformMigrations : Program (List String) :=
  match p.expectedPlatformSchemaObjects with
  | .error e => .ret (.error e)
  | .ok _ => .call .ensureMeta fun
    | .error e => .ret (.error e)
    | .ok () => .call .baseline .ret

def appliedIfMetaExists (ns : String) (db : Database σ) : List String :=
  versionsOf ns (db.migrations.getD [])

def inspectPlatformSchema (db : Database σ) : Except Failure PlatformSchemaReport := do
  let seen := appliedIfMetaExists platformNamespace db
  let issues ← p.platformSchemaIssues db.content
  .ok ⟨p.versions, seen.mergeSort fun a b => decide (a ≤ b),
    p.versions.filter fun v => !seen.contains v, issues⟩

def assertPlatformSchema (db : Database σ) : Except Failure Unit := do
  let report ← p.inspectPlatformSchema db
  if report.ok then .ok () else .error (.schemaValidation report)

end Platform

end Soveren.Migrations
