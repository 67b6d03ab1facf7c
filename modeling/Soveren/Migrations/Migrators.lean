import Soveren.Migrations.Runner

/-! Any number of migrators on one file. Each transaction is atomic, and a migrator that stops for good is
one that is not advanced any more. -/
namespace Soveren.Migrations
open Relational Process

variable {σ : Type}

section Scripts

variable (engine : Engine σ)

/-- The statements of a script: its text is cut after each complete statement. -/
def statementsFrom : List Char → List Char → List String
  | statement, [] =>
    if Text.blank (String.ofList statement) then [] else [String.ofList statement]
  | statement, c :: cs =>
    let candidate := statement ++ [c]
    if c = ';' ∧ engine.completeStatement (String.ofList candidate) = true then
      String.ofList candidate :: statementsFrom [] cs
    else statementsFrom candidate cs

/-- What a script makes of the file. -/
def Script.effect (script : Script) (db : Database σ) : Except String (Database σ) :=
  (statementsFrom engine [] script.body.toList).foldlM (fun db s => engine.run s db) db

theorem executeSqlScriptFrom_eq (statement cs : List Char) :
    executeSqlScriptFrom engine statement cs =
      (statementsFrom engine statement cs).forM (runStatement engine) := by
  induction cs generalizing statement with
  | nil =>
    by_cases hblank : Text.blank (String.ofList statement) = true
    · simp [executeSqlScriptFrom, statementsFrom, hblank]
    · simp only [executeSqlScriptFrom, statementsFrom, hblank]
      funext db
      simp only [List.forM_eq_forM, List.forM_cons, List.forM_nil, bind_run, Bool.false_eq_true, if_false]
      cases runStatement engine (String.ofList statement) db <;> rfl
  | cons c cs ih =>
    rw [executeSqlScriptFrom, statementsFrom]
    split
    · rw [ih]
      rfl
    · exact ih _

theorem runStatement_eq (statement : String) (db : Database σ) :
    runStatement engine statement db = match engine.run statement db with
      | .ok db' => .ok () db'
      | .error message => .error (.sql message) db := by
  simp only [runStatement, execute]
  cases engine.run statement db <;> rfl

theorem forM_runStatement (statements : List String) (db db' : Database σ) (u : Unit)
    (h : statements.forM (runStatement engine) db = .ok u db') :
    statements.foldlM (fun db s => engine.run s db) db = .ok db' := by
  induction statements generalizing db with
  | nil =>
    cases h
    rfl
  | cons s statements ih =>
    rw [List.forM_eq_forM, List.forM_cons, bind_run, runStatement_eq] at h
    rw [List.foldlM_cons]
    cases hrun : engine.run s db with
    | error message =>
      rw [hrun] at h
      cases h
    | ok db₁ =>
      rw [hrun] at h
      exact ih _ h

/-- A script that runs to its end has its effect. -/
theorem executeSqlScript_ok {script : Script} {db db' : Database σ} {u : Unit}
    (h : executeSqlScript engine script.body db = .ok u db') : script.effect engine db = .ok db' := by
  rw [executeSqlScript, executeSqlScriptFrom_eq] at h
  exact forM_runStatement engine _ db db' u h

/-- A text that ends with a semicolon where it is complete. -/
def Complete (text : List Char) : Prop :=
  text.getLast? = some ';' ∧ engine.completeStatement (String.ofList text) = true

/-- A text is cut behind its shortest start that is complete, and so is what follows. Where there is none, the
rest is one statement, unless it is blank. -/
inductive Splits : List String → List Char → Prop
  | blank {rest : List Char} (hblank : Text.blank (String.ofList rest) = true) : Splits [] rest
  | last {rest : List Char} (hfilled : Text.blank (String.ofList rest) = false)
      (hopen : ∀ start, start <+: rest → ¬ Complete engine start) : Splits [String.ofList rest] rest
  | cut {statement text : List Char} {statements : List String} (hcomplete : Complete engine statement)
      (hfirst : ∀ start, start <+: statement → Complete engine start → start = statement)
      (hrest : Splits statements text) : Splits (String.ofList statement :: statements) (statement ++ text)

variable {engine}

theorem complete_snoc (statement : List Char) (c : Char) :
    Complete engine (statement ++ [c]) ↔
      c = ';' ∧ engine.completeStatement (String.ofList (statement ++ [c])) = true := by
  simp [Complete]

theorem not_complete_nil : ¬ Complete engine [] := by
  rintro ⟨hlast, -⟩
  cases hlast

theorem not_complete_of_blank {rest start : List Char} (hblank : Text.blank (String.ofList rest) = true)
    (hstart : start <+: rest) : ¬ Complete engine start := by
  rintro ⟨hlast, -⟩
  have hspace : Text.isSpace ';' = true := by
    rw [Text.blank, String.toList_ofList] at hblank
    exact List.all_eq_true.mp hblank ';' (hstart.subset (List.mem_of_getLast? hlast))
  exact absurd hspace (by decide)

theorem statementsFrom_splits (statement cs : List Char)
    (hopen : ∀ start, start <+: statement → ¬ Complete engine start) :
    Splits engine (statementsFrom engine statement cs) (statement ++ cs) := by
  induction cs generalizing statement with
  | nil =>
    rw [List.append_nil, statementsFrom]
    split
    · rename_i hblank
      exact .blank hblank
    · rename_i hfilled
      exact .last (by simpa using hfilled) hopen
  | cons c cs ih =>
    rw [statementsFrom, List.append_cons statement c cs]
    split
    · rename_i hcut
      refine .cut ((complete_snoc statement c).mpr hcut) (fun start hstart hcomplete => ?_)
        (ih [] fun start hstart => ?_)
      · obtain hall | hstart := List.prefix_concat_iff.mp hstart
        · exact hall
        · exact absurd hcomplete (hopen start hstart)
      · rw [List.prefix_nil.mp hstart]
        exact not_complete_nil
    · rename_i hcut
      refine ih (statement ++ [c]) fun start hstart hcomplete => ?_
      obtain rfl | hstart := List.prefix_concat_iff.mp hstart
      · exact hcut ((complete_snoc statement c).mp hcomplete)
      · exact hopen start hstart hcomplete

theorem statementsFrom_open (statement cs : List Char)
    (hopen : ∀ start, start <+: statement ++ cs → ¬ Complete engine start) :
    statementsFrom engine statement cs =
      if Text.blank (String.ofList (statement ++ cs)) then [] else [String.ofList (statement ++ cs)] := by
  induction cs generalizing statement with
  | nil => rw [statementsFrom, List.append_nil]
  | cons c cs ih =>
    have hcut : ¬ Complete engine (statement ++ [c]) := hopen _ ⟨cs, by simp⟩
    rw [complete_snoc] at hcut
    rw [List.append_cons statement c cs] at hopen ⊢
    rw [statementsFrom, if_neg hcut]
    exact ih _ hopen

theorem statementsFrom_cut (statement cs rest : List Char) (hcs : cs ≠ [])
    (hcomplete : Complete engine (statement ++ cs))
    (hfirst : ∀ start, start <+: statement ++ cs → Complete engine start → start = statement ++ cs) :
    statementsFrom engine statement (cs ++ rest) =
      String.ofList (statement ++ cs) :: statementsFrom engine [] rest := by
  induction cs generalizing statement with
  | nil => exact absurd rfl hcs
  | cons c cs ih =>
    rw [List.cons_append, statementsFrom]
    by_cases hnil : cs = []
    · subst hnil
      exact if_pos ((complete_snoc statement c).mp hcomplete)
    · have hcut : ¬ Complete engine (statement ++ [c]) := by
        intro hcut
        have heq := hfirst _ ⟨cs, by simp⟩ hcut
        exact hnil (by simpa using heq.symm)
      rw [complete_snoc] at hcut
      rw [List.append_cons statement c cs] at hcomplete hfirst ⊢
      rw [if_neg hcut]
      exact ih _ hnil hcomplete hfirst

theorem splits_iff {statements : List String} {text : List Char} :
    Splits engine statements text ↔ statements = statementsFrom engine [] text := by
  constructor
  · intro h
    induction h with
    | blank hblank =>
      rw [statementsFrom_open [] _ fun start hstart => not_complete_of_blank hblank hstart]
      exact (if_pos hblank).symm
    | last hfilled hopen =>
      rw [statementsFrom_open [] _ hopen]
      exact (if_neg (by simp [hfilled])).symm
    | @cut statement text statements hcomplete hfirst hrest ih =>
      have hne : statement ≠ [] := by
        rintro rfl
        exact not_complete_nil hcomplete
      rw [statementsFrom_cut [] statement text hne hcomplete hfirst, ← ih]
      rfl
  · rintro rfl
    refine statementsFrom_splits [] text fun start hstart => ?_
    rw [List.prefix_nil.mp hstart]
    exact not_complete_nil

/-- No text is lost. -/
theorem Splits.flatten {statements : List String} {text : List Char} (h : Splits engine statements text) :
    ∃ rest, rest.all Text.isSpace = true ∧ statements.flatMap String.toList ++ rest = text := by
  induction h with
  | @blank rest hblank =>
    refine ⟨rest, ?_, rfl⟩
    rwa [Text.blank, String.toList_ofList] at hblank
  | last => exact ⟨[], rfl, by simp⟩
  | cut hcomplete hfirst hrest ih =>
    obtain ⟨rest, hblank, hflat⟩ := ih
    refine ⟨rest, hblank, ?_⟩
    rw [List.flatMap_cons, String.toList_ofList, List.append_assoc, hflat]

variable (engine)

/-- A script runs the statements into which its text is cut, one after the other, and there is one way to
cut it. -/
theorem script_runs_whole_text (script : Script) : ∃ statements,
    Splits engine statements script.body.toList ∧
    (∀ other, Splits engine other script.body.toList → other = statements) ∧
    executeSqlScript engine script.body = statements.forM (runStatement engine) ∧
    ∃ rest, rest.all Text.isSpace = true ∧ statements.flatMap String.toList ++ rest = script.body.toList := by
  have hsplits : Splits engine (statementsFrom engine [] script.body.toList) script.body.toList :=
    splits_iff.mpr rfl
  refine ⟨_, hsplits, fun other hother => splits_iff.mp hother, ?_, hsplits.flatten⟩
  rw [executeSqlScript, executeSqlScriptFrom_eq]

def removal : String := "DELETE FROM schema_migrations WHERE version = '001';"

/-- An engine for statements that create a table if it is not there, and for one that deletes the record of
the first script. A content is the statements whose tables are there. -/
def tableEngine : Engine (List String) where
  completeStatement _ := true
  run statement db :=
    if statement = removal then
      .ok { db with migrations := db.migrations.map fun rows => rows.filter fun r => r.version ≠ "001" }
    else .ok { db with content := if statement ∈ db.content then db.content else db.content ++ [statement] }
  master _ := []
  tableInfo _ _ := []
  lower s := s
  empty := []

def createA : String := "CREATE TABLE IF NOT EXISTS a(x);"

def createB : String := "CREATE TABLE IF NOT EXISTS b(x);"

def createC : String := "CREATE TABLE IF NOT EXISTS c(x);"

/-- A script of two statements. -/
theorem script_runs_whole_text_two :
    executeSqlScript tableEngine (createA ++ createB) = [createA, createB].forM (runStatement tableEngine) := by
  obtain ⟨statements, -, honly, hrun, -⟩ := script_runs_whole_text tableEngine ⟨"001", createA ++ createB⟩
  have hsplits : Splits tableEngine [createA, createB] (createA ++ createB).toList :=
    splits_iff.mpr (by decide +kernel)
  rw [honly _ hsplits]
  exact hrun

end Scripts

section Records

def recorded (db : Database σ) : List String := Platform.appliedIfMetaExists platformNamespace db

theorem recorded_congr {db db' : Database σ} (h : db'.migrations = db.migrations) : recorded db' = recorded db := by
  simp only [recorded, Platform.appliedIfMetaExists, h]

theorem recorded_ensureMeta {db db' : Database σ} {u : Unit} (h : ensureMeta db = .ok u db') :
    recorded db' = recorded db ∧ db'.content = db.content := by
  cases h
  exact ⟨rfl, rfl⟩

theorem applied_ok {ns : String} {db db' : Database σ} {versions : List String}
    (h : applied ns db = .ok versions db') : db' = db ∧ versions = Platform.appliedIfMetaExists ns db := by
  simp only [applied, query, Platform.appliedIfMetaExists] at h ⊢
  cases hrows : db.migrations with
  | none =>
    rw [hrows] at h
    cases h
  | some rows =>
    rw [hrows] at h
    cases h
    exact ⟨rfl, rfl⟩

theorem insertMigration_ok {row : MigrationRow} {db db' : Database σ} {u : Unit}
    (h : insertMigration row db = .ok u db') (hns : row.ns = platformNamespace) :
    recorded db' = recorded db ++ [row.version] ∧ db'.content = db.content := by
  simp only [insertMigration, execute] at h
  cases hrows : db.migrations with
  | none =>
    rw [hrows] at h
    cases h
  | some rows =>
    rw [hrows] at h
    by_cases hany : (rows.any fun r => r.ns = row.ns && r.version = row.version) = true
    · simp only [hany, if_true] at h
      cases h
    · simp only [hany] at h
      cases h
      simp [recorded, Platform.appliedIfMetaExists, versionsOf, hrows, hns]

theorem insertEach_ok {now : Int} {versions : List String} {db db' : Database σ} {u : Unit}
    (h : (versions.forM fun version => insertMigration ⟨platformNamespace, version, now⟩) db = .ok u db') :
    recorded db' = recorded db ++ versions ∧ db'.content = db.content := by
  induction versions generalizing db with
  | nil =>
    cases h
    simp
  | cons version versions ih =>
    rw [List.forM_eq_forM, List.forM_cons, bind_run] at h
    cases hrow : insertMigration ⟨platformNamespace, version, now⟩ db with
    | error e db₁ =>
      rw [hrow] at h
      cases h
    | ok v db₁ =>
      rw [hrow] at h
      obtain ⟨hrec, hcontent⟩ := insertMigration_ok hrow rfl
      obtain ⟨hrec', hcontent'⟩ := ih h
      exact ⟨by rw [hrec', hrec, List.append_assoc]; rfl, hcontent'.trans hcontent⟩

end Records

/-- An entry for each migrator and what it has committed. -/
inductive Entry
  | migrated (migrator : ℕ) (version : String)
  | baselined (migrator : ℕ)
  deriving DecidableEq, Repr

def Entry.migrator : Entry → ℕ
  | .migrated i _ => i
  | .baselined i => i

def entriesOf (migrator : ℕ) : (o : Op) → Res o → List Entry
  | .migrate _ script, .ok true => [.migrated migrator script.version]
  | .baseline, .ok (_ :: _) => [.baselined migrator]
  | _, _ => []

structure System (σ : Type) where
  db : Database σ
  migrators : List (Program (List String))
  log : List Entry

inductive Label
  | startApply
  | startBaseline
  | advance (migrator : ℕ) (now : Int) (fault : Option Failure)

namespace Platform
variable (p : Platform σ)

def step (s : System σ) : Label → Option (System σ)
  | .startApply => some { s with migrators := s.migrators ++ [applyPlatformMigrations p.scripts] }
  | .startBaseline => some { s with migrators := s.migrators ++ [p.baselinePlatformMigrations] }
  | .advance i now fault => match s.migrators[i]? with
    | some (.call o k) =>
      let (db, r) := p.perform now fault s.db o
      some ⟨db, s.migrators.set i (k r), s.log ++ entriesOf i o r⟩
    | _ => none

/-- The versions that an entry has recorded. -/
def recordedBy : Entry → List String
  | .migrated _ version => [version]
  | .baselined _ => p.versions

/-- What a migrator has recorded, in order. -/
def freshOf (migrator : ℕ) (log : List Entry) : List String :=
  (log.filter (·.migrator = migrator)).flatMap p.recordedBy

/-- A content that scripts make one after the other from a file on. Each runs on a file that has the content
that those before it have made, and their records. -/
inductive Makes (db₀ : Database σ) : List Script → σ → Prop
  | nothing : Makes db₀ [] db₀.content
  | script {scripts : List Script} {script : Script} {db db' : Database σ} (before : Makes db₀ scripts db.content)
      (hrec : recorded db = recorded db₀ ++ scripts.map (·.version))
      (heffect : script.effect p.engine db = .ok db') : Makes db₀ (scripts ++ [script]) db'.content

/-- No script changes `schema_migrations`. -/
def KeepsRecords : Prop :=
  ∀ script ∈ p.scripts, ∀ db db' : Database σ, script.effect p.engine db = .ok db' →
    db'.migrations = db.migrations

/-- A schema that the baseline accepts. -/
def SchemaMatches (content : σ) : Prop :=
  (p.tables.any fun t => tableExists p.engine content t.1) = true ∧ p.platformSchemaIssues content = .ok []

variable {p}

theorem Makes.of_nil {db₀ : Database σ} {content : σ} (h : p.Makes db₀ [] content) : content = db₀.content := by
  generalize hscripts : ([] : List Script) = scripts at h
  cases h with
  | nothing => rfl
  | script before hrec heffect => simp at hscripts

end Platform

end Soveren.Migrations
