import Soveren.Migrations.Agreement

/-! A migrator that nothing interrupts: it applies what is not recorded, in order, up to the first script
that fails. -/
namespace Soveren.Migrations
open Relational Process

variable {σ : Type} {p : Platform σ}

theorem forM_runStatement_error (engine : Engine σ) (statements : List String) (db : Database σ)
    (message : String) (h : statements.foldlM (fun db s => engine.run s db) db = .error message) :
    ∃ db', statements.forM (runStatement engine) db = .error (.sql message) db' := by
  induction statements generalizing db with
  | nil => cases h
  | cons s statements ih =>
    rw [List.foldlM_cons] at h
    rw [List.forM_eq_forM, List.forM_cons, bind_run, runStatement_eq]
    cases hrun : engine.run s db with
    | error m =>
      rw [hrun] at h
      cases h
      exact ⟨db, rfl⟩
    | ok db₁ =>
      rw [hrun] at h
      exact ih db₁ h

theorem forM_runStatement_run (engine : Engine σ) (statements : List String) (db db' : Database σ)
    (h : statements.foldlM (fun db s => engine.run s db) db = .ok db') :
    statements.forM (runStatement engine) db = .ok () db' := by
  induction statements generalizing db with
  | nil =>
    cases h
    rfl
  | cons s statements ih =>
    rw [List.foldlM_cons] at h
    rw [List.forM_eq_forM, List.forM_cons, bind_run, runStatement_eq]
    cases hrun : engine.run s db with
    | error m =>
      rw [hrun] at h
      cases h
    | ok db₁ =>
      rw [hrun] at h
      exact ih db₁ h

section Fresh

variable {script : Script} {db : Database σ} {rows : List MigrationRow}

/-- The record of a script is written behind the others. -/
def Database.record (db : Database σ) (row : MigrationRow) : Database σ :=
  { db with migrations := some (db.migrations.getD [] ++ [row]) }

theorem recorded_record (db : Database σ) (version : String) (now : Int) :
    recorded (db.record ⟨platformNamespace, version, now⟩) = recorded db ++ [version] := by
  simp [recorded, Platform.appliedIfMetaExists, versionsOf, Database.record]

theorem migrateOnce_fresh (hkeeps : ∀ db₁, script.effect p.engine db = .ok db₁ → db₁.migrations = db.migrations)
    (now : Int) (hrows : db.migrations.isSome = true) (h : script.version ∉ recorded db) :
    (∃ db₁, script.effect p.engine db = .ok db₁ ∧ migrateOnce p.engine platformNamespace now script db =
      .ok true (db₁.record ⟨platformNamespace, script.version, now⟩)) ∨
    ∃ message db', script.effect p.engine db = .error message ∧
      migrateOnce p.engine platformNamespace now script db = .error (.sql message) db' := by
  obtain ⟨rows, hrows⟩ := Option.isSome_iff_exists.mp hrows
  have happlied : applied platformNamespace db = .ok (recorded db) db := by
    simp [applied, query, hrows, recorded, Platform.appliedIfMetaExists]
  have hnew : (recorded db).contains script.version = false := by simpa using h
  have hbody : migrateOnce p.engine platformNamespace now script db =
      (executeSqlScript p.engine script.body >>= fun _ =>
        insertMigration ⟨platformNamespace, script.version, now⟩ >>= fun _ => pure true) db := by
    rw [migrateOnce, bind_run, happlied]
    simp only [hnew, Bool.false_eq_true, if_false]
  have hnone : (rows.any fun r => r.ns = platformNamespace && r.version = script.version) = false := by
    simp only [recorded, Platform.appliedIfMetaExists, versionsOf, hrows, Option.getD_some, List.mem_map,
      List.mem_filter, not_exists, not_and, and_imp] at h
    simp only [List.any_eq_false, Bool.and_eq_true, decide_eq_true_eq, not_and]
    exact fun r hr hns => h r hr (by simpa using hns)
  cases heffect : script.effect p.engine db with
  | ok db₁ =>
    have hrows₁ : db₁.migrations = some rows := (hkeeps db₁ heffect).trans hrows
    refine .inl ⟨db₁, rfl, ?_⟩
    rw [hbody, bind_run, executeSqlScript, executeSqlScriptFrom_eq,
      forM_runStatement_run p.engine _ db db₁ heffect]
    simp only [bind_run, insertMigration, execute, hrows₁, hnone, Bool.false_eq_true, if_false,
      Database.record, Option.getD_some]
    rfl
  | error message =>
    obtain ⟨db', hrun⟩ := forM_runStatement_error p.engine _ db message heffect
    refine .inr ⟨message, db', rfl, ?_⟩
    rw [hbody, bind_run, executeSqlScript, executeSqlScriptFrom_eq, hrun]

end Fresh

section Loop

variable (p) (clock : ℕ → Int)

/-- A program that runs alone, with the times of its operations. -/
def Platform.runAlone {α : Type} (k : ℕ) (db : Database σ) (program : Program α) :
    Database σ × List Op × Except Failure α :=
  Proc.runAlone (fun k db o => p.perform (clock k) none db o) k db program

variable {p} {clock}

theorem perform_settles {now : Int} {db : Database σ} {script : Script} :
    p.perform now none db (.migrate platformNamespace script) =
      Platform.settleOp (transaction (migrateOnce p.engine platformNamespace now script)) db := by
  unfold Platform.perform
  cases p.expectedPlatformSchemaObjects <;> rfl

theorem runAlone_call {α : Type} {k : ℕ} {db db' : Database σ} {o : Op} {r : Res o}
    {next : Res o → Program α} (h : p.perform (clock k) none db o = (db', r)) :
    p.runAlone clock k db (.call o next) =
      let rest := p.runAlone clock (k + 1) db' (next r)
      (rest.1, o :: rest.2.1, rest.2.2) := by
  simp only [Platform.runAlone, Proc.runAlone, h]

theorem applyEach_skips {known fresh : List String} {skipped rest : List Script}
    (h : ∀ x ∈ skipped, x.version ∈ known) :
    applyEach platformNamespace (skipped ++ rest) known fresh =
      applyEach platformNamespace rest known fresh := by
  induction skipped with
  | nil => rfl
  | cons x skipped ih =>
    have hx : known.contains x.version = true := by simpa using h x List.mem_cons_self
    rw [List.cons_append, applyEach, if_pos hx, ih fun y hy => h y (List.mem_cons_of_mem x hy)]

/-- What is left of a run whose scripts are all fresh: they have run up to the first one that fails. -/
structure Applied (p : Platform σ) (db : Database σ) (scripts : List Script) (fresh : List String)
    (run : Database σ × List Op × Except Failure (List String)) : Prop where
  split : ∃ done rest, scripts = done ++ rest ∧ p.Makes db done run.1.content ∧
    recorded run.1 = recorded db ++ done.map (·.version) ∧
    ((rest = [] ∧ run.2.2 = .ok (fresh ++ done.map (·.version))) ∨
      ∃ script rest' message, rest = script :: rest' ∧
        script.effect p.engine run.1 = .error message ∧ run.2.2 = .error (.sql message))

/-- What scripts make behind others, they make with them. -/
theorem Platform.Makes.behind {db₀ db : Database σ} {before scripts : List Script} {content : σ}
    (hbefore : p.Makes db₀ before db.content) (hrec : recorded db = recorded db₀ ++ before.map (·.version))
    (h : p.Makes db scripts content) : p.Makes db₀ (before ++ scripts) content := by
  induction h with
  | nothing => rwa [List.append_nil]
  | @script scripts script db₁ db₂ _ hrec₁ heffect ih =>
    rw [← List.append_assoc]
    refine .script ih ?_ heffect
    rw [hrec₁, hrec, List.append_assoc, List.map_append]

theorem applyEach_alone {known : List String} (scripts : List Script) (fresh : List String) (k : ℕ)
    (db : Database σ) (hkeeps : ∀ x ∈ scripts, ∀ db db' : Database σ, x.effect p.engine db = .ok db' →
      db'.migrations = db.migrations)
    (hrows : db.migrations.isSome = true) (hnodup : (scripts.map (·.version)).Nodup)
    (hrec : ∀ x ∈ scripts, x.version ∉ recorded db) (hknown : ∀ x ∈ scripts, x.version ∉ known) :
    Applied p db scripts fresh
      (p.runAlone clock k db (applyEach platformNamespace scripts known fresh)) := by
  induction scripts generalizing fresh k db with
  | nil => exact ⟨[], [], rfl, .nothing, by simp [Platform.runAlone, applyEach, Proc.runAlone], .inl ⟨rfl, by
      simp [Platform.runAlone, applyEach, Proc.runAlone]⟩⟩
  | cons script scripts ih =>
    have hnew : (known.contains script.version) = false := by simpa using hknown script List.mem_cons_self
    have hkeep := hkeeps script List.mem_cons_self
    rw [applyEach, if_neg (by simpa using hnew)]
    rw [List.map_cons, List.nodup_cons] at hnodup
    obtain ⟨db₁, heffect, hrun⟩ | ⟨message, db', heffect, hrun⟩ :=
      migrateOnce_fresh (hkeep db) (clock k) hrows (hrec script List.mem_cons_self)
    · have hsettle : p.perform (clock k) none db (.migrate platformNamespace script) =
          (db₁.record ⟨platformNamespace, script.version, clock k⟩, .ok true) := by
        rw [perform_settles]
        simp [Platform.settleOp, transaction, hrun]
      have hrec₁ : recorded (db₁.record ⟨platformNamespace, script.version, clock k⟩) =
          recorded db ++ [script.version] := by
        rw [recorded_record, recorded_congr (hkeep db db₁ heffect)]
      rw [runAlone_call hsettle]
      obtain ⟨done, rest, hsplit, hcontent, hdone, hresult⟩ := (ih (fresh ++ [script.version]) (k + 1)
        (db₁.record ⟨platformNamespace, script.version, clock k⟩)
        (fun x hx => hkeeps x (List.mem_cons_of_mem script hx)) rfl hnodup.2
        (fun x hx => by
          rw [hrec₁, List.mem_append, not_or]
          refine ⟨hrec x (List.mem_cons_of_mem script hx), ?_⟩
          rintro hmem
          obtain heq := List.mem_singleton.mp hmem
          exact hnodup.1 (List.mem_map.mpr ⟨x, hx, heq⟩))
        fun x hx => hknown x (List.mem_cons_of_mem script hx)).split
      have hfirst : p.Makes db [script] (db₁.record ⟨platformNamespace, script.version, clock k⟩).content :=
        (Platform.Makes.script .nothing (by simp) heffect : p.Makes db [script] db₁.content)
      refine ⟨script :: done, rest, by rw [hsplit]; rfl, ?_, ?_, ?_⟩
      · exact Platform.Makes.behind hfirst hrec₁ hcontent
      · rw [hdone, hrec₁, List.append_assoc]
        rfl
      · simpa [List.append_assoc] using hresult
    · have hsettle : p.perform (clock k) none db (.migrate platformNamespace script) =
          (db, .error (.sql message)) := by
        rw [perform_settles]
        simp [Platform.settleOp, transaction, hrun]
      rw [runAlone_call hsettle]
      refine ⟨[], script :: scripts, rfl, .nothing, by simp [Platform.runAlone, Proc.runAlone], .inr ?_⟩
      exact ⟨script, scripts, message, rfl, heffect, rfl⟩

end Loop

/-- A migrator that nothing interrupts applies exactly what is not recorded, in order, up to the first script
that fails, whose error it raises; on a file where all is recorded it changes no content and reports none. -/
theorem apply_alone (p : Platform σ) (hnodup : p.versions.Nodup) (hkeeps : p.KeepsRecords) (clock : ℕ → Int)
    (db : Database σ) (n : ℕ) (h : recorded db = p.versions.take n) :
    Applied p { db with migrations := some (db.migrations.getD []) } (p.scripts.drop n) []
      (p.runAlone clock 0 db (applyPlatformMigrations p.scripts)) := by
  let db₁ : Database σ := { db with migrations := some (db.migrations.getD []) }
  have hensure : p.perform (clock 0) none db .ensureMeta = (db₁, .ok ()) := by
    unfold Platform.perform
    cases p.expectedPlatformSchemaObjects <;> rfl
  have happlied : p.perform (clock 1) none db₁ (.applied platformNamespace) = (db₁, .ok (recorded db)) := by
    unfold Platform.perform
    cases p.expectedPlatformSchemaObjects <;> rfl
  have hparts : p.scripts.take n ++ p.scripts.drop n = p.scripts := List.take_append_drop n p.scripts
  have hversions : p.versions = (p.scripts.take n).map (·.version) ++ (p.scripts.drop n).map (·.version) := by
    rw [← List.map_append, hparts]
    rfl
  have htake : recorded db = (p.scripts.take n).map (·.version) := by
    rw [h, Platform.versions, expectedPlatformMigrations, List.map_take]
  rw [hversions, List.nodup_append] at hnodup
  have hrest : ∀ x ∈ p.scripts.drop n, x.version ∉ recorded db := by
    intro x hx hmem
    rw [htake] at hmem
    exact hnodup.2.2 _ hmem _ (List.mem_map_of_mem hx) rfl
  have hloop : Applied p db₁ (p.scripts.drop n) []
      (p.runAlone clock 2 db₁ (applyEach platformNamespace (p.scripts.drop n) (recorded db) [])) :=
    applyEach_alone (p.scripts.drop n) [] 2 db₁ (fun x hx => hkeeps x (List.mem_of_mem_drop hx)) rfl hnodup.2.1
      hrest hrest
  have hskips : applyEach platformNamespace (p.scripts.take n ++ p.scripts.drop n) (recorded db) [] =
      applyEach platformNamespace (p.scripts.drop n) (recorded db) [] :=
    applyEach_skips fun x hx => htake ▸ List.mem_map_of_mem hx
  rw [← hskips, hparts] at hloop
  obtain ⟨done, rest, hsplit, hcontent, hdone, hresult⟩ := hloop.split
  refine ⟨done, rest, hsplit, ?_⟩
  rw [applyPlatformMigrations, applyMigrationsFromDir, runAlone_call hensure, applyPending,
    runAlone_call happlied]
  exact ⟨hcontent, hdone, hresult⟩

theorem apply_alone_rest :
    Applied threeTables ⟨[createA, createB], some [⟨"platform", "001", 1⟩]⟩ [⟨"002", createC⟩] []
      (threeTables.runAlone (fun _ => 5) 0 ⟨[createA, createB], some [⟨"platform", "001", 1⟩]⟩
        (applyPlatformMigrations threeTables.scripts)) :=
  apply_alone threeTables (by decide) threeTables_keeps (fun _ => 5)
    ⟨[createA, createB], some [⟨"platform", "001", 1⟩]⟩ 1 (by decide)

end Soveren.Migrations
