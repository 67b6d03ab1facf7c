import Soveren.Migrations.Migrators

/-! Migrators agree: on every interleaving the recorded versions are the first ones of the list, each
script was committed once, and no two migrators claim the same version as fresh. -/
namespace Soveren.Migrations
open Relational Process

variable {σ : Type} {p : Platform σ} {db₀ : Database σ}

section Operations

variable {now : Int} {fault : Option Failure} {db db' : Database σ}

theorem perform_ensureMeta {r : Except Failure Unit} (h : p.perform now fault db .ensureMeta = (db', r)) :
    recorded db' = recorded db ∧ db'.content = db.content := by
  have hcases : (db', r) = (db, r) ∨ ensureMeta db = .ok () db' := by
    unfold Platform.perform at h
    split at h <;> cases fault <;> cases h
    all_goals first
      | exact .inl rfl
      | exact .inr rfl
  rcases hcases with heq | hrun
  · cases heq
    exact ⟨rfl, rfl⟩
  · exact recorded_ensureMeta hrun

theorem settleOp_cases {α : Type} {m : Statement σ α} {r : Except Failure α}
    (h : Platform.settleOp m db = (db', r)) :
    (∃ a, m db = .ok a db' ∧ r = .ok a) ∨ ∃ e, m db = .error e db' ∧ r = .error e := by
  unfold Platform.settleOp at h
  cases hm : m db with
  | ok a db₁ =>
    rw [hm] at h
    cases h
    exact .inl ⟨a, rfl, rfl⟩
  | error e db₁ =>
    rw [hm] at h
    cases h
    exact .inr ⟨e, rfl, rfl⟩

theorem transaction_cases {α : Type} {m : Statement σ α} {r : Except Failure α}
    (h : Platform.settleOp (transaction m) db = (db', r)) :
    (∃ a, m db = .ok a db' ∧ r = .ok a) ∨ ∃ e, db' = db ∧ r = .error e := by
  obtain ⟨a, hm, rfl⟩ | ⟨e, hm, rfl⟩ := settleOp_cases h
  · refine .inl ⟨a, ?_, rfl⟩
    unfold transaction at hm
    cases hbody : m db with
    | ok b db₁ =>
      rw [hbody] at hm
      cases hm
      rfl
    | error e db₁ =>
      rw [hbody] at hm
      cases hm
  · refine .inr ⟨e, ?_, rfl⟩
    unfold transaction at hm
    cases hbody : m db with
    | ok b db₁ =>
      rw [hbody] at hm
      cases hm
    | error e db₁ =>
      rw [hbody] at hm
      cases hm
      rfl

theorem perform_applied {r : Except Failure (List String)}
    (h : p.perform now fault db (.applied platformNamespace) = (db', r)) :
    db' = db ∧ ∀ versions, r = .ok versions → versions = recorded db := by
  have hcases : (db' = db ∧ ∃ e, r = .error e) ∨
      Platform.settleOp (applied platformNamespace) db = (db', r) := by
    unfold Platform.perform at h
    split at h <;> cases fault <;> simp only [Platform.performWith] at h
    all_goals first
      | exact .inr h
      | (cases h; exact .inl ⟨rfl, _, rfl⟩)
  rcases hcases with ⟨rfl, e, rfl⟩ | hrun
  · exact ⟨rfl, fun _ he => by cases he⟩
  · obtain ⟨versions, hm, rfl⟩ | ⟨e, hm, rfl⟩ := settleOp_cases hrun
    · obtain ⟨rfl, rfl⟩ := applied_ok hm
      refine ⟨rfl, fun versions he => ?_⟩
      cases he
      rfl
    · refine ⟨?_, fun _ he => by cases he⟩
      unfold applied query at hm
      cases hrows : db.migrations <;> simp only [hrows] at hm <;> cases hm
      rfl

/-- The transaction of one script. -/
theorem perform_migrate {script : Script} {r : Except Failure Bool}
    (h : p.perform now fault db (.migrate platformNamespace script) = (db', r)) :
    (∃ e, r = .error e ∧ db' = db) ∨ (r = .ok false ∧ db' = db ∧ script.version ∈ recorded db) ∨
      ∃ db₁, r = .ok true ∧ script.version ∉ recorded db ∧ script.effect p.engine db = .ok db₁ ∧
        recorded db' = recorded db₁ ++ [script.version] ∧ db'.content = db₁.content := by
  have hcases : (∃ e, r = .error e ∧ db' = db) ∨
      Platform.settleOp (transaction (migrateOnce p.engine platformNamespace now script)) db = (db', r) := by
    unfold Platform.perform at h
    split at h <;> cases fault <;> simp only [Platform.performWith] at h
    all_goals first
      | exact .inr h
      | (cases h; exact .inl ⟨_, rfl, rfl⟩)
  obtain herror | hrun := hcases
  · exact .inl herror
  obtain ⟨fresh, hm, rfl⟩ | ⟨e, rfl, rfl⟩ := transaction_cases hrun
  · rw [migrateOnce, bind_run] at hm
    cases happlied : applied platformNamespace db with
    | error e db₁ =>
      rw [happlied] at hm
      cases hm
    | ok versions db₁ =>
      obtain ⟨rfl, rfl⟩ := applied_ok happlied
      rw [happlied] at hm
      by_cases hseen : (recorded db₁).contains script.version = true
      · refine .inr (.inl ?_)
        simp only [recorded] at hseen
        simp only [hseen, if_true] at hm
        cases hm
        exact ⟨rfl, rfl, by simpa [recorded] using hseen⟩
      · refine .inr (.inr ?_)
        have hnew : script.version ∉ recorded db₁ := by simpa using hseen
        simp only [recorded] at hseen
        simp only [hseen, Bool.false_eq_true, if_false, bind_run] at hm
        cases hscript : executeSqlScript p.engine script.body db₁ with
        | error e db₂ =>
          rw [hscript] at hm
          cases hm
        | ok u db₂ =>
          rw [hscript] at hm
          have heffect := executeSqlScript_ok p.engine hscript
          cases hrow : insertMigration ⟨platformNamespace, script.version, now⟩ db₂ with
          | error e db₃ =>
            simp only [hrow] at hm
            cases hm
          | ok v db₃ =>
            simp only [hrow] at hm
            cases hm
            obtain ⟨hrec, hcontent⟩ := insertMigration_ok hrow rfl
            exact ⟨db₂, rfl, hnew, heffect, hrec, hcontent⟩
  · exact .inl ⟨e, rfl, rfl⟩

/-- The transaction of the baseline. -/
theorem perform_baseline {r : Except Failure (List String)}
    (hexpected : ∃ expected, p.expectedPlatformSchemaObjects = .ok expected)
    (h : p.perform now fault db .baseline = (db', r)) :
    (∃ e, r = .error e ∧ db' = db) ∨ (r = .ok [] ∧ db' = db) ∨
      (r = .ok p.versions ∧ recorded db = [] ∧ p.SchemaMatches db.content ∧
        recorded db' = p.versions ∧ db'.content = db.content) := by
  obtain ⟨expected, hexpected⟩ := hexpected
  unfold Platform.perform at h
  rw [hexpected] at h
  cases fault with
  | some e =>
    cases h
    exact .inl ⟨e, rfl, rfl⟩
  | none =>
    obtain ⟨versions, hm, rfl⟩ | ⟨e, rfl, rfl⟩ := transaction_cases h
    · rw [Platform.baselineOnce, bind_run] at hm
      cases happlied : applied platformNamespace db with
      | error e db₁ =>
        rw [happlied] at hm
        cases hm
      | ok seen db₁ =>
        obtain ⟨rfl, rfl⟩ := applied_ok happlied
        rw [happlied] at hm
        have hcontent : query (fun db => .ok db.content) db₁ =
            (.ok db₁.content db₁ : EStateM.Result Failure (Database σ) σ) := query_ok rfl
        simp only [bind_run, hcontent] at hm
        by_cases hopen : Platform.appliedIfMetaExists platformNamespace db₁ ≠ [] ∨
            (p.tables.any fun t => tableExists p.engine db₁.content t.1) = false
        · rw [if_pos hopen] at hm
          cases hm
          exact .inr (.inl ⟨rfl, rfl⟩)
        · rw [if_neg hopen] at hm
          rw [not_or, not_not] at hopen
          cases hissues : schemaIssues p.engine p.tables expected db₁.content with
          | error e =>
            rw [bind_run, query_error (f := fun _ => schemaIssues p.engine p.tables expected db₁.content) hissues] at hm
            cases hm
          | ok issues =>
            rw [bind_run, query_ok (f := fun _ => schemaIssues p.engine p.tables expected db₁.content) hissues] at hm
            by_cases hnone : issues = []
            · subst hnone
              simp only [ne_eq, not_true_eq_false, if_false, bind_run] at hm
              cases hrows : (p.versions.forM fun version =>
                  insertMigration ⟨platformNamespace, version, now⟩) db₁ with
              | error e db₂ =>
                rw [hrows] at hm
                cases hm
              | ok u db₂ =>
                rw [hrows] at hm
                cases hm
                obtain ⟨hrec, hsame⟩ := insertEach_ok hrows
                refine .inr (.inr ⟨rfl, hopen.1, ⟨by simpa using hopen.2, ?_⟩, ?_, hsame⟩)
                · rw [Platform.platformSchemaIssues, hexpected]
                  exact hissues
                · rw [hrec, recorded, hopen.1]
                  rfl
            · simp only [ne_eq, hnone, not_false_eq_true, if_true] at hm
              cases hm
    · exact .inl ⟨e, rfl, rfl⟩

theorem assertPlatformSchema_iff : p.assertPlatformSchema db = .ok () ↔
    (∀ v ∈ p.versions, v ∈ recorded db) ∧ p.platformSchemaIssues db.content = .ok [] := by
  unfold Platform.assertPlatformSchema Platform.inspectPlatformSchema
  cases hissues : p.platformSchemaIssues db.content with
  | error e => simp [bind, Except.bind]
  | ok issues =>
    have hok : (∀ v ∈ p.versions, v ∈ recorded db) ↔
        (p.versions.filter fun v => !(recorded db).contains v) = [] := by
      simp [List.filter_eq_nil_iff]
    rw [hok, recorded]
    simp only [bind, Except.bind, PlatformSchemaReport.ok, Bool.and_eq_true, List.isEmpty_iff]
    by_cases hreport : (p.versions.filter fun v =>
        !(Platform.appliedIfMetaExists platformNamespace db).contains v) = [] ∧ issues = []
    · simp [hreport]
    · simp

/-- A schema that the baseline has recorded passes the check that follows it. -/
theorem perform_baseline_passes {versions : List String}
    (hexpected : ∃ expected, p.expectedPlatformSchemaObjects = .ok expected)
    (h : p.perform now fault db .baseline = (db', .ok versions)) (hsome : versions ≠ []) :
    p.assertPlatformSchema db' = .ok () := by
  obtain ⟨e, herror, -⟩ | ⟨hnone, -⟩ | ⟨-, -, hmatch, hrec, hcontent⟩ := perform_baseline hexpected h
  · cases herror
  · exact absurd (Except.ok.inj hnone) hsome
  · exact assertPlatformSchema_iff.mpr ⟨fun v hv => hrec ▸ hv, hcontent ▸ hmatch.2⟩

end Operations

section Stages

/-- Where a migrator stands, given what is recorded and what it has recorded itself. -/
inductive Stage (p : Platform σ) (seen fresh : List String) : Program (List String) → Prop
  | starting (h : fresh = []) : Stage p seen fresh (applyPlatformMigrations p.scripts)
  | reading (h : fresh = []) : Stage p seen fresh (applyPending platformNamespace p.scripts)
  | looping (past rest : List Script) (known : List String) (hscripts : p.scripts = past ++ rest)
      (hpast : ∀ script ∈ past, script.version ∈ seen) (hknown : ∀ v ∈ known, v ∈ seen) :
      Stage p seen fresh (applyEach platformNamespace rest known fresh)
  | baselining (h : fresh = []) : Stage p seen fresh p.baselinePlatformMigrations
  | comparing (h : fresh = []) (hexpected : ∃ expected, p.expectedPlatformSchemaObjects = .ok expected) :
      Stage p seen fresh (.call .baseline .ret)
  | raised (e : Failure) : Stage p seen fresh (.ret (.error e))
  | returned : Stage p seen fresh (.ret (.ok fresh))

theorem Stage.mono {seen seen' fresh : List String} {prog : Program (List String)}
    (h : Stage p seen fresh prog) (hle : ∀ v ∈ seen, v ∈ seen') : Stage p seen' fresh prog := by
  cases h with
  | starting h => exact .starting h
  | reading h => exact .reading h
  | looping past rest known hscripts hpast hknown =>
    exact .looping past rest known hscripts (fun s hs => hle _ (hpast s hs)) fun v hv => hle v (hknown v hv)
  | baselining h => exact .baselining h
  | comparing h hexpected => exact .comparing h hexpected
  | raised e => exact .raised e
  | returned => exact .returned

/-- The loop goes on to the first script that it has not seen, or ends. -/
theorem applyEach_cases (ns : String) (scripts : List Script) (known fresh : List String) :
    applyEach ns scripts known fresh = .ret (.ok fresh) ∨
      ∃ skipped script rest, scripts = skipped ++ script :: rest ∧ (∀ x ∈ skipped, x.version ∈ known) ∧
        applyEach ns scripts known fresh = applyEach ns (script :: rest) known fresh ∧
        script.version ∉ known := by
  induction scripts with
  | nil => exact .inl rfl
  | cons script scripts ih =>
    by_cases hseen : known.contains script.version = true
    · have hskip : applyEach ns (script :: scripts) known fresh = applyEach ns scripts known fresh := by
        rw [applyEach, if_pos hseen]
      obtain hret | ⟨skipped, next, rest, rfl, hskipped, heq, hnew⟩ := ih
      · exact .inl (hskip.trans hret)
      · refine .inr ⟨script :: skipped, next, rest, rfl, ?_, hskip.trans heq, hnew⟩
        intro x hx
        obtain rfl | hx := List.mem_cons.mp hx
        · simpa using hseen
        · exact hskipped x hx
    · exact .inr ⟨[], script, scripts, rfl, by simp, rfl, by simpa using hseen⟩

theorem Stage.returns {seen fresh versions : List String} (h : Stage p seen fresh (.ret (.ok versions))) :
    versions = fresh := by
  generalize hprog : (Proc.ret (.ok versions) : Program (List String)) = prog at h
  cases h with
  | starting h => cases hprog
  | reading h => cases hprog
  | looping past rest known =>
    obtain hret | ⟨skipped, script, rest', -, -, heq, hnew⟩ :=
      applyEach_cases platformNamespace rest known fresh
    · rw [hret] at hprog
      cases hprog
      rfl
    · rw [heq, applyEach, if_neg (by simpa using hnew)] at hprog
      cases hprog
  | baselining h =>
    unfold Platform.baselinePlatformMigrations at hprog
    split at hprog <;> cases hprog
  | comparing h hexpected => cases hprog
  | raised e => cases hprog
  | returned =>
    cases hprog
    rfl

/-- A stage that is about to perform an operation performs one of these, and goes on as told. -/
inductive Next (p : Platform σ) (seen fresh : List String) : (o : Op) → (Res o → Program (List String)) → Prop
  | ensure (k : Res .ensureMeta → Program (List String)) (h : ∀ r, Stage p seen fresh (k r)) :
      Next p seen fresh .ensureMeta k
  | read (k : Res (.applied platformNamespace) → Program (List String))
      (hraise : ∀ e, k (.error e) = .ret (.error e))
      (h : ∀ versions, (∀ v ∈ versions, v ∈ seen) → Stage p seen fresh (k (.ok versions))) :
      Next p seen fresh (.applied platformNamespace) k
  | migrate (past rest : List Script) (script : Script)
      (k : Res (.migrate platformNamespace script) → Program (List String))
      (hscripts : p.scripts = past ++ script :: rest) (hpast : ∀ x ∈ past, x.version ∈ seen)
      (hraise : ∀ e, k (.error e) = .ret (.error e))
      (hseen : script.version ∈ seen → Stage p seen fresh (k (.ok false)))
      (hfresh : Stage p (seen ++ [script.version]) (fresh ++ [script.version]) (k (.ok true))) :
      Next p seen fresh (.migrate platformNamespace script) k
  | baseline (h : fresh = []) (hexpected : ∃ expected, p.expectedPlatformSchemaObjects = .ok expected) :
      Next p seen fresh .baseline .ret

theorem Stage.next {seen fresh : List String} {o : Op} {k : Res o → Program (List String)}
    (h : Stage p seen fresh (.call o k)) : Next p seen fresh o k := by
  generalize hprog : (Proc.call o k : Program (List String)) = prog at h
  cases h with
  | starting h =>
    cases hprog
    refine .ensure _ fun r => ?_
    cases r with
    | error e => exact .raised e
    | ok u => exact .reading h
  | reading h =>
    cases hprog
    refine .read _ (fun _ => rfl) fun versions hle => ?_
    subst h
    exact .looping [] p.scripts versions rfl (by simp) hle
  | looping past rest known hscripts hpast hknown =>
    obtain hret | ⟨skipped, script, rest', rfl, hskipped, heq, hnew⟩ :=
      applyEach_cases platformNamespace rest known fresh
    · rw [hret] at hprog
      cases hprog
    · rw [heq, applyEach, if_neg (by simpa using hnew)] at hprog
      cases hprog
      have hbefore : ∀ x ∈ past ++ skipped, x.version ∈ seen := by
        intro x hx
        obtain hx | hx := List.mem_append.mp hx
        · exact hpast x hx
        · exact hknown _ (hskipped x hx)
      have hsplit : p.scripts = (past ++ skipped) ++ script :: rest' := by simp [hscripts]
      refine .migrate (past ++ skipped) rest' script _ hsplit hbefore (fun _ => rfl) (fun hseen => ?_) ?_
      · refine .looping (past ++ skipped ++ [script]) rest' _ (by simp [hsplit]) ?_ ?_
        · simpa [or_imp, forall_and, hseen] using hbefore
        · simpa [hseen] using hknown
      · refine .looping (past ++ skipped ++ [script]) rest' _ (by simp [hsplit]) ?_ ?_
        · intro x hx
          obtain hx | hx := List.mem_append.mp hx
          · exact List.mem_append_left _ (hbefore x hx)
          · obtain rfl := List.mem_singleton.mp hx
            simp
        · exact fun v hv => List.mem_append_left _ (hknown v hv)
  | baselining h =>
    unfold Platform.baselinePlatformMigrations at hprog
    split at hprog
    · cases hprog
    · rename_i expected hexpected
      cases hprog
      refine .ensure _ fun r => ?_
      cases r with
      | error e => exact .raised e
      | ok u => exact .comparing h ⟨expected, hexpected⟩
  | comparing h hexpected =>
    cases hprog
    exact .baseline h hexpected
  | raised e => cases hprog
  | returned => cases hprog

end Stages

section Runs

/-- What the log tells of the file: the scripts were run in order on the first content, or the schema was
found to match and nothing was run. -/
inductive History (p : Platform σ) (db₀ : Database σ) (db : Database σ) (log : List Entry) : Prop
  | migrated (n : ℕ) (hlog : ∀ e ∈ log, ∃ i v, e = .migrated i v) (hrec : recorded db = p.versions.take n)
      (hcontent : p.Makes db₀ (p.scripts.take n) db.content)
  | baselined (i : ℕ) (hlog : log = [.baselined i]) (hrec : recorded db = p.versions)
      (hcontent : db.content = db₀.content) (hmatch : p.SchemaMatches db₀.content)

structure Inv (p : Platform σ) (db₀ : Database σ) (s : System σ) : Prop where
  history : History p db₀ s.db s.log
  written : s.log.flatMap p.recordedBy = recorded s.db
  stages : ∀ i prog, s.migrators[i]? = some prog → Stage p (recorded s.db) (p.freshOf i s.log) prog
  known : ∀ e ∈ s.log, e.migrator < s.migrators.length

theorem freshOf_append (i : ℕ) (log new : List Entry) :
    p.freshOf i (log ++ new) = p.freshOf i log ++ p.freshOf i new := by
  simp [Platform.freshOf]

theorem freshOf_eq_nil {i : ℕ} {log : List Entry} (h : ∀ e ∈ log, e.migrator ≠ i) : p.freshOf i log = [] := by
  rw [Platform.freshOf, List.filter_eq_nil_iff.mpr (by simpa using h)]
  rfl

/-- The first elements of a list that hold all those before an element and not that one. -/
theorem take_eq_of_split {n : ℕ} {l before after : List String} {v : String} (hnodup : before.Nodup)
    (hl : l = before ++ v :: after) (hbefore : before ⊆ l.take n) (hnew : v ∉ l.take n) :
    l.take n = before := by
  have hge : before.length ≤ n :=
    (List.subperm_of_subset hnodup hbefore).length_le.trans (List.length_take_le n l)
  have hle : n ≤ before.length := by
    by_contra hlt
    apply hnew
    rw [hl, List.take_append, List.take_of_length_le hge]
    obtain ⟨m, hm⟩ : ∃ m, n - before.length = m + 1 := ⟨n - before.length - 1, by omega⟩
    simp [hm]
  have hn : n = before.length := by omega
  rw [hl, hn, List.take_left]

theorem Inv.move {s : System σ} {i : ℕ} {prog prog' : Program (List String)} {db' : Database σ}
    {new : List Entry} (hinv : Inv p db₀ s) (hi : s.migrators[i]? = some prog)
    (hhistory : History p db₀ db' (s.log ++ new))
    (hwritten : (s.log ++ new).flatMap p.recordedBy = recorded db')
    (hle : ∀ v ∈ recorded s.db, v ∈ recorded db') (hnew : ∀ e ∈ new, e.migrator = i)
    (hstage : Stage p (recorded db') (p.freshOf i s.log ++ p.freshOf i new) prog') :
    Inv p db₀ ⟨db', s.migrators.set i prog', s.log ++ new⟩ := by
  refine ⟨hhistory, hwritten, fun j prog₁ hj => ?_, fun e he => ?_⟩
  · obtain ⟨rfl, rfl⟩ | ⟨hne, hj⟩ := getElem?_set_cases hi hj
    · rw [freshOf_append]
      exact hstage
    · have hfresh : p.freshOf j new = [] := freshOf_eq_nil fun e he h => hne (h.symm.trans (hnew e he))
      rw [freshOf_append, hfresh, List.append_nil]
      exact (hinv.stages j prog₁ hj).mono hle
  · rw [List.length_set]
    obtain he | he := List.mem_append.mp he
    · exact hinv.known e he
    · rw [hnew e he]
      exact (List.getElem?_eq_some_iff.mp hi).1

/-- An operation that records nothing. -/
theorem Inv.stay {s : System σ} {i : ℕ} {prog prog' : Program (List String)} {db' : Database σ}
    (hinv : Inv p db₀ s) (hi : s.migrators[i]? = some prog) (hrec : recorded db' = recorded s.db)
    (hcontent : db'.content = s.db.content)
    (hstage : Stage p (recorded s.db) (p.freshOf i s.log) prog') :
    Inv p db₀ ⟨db', s.migrators.set i prog', s.log⟩ := by
  have hhistory : History p db₀ db' s.log := by
    cases hinv.history with
    | migrated n hlog hn hafter => exact .migrated n hlog (hrec.trans hn) (hcontent ▸ hafter)
    | baselined j hlog hn hsame hmatch =>
      exact .baselined j hlog (hrec.trans hn) (hcontent.trans hsame) hmatch
  have hfresh : p.freshOf i [] = [] := freshOf_eq_nil (by simp)
  have hmoved : Inv p db₀ ⟨db', s.migrators.set i prog', s.log ++ []⟩ :=
    hinv.move hi (by rwa [List.append_nil]) (by rw [List.append_nil, hinv.written, hrec])
      (fun v hv => hrec ▸ hv) (by simp) (by rw [hrec, hfresh, List.append_nil]; exact hstage)
  rwa [List.append_nil] at hmoved

theorem Inv.migrate {s : System σ} {i : ℕ} {prog prog' : Program (List String)} {db' : Database σ}
    {past rest : List Script} {script : Script} {db₁ : Database σ} (hnodup : p.versions.Nodup)
    (hkeeps : p.KeepsRecords) (hnone : recorded db₀ = []) (hinv : Inv p db₀ s)
    (hi : s.migrators[i]? = some prog) (hscripts : p.scripts = past ++ script :: rest)
    (hpast : ∀ x ∈ past, x.version ∈ recorded s.db) (hnew : script.version ∉ recorded s.db)
    (heffect : script.effect p.engine s.db = .ok db₁) (hrec₁ : recorded db' = recorded db₁ ++ [script.version])
    (hcontent : db'.content = db₁.content)
    (hstage : Stage p (recorded s.db ++ [script.version]) (p.freshOf i s.log ++ [script.version]) prog') :
    Inv p db₀ ⟨db', s.migrators.set i prog', s.log ++ [.migrated i script.version]⟩ := by
  have hversions : p.versions = past.map (·.version) ++ script.version :: rest.map (·.version) := by
    simp [Platform.versions, expectedPlatformMigrations, hscripts]
  have hrec : recorded db' = recorded s.db ++ [script.version] := by
    have hsame : recorded db₁ = recorded s.db :=
      recorded_congr (hkeeps script (by simp [hscripts]) s.db db₁ heffect)
    rw [hrec₁, hsame]
  have hself : p.freshOf i [.migrated i script.version] = [script.version] := by
    simp [Platform.freshOf, Entry.migrator, Platform.recordedBy]
  refine hinv.move hi ?_ ?_ (fun v hv => hrec ▸ List.mem_append_left _ hv)
    (by simp [Entry.migrator]) (by rw [hself, hrec]; exact hstage)
  · cases hinv.history with
    | migrated n hlog hn hafter =>
      have htake : p.versions.take n = past.map (·.version) := by
        refine take_eq_of_split ?_ hversions ?_ (hn ▸ hnew)
        · rw [hversions] at hnodup
          exact (List.nodup_append.mp hnodup).1
        · intro v hv
          obtain ⟨x, hx, rfl⟩ := List.mem_map.mp hv
          exact hn ▸ hpast x hx
      have hlen : (p.scripts.take n).length = past.length := by
        simpa [Platform.versions, expectedPlatformMigrations] using congrArg List.length htake
      have hpasts : p.scripts.take n = past :=
        (List.prefix_of_prefix_length_le (List.take_prefix n _) ⟨_, hscripts.symm⟩ hlen.le).eq_of_length hlen
      refine .migrated (past.length + 1) ?_ ?_ ?_
      · intro e he
        obtain he | he := List.mem_append.mp he
        · exact hlog e he
        · exact ⟨i, _, List.mem_singleton.mp he⟩
      · rw [hrec, hn, htake, hversions, List.take_append, List.take_of_length_le (by simp)]
        simp
      · have htake' : p.scripts.take (past.length + 1) = past ++ [script] := by
          rw [hscripts, List.take_append, List.take_of_length_le (by simp)]
          simp
        rw [htake', hcontent]
        refine .script (hpasts ▸ hafter) ?_ heffect
        rw [hn, hnone, htake, List.nil_append]
    | baselined j hlog hn hsame hmatch =>
      exact absurd (by simp [hn, hversions]) hnew
  · rw [List.flatMap_append, hinv.written, hrec]
    rfl

theorem Inv.baseline {s : System σ} {i : ℕ} {prog : Program (List String)} {db' : Database σ}
    (hinv : Inv p db₀ s) (hi : s.migrators[i]? = some prog) (hfresh : p.freshOf i s.log = [])
    (hempty : recorded s.db = []) (hmatch : p.SchemaMatches s.db.content) (hrec : recorded db' = p.versions)
    (hcontent : db'.content = s.db.content) :
    Inv p db₀ ⟨db', s.migrators.set i (.ret (.ok p.versions)),
      s.log ++ entriesOf i .baseline (.ok p.versions)⟩ := by
  cases hversions : p.versions with
  | nil =>
    have hquiet : entriesOf i .baseline (.ok []) = [] := rfl
    rw [hquiet, List.append_nil]
    exact hinv.stay hi (by rw [hrec, hversions, hempty]) hcontent (hfresh ▸ .returned)
  | cons v vs =>
    have hentry : entriesOf i .baseline (.ok (v :: vs)) = [.baselined i] := rfl
    have hself : p.freshOf i [.baselined i] = v :: vs := by
      simp [Platform.freshOf, Entry.migrator, Platform.recordedBy, hversions]
    have hnolog : s.log = [] := by
      cases hlog : s.log with
      | nil => rfl
      | cons e log =>
        have hwritten := hinv.written
        rw [hempty, hlog] at hwritten
        cases e <;> simp [Platform.recordedBy, hversions] at hwritten
    have hcontent₀ : s.db.content = db₀.content := by
      cases hinv.history with
      | migrated n hlog hn hafter =>
        have hn0 : p.scripts.take n = [] := by
          have hlen := congrArg List.length (hempty.symm.trans hn)
          refine List.eq_nil_of_length_eq_zero ?_
          simpa [Platform.versions, expectedPlatformMigrations, eq_comm] using hlen
        rw [hn0] at hafter
        exact hafter.of_nil
      | baselined j hlog => simp [hnolog] at hlog
    rw [hentry]
    refine hinv.move hi ?_ ?_ (by simp [hempty]) (by simp [Entry.migrator]) ?_
    · rw [hnolog]
      exact .baselined i rfl hrec (hcontent.trans hcontent₀) (hcontent₀ ▸ hmatch)
    · rw [hnolog, hrec]
      simp [Platform.recordedBy]
    · rw [hfresh, hself]
      exact .returned

theorem Inv.start {s : System σ} {prog : Program (List String)} (hinv : Inv p db₀ s)
    (h : ∀ seen, Stage p seen [] prog) : Inv p db₀ { s with migrators := s.migrators ++ [prog] } := by
  refine ⟨hinv.history, hinv.written, fun i prog₁ hi => ?_, fun e he => ?_⟩
  · obtain hi | ⟨hlen, hmem⟩ := getElem?_append_cases hi
    · exact hinv.stages i prog₁ hi
    · obtain rfl := List.mem_singleton.mp hmem
      rw [freshOf_eq_nil fun e he => ((hinv.known e he).trans_le hlen).ne]
      exact h _
  · rw [List.length_append]
    exact Nat.lt_add_right _ (hinv.known e he)

theorem Inv.advance {s t : System σ} {i : ℕ} {now : Int} {fault : Option Failure}
    (hnodup : p.versions.Nodup) (hkeeps : p.KeepsRecords) (hnone : recorded db₀ = []) (hinv : Inv p db₀ s)
    (h : p.step s (.advance i now fault) = some t) :
    Inv p db₀ t := by
  simp only [Platform.step] at h
  cases hi : s.migrators[i]? with
  | none =>
    rw [hi] at h
    cases h
  | some prog =>
    rw [hi] at h
    cases prog with
    | ret r => cases h
    | call o k =>
      obtain ⟨db', r, hperform⟩ : ∃ db' r, p.perform now fault s.db o = (db', r) := ⟨_, _, rfl⟩
      simp only [hperform, Option.some.injEq] at h
      subst h
      cases (hinv.stages i _ hi).next with
      | ensure k hk =>
        obtain ⟨hrec, hcontent⟩ := perform_ensureMeta hperform
        have hquiet : entriesOf i .ensureMeta r = [] := rfl
        rw [hquiet, List.append_nil]
        exact hinv.stay hi hrec hcontent (hk r)
      | read k hraise hk =>
        obtain ⟨rfl, hversions⟩ := perform_applied hperform
        have hquiet : entriesOf i (.applied platformNamespace) r = [] := rfl
        rw [hquiet, List.append_nil]
        cases r with
        | error e => exact hinv.stay hi rfl rfl (hraise e ▸ .raised e)
        | ok versions => exact hinv.stay hi rfl rfl (hk versions fun v hv => hversions versions rfl ▸ hv)
      | migrate past rest script k hscripts hpast hraise hseen hfresh =>
        obtain ⟨e, rfl, rfl⟩ | ⟨rfl, rfl, hmem⟩ | ⟨db₁, rfl, hnew, heffect, hrec, hcontent⟩ :=
          perform_migrate hperform
        · have hquiet : entriesOf i (.migrate platformNamespace script) (.error e) = [] := rfl
          rw [hquiet, List.append_nil]
          exact hinv.stay hi rfl rfl (hraise e ▸ .raised e)
        · have hquiet : entriesOf i (.migrate platformNamespace script) (.ok false) = [] := rfl
          rw [hquiet, List.append_nil]
          exact hinv.stay hi rfl rfl (hseen hmem)
        · exact hinv.migrate hnodup hkeeps hnone hi hscripts hpast hnew heffect hrec hcontent hfresh
      | baseline hfresh hexpected =>
        obtain ⟨e, rfl, rfl⟩ | ⟨rfl, rfl⟩ | ⟨rfl, hempty, hmatch, hrec, hcontent⟩ :=
          perform_baseline hexpected hperform
        · have hquiet : entriesOf i .baseline (.error e) = [] := rfl
          rw [hquiet, List.append_nil]
          exact hinv.stay hi rfl rfl (.raised e)
        · have hquiet : entriesOf i .baseline (.ok []) = [] := rfl
          rw [hquiet, List.append_nil]
          exact hinv.stay hi rfl rfl (hfresh ▸ .returned)
        · exact hinv.baseline hi hfresh hempty hmatch hrec hcontent

theorem inv_init (db : Database σ) (h : recorded db = []) : Inv p db ⟨db, [], []⟩ where
  history := .migrated 0 (by simp) (by simp [h]) .nothing
  written := h.symm
  stages := by simp
  known := by simp

theorem Inv.step (hnodup : p.versions.Nodup) (hkeeps : p.KeepsRecords) (hnone : recorded db₀ = []) (s : System σ)
    (l : Label) (t : System σ) (hinv : Inv p db₀ s) (h : p.step s l = some t) : Inv p db₀ t := by
  cases l with
  | startApply =>
    cases h
    exact hinv.start (fun seen => .starting rfl)
  | startBaseline =>
    cases h
    exact hinv.start (fun seen => .baselining rfl)
  | advance i now fault => exact hinv.advance hnodup hkeeps hnone h

/-- The scripts whose effects were committed, in the order of their commits. -/
def committed (log : List Entry) : List String :=
  log.filterMap fun
    | .migrated _ version => some version
    | .baselined _ => none

def System.Returned (s : System σ) (i : ℕ) (versions : List String) : Prop :=
  s.migrators[i]? = some (.ret (.ok versions))

/-- What holds of the file and of the migrators that have returned. -/
structure Agrees (p : Platform σ) (db₀ : Database σ) (s : System σ) : Prop where
  firsts : recorded s.db <+: p.versions
  once : (committed s.log).Nodup
  effects :
    (committed s.log = recorded s.db ∧
      p.Makes db₀ (p.scripts.take (committed s.log).length) s.db.content) ∨
    (committed s.log = [] ∧ recorded s.db = p.versions ∧ s.db.content = db₀.content ∧
      p.SchemaMatches db₀.content)
  apart : ∀ i j xs ys, i ≠ j → s.Returned i xs → s.Returned j ys → List.Disjoint xs ys

/-- A migrator whose script fails leaves the file as it was and records nothing from then on. -/
def FailsCleanly (p : Platform σ) (s : System σ) : Prop :=
  ∀ i now fault ns script k e t, s.migrators[i]? = some (.call (.migrate ns script) k) →
    (p.perform now fault s.db (.migrate ns script)).2 = .error e →
    p.step s (.advance i now fault) = some t →
    t.db = s.db ∧ ∀ ls u, Run.exec p.step t ls = some u →
      u.migrators[i]? = some (.ret (.error e)) ∧ p.freshOf i u.log = p.freshOf i s.log

theorem committed_of_migrated {log : List Entry} (h : ∀ e ∈ log, ∃ i v, e = .migrated i v) :
    committed log = log.flatMap p.recordedBy := by
  induction log with
  | nil => rfl
  | cons e log ih =>
    obtain ⟨i, v, rfl⟩ := h e List.mem_cons_self
    have hrest := ih fun x hx => h x (List.mem_cons_of_mem _ hx)
    simp only [committed, List.filterMap_cons, List.flatMap_cons, Platform.recordedBy] at hrest ⊢
    rw [hrest]
    rfl

theorem freshOf_disjoint {log : List Entry} (hnodup : (log.flatMap p.recordedBy).Nodup) {i j : ℕ}
    (hij : i ≠ j) : (p.freshOf i log).Disjoint (p.freshOf j log) := by
  intro v hv hw
  obtain ⟨e, he, hve⟩ := List.mem_flatMap.mp hv
  obtain ⟨e', he', hve'⟩ := List.mem_flatMap.mp hw
  rw [List.mem_filter] at he he'
  have hne : e ≠ e' := by
    rintro rfl
    exact hij ((of_decide_eq_true he.2).symm.trans (of_decide_eq_true he'.2))
  have hpair := (List.nodup_flatMap.mp hnodup).2
  have : Std.Symm (Function.onFun List.Disjoint p.recordedBy) := ⟨fun _ _ h _ hx hy => h hy hx⟩
  exact hpair.forall he.1 he'.1 hne hve hve'

theorem Inv.agrees {s : System σ} (hnodup : p.versions.Nodup) (hinv : Inv p db₀ s) : Agrees p db₀ s := by
  have hfirsts : recorded s.db <+: p.versions := by
    cases hinv.history with
    | migrated n hlog hn hafter => exact hn ▸ List.take_prefix n _
    | baselined j hlog hn hsame hmatch => exact hn ▸ List.prefix_refl _
  have hwritten : (s.log.flatMap p.recordedBy).Nodup := by
    rw [hinv.written]
    exact hnodup.sublist hfirsts.sublist
  refine ⟨hfirsts, ?_, ?_, fun i j xs ys hij hi hj => ?_⟩
  · cases hinv.history with
    | migrated n hlog hn hafter => rwa [committed_of_migrated (p := p) hlog]
    | baselined j hlog hn hsame hmatch => simp [hlog, committed]
  · cases hinv.history with
    | migrated n hlog hn hafter =>
      have hcommitted : committed s.log = recorded s.db := by
        rw [committed_of_migrated (p := p) hlog, hinv.written]
      refine .inl ⟨hcommitted, ?_⟩
      have htake : p.scripts.take (p.versions.take n).length = p.scripts.take n := by
        simp [Platform.versions, expectedPlatformMigrations, List.take_eq_take_iff]
      rw [hcommitted, hn, htake]
      exact hafter
    | baselined j hlog hn hsame hmatch => exact .inr ⟨by simp [hlog, committed], hn, hsame, hmatch⟩
  · obtain rfl := (hinv.stages i _ hi).returns
    obtain rfl := (hinv.stages j _ hj).returns
    exact freshOf_disjoint hwritten hij

theorem migrator_of_entry {i : ℕ} {o : Op} {r : Res o} {e : Entry} (h : e ∈ entriesOf i o r) :
    e.migrator = i := by
  unfold entriesOf at h
  split at h
  · obtain rfl := List.mem_singleton.mp h
    rfl
  · obtain rfl := List.mem_singleton.mp h
    rfl
  · cases h

/-- A migrator that has returned or raised stays as it is. -/
theorem step_ended {s t : System σ} {i : ℕ} {r : Except Failure (List String)} {l : Label}
    (hi : s.migrators[i]? = some (.ret r)) (h : p.step s l = some t) :
    t.migrators[i]? = some (.ret r) ∧ p.freshOf i t.log = p.freshOf i s.log := by
  have hlt : i < s.migrators.length := (List.getElem?_eq_some_iff.mp hi).1
  cases l with
  | startApply =>
    cases h
    exact ⟨(List.getElem?_append_left hlt).trans hi, rfl⟩
  | startBaseline =>
    cases h
    exact ⟨(List.getElem?_append_left hlt).trans hi, rfl⟩
  | advance j now fault =>
    simp only [Platform.step] at h
    cases hj : s.migrators[j]? with
    | none =>
      rw [hj] at h
      cases h
    | some prog =>
      rw [hj] at h
      cases prog with
      | ret r' => cases h
      | call o k =>
        have hij : j ≠ i := by
          rintro rfl
          cases hi.symm.trans hj
        cases h
        refine ⟨(List.getElem?_set_ne hij).trans hi, ?_⟩
        have hother : p.freshOf i (entriesOf j o (p.perform now fault s.db o).2) = [] :=
          freshOf_eq_nil fun e he => migrator_of_entry he ▸ hij
        rw [freshOf_append, hother, List.append_nil]

theorem Inv.failsCleanly {s : System σ} (hinv : Inv p db₀ s) : FailsCleanly p s := by
  intro i now fault ns script k e t hi herror hstep
  have hlt : i < s.migrators.length := (List.getElem?_eq_some_iff.mp hi).1
  obtain ⟨db', r, hperform⟩ : ∃ db' r, p.perform now fault s.db (.migrate ns script) = (db', r) :=
    ⟨_, _, rfl⟩
  simp only [Platform.step, hi, hperform, Option.some.injEq] at hstep
  subst hstep
  obtain rfl : r = .error e := by simpa [hperform] using herror
  have hnext := (hinv.stages i _ hi).next
  cases hnext with
  | migrate past rest script k hscripts hpast hraise hseen hfresh =>
    obtain ⟨_, _, rfl⟩ | ⟨h, -, -⟩ | ⟨_, h, -⟩ := perform_migrate hperform
    · refine ⟨rfl, fun ls u hu => ?_⟩
      have hquiet : entriesOf i (.migrate platformNamespace script) (.error e) = [] := rfl
      refine Run.exec_invariant (I := fun u : System σ => u.migrators[i]? = some (.ret (.error e)) ∧
        p.freshOf i u.log = p.freshOf i s.log) (fun v l w hv hw => ?_) ⟨?_, ?_⟩ hu
      · obtain ⟨hret, hsame⟩ := step_ended hv.1 hw
        exact ⟨hret, hsame.trans hv.2⟩
      · rw [← hraise e]
        exact List.getElem?_set_self hlt
      · rw [hquiet, List.append_nil]
    · cases h
    · cases h

/-- Migrators agree on every interleaving, whatever fails and whoever stops, as long as no script changes the
records. -/
theorem migrators_agree (p : Platform σ) (hnodup : p.versions.Nodup) (hkeeps : p.KeepsRecords) (db : Database σ)
    (hnone : recorded db = []) (ls : List Label) (s : System σ)
    (h : Run.exec p.step ⟨db, [], []⟩ ls = some s) : Agrees p db s ∧ FailsCleanly p s := by
  have hinv : Inv p db s :=
    Run.exec_invariant (fun s l t => Inv.step hnodup hkeeps hnone s l t) (inv_init db hnone) h
  exact ⟨hinv.agrees hnodup, hinv.failsCleanly⟩

section Example

def threeTables : Platform (List String) where
  engine := tableEngine
  tables := []
  scripts := [⟨"001", createA ++ createB⟩, ⟨"002", createC⟩]

theorem threeTables_keeps : threeTables.KeepsRecords := by
  have hkeep : ∀ s ≠ removal, ∀ db db', tableEngine.run s db = .ok db' → db'.migrations = db.migrations := by
    intro s hs db db' h
    simp only [tableEngine, if_neg hs] at h
    cases h
    rfl
  intro script hscript db db' h
  simp only [threeTables, List.mem_cons, List.not_mem_nil, or_false] at hscript
  obtain rfl | rfl := hscript
  · have hsplit : statementsFrom tableEngine [] (createA ++ createB).toList = [createA, createB] := by
      decide +kernel
    obtain ⟨db₁, h₁, h₂⟩ : ∃ db₁, tableEngine.run createA db = .ok db₁ ∧ tableEngine.run createB db₁ = .ok db' := by
      rw [Script.effect] at h
      simp only [threeTables, hsplit] at h
      exact ⟨_, rfl, h⟩
    exact (hkeep createB (by decide +kernel) db₁ db' h₂).trans (hkeep createA (by decide +kernel) db db₁ h₁)
  · have hsplit : statementsFrom tableEngine [] createC.toList = [createC] := by
      decide +kernel
    rw [Script.effect] at h
    simp only [threeTables, hsplit] at h
    exact hkeep createC (by decide +kernel) db db' h

/-- What each migrator has come to. -/
def System.results (s : System σ) : List (Option (Except Failure (List String))) :=
  s.migrators.map fun
    | .ret r => some r
    | .call _ _ => none

theorem returned_of_results {s : System σ} {i : ℕ} {versions : List String}
    (h : s.results[i]? = some (some (.ok versions))) : s.Returned i versions := by
  rw [System.results, List.getElem?_map] at h
  obtain ⟨prog, hprog, hresult⟩ := Option.map_eq_some_iff.mp h
  cases prog with
  | ret r =>
    obtain rfl : r = .ok versions := Option.some.inj hresult
    exact hprog
  | call o k => cases hresult

/-- Two migrators that meet at the first script; each finds one script fresh. -/
def meeting : List Label :=
  [.startApply, .startApply, .advance 0 1 none, .advance 1 1 none, .advance 0 1 none, .advance 1 1 none,
    .advance 0 2 none, .advance 1 2 none, .advance 1 3 none, .advance 0 3 none]

theorem migrators_agree_meeting : ∃ s, Run.exec threeTables.step ⟨⟨[], none⟩, [], []⟩ meeting = some s ∧
    s.db.content = [createA, createB, createC] ∧ s.Returned 0 ["001"] ∧ s.Returned 1 ["002"] ∧
    Agrees threeTables ⟨[], none⟩ s ∧ FailsCleanly threeTables s := by
  have hrun : (Run.exec threeTables.step ⟨⟨[], none⟩, [], []⟩ meeting).map (fun s => (s.db.content, s.results)) =
      some ([createA, createB, createC], [some (.ok ["001"]), some (.ok ["002"])]) := by
    decide +kernel
  obtain ⟨s, hs, hseen⟩ := Option.map_eq_some_iff.mp hrun
  obtain ⟨hcontent, hresults⟩ := Prod.mk.inj hseen
  refine ⟨s, hs, hcontent, returned_of_results (by rw [hresults]; rfl), returned_of_results (by rw [hresults]; rfl), ?_⟩
  exact migrators_agree threeTables (by decide) threeTables_keeps ⟨[], none⟩ rfl meeting s hs

/-- The second script deletes the record of the first one. -/
def forgetful : Platform (List String) where
  engine := tableEngine
  tables := []
  scripts := [⟨"001", createA⟩, ⟨"002", removal⟩]

/-- A migrator that runs to its end, and one that is started afterwards. -/
def rerun : List Label :=
  [.startApply, .advance 0 1 none, .advance 0 1 none, .advance 0 1 none, .advance 0 1 none,
    .startApply, .advance 1 2 none, .advance 1 2 none, .advance 1 2 none]

/-- A script that deletes a record is committed with its own; the one whose record it has deleted is committed
once more. -/
theorem forgotten_script_runs_again :
    ∃ s, Run.exec forgetful.step ⟨⟨[], none⟩, [], []⟩ rerun = some s ∧
      recorded s.db = ["002", "001"] ∧ committed s.log = ["001", "002", "001"] ∧
      s.Returned 0 ["001", "002"] ∧ s.Returned 1 ["001"] ∧ ¬ Agrees forgetful ⟨[], none⟩ s := by
  have hrun : (Run.exec forgetful.step ⟨⟨[], none⟩, [], []⟩ rerun).map
      (fun s => (recorded s.db, committed s.log, s.results)) =
      some (["002", "001"], ["001", "002", "001"], [some (.ok ["001", "002"]), some (.ok ["001"])]) := by
    decide +kernel
  obtain ⟨s, hs, hseen⟩ := Option.map_eq_some_iff.mp hrun
  obtain ⟨hrec, hrest⟩ := Prod.mk.inj hseen
  obtain ⟨hcommitted, hresults⟩ := Prod.mk.inj hrest
  refine ⟨s, hs, hrec, hcommitted, returned_of_results (by rw [hresults]; rfl),
    returned_of_results (by rw [hresults]; rfl), fun h => ?_⟩
  have honce := h.once
  rw [hcommitted] at honce
  exact absurd honce (by decide)

end Example

end Runs

end Soveren.Migrations
