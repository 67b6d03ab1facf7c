import Soveren.Runs.Store

/-! Ownership of planner runs. `RowStep` says once what a call can do to one run; ownership,
the permanence of results and the life of a checkpoint are read off it. -/
namespace Soveren.Runs
open Soveren.Relational

inductive RunCall where
  | claim (a : ClaimArgs)
  | saveCheckpoint (runId leaseToken : String) (checkpoint : Json.Object) (now : Int)
  | loadCheckpoint (runId leaseToken : String)
  | finalize (runId leaseToken status : String) (output : Option Json.Object) (now : Int)

/-- The table after a call; a call that raises is rolled back. -/
def apply (t : List AgentRunRow) : RunCall → List AgentRunRow
  | .claim a => match claimRun t a with
    | .ok (t', _) => t'
    | .error _ => t
  | .saveCheckpoint id k checkpoint now => (saveRunCheckpoint t id k checkpoint now).1
  | .loadCheckpoint _ _ => t
  | .finalize id k status output now => match finalizeRun t id k status output now with
    | .ok (t', _) => t'
    | .error _ => t

/-- The table after a sequence of calls on an empty store. -/
def runCalls (calls : List RunCall) : List AgentRunRow := calls.foldl apply []

/-- The run and the token of a claim that acquires. -/
def acquiredBy (t : List AgentRunRow) : RunCall → Option (String × String)
  | .claim a => match claimRun t a with
    | .ok (_, c) => if c.acquired then c.leaseToken.map fun k => (c.id, k) else none
    | .error _ => none
  | _ => none

/-- The token of the latest claim that acquired the run, given the one before the calls. -/
def latestTokenFrom (runId : String) (t : List AgentRunRow) (k : Option String) :
    List RunCall → Option String
  | [] => k
  | call :: calls => latestTokenFrom runId (apply t call) (match acquiredBy t call with
    | some (id, k') => if id = runId then some k' else k
    | none => k) calls

def latestToken (runId : String) (calls : List RunCall) : Option String :=
  latestTokenFrom runId [] none calls

/-- What one call can do to one run. -/
inductive RowStep : RunCall → AgentRunRow → AgentRunRow → Prop
  | same (call : RunCall) (r : AgentRunRow) : RowStep call r r
  | acquired {a : ClaimArgs} {r : AgentRunRow} (hf : ClaimArgs.isFinished r = false) :
      RowStep (.claim a) r (a.acquire r)
  | saved {id k : String} {checkpoint : Json.Object} {now : Int} {r : AgentRunRow}
      (h : owns id k r = true) : RowStep (.saveCheckpoint id k checkpoint now) r
        { r with llmCheckpoint := some checkpoint, updatedAt := now }
  | finalized {id k status : String} {output : Option Json.Object} {now : Int} {r : AgentRunRow}
      {final : RunStatus} (h : owns id k r = true) (hs : finalStatus status = some final) :
      RowStep (.finalize id k status output now) r
        { r with status := final, output := output, leaseToken := none, updatedAt := now }

/-- No two runs share an id or the operation of a conversation. -/
structure Keyed (t : List AgentRunRow) : Prop where
  ids : (t.map (·.id)).Nodup
  operations : (t.map fun r => (r.tenantId, r.sourceId, r.operationKey)).Nodup

theorem owns_iff {id k : String} {r : AgentRunRow} :
    owns id k r = true ↔ r.id = id ∧ r.status = .running ∧ r.leaseToken = some k := by
  simp [owns, and_assoc]

section Calls

variable {t : List AgentRunRow}

/-- A claim inserts a run, answers from the row it finds, or acquires it. -/
theorem claimRun_ok {t' : List AgentRunRow} {a : ClaimArgs} {c : PlannerRunClaim}
    (h : claimRun t a = .ok (t', c)) :
    (t' = t ++ [a.row] ∧ a.row.id ∉ t.map (·.id) ∧
      (a.tenantId, a.sourceId, a.operationKey) ∉ t.map (fun r => (r.tenantId, r.sourceId, r.operationKey)) ∧
      c = ⟨a.runId, .running, true, some a.leaseToken, none⟩) ∨
    ∃ r, t.find? a.names = some r ∧ r.inputFingerprint = a.inputFingerprint ∧
      ((t' = t ∧ c.acquired = false ∧ c.id = r.id ∧
          (ClaimArgs.isFinished r = true → c.status = r.status ∧ c.output = r.output)) ∨
        (ClaimArgs.isFinished r = false ∧ t' = updateWhere (·.id = r.id) a.acquire t ∧
          c = ⟨r.id, .running, true, some a.leaseToken, none⟩)) := by
  obtain ⟨_, -, h⟩ := bind_eq_ok h
  split at h
  · obtain ⟨t1, hins, h⟩ := bind_eq_ok h
    obtain ⟨rfl, rfl⟩ := Prod.mk.inj (Except.ok.inj h)
    unfold insertRun at hins
    split at hins
    · cases hins
    · rename_i hno
      simp only [List.any_eq_true, not_exists, not_and, Bool.or_eq_true, Bool.and_eq_true,
        decide_eq_true_eq, not_or] at hno
      refine .inl ⟨(Except.ok.inj hins).symm, fun hmem => ?_, fun hmem => ?_, rfl⟩
      · obtain ⟨r, hr, he⟩ := List.mem_map.mp hmem
        exact (hno r hr).1 he
      · obtain ⟨r, hr, he⟩ := List.mem_map.mp hmem
        simp only [Prod.mk.injEq] at he
        exact (hno r hr).2 ⟨he.1, he.2.1⟩ he.2.2
  · rename_i r hr
    obtain ⟨_, hreplay, h⟩ := bind_eq_ok h
    have hf : r.inputFingerprint = a.inputFingerprint := by
      simpa using requireIdempotentReplay_ok hreplay
    refine .inr ⟨r, hr, hf, ?_⟩
    split at h
    · obtain ⟨rfl, rfl⟩ := Prod.mk.inj (Except.ok.inj h)
      exact .inl ⟨rfl, rfl, rfl, fun _ => ⟨rfl, rfl⟩⟩
    · rename_i hfin
      split at h
      · obtain ⟨rfl, rfl⟩ := Prod.mk.inj (Except.ok.inj h)
        exact .inl ⟨rfl, rfl, rfl, fun hfin' => absurd hfin' hfin⟩
      · obtain ⟨rfl, rfl⟩ := Prod.mk.inj (Except.ok.inj h)
        exact .inr ⟨by simpa using hfin, rfl, rfl⟩

/-- What was saved is loaded. -/
theorem loadRunCheckpoint_saved {id k : String} {checkpoint : Json.Object} {now : Int}
    (h : (saveRunCheckpoint t id k checkpoint now).2 = true) :
    loadRunCheckpoint (saveRunCheckpoint t id k checkpoint now).1 id k = .ok (some checkpoint) := by
  have hsome : ((saveRunCheckpoint t id k checkpoint now).1.find? (owns id k)).isSome = true := by
    obtain ⟨r, hr, hown⟩ := List.countP_pos_iff.mp
      (Nat.pos_of_ne_zero (show rowcount (owns id k) t ≠ 0 by simpa [saveRunCheckpoint] using h))
    refine List.find?_isSome.mpr ⟨{ r with llmCheckpoint := some checkpoint, updatedAt := now }, ?_, hown⟩
    exact List.mem_map.mpr ⟨r, hr, if_pos hown⟩
  obtain ⟨s, hs⟩ := Option.isSome_iff_exists.mp hsome
  obtain ⟨r, -, hrs⟩ := List.mem_map.mp (List.mem_of_find?_eq_some hs)
  have hsaved : s.llmCheckpoint = some checkpoint := by
    split at hrs
    · rw [← hrs]
    · rename_i hno
      exact absurd (hrs ▸ List.find?_some hs) hno
  simp only [loadRunCheckpoint, hs, hsaved]

theorem finalizeRun_ok {t' : List AgentRunRow} {id k status : String} {output : Option Json.Object}
    {now : Int} {b : Bool} (h : finalizeRun t id k status output now = .ok (t', b)) :
    ∃ final, finalStatus status = some final ∧ b = decide (rowcount (owns id k) t ≠ 0) ∧
      t' = updateWhere (owns id k) (fun r =>
        { r with status := final, output := output, leaseToken := none, updatedAt := now }) t := by
  unfold finalizeRun at h
  split at h
  · cases h
  · rename_i final hfinal
    obtain ⟨rfl, rfl⟩ := Prod.mk.inj (Except.ok.inj h)
    exact ⟨final, hfinal, rfl, rfl⟩

/-- Everything a call can do to the table. -/
theorem apply_grows (hk : Keyed t) (call : RunCall) :
    Grows (RowStep call) (fun r => ∃ a, call = .claim a ∧ r = a.row) t (apply t call) := by
  have hsame : Grows (RowStep call) (fun r => ∃ a, call = .claim a ∧ r = a.row) t t :=
    .refl fun r _ => .same call r
  cases call with
  | claim a =>
    simp only [apply]
    split
    · rename_i t' c hc
      obtain ⟨rfl, -⟩ | ⟨r, hr, -, ⟨rfl, -⟩ | ⟨hfin, rfl, -⟩⟩ := claimRun_ok hc
      · exact .append (fun r _ => .same _ r) fun r hr => ⟨a, rfl, List.mem_singleton.mp hr⟩
      · exact hsame
      · refine .updateWhere (fun s hs hid => ?_) fun s _ _ => .same _ s
        have heq : s = r :=
          eq_of_key hk.ids hs (List.mem_of_find?_eq_some hr) (by simpa using hid)
        exact .acquired (heq ▸ hfin)
    · exact hsame
  | saveCheckpoint id k checkpoint now =>
    exact .updateWhere (fun r _ hr => .saved hr) fun r _ _ => .same _ r
  | loadCheckpoint => exact hsame
  | finalize id k status output now =>
    simp only [apply]
    split
    · rename_i t' b hf
      obtain ⟨final, hs, -, rfl⟩ := finalizeRun_ok hf
      exact .updateWhere (fun r _ hr => .finalized hr hs) fun r _ _ => .same _ r
    · exact hsame

theorem RowStep.id_eq {call : RunCall} {r s : AgentRunRow} (h : RowStep call r s) : s.id = r.id := by
  cases h <;> rfl

theorem RowStep.operation {call : RunCall} {r s : AgentRunRow} (h : RowStep call r s) :
    s.tenantId = r.tenantId ∧ s.sourceId = r.sourceId ∧ s.operationKey = r.operationKey ∧
      s.inputFingerprint = r.inputFingerprint := by
  cases h <;> exact ⟨rfl, rfl, rfl, rfl⟩

/-- A run with its result is settled. -/
theorem RowStep.eq_of_finished {call : RunCall} {r s : AgentRunRow} (h : RowStep call r s)
    (hr : ClaimArgs.isFinished r = true) : s = r := by
  have hrunning : r.status ≠ .running := by
    intro hs
    simp [ClaimArgs.isFinished, hs] at hr
  cases h with
  | same => rfl
  | acquired hf => exact absurd (hr.symm.trans hf) Bool.noConfusion
  | saved h | finalized h => exact absurd (owns_iff.mp h).2.1 hrunning

theorem Keyed.rewrite {p : AgentRunRow → Bool} {f : AgentRunRow → AgentRunRow} (hk : Keyed t)
    (hid : ∀ r, (f r).id = r.id) (hop : ∀ r, ((f r).tenantId, (f r).sourceId, (f r).operationKey) =
      (r.tenantId, r.sourceId, r.operationKey)) : Keyed (updateWhere p f t) := by
  constructor
  · rw [map_updateWhere t fun r _ => hid r]
    exact hk.ids
  · rw [map_updateWhere t fun r _ => hop r]
    exact hk.operations

theorem apply_keyed (hk : Keyed t) (call : RunCall) : Keyed (apply t call) := by
  cases call with
  | claim a =>
    simp only [apply]
    split
    · rename_i t' c hc
      obtain ⟨rfl, hid, hop, -⟩ | ⟨r, -, -, ⟨rfl, -⟩ | ⟨-, rfl, -⟩⟩ := claimRun_ok hc
      · exact ⟨nodup_append_key hk.ids hid, nodup_append_key hk.operations hop⟩
      · exact hk
      · exact hk.rewrite (by exact fun _ => rfl) (by exact fun _ => rfl)
    · exact hk
  | saveCheckpoint id k checkpoint now =>
    exact hk.rewrite (by exact fun _ => rfl) (by exact fun _ => rfl)
  | loadCheckpoint => exact hk
  | finalize id k status output now =>
    simp only [apply]
    split
    · rename_i t' b hf
      obtain ⟨final, -, -, rfl⟩ := finalizeRun_ok hf
      exact hk.rewrite (by exact fun _ => rfl) (by exact fun _ => rfl)
    · exact hk

end Calls

section Runs

theorem runCalls_append (calls later : List RunCall) :
    runCalls (calls ++ later) = later.foldl apply (runCalls calls) := by
  simp [runCalls, List.foldl_append]

theorem runCalls_snoc (calls : List RunCall) (call : RunCall) :
    runCalls (calls ++ [call]) = apply (runCalls calls) call := runCalls_append calls [call]

theorem runCalls_keyed (calls : List RunCall) : Keyed (runCalls calls) := by
  induction calls using List.reverseRecOn with
  | nil => exact ⟨List.nodup_nil, List.nodup_nil⟩
  | append_singleton calls call ih =>
    rw [runCalls_snoc]
    exact apply_keyed ih call

theorem latestTokenFrom_append (runId : String) (t : List AgentRunRow) (k : Option String)
    (calls later : List RunCall) : latestTokenFrom runId t k (calls ++ later) =
      latestTokenFrom runId (calls.foldl apply t) (latestTokenFrom runId t k calls) later := by
  induction calls generalizing t k with
  | nil => rfl
  | cons call calls ih => exact ih _ _

theorem latestToken_snoc (runId : String) (calls : List RunCall) (call : RunCall) :
    latestToken runId (calls ++ [call]) = match acquiredBy (runCalls calls) call with
      | some (id, k) => if id = runId then some k else latestToken runId calls
      | none => latestToken runId calls := by
  rw [latestToken, latestTokenFrom_append]
  rfl

/-- Only a claim writes a token, and the token it writes is the one it returns. -/
theorem token_step {t : List AgentRunRow} (call : RunCall) {s : AgentRunRow}
    (hs : s ∈ apply t call) {k : String} (htok : s.leaseToken = some k) :
    acquiredBy t call = some (s.id, k) ∨
      (∃ r ∈ t, r.id = s.id ∧ r.leaseToken = some k) ∧ ∀ k', acquiredBy t call ≠ some (s.id, k') := by
  cases call with
  | claim a =>
    simp only [apply, acquiredBy] at hs ⊢
    split at hs
    · rename_i t' c hc
      obtain ⟨rfl, hid, -, rfl⟩ | ⟨r, -, -, ⟨rfl, hacq, -⟩ | ⟨-, rfl, rfl⟩⟩ := claimRun_ok hc
      · obtain hs | hs := List.mem_append.mp hs
        · refine .inr ⟨⟨s, hs, rfl, htok⟩, fun k' he => hid ?_⟩
          have hrun : a.row.id = s.id := by simpa [ClaimArgs.row] using congrArg (·.map Prod.fst) he
          exact hrun ▸ List.mem_map_of_mem hs
        · obtain rfl := List.mem_singleton.mp hs
          exact .inl (by simpa [ClaimArgs.row] using htok)
      · exact .inr ⟨⟨s, hs, rfl, htok⟩, by simp [hacq]⟩
      · obtain ⟨x, hx, hxs⟩ := List.mem_map.mp hs
        by_cases hid : x.id = r.id
        · obtain rfl : a.acquire x = s := by simpa [hid] using hxs
          exact .inl (by simpa [ClaimArgs.acquire, hid] using htok)
        · obtain rfl : x = s := by simpa [hid] using hxs
          refine .inr ⟨⟨x, hx, rfl, htok⟩, fun k' he => hid ?_⟩
          simpa using (congrArg (·.map Prod.fst) he).symm
    · rename_i e hc
      exact .inr ⟨⟨s, hs, rfl, htok⟩, by simp⟩
  | saveCheckpoint id k checkpoint now =>
    obtain ⟨x, hx, rfl⟩ := List.mem_map.mp hs
    refine .inr ⟨⟨x, hx, ?_, ?_⟩, by simp [acquiredBy]⟩
    · split <;> rfl
    · rw [← htok]
      split <;> rfl
  | loadCheckpoint => exact .inr ⟨⟨s, hs, rfl, htok⟩, by simp [acquiredBy]⟩
  | finalize id k status output now =>
    refine .inr ⟨?_, by simp [acquiredBy]⟩
    simp only [apply] at hs
    split at hs
    · rename_i t' b hf
      obtain ⟨final, -, -, rfl⟩ := finalizeRun_ok hf
      obtain ⟨x, hx, rfl⟩ := List.mem_map.mp hs
      split at htok
      · cases htok
      · rename_i hno
        rw [if_neg hno]
        exact ⟨x, hx, rfl, htok⟩
    · exact ⟨s, hs, rfl, htok⟩

/-- The token of a run is that of the latest claim that acquired it. -/
theorem leaseToken_latest (calls : List RunCall) : ∀ r ∈ runCalls calls, ∀ k,
    r.leaseToken = some k → latestToken r.id calls = some k := by
  induction calls using List.reverseRecOn with
  | nil => simp [runCalls]
  | append_singleton calls call ih =>
    intro s hs k htok
    rw [runCalls_snoc] at hs
    rw [latestToken_snoc]
    obtain hacq | ⟨⟨r, hr, hid, hrk⟩, hno⟩ := token_step call hs htok
    · simp [hacq]
    · have hold := hid ▸ ih r hr k hrk
      split
      · rename_i id k' hacq
        have hne : id ≠ s.id := fun he => hno k' (he ▸ hacq)
        simpa [hne] using hold
      · exact hold

/-- Only the owner of a run loads its checkpoint. -/
theorem loadRunCheckpoint_owner {calls : List RunCall} {runId k : String} {checkpoint : Option Json.Object}
    (h : loadRunCheckpoint (runCalls calls) runId k = .ok checkpoint) :
    latestToken runId calls = some k ∧ ∃ r ∈ runCalls calls, r.id = runId ∧ r.llmCheckpoint = checkpoint := by
  unfold loadRunCheckpoint at h
  split at h
  · cases h
  · rename_i r hfind
    obtain ⟨rfl, -, hk⟩ := owns_iff.mp (List.find?_some hfind)
    have hr := List.mem_of_find?_eq_some hfind
    exact ⟨leaseToken_latest calls r hr k hk, r, hr, rfl, Except.ok.inj h⟩

/-- A run with its result stays in the table as it is. -/
theorem finished_forever {calls : List RunCall} {r : AgentRunRow} (hr : r ∈ runCalls calls)
    (hf : ClaimArgs.isFinished r = true) (later : List RunCall) : r ∈ runCalls (calls ++ later) := by
  induction later using List.reverseRecOn with
  | nil => simpa using hr
  | append_singleton later call ih =>
    rw [← List.append_assoc, runCalls_snoc]
    obtain ⟨s, hs, hstep⟩ := (apply_grows (runCalls_keyed _) call).exists_of_mem ih
    exact hstep.eq_of_finished hf ▸ hs

/-- The row that a claim names is the one it finds. -/
theorem find?_of_names {t : List AgentRunRow} (hk : Keyed t) {a : ClaimArgs} {r : AgentRunRow}
    (hr : r ∈ t) (hn : a.names r = true) : t.find? a.names = some r := by
  obtain ⟨s, hs⟩ := Option.isSome_iff_exists.mp (List.find?_isSome.mpr ⟨r, hr, hn⟩)
  have hsn := List.find?_some hs
  simp only [ClaimArgs.names, Bool.and_eq_true, decide_eq_true_eq] at hn hsn
  rw [hs, eq_of_key hk.operations (List.mem_of_find?_eq_some hs) hr
    (by simp [hn.1.1, hn.1.2, hn.2, hsn.1.1, hsn.1.2, hsn.2])]

end Runs

/-- A successful save or finalize was made with the token of the latest claim that acquired. -/
def OneOwner (calls : List RunCall) : Prop :=
  ∀ runId k, (∀ checkpoint now, (saveRunCheckpoint (runCalls calls) runId k checkpoint now).2 = true →
      latestToken runId calls = some k) ∧
    ∀ status output now t', finalizeRun (runCalls calls) runId k status output now = .ok (t', true) →
      latestToken runId calls = some k

/-- A result with an output, once written, stays, and every claim of its operation with its
fingerprint returns it. -/
def ResultStays (calls : List RunCall) : Prop :=
  ∀ runId k status output now t', status = "completed" ∨ status = "waiting_approval" →
    finalizeRun (runCalls calls) runId k status (some output) now = .ok (t', true) →
    ∀ later, ∃ r ∈ runCalls (calls ++ .finalize runId k status (some output) now :: later),
      r.id = runId ∧ some r.status = finalStatus status ∧ r.output = some output ∧
      ∀ a : ClaimArgs, a.validate = .ok () → a.names r = true →
        a.inputFingerprint = r.inputFingerprint →
        claimRun (runCalls (calls ++ .finalize runId k status (some output) now :: later)) a =
          .ok (runCalls (calls ++ .finalize runId k status (some output) now :: later),
            ⟨runId, r.status, false, none, some output⟩)

/-- A claim of a stored operation with another fingerprint raises. -/
def ForeignInputRefused (calls : List RunCall) : Prop :=
  ∀ a : ClaimArgs, ∀ r ∈ runCalls calls, a.names r = true → r.inputFingerprint ≠ a.inputFingerprint →
    (∃ e, claimRun (runCalls calls) a = .error e) ∧ runCalls (calls ++ [.claim a]) = runCalls calls

/-- A run stays, and its checkpoint changes only by a save with its current token. -/
def CheckpointKept (calls : List RunCall) : Prop :=
  ∀ call, ∀ r ∈ runCalls calls, ∃ s ∈ runCalls (calls ++ [call]), s.id = r.id ∧
    (s.llmCheckpoint = r.llmCheckpoint ∨ ∃ k checkpoint now,
      call = .saveCheckpoint r.id k checkpoint now ∧ latestToken r.id calls = some k ∧
        r.status = .running ∧ s.llmCheckpoint = some checkpoint)

theorem oneOwner (calls : List RunCall) : OneOwner calls := by
  have howned : ∀ runId k, rowcount (owns runId k) (runCalls calls) ≠ 0 →
      latestToken runId calls = some k := by
    intro runId k h
    obtain ⟨r, hr, ho⟩ := List.countP_pos_iff.mp (Nat.pos_of_ne_zero h)
    obtain ⟨rfl, -, hk⟩ := owns_iff.mp ho
    exact leaseToken_latest calls r hr k hk
  intro runId k
  refine ⟨fun checkpoint now h => howned runId k (by simpa [saveRunCheckpoint] using h),
    fun status output now t' h => ?_⟩
  obtain ⟨final, -, hb, -⟩ := finalizeRun_ok h
  exact howned runId k (by simpa using hb.symm)

theorem resultStays (calls : List RunCall) : ResultStays calls := by
  intro runId k status output now t' hstatus h later
  obtain ⟨final, hfinal, hb, rfl⟩ := finalizeRun_ok h
  obtain ⟨x, hx, hown⟩ := List.countP_pos_iff.mp
    (Nat.pos_of_ne_zero (show rowcount (owns runId k) (runCalls calls) ≠ 0 by simpa using hb.symm))
  let r : AgentRunRow :=
    { x with status := final, output := some output, leaseToken := none, updatedAt := now }
  have hfinished : ClaimArgs.isFinished r = true := by
    obtain rfl | rfl := hstatus
    · obtain rfl : RunStatus.completed = final := by simpa [finalStatus] using hfinal
      rfl
    · obtain rfl : RunStatus.waitingApproval = final := by simpa [finalStatus] using hfinal
      rfl
  have hr : r ∈ runCalls (calls ++ [.finalize runId k status (some output) now]) := by
    rw [runCalls_snoc, apply, h]
    exact List.mem_map.mpr ⟨x, hx, by rw [if_pos hown]⟩
  have hlater := finished_forever hr hfinished later
  rw [List.append_assoc, List.singleton_append] at hlater
  refine ⟨r, hlater, (owns_iff.mp hown).1, hfinal.symm, rfl, fun a hv hn hfp => ?_⟩
  have hfind := find?_of_names (runCalls_keyed _) hlater hn
  have hreplay : requireIdempotentReplay (r.inputFingerprint = a.inputFingerprint) "planner run"
      a.operationKey.dumps r.id = .ok () := by simp [requireIdempotentReplay, hfp]
  simp only [claimRun, hv, hfind, hreplay, hfinished, bind, Except.bind, if_true]
  rw [← (owns_iff.mp hown).1]

theorem foreignInputRefused (calls : List RunCall) : ForeignInputRefused calls := by
  intro a r hr hn hne
  have herror : ∃ e, claimRun (runCalls calls) a = .error e := by
    cases h : claimRun (runCalls calls) a with
    | error e => exact ⟨e, rfl⟩
    | ok p =>
      have hfind := find?_of_names (runCalls_keyed calls) hr hn
      obtain ⟨-, -, hop, -⟩ | ⟨r', hr', hf, -⟩ := claimRun_ok h
      · simp only [ClaimArgs.names, Bool.and_eq_true, decide_eq_true_eq] at hn
        refine absurd (List.mem_map.mpr ⟨r, hr, ?_⟩) hop
        rw [hn.1.1, hn.1.2, hn.2]
      · obtain rfl := Option.some.inj (hfind.symm.trans hr')
        exact absurd hf hne
  refine ⟨herror, ?_⟩
  obtain ⟨e, he⟩ := herror
  rw [runCalls_snoc, apply, he]

theorem checkpointKept (calls : List RunCall) : CheckpointKept calls := by
  intro call r hr
  obtain ⟨s, hs, hstep⟩ := (apply_grows (runCalls_keyed calls) call).exists_of_mem hr
  refine ⟨s, runCalls_snoc calls call ▸ hs, hstep.id_eq, ?_⟩
  cases hstep with
  | same | acquired | finalized => exact .inl rfl
  | @saved id k checkpoint now _ h =>
    obtain ⟨rfl, hrunning, hk⟩ := owns_iff.mp h
    exact .inr ⟨k, checkpoint, now, rfl, leaseToken_latest calls r hr k hk, hrunning, rfl⟩

/-- In every state that calls reach: one owner, permanent results, no foreign input, and a
checkpoint that only its owner changes. -/
theorem planner_runs_have_one_owner (calls : List RunCall) :
    OneOwner calls ∧ ResultStays calls ∧ ForeignInputRefused calls ∧ CheckpointKept calls :=
  ⟨oneOwner calls, resultStays calls, foreignInputRefused calls, checkpointKept calls⟩

section Example

def planClaim (now : Int) (leaseToken : String) : ClaimArgs where
  tenantId := "t"
  sourceId := "chat"
  triggerEventId := "evt"
  model := "m"
  promptVersion := "1"
  inputSummary := none
  inputFingerprint := "f"
  staleAfterS := 60
  now := now
  leaseToken := leaseToken
  runHex := "1"

/-- A stale owner is superseded after it has saved a checkpoint; the second owner completes. -/
def supersededCalls : List RunCall := [.claim (planClaim 0 "k1"),
  .saveCheckpoint "ar_1" "k1" [("state", .str "prepared")] 1, .claim (planClaim 100 "k2")]

theorem planner_runs_have_one_owner_superseded :
    (runCalls supersededCalls).map (fun r => (r.leaseToken, r.llmCheckpoint)) =
      [(some "k2", some [("state", .str "prepared")])] ∧
    (saveRunCheckpoint (runCalls supersededCalls) "ar_1" "k1" [] 101).2 = false ∧
    latestToken "ar_1" supersededCalls = some "k2" := by
  refine ⟨by decide, by decide, ?_⟩
  exact ((planner_runs_have_one_owner supersededCalls).1 "ar_1" "k2").1 [] 101 (by decide)

end Example

end Soveren.Runs
