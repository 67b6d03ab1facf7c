import Soveren.GitHub.Invariant

/-! The invariant of the connector with its calls, kept by every step. -/
namespace Soveren.GitHub
open Soveren.Process Soveren.Async Soveren.Run Soveren.Conversation

/-- A commit of a pin of a granted ref, or of a pull request that was granted by its number. -/
def System.Root (g : CommitGraph) (access : GitHubAccess) (s : System) (repository b : String) : Prop :=
  (∃ ref snap, ((repository, ref), snap) ∈ s.pinned ∧ access.HasRef (repository, ref) ∧
    snap.commit = b) ∨
  ∃ n base head, (repository, n, base, head) ∈ s.reported ∧ access.Explicit repository n ∧
    (b = base ∨ b = head ∨ g.IsMergeBase repository base head b)

/-- Such a commit or an ancestor of one. -/
def System.Granted (g : CommitGraph) (access : GitHubAccess) (s : System) (repository c : String) : Prop :=
  ∃ b, s.Root g access repository b ∧ g.IsAncestor repository c b

section World

variable (g : CommitGraph) (access : GitHubAccess) (T U : Prop) (s : System)

/-- What is known in a state: the commits that may be read, if answers are truthful, and the pins,
while the connector is open and if no pin was restored while its ref was read. -/
def System.world : World g where
  allowed repository c := T → s.Granted g access repository c
  pinned key snap := (U → s.connector.closed = false → s.connector.refs.cache key = some snap) ∧
    snap.repository = key.1 ∧ (T → s.Granted g access key.1 snap.commit)
  pins := True
  cancelled := False
  ancestors repository c a hc ha hT := by
    obtain ⟨b, hb, hcb⟩ := hc hT
    exact ⟨b, hb, ha.trans hcb⟩

/-- The ref has no pin. -/
def System.Vacant (key : RefKey) : Prop :=
  U → s.connector.closed = false → s.connector.refs.cache key = none

end World

/-- What a call may return or raise. -/
abbrev Call.Promise {g : CommitGraph} (call : Call) : World g → Except Failure ReadResult → Prop :=
  Outcome (fun w r => w.Describes call.grant.repository r) Raises

structure Call.Sound {g : CommitGraph} (access : GitHubAccess) (w : World g) (call : Call) : Prop where
  grant : call.grant ∈ access.repositories
  operation : call.operation ∈ call.grant.operations
  program :
    Safe (readContract access) call.Promise (w.forCall (call.cancelRequested = true)) call.program
  outcome : ∀ o, call.outcome = some o → call.Promise (w.forCall (call.cancelRequested = true)) o

def Call.refWaiter (call : Call) : Waiter RefKey GitHubSnapshot :=
  GitHub.refWaiter call.cancelRequested call.program call.suspended

def Call.pullWaiter (call : Call) : Waiter PullKey PullSnapshot :=
  GitHub.pullWaiter call.cancelRequested call.program call.suspended

structure System.Sound (g : CommitGraph) (access : GitHubAccess) (T U : Prop) (s : System) : Prop where
  owner : s.connector.access = access
  connector : s.connector.Sound access (s.world g access T U) (s.Vacant U)
    (s.calls.map (·.refWaiter)) (s.calls.map (·.pullWaiter))
  calls : ∀ call ∈ s.calls, call.Sound access (s.world g access T U)
  observed : ∀ e ∈ s.observed, (s.world g access T U).pinned e.1 e.2

section Growth

variable {g : CommitGraph} {access : GitHubAccess} {T U : Prop} {s t : System} {w w' : World g}

theorem System.Granted.mono {repository c : String} (h : s.Granted g access repository c)
    (hp : s.pinned ⊆ t.pinned) (hr : s.reported ⊆ t.reported) : t.Granted g access repository c := by
  obtain ⟨b, hb, hc⟩ := h
  refine ⟨b, ?_, hc⟩
  obtain ⟨ref, snap, hmem, hb⟩ | ⟨n, base, head, hmem, hb⟩ := hb
  · exact .inl ⟨ref, snap, hp hmem, hb⟩
  · exact .inr ⟨n, base, head, hr hmem, hb⟩

/-- What is known grows along a step that keeps the pins while the connector is open. -/
theorem System.world_le (hp : s.pinned ⊆ t.pinned) (hr : s.reported ⊆ t.reported)
    (hcache : U → t.connector.closed = false → s.connector.closed = false ∧
      ∀ key snap, s.connector.refs.cache key = some snap → t.connector.refs.cache key = some snap) :
    s.world g access T U ≤ t.world g access T U := by
  refine ⟨fun _ _ hc hT => (hc hT).mono hp hr, fun key snap hpin => ⟨fun hU hopen => ?_, hpin.2.1,
    fun hT => (hpin.2.2 hT).mono hp hr⟩, fun h => h, fun h => h⟩
  exact (hcache hU hopen).2 key snap (hpin.1 hU (hcache hU hopen).1)

theorem World.Describes.mono {repository : String} {r : ReadResult} (h : w.Describes repository r)
    (hw : w ≤ w') : w'.Describes repository r := by
  cases r with
  | ref ref snap => exact hw.pinned _ _ h
  | _ => exact fun p hp => ⟨(h p hp).1, hw.allowed _ _ (h p hp).2⟩

theorem Call.Promise.mono {call : Call} {o : Except Failure ReadResult} (h : call.Promise w o)
    (hw : w ≤ w') : call.Promise w' o := by
  cases o with
  | ok r => exact World.Describes.mono h hw
  | error e => exact raises_mono w e h w' hw

theorem Call.Sound.mono {call : Call} (h : call.Sound access w) (hw : w ≤ w') :
    call.Sound access w' :=
  { h with
    program := h.program.mono (World.forCall_le hw fun hc => hc)
    outcome := fun o ho => Call.Promise.mono (h.outcome o ho) (World.forCall_le hw fun hc => hc) }

theorem Connector.Sound.mono {c : Connector} {V : RefKey → Prop}
    {refs : List (Waiter RefKey GitHubSnapshot)} {pulls : List (Waiter PullKey PullSnapshot)}
    (h : c.Sound access w V refs pulls) (hw : w ≤ w') (V' : RefKey → Prop)
    (hV : ∀ key, V key → V' key) :
    c.Sound access w' V' refs pulls where
  refs := h.refs.mono (fun _ _ _ hx => ⟨hx.1, hx.2.1, hV _ hx.2.2⟩) hw.pinned
  pulls := h.pulls.mono (fun _ _ _ hx => hx.mono (World.forRead_le hw fun hc => hc))
    fun _ _ hv => ⟨hw.allowed _ _ hv.1, hw.allowed _ _ hv.2⟩
  snapshots repository commit snap hs := by
    obtain ⟨hrepository, hcommit, ha⟩ := h.snapshots repository commit snap hs
    exact ⟨hrepository, hcommit, hw.allowed _ _ ha⟩
  vacant hopen key hmiss := hV key (h.vacant hopen key hmiss)

end Growth

section Calls

variable {g : CommitGraph} {access : GitHubAccess} {T U : Prop} {s t : System} {lib : Library}

theorem Connector.run_access {α : Type} (lib : Library) (c : Connector) (x : Proc Op Res α) :
    (c.run lib x).1.access = c.access := by
  induction x generalizing c with
  | ret a => rfl
  | call o k ih =>
    have hperform : (c.perform lib o).1.access = c.access := by
      cases o with
      | get | pinRef | pinPull | hasSnapshot | isProven => rfl
      | knownSnapshot | storeSnapshot | storeAncestor =>
        simp only [Connector.perform]
        split <;> rfl
    unfold Connector.run
    split
    · rename_i c' r hc
      rw [hc] at hperform
      exact (ih r c').trans hperform
    · rename_i c' r hc
      rw [hc] at hperform
      exact hperform

/-- What is known depends on the logs, the cache of refs and whether the connector is open. -/
theorem System.world_congr (g : CommitGraph) (access : GitHubAccess) (T U : Prop) (hp : t.pinned = s.pinned) (hr : t.reported = s.reported)
    (hclosed : t.connector.closed = s.connector.closed)
    (hcache : t.connector.refs.cache = s.connector.refs.cache) :
    t.world g access T U = s.world g access T U ∧ t.Vacant U = s.Vacant U := by
  constructor
  · unfold System.world
    simp only [System.Granted, System.Root, hp, hr, hclosed, hcache]
  · unfold System.Vacant
    rw [hclosed, hcache]

/-- What is known has not changed. -/
theorem System.sound_of_world (hworld : t.world g access T U = s.world g access T U)
    (hvacant : t.Vacant U = s.Vacant U) (howner : t.connector.access = access)
    (hc : t.connector.Sound access (s.world g access T U) (s.Vacant U) (t.calls.map (·.refWaiter))
      (t.calls.map (·.pullWaiter)))
    (hcalls : ∀ call ∈ t.calls, call.Sound access (s.world g access T U))
    (hobs : ∀ e ∈ t.observed, (s.world g access T U).pinned e.1 e.2) : t.Sound g access T U := by
  refine ⟨howner, ?_, ?_, ?_⟩
  · rw [hworld, hvacant]
    exact hc
  · rw [hworld]
    exact hcalls
  · rw [hworld]
    exact hobs

/-- A system between two stretches of a call: the connector does not count the `i`-th call. -/
structure System.Resting (g : CommitGraph) (access : GitHubAccess) (T U : Prop) (i : ℕ) (s : System) :
    Prop where
  owner : s.connector.access = access
  connector : ∃ p q d d', p.wait = .returned d ∧ q.wait = .returned d' ∧
    s.connector.Sound access (s.world g access T U) (s.Vacant U)
      ((s.calls.map (·.refWaiter)).set i p) ((s.calls.map (·.pullWaiter)).set i q)
  index : i < s.calls.length
  calls : ∀ call ∈ s.calls, call.Sound access (s.world g access T U)
  observed : ∀ e ∈ s.observed, (s.world g access T U).pinned e.1 e.2

theorem Call.Promise.concluded {w : World g} {call : Call} {result : Except Failure ReadResult}
    (h : call.Promise w result) (closed : Bool) :
    call.Promise w (call.concluded closed result) := by
  unfold Call.concluded
  split
  · split
    · exact fun he => nomatch he
    · exact h
  · split
    · exact fun he => nomatch he
    · exact h
  · exact h

theorem Call.Promise.shows {w : World g} {call : Call} {o : Except Failure ReadResult}
    (h : call.Promise w o) : ∀ e ∈ call.shows o, w.pinned e.1 e.2 := by
  intro e he
  unfold Call.shows at he
  split at he
  · obtain rfl := List.mem_singleton.mp he
    exact h
  · cases he

theorem System.conclude_sound {i : ℕ} {call : Call} {result : Except Failure ReadResult}
    (howner : s.connector.access = access)
    (hc : s.connector.Sound access (s.world g access T U) (s.Vacant U)
      ((s.calls.map (·.refWaiter)).set i (GitHub.refWaiter call.cancelRequested
        (.ret result : Proc Op Res (Except Failure ReadResult)) none))
      ((s.calls.map (·.pullWaiter)).set i (GitHub.pullWaiter call.cancelRequested
        (.ret result : Proc Op Res (Except Failure ReadResult)) none)))
    (hcalls : ∀ call ∈ s.calls, call.Sound access (s.world g access T U))
    (hobs : ∀ e ∈ s.observed, (s.world g access T U).pinned e.1 e.2)
    (hgrant : call.grant ∈ access.repositories) (hop : call.operation ∈ call.grant.operations)
    (hresult : ∀ w', (s.world g access T U).forCall (call.cancelRequested = true) ≤ w' →
      call.Promise w' result) :
    (s.conclude i call result).Sound g access T U := by
  have hconcluded := Call.Promise.concluded (hresult _ le_rfl) s.connector.closed
  refine ⟨howner, ?_, forall_set hcalls ⟨hgrant, hop, hresult, fun o ho => ?_⟩,
    fun e he => ?_⟩
  · simp only [System.conclude, List.map_set]
    exact ⟨hc.refs, hc.pulls, hc.snapshots, hc.vacant⟩
  · obtain rfl := Option.some.inj ho
    exact hconcluded
  · obtain he | he := List.mem_append.mp he
    · exact hobs e he
    · exact hconcluded.shows e he

/-- A call goes on with a safe program. -/
theorem System.Resting.continueCall {i : ℕ} {call : Call}
    {x : Proc Op Res (Except Failure ReadResult)} (h : s.Resting g access T U i)
    (hcall : call.Sound access (s.world g access T U))
    (hx : Safe (readContract access) call.Promise
      ((s.world g access T U).forCall (call.cancelRequested = true)) x) :
    (s.continueCall lib i call x).Sound g access T U := by
  obtain ⟨p, q, d, d', hp, hq, hc⟩ := h.connector
  obtain ⟨c, x', suspended, hrun⟩ : ∃ c x' suspended, s.connector.run lib x = (c, x', suspended) :=
    ⟨_, _, _, rfl⟩
  have hlt : i < (s.calls.map (·.refWaiter)).length := by simpa using h.index
  have hlt' : i < (s.calls.map (·.pullWaiter)).length := by simpa using h.index
  obtain ⟨hsound, hx', hclosed, hcache⟩ := hc.run (List.getElem?_set_self hlt) hp
    (List.getElem?_set_self hlt') hq hx hrun
  rw [List.set_set, List.set_set] at hsound
  have howner : c.access = access := by
    have haccess := Connector.run_access lib s.connector x
    rw [hrun] at haccess
    exact haccess.trans h.owner
  obtain ⟨hworld, hvacant⟩ := System.world_congr (s := s) (t := { s with connector := c }) g access T U
    rfl rfl hclosed hcache
  rw [← hworld, ← hvacant] at hsound
  unfold System.continueCall
  rw [hrun]
  split
  · rename_i c₁ result hpair
    cases hpair
    refine System.conclude_sound howner hsound ?_ ?_ hcall.grant hcall.operation ?_
    · rw [hworld]
      exact h.calls
    · rw [hworld]
      exact h.observed
    · rw [hworld]
      exact hx'
  · rename_i c₁ x₁ suspended₁ _ hpair
    cases hpair
    refine ⟨howner, ?_, ?_, ?_⟩
    · simp only [List.map_set]
      exact hsound
    · refine forall_set (fun call' hcall' => hworld ▸ h.calls call' hcall')
        ⟨hcall.grant, hcall.operation, hworld ▸ hx', fun o ho => ?_⟩
      exact hworld ▸ hcall.outcome o ho
    · exact fun e he => hworld ▸ h.observed e he

end Calls

/-- What a program asks the provider for. -/
def requested {α : Type} : Proc Op Res α → Option Endpoint
  | .call (.get e) _ => some e
  | _ => none

/-- The request that a step answers, with the answer. -/
def System.answered (s : System) : Label → Option (Endpoint × Json)
  | .answer i (.ok data) => ((s.calls[i]?.map (·.program)).bind requested).map (·, data)
  | .refAnswer r (.ok data) => (s.connector.refs.loads[r]?.bind requested).map (·, data)
  | .pullAnswer r (.ok data) => (s.connector.pulls.loads[r]?.bind requested).map (·, data)
  | _ => none

/-- The provider answers truthfully. -/
def System.Truthful (g : CommitGraph) (s : System) (l : Label) : Prop :=
  ∀ e data, s.answered l = some (e, data) → g.Truthful data e

/-- A pin is restored only while its ref is not being read. -/
def System.Undisturbed (s : System) : Label → Prop
  | .restoreSnapshot scope repository ref snap =>
    (∃ t, s.restoreSnapshot scope repository ref snap = .ok t) →
      ∀ task ∈ s.connector.refs.flights.tasks, task.key = (repository, ref) →
        task.outcome.isSome = true
  | _ => True

section Answers

variable {g : CommitGraph} {access : GitHubAccess} {T U : Prop} {s t : System} {lib : Library}

theorem System.report_subset (s : System) (e : Endpoint) (result : Except Failure Json) :
    s.reported ⊆ s.report e result := by
  unfold System.report
  split
  · split
    · exact List.subset_append_left _ _
    · exact List.Subset.refl _
  · exact List.Subset.refl _

/-- The state once an answer has been noted. -/
def System.noted (s : System) (e : Endpoint) (result : Except Failure Json) : System :=
  { s with reported := s.report e result }

theorem System.world_noted (s : System) (e : Endpoint) (result : Except Failure Json) :
    s.world g access T U ≤ (s.noted e result).world g access T U :=
  System.world_le (List.Subset.refl _) (s.report_subset e result) fun _ hopen => ⟨hopen, fun _ _ h => h⟩

/-- What a program learns from an answer. -/
theorem System.learns_noted (U : Prop) {e : Endpoint} {data : Json} (hT : T → g.Truthful data e) :
    ((s.noted e (.ok data)).world g access T U).Informs data e ∧
      Reports access ((s.noted e (.ok data)).world g access T U) data e := by
  constructor
  · by_cases hT' : T
    · exact .inl (hT hT')
    · exact .inr fun _ _ h => absurd h hT'
  · cases e with
    | pull repository n =>
      intro hx b h hb hh
      have hmem : (repository, n, b, h) ∈ (s.noted (.pull repository n) (.ok data)).reported := by
        simp only [System.noted, System.report, hb, hh]
        exact List.mem_append_right _ (List.mem_singleton.mpr rfl)
      exact ⟨fun _ => ⟨b, .inr ⟨n, b, h, hmem, hx, .inl rfl⟩, .refl⟩,
        fun _ => ⟨h, .inr ⟨n, b, h, hmem, hx, .inr (.inl rfl)⟩, .refl⟩⟩
    | _ => trivial

theorem System.Sound.noted (h : s.Sound g access T U) (e : Endpoint) (result : Except Failure Json) :
    (s.noted e result).Sound g access T U where
  owner := h.owner
  connector := h.connector.mono (s.world_noted e result) _ fun _ hv => hv
  calls call hcall := (h.calls call hcall).mono (s.world_noted e result)
  observed x hx := (s.world_noted e result).pinned _ _ (h.observed x hx)

theorem set_of_getElem? {α : Type} {l : List α} {i : ℕ} {x : α} (h : l[i]? = some x) : l.set i x = l := by
  obtain ⟨hlt, rfl⟩ := List.getElem?_eq_some_iff.mp h
  exact List.set_getElem_self hlt

/-- A call that waits for no pin can go on. -/
theorem System.Sound.resting (h : s.Sound g access T U) {i : ℕ} {call : Call}
    (hi : s.calls[i]? = some call) (hp : ∀ wait, call.suspended ≠ some (.ref wait))
    (hq : ∀ wait, call.suspended ≠ some (.pull wait)) : s.Resting g access T U i where
  owner := h.owner
  connector := by
    refine ⟨call.refWaiter, call.pullWaiter, _, _, refWaiter_idle hp, pullWaiter_idle hq, ?_⟩
    rw [set_of_getElem? (by rw [List.getElem?_map, hi]; rfl),
      set_of_getElem? (by rw [List.getElem?_map, hi]; rfl)]
    exact h.connector
  index := (List.getElem?_eq_some_iff.mp hi).1
  calls := h.calls
  observed := h.observed

theorem System.Sound.answer (h : s.Sound g access T U) {i : ℕ} {result : Except Failure Json}
    (hT : T → s.Truthful g (.answer i result)) (hstep : s.answer lib i result = some t) :
    t.Sound g access T U := by
  unfold System.answer at hstep
  split at hstep
  · rename_i call hi
    split at hstep
    · rename_i e k hprogram hsuspended
      split at hstep
      · cases hstep
      · rename_i hresult
        cases hstep
        have hnoted := h.noted e result
        have hcall := hnoted.calls call (List.mem_of_getElem? hi)
        have hsafe := hcall.program
        rw [hprogram] at hsafe
        refine System.Resting.continueCall (hnoted.resting hi (by simp [hsuspended])
          (by simp [hsuspended])) hcall ((hsafe _ le_rfl).2 result ?_)
        cases result with
        | error failure => exact fun he => absurd (congrArg Except.error he) hresult
        | ok data =>
          refine System.learns_noted U fun hT' => hT hT' e data ?_
          simp [System.answered, hi, hprogram, requested]
    · cases hstep
  · cases hstep

end Answers

section Waiting

variable {g : CommitGraph} {access : GitHubAccess} {T U : Prop} {s t : System} {lib : Library} {i : ℕ}
  {call call' : Call}

theorem System.Sound.refMoved (h : s.Sound g access T U) (hi : s.calls[i]? = some call)
    {key : RefKey} {k : Except Failure GitHubSnapshot → Proc Op Res (Except Failure ReadResult)}
    {wait wait' : Wait Failure GitHubSnapshot} (hsuspended : call.suspended = some (.ref wait))
    (hcall : call'.Sound access (s.world g access T U)) (hprogram : call'.program = .call (.pinRef key) k)
    {table : PinTable RefKey GitHubSnapshot}
    (htable : table.Sound (refSpec access (s.world g access T U) (s.Vacant U)) s.connector.closed
      ((s.calls.map (·.refWaiter)).set i ⟨some key, call'.cancelRequested, wait'⟩))
    (hcache : table.cache = s.connector.refs.cache)
    (hres : ∀ res, wait' = .returned res →
      (refSpec access (s.world g access T U) (s.Vacant U)).Result key (call'.cancelRequested = true) res) :
    (s.refMoved lib i call' k table wait').Sound g access T U := by
  obtain ⟨hworld, hvacant⟩ := System.world_congr (s := s)
    (t := { s with connector := { s.connector with refs := table } }) g access T U rfl rfl rfl hcache
  have hpull : (s.calls.map (·.pullWaiter))[i]? = some call.pullWaiter := by
    rw [List.getElem?_map, hi]
    rfl
  have hidle : call.pullWaiter.wait = .returned (.error .cancelled) :=
    pullWaiter_idle (by simp [hsuspended])
  -- the other table does not count this call
  have hc : ∀ q : Waiter PullKey PullSnapshot, q.wait = .returned (.error .cancelled) →
      Connector.Sound access (s.world g access T U) (s.Vacant U) { s.connector with refs := table }
        ((s.calls.map (·.refWaiter)).set i ⟨some key, call'.cancelRequested, wait'⟩)
        ((s.calls.map (·.pullWaiter)).set i q) := fun q hq =>
    { h.connector with
      refs := htable
      pulls := h.connector.pulls.idle hpull (by simp [hidle, Wait.usage]) hq
      vacant := hcache ▸ h.connector.vacant }
  have hsafe := hcall.program
  rw [hprogram] at hsafe
  unfold System.refMoved
  split
  · rename_i result hresult
    obtain rfl : wait' = .returned result := by
      cases wait' with
      | returned res =>
        cases hresult
        rfl
      | _ => cases hresult
    have hresting : System.Resting g access T U i
        { s with connector := { s.connector with refs := table } } := by
      refine ⟨h.owner, ⟨_, call.pullWaiter, result, _, ?_, hidle, hworld ▸ hvacant ▸ hc _ hidle⟩,
        (List.getElem?_eq_some_iff.mp hi).1, hworld ▸ h.calls, hworld ▸ h.observed⟩
      rfl
    refine hresting.continueCall (hworld ▸ hcall) (hworld ▸ (hsafe _ le_rfl).2 result ?_)
    have hres := hres result rfl
    cases result with
    | ok snap => exact hres
    | error e => exact hres
  · rename_i suspended hresult
    obtain rfl : suspended = .ref wait' := by
      cases wait' with
      | returned res => cases hresult
      | _ =>
        cases hresult
        rfl
    refine System.sound_of_world hworld hvacant h.owner ?_ (forall_set h.calls
      ⟨hcall.grant, hcall.operation, hcall.program, hcall.outcome⟩) h.observed
    · simp only [List.map_set]
      have hwaiter : Call.refWaiter { call' with suspended := some (.ref wait') } =
          ⟨some key, call'.cancelRequested, wait'⟩ := by
        simp only [Call.refWaiter, hprogram]
        rfl
      rw [hwaiter]
      exact hc _ (pullWaiter_idle (by simp))

theorem System.Sound.pullMoved (h : s.Sound g access T U) (hi : s.calls[i]? = some call)
    {key : PullKey} {grant : Option GitHubRepositoryAccess}
    {k : Except Failure PullSnapshot → Proc Op Res (Except Failure ReadResult)}
    {wait wait' : Wait Failure PullSnapshot} (hsuspended : call.suspended = some (.pull wait))
    (hcall : call'.Sound access (s.world g access T U))
    (hprogram : call'.program = .call (.pinPull key grant) k) {table : PinTable PullKey PullSnapshot}
    (htable : table.Sound (pullSpec access (s.world g access T U)) s.connector.closed
      ((s.calls.map (·.pullWaiter)).set i ⟨some key, call'.cancelRequested, wait'⟩))
    (hres : ∀ res, wait' = .returned res →
      (pullSpec access (s.world g access T U)).Result key (call'.cancelRequested = true) res) :
    (s.pullMoved lib i call' k table wait').Sound g access T U := by
  have href : (s.calls.map (·.refWaiter))[i]? = some call.refWaiter := by
    rw [List.getElem?_map, hi]
    rfl
  have hidle : call.refWaiter.wait = .returned (.error .cancelled) :=
    refWaiter_idle (by simp [hsuspended])
  have hc : ∀ p : Waiter RefKey GitHubSnapshot, p.wait = .returned (.error .cancelled) →
      Connector.Sound access (s.world g access T U) (s.Vacant U) { s.connector with pulls := table }
        ((s.calls.map (·.refWaiter)).set i p)
        ((s.calls.map (·.pullWaiter)).set i ⟨some key, call'.cancelRequested, wait'⟩) := fun p hp =>
    { h.connector with
      refs := h.connector.refs.idle href (by simp [hidle, Wait.usage]) hp
      pulls := htable }
  have hsafe := hcall.program
  rw [hprogram] at hsafe
  unfold System.pullMoved
  split
  · rename_i result hresult
    obtain rfl : wait' = .returned result := by
      cases wait' with
      | returned res =>
        cases hresult
        rfl
      | _ => cases hresult
    have hresting : System.Resting g access T U i
        { s with connector := { s.connector with pulls := table } } := by
      refine ⟨h.owner, ⟨call.refWaiter, _, _, result, hidle, ?_, hc _ hidle⟩,
        (List.getElem?_eq_some_iff.mp hi).1, h.calls, h.observed⟩
      rfl
    refine hresting.continueCall hcall ((hsafe _ le_rfl).2 result ?_)
    have hres := hres result rfl
    cases result with
    | ok pull => exact hres
    | error e => exact hres
  · rename_i suspended hresult
    obtain rfl : suspended = .pull wait' := by
      cases wait' with
      | returned res => cases hresult
      | _ =>
        cases hresult
        rfl
    refine System.sound_of_world rfl rfl h.owner ?_ (forall_set h.calls
      ⟨hcall.grant, hcall.operation, hcall.program, hcall.outcome⟩) h.observed
    · simp only [List.map_set]
      have hwaiter : Call.pullWaiter { call' with suspended := some (.pull wait') } =
          ⟨some key, call'.cancelRequested, wait'⟩ := by
        simp only [Call.pullWaiter, hprogram]
        rfl
      rw [hwaiter]
      exact hc _ (refWaiter_idle (by simp))

/-- The callers of the two tables. -/
theorem Call.refWaiter_eq {key : RefKey} {k : Res (.pinRef key) → Proc Op Res (Except Failure ReadResult)}
    {wait : Wait Failure GitHubSnapshot} (hprogram : call.program = .call (.pinRef key) k)
    (hsuspended : call.suspended = some (.ref wait)) :
    call.refWaiter = ⟨some key, call.cancelRequested, wait⟩ := by
  simp only [Call.refWaiter, hprogram, hsuspended]
  rfl

theorem Call.pullWaiter_eq {key : PullKey} {grant : Option GitHubRepositoryAccess}
    {k : Res (.pinPull key grant) → Proc Op Res (Except Failure ReadResult)}
    {wait : Wait Failure PullSnapshot} (hprogram : call.program = .call (.pinPull key grant) k)
    (hsuspended : call.suspended = some (.pull wait)) :
    call.pullWaiter = ⟨some key, call.cancelRequested, wait⟩ := by
  simp only [Call.pullWaiter, hprogram, hsuspended]
  rfl

theorem System.Sound.wake (h : s.Sound g access T U) (hstep : s.wake lib i = some t) :
    t.Sound g access T U := by
  unfold System.wake at hstep
  split at hstep
  · rename_i call hi
    have hcall := h.calls call (List.mem_of_getElem? hi)
    have hsafe := hcall.program
    split at hstep
    · rename_i key k wait hprogram hsuspended
      obtain ⟨⟨table, wait'⟩, hwake, rfl⟩ := Option.map_eq_some_iff.mp hstep
      have hp : (s.calls.map (·.refWaiter))[i]? = some ⟨some key, call.cancelRequested, wait⟩ := by
        rw [List.getElem?_map, hi, Option.map_some, Call.refWaiter_eq hprogram hsuspended]
      rw [hprogram] at hsafe
      have hpre := (hsafe _ le_rfl).1
      obtain ⟨htable, hcache, hres⟩ := h.connector.refs.wake hp rfl
        (fun hopen hmiss => ⟨hpre.2, rfl, h.connector.vacant hopen key hmiss⟩) hwake
      exact h.refMoved hi hsuspended hcall hprogram htable hcache hres
    · rename_i key grant k wait hprogram hsuspended
      obtain ⟨⟨table, wait'⟩, hwake, rfl⟩ := Option.map_eq_some_iff.mp hstep
      have hp : (s.calls.map (·.pullWaiter))[i]? = some ⟨some key, call.cancelRequested, wait⟩ := by
        rw [List.getElem?_map, hi, Option.map_some, Call.pullWaiter_eq hprogram hsuspended]
      rw [hprogram] at hsafe
      have hpre := (hsafe _ le_rfl).1
      obtain ⟨htable, -, hres⟩ := h.connector.pulls.wake hp rfl
        (fun _ _ => pullFetch_running hpre.2) hwake
      exact h.pullMoved hi hsuspended hcall hprogram htable hres
    · cases hstep
  · cases hstep

theorem System.Sound.cancel (h : s.Sound g access T U) {timeout : Bool}
    (hstep : s.cancel lib i timeout = some t) : t.Sound g access T U := by
  unfold System.cancel at hstep
  split at hstep
  · rename_i call hi
    have hcalled := h.calls call (List.mem_of_getElem? hi)
    have hcall : Call.Sound access (s.world g access T U)
        { call with timedOut := call.timedOut || timeout, cancelRequested := true } :=
      ⟨hcalled.grant, hcalled.operation, hcalled.program.mono (World.forCall_le le_rfl fun _ => rfl),
        fun o ho => Call.Promise.mono (hcalled.outcome o ho) (World.forCall_le le_rfl fun _ => rfl)⟩
    have hsafe := hcall.program
    dsimp only at hstep
    split at hstep
    · rename_i e k hprogram hsuspended
      cases hstep
      rw [hprogram] at hsafe
      refine System.Resting.continueCall (h.resting hi (by simp [hsuspended]) (by simp [hsuspended]))
        hcall ((hsafe _ le_rfl).2 (.error .cancelled) fun _ => rfl)
    · rename_i key k wait hprogram hsuspended
      obtain ⟨⟨table, wait'⟩, hcancel, rfl⟩ := Option.map_eq_some_iff.mp hstep
      have hp : (s.calls.map (·.refWaiter))[i]? = some ⟨some key, call.cancelRequested, wait⟩ := by
        rw [List.getElem?_map, hi, Option.map_some, Call.refWaiter_eq hprogram hsuspended]
      obtain ⟨htable, hcache, hres⟩ := h.connector.refs.cancel hp hcancel
      exact h.refMoved hi hsuspended hcall hprogram htable hcache fun res hr =>
        PinTable.Sound.Result.mono (hres res hr) fun _ => rfl
    · rename_i key grant k wait hprogram hsuspended
      obtain ⟨⟨table, wait'⟩, hcancel, rfl⟩ := Option.map_eq_some_iff.mp hstep
      have hp : (s.calls.map (·.pullWaiter))[i]? = some ⟨some key, call.cancelRequested, wait⟩ := by
        rw [List.getElem?_map, hi, Option.map_some, Call.pullWaiter_eq hprogram hsuspended]
      obtain ⟨htable, -, hres⟩ := h.connector.pulls.cancel hp hcancel
      exact h.pullMoved hi hsuspended hcall hprogram htable fun res hr =>
        PinTable.Sound.Result.mono (hres res hr) fun _ => rfl
    · cases hstep
  · cases hstep

end Waiting

section Others

variable {g : CommitGraph} {access : GitHubAccess} {T U : Prop} {s t : System} {lib : Library}

theorem System.authorize_ok {scope : Scope} {operation : Operation} {repository : Option Json}
    {grant : GitHubRepositoryAccess} (h : s.authorize scope operation repository = .ok grant) :
    grant ∈ s.connector.access.repositories ∧ operation ∈ grant.operations := by
  unfold System.authorize at h
  split at h
  · cases h
  · split at h
    · cases h
    · split at h
      · rename_i grant' hfind
        cases h
        have hp := List.find?_some hfind
        simp only [Bool.and_eq_true] at hp
        exact ⟨List.mem_of_find?_eq_some hfind, List.contains_iff_mem.mp hp.2⟩
      · cases h

theorem System.Sound.execute (h : s.Sound g access T U) (scope : Scope) (operation : Operation)
    (args : Json) : (s.execute lib scope operation args).Sound g access T U := by
  unfold System.execute
  split
  · exact h
  · rename_i grant hauthorized
    obtain ⟨hgrant, hop⟩ := System.authorize_ok hauthorized
    split
    · exact h
    · have hcall : Call.Sound access (s.world g access T U) ⟨operation, grant,
          (executeOperation lib grant operation args).run, none, false, false, none⟩ :=
        ⟨h.owner ▸ hgrant, hop, executeOperation_reads trivial (h.owner ▸ hgrant), fun o ho => nomatch ho⟩
      refine System.Resting.continueCall (System.Sound.resting ?_ List.getElem?_concat_length
        (fun _ => nofun) fun _ => nofun) hcall hcall.program
      · refine ⟨h.owner, ?_, ?_, h.observed⟩
        · simp only [List.map_append, List.map_singleton]
          exact ⟨h.connector.refs.push (refWaiter_idle (by simp)),
            h.connector.pulls.push (pullWaiter_idle (by simp)), h.connector.snapshots, h.connector.vacant⟩
        · refine List.forall_mem_append.mpr ⟨h.calls, ?_⟩
          intro call hmem
          obtain rfl := List.mem_singleton.mp hmem
          exact hcall

theorem System.Sound.pullAnswer (h : s.Sound g access T U) {r : ℕ} {result : Except Failure Json}
    (hT : T → s.Truthful g (.pullAnswer r result)) (hstep : s.pullAnswer lib r result = some t) :
    t.Sound g access T U := by
  unfold System.pullAnswer at hstep
  split at hstep
  · rename_i task e k htask hload
    split at hstep
    · cases hstep
    · rename_i hguard
      simp only [Bool.or_eq_true, not_or, Bool.not_eq_true, Option.isSome_eq_false_iff,
        Option.isNone_iff_eq_none] at hguard
      obtain ⟨ho, hcancel⟩ := hguard
      have hnoted := h.noted e result
      have hsafe := hnoted.connector.pulls.running r task _ htask hload ho
      have hpost : (readContract access).post
          (((s.noted e result).world g access T U).forRead (task.cancelling = true)) (.get e) result := by
        cases result with
        | error failure =>
          intro hfailure
          subst hfailure
          have hcancelling : task.cancelling = true := by simpa using hcancel
          exact hcancelling
        | ok data =>
          refine System.learns_noted U fun hT' => hT hT' e data ?_
          simp [System.answered, hload, requested]
      have hk := (hsafe _ le_rfl).2 result hpost
      obtain ⟨c, x, suspended, hrun⟩ : ∃ c x suspended,
        s.connector.run lib (k result) = (c, x, suspended) := ⟨_, _, _, rfl⟩
      obtain ⟨hsound, hx, hclosed, hrefs, hpulls⟩ := hnoted.connector.run_read hk hrun
      have howner : c.access = access := by
        have haccess := Connector.run_access lib s.connector (k result)
        rw [hrun] at haccess
        exact haccess.trans h.owner
      obtain ⟨hworld, hvacant⟩ := System.world_congr (s := s.noted e result)
        (t := { s.noted e result with connector := c }) g access T U rfl rfl hclosed (congrArg _ hrefs)
      dsimp only at hstep
      rw [hrun] at hstep
      have htask' : c.pulls.flights.tasks[r]? = some task := by
        rw [hpulls]
        exact htask
      split at hstep
      · rename_i c₁ outcome hpair
        cases hpair
        cases hstep
        have hres : (pullSpec access ((s.noted e result).world g access T U)).Result task.key
            (task.cancelling = true) outcome := by
          have hout := hx _ le_rfl
          cases outcome with
          | ok pull => exact hout
          | error failure => exact hout
        refine System.sound_of_world hworld hvacant howner { hsound with
          pulls := hsound.pulls.loaded htask' ho (fun _ _ _ _ hr => hr) (fun _ _ hv => hv)
            (fun _ => hres) fun hcancelled => ?_ } hnoted.calls hnoted.observed
        subst hcancelled
        exact hres rfl
      · rename_i c₁ x₁ suspended₁ _ hpair
        cases hpair
        cases hstep
        exact System.sound_of_world hworld hvacant howner
          { hsound with pulls := hsound.pulls.continue_ htask' hx } hnoted.calls hnoted.observed
  · cases hstep

theorem Connector.run_storeSnapshot {α : Type} (lib : Library) (c : Connector) (snap : GitHubSnapshot)
    (k : Res (.storeSnapshot snap) → Proc Op Res α) :
    c.run lib (.call (.storeSnapshot snap) k) =
      if c.closed then c.run lib (k (.error (.github .closed)))
      else Connector.run lib { c with
        snapshots := Function.update c.snapshots (snap.repository, snap.commit) (some snap) } (k (.ok ())) := by
  by_cases hclosed : c.closed = true
  · simp only [Connector.run, Connector.perform, if_pos hclosed]
  · simp only [Connector.run, Connector.perform, if_neg hclosed]

/-- The read of a ref after its answer: it fails, or stores a snapshot of its repository. -/
theorem refFetch_run (lib : Library) (c : Connector) {key : RefKey} (result : Except Failure Json) {e : Endpoint}
    {k : Res (.get e) → Proc Op Res (Except Failure GitHubSnapshot)}
    (hfetch : (.call (.get e) k : Proc Op Res _) = (Connector.refFetch key).run) :
    (∃ failure, c.run lib (k result) = (c, .ret (.error failure), none) ∧
      (failure = .cancelled → result = .error .cancelled)) ∨
    ∃ snap, snap.repository = key.1 ∧ c.closed = false ∧ c.run lib (k result) =
      ({ c with snapshots := Function.update c.snapshots (snap.repository, snap.commit) (some snap) },
        .ret (.ok snap), none) := by
  obtain ⟨he, hk⟩ := Proc.call.inj hfetch
  obtain rfl := Op.get.inj he
  obtain rfl := eq_of_heq hk
  cases result with
  | error failure => exact .inl ⟨failure, rfl, fun he => by rw [he]⟩
  | ok data =>
    cases hsnap : commitSnapshot key.1 key.2 data with
    | error code =>
      refine .inl ⟨.github code, ?_, fun he => nomatch he⟩
      change c.run lib (ExceptT.run do
        let snap ← check (commitSnapshot key.1 key.2 data)
        let _ ← await (.storeSnapshot snap)
        pure snap) = _
      rw [hsnap]
      rfl
    | ok snap =>
      have hrun : c.run lib (ExceptT.run do
          let snap ← check (commitSnapshot key.1 key.2 data)
          let _ ← await (.storeSnapshot snap)
          pure snap) = if c.closed then (c, .ret (.error (.github .closed)), none) else
            ({ c with snapshots := Function.update c.snapshots (snap.repository, snap.commit) (some snap) },
              .ret (.ok snap), none) := by
        rw [hsnap]
        exact Connector.run_storeSnapshot lib c snap _
      by_cases hclosed : c.closed = true
      · rw [if_pos hclosed] at hrun
        exact .inl ⟨_, hrun, fun he => nomatch he⟩
      · rw [if_neg hclosed] at hrun
        exact .inr ⟨snap, (commitSnapshot_ok hsnap).1, by simpa using hclosed, hrun⟩

theorem PinTable.loaded_cache {κ τ : Type} [DecidableEq κ] (table : PinTable κ τ) {closed : Bool}
    (hopen : closed = false) (r : ℕ) (key : κ) (v : τ) :
    (table.loaded closed r key (.ok v)).cache = Function.update table.cache key (some v) := by
  subst hopen
  rfl

/-- The read of a ref stores its snapshot and pins it. -/
theorem System.Sound.pinned (h : s.Sound g access T U) (e : Endpoint) (result : Except Failure Json)
    {r : ℕ} {task : SharedTask RefKey Failure GitHubSnapshot}
    (htask : s.connector.refs.flights.tasks[r]? = some task) (ho : task.outcome = none)
    (hgranted : access.HasRef task.key) (hvacant : s.Vacant U task.key) {snap : GitHubSnapshot}
    (hrepository : snap.repository = task.key.1) (hopen : s.connector.closed = false) :
    System.Sound g access T U
      { s.noted e result with
        connector := { s.connector with
          snapshots := Function.update s.connector.snapshots (snap.repository, snap.commit) (some snap)
          refs := s.connector.refs.loaded s.connector.closed r task.key (.ok snap) }
        pinned := s.pinned ++ [(task.key, snap)] } := by
  have hnoted := h.noted e result
  have hcache := s.connector.refs.loaded_cache hopen r task.key snap
  obtain ⟨t, ht⟩ : ∃ t : System, t = { s.noted e result with
    connector := { s.connector with
      snapshots := Function.update s.connector.snapshots (snap.repository, snap.commit) (some snap)
      refs := s.connector.refs.loaded s.connector.closed r task.key (.ok snap) }
    pinned := s.pinned ++ [(task.key, snap)] } := ⟨_, rfl⟩
  rw [← ht]
  have hpinned : t.pinned = s.pinned ++ [(task.key, snap)] := by rw [ht]
  have htcache : t.connector.refs.cache = Function.update s.connector.refs.cache task.key (some snap) := by
    rw [ht]
    exact hcache
  have hw : (s.noted e result).world g access T U ≤ t.world g access T U := by
    refine System.world_le ?_ ?_ fun hU _ => ⟨hopen, fun key v hv => ?_⟩
    · rw [hpinned]
      exact List.subset_append_left _ _
    · rw [ht]
      exact List.Subset.refl _
    · rw [htcache]
      by_cases hkey : key = task.key
      · subst hkey
        cases (hvacant hU hopen).symm.trans hv
      · rw [Function.update_of_ne hkey]
        exact hv
  have hallowed : T → t.Granted g access task.key.1 snap.commit := fun _ =>
    ⟨snap.commit, .inl ⟨task.key.2, snap, by simp [hpinned], hgranted, rfl⟩, .refl⟩
  have hpin : (t.world g access T U).pinned task.key snap :=
    ⟨fun _ _ => by rw [htcache, Function.update_self], hrepository, hallowed⟩
  have hrefs : PinTable.Sound (refSpec access (t.world g access T U) (t.Vacant U)) s.connector.closed
      (s.connector.refs.loaded s.connector.closed r task.key (.ok snap)) (s.calls.map (·.refWaiter)) := by
    refine hnoted.connector.refs.loaded htask ho (fun key _ _ hkey hx => ⟨hx.1, hx.2.1, fun hU _ => ?_⟩)
      hw.pinned (fun _ => hpin) (fun he => nomatch he)
    rw [htcache, Function.update_of_ne hkey]
    exact hx.2.2 hU hopen
  have hmono : s.connector.Sound access (t.world g access T U) (fun _ => True)
      (s.calls.map (·.refWaiter)) (s.calls.map (·.pullWaiter)) :=
    hnoted.connector.mono hw _ fun _ _ => trivial
  have hsnap : (t.world g access T U).allowed snap.repository snap.commit := by
    rw [hrepository]
    exact hallowed
  have hstored := hmono.store hsnap s.connector.ancestry
  subst ht
  exact ⟨h.owner, ⟨hrefs, hstored.pulls, hstored.snapshots, fun _ _ hmiss _ _ => hmiss⟩,
    fun call hcall => (hnoted.calls call hcall).mono hw,
    fun x hx => hw.pinned _ _ (hnoted.observed x hx)⟩

theorem System.Sound.refAnswer (h : s.Sound g access T U) {r : ℕ} {result : Except Failure Json}
    (hstep : s.refAnswer lib r result = some t) : t.Sound g access T U := by
  unfold System.refAnswer at hstep
  split at hstep
  · rename_i task e k htask hload
    split at hstep
    · cases hstep
    · rename_i hguard
      simp only [Bool.or_eq_true, not_or, Bool.not_eq_true, Option.isSome_eq_false_iff,
        Option.isNone_iff_eq_none] at hguard
      obtain ⟨ho, hcancel⟩ := hguard
      have hnoted := h.noted e result
      obtain ⟨hgranted, hfetch, hvacant⟩ := h.connector.refs.running r task _ htask hload ho
      dsimp only at hstep
      obtain ⟨failure, hrun, hfailure⟩ | ⟨snap, hrepository, hopen, hrun⟩ :=
        refFetch_run lib s.connector result hfetch
      · rw [hrun] at hstep
        cases hstep
        have hcancelled : failure = .cancelled → task.cancelling = true := fun he => by
          simpa [hfailure he] using hcancel
        have hrefs := hnoted.connector.refs.loaded (o := .error failure) htask ho
          (fun _ _ _ _ hr => hr) (fun _ _ hv => hv) (fun _ => hcancelled)
          fun he => hcancelled (Except.error.inj he)
        exact System.sound_of_world (s := s.noted e result) rfl rfl h.owner
          { hnoted.connector with refs := hrefs } hnoted.calls hnoted.observed
      · rw [hrun] at hstep
        dsimp only at hstep
        rw [if_neg (by simp [hopen])] at hstep
        cases hstep
        exact h.pinned e result htask ho hgranted hvacant hrepository hopen
  · cases hstep

theorem System.pinGrant_ok {scope : Scope} {repository ref : String} {grant : GitHubRepositoryAccess}
    (h : s.pinGrant scope repository ref = .ok grant) :
    s.connector.closed = false ∧ s.connector.access.HasRef (repository, ref) := by
  unfold System.pinGrant at h
  split at h
  · cases h
  · rename_i hopen
    split at h
    · cases h
    · split at h
      · cases h
      · rename_i grant' hfind
        split at h
        · cases h
        · rename_i hrefs
          cases h
          have hrepository := List.find?_some hfind
          simp only [Bool.or_eq_true, not_or, Bool.not_eq_true, Bool.not_eq_false'] at hrefs
          exact ⟨by simpa using hopen, grant, List.mem_of_find?_eq_some hfind, by simpa using hrepository,
            List.contains_iff_mem.mp hrefs.1⟩

theorem System.Sound.getRefSnapshot (h : s.Sound g access T U) {scope : Scope} {repository ref : String}
    {snap : GitHubSnapshot} (hget : s.getRefSnapshot scope repository ref = .ok (some snap)) :
    System.Sound g access T U { s with observed := s.observed ++ [((repository, ref), snap)] } := by
  obtain ⟨grant, -, hget⟩ := bind_eq_ok hget
  have hpin := h.connector.refs.cached (repository, ref) snap (Except.ok.inj hget)
  refine ⟨h.owner, h.connector, h.calls, List.forall_mem_append.mpr ⟨h.observed, fun e he => ?_⟩⟩
  obtain rfl := List.mem_singleton.mp he
  exact hpin

theorem System.restoreSnapshot_ok {scope : Scope} {repository ref : String} {snap : GitHubSnapshot}
    (h : s.restoreSnapshot scope repository ref snap = .ok t) :
    s.connector.closed = false ∧ s.connector.access.HasRef (repository, ref) ∧
      snap.repository = repository ∧
      (∀ v, s.connector.refs.cache (repository, ref) = some v → v = snap) ∧
      t = { s with
        connector := { s.connector with
          refs := { s.connector.refs with
            cache := Function.update s.connector.refs.cache (repository, ref) (some snap) }
          snapshots := Function.update s.connector.snapshots (repository, snap.commit) (some snap) }
        pinned := s.pinned ++ [((repository, ref), snap)]
        observed := s.observed ++ [((repository, ref), snap)] } := by
  obtain ⟨grant, hgrant, h⟩ := bind_eq_ok h
  obtain ⟨_, hsnap, h⟩ := bind_eq_ok h
  obtain ⟨_, hprior, h⟩ := bind_eq_ok h
  obtain ⟨_, -, h⟩ := bind_eq_ok h
  obtain ⟨hopen, href⟩ := System.pinGrant_ok hgrant
  have hsnap := require_ok hsnap
  simp only [Bool.and_eq_true, decide_eq_true_eq] at hsnap
  refine ⟨hopen, href, hsnap.1.1, fun v hv => ?_, (Except.ok.inj h).symm⟩
  have hprior := require_ok hprior
  rw [hv] at hprior
  simpa using hprior

theorem System.Sound.restoreSnapshot (h : s.Sound g access T U) {scope : Scope}
    {repository ref : String} {snap : GitHubSnapshot}
    (hU : U → s.Undisturbed (.restoreSnapshot scope repository ref snap))
    (hrestore : s.restoreSnapshot scope repository ref snap = .ok t) : t.Sound g access T U := by
  obtain ⟨hopen, href, hrepository, hprior, ht⟩ := System.restoreSnapshot_ok hrestore
  have hcache : t.connector.refs.cache =
      Function.update s.connector.refs.cache (repository, ref) (some snap) := by rw [ht]
  have hpinned : t.pinned = s.pinned ++ [((repository, ref), snap)] := by rw [ht]
  have hw : s.world g access T U ≤ t.world g access T U := by
    refine System.world_le ?_ ?_ fun _ _ => ⟨hopen, fun key v hv => ?_⟩
    · rw [hpinned]
      exact List.subset_append_left _ _
    · rw [ht]
      exact List.Subset.refl _
    · rw [hcache]
      by_cases hkey : key = (repository, ref)
      · subst hkey
        rw [Function.update_self, hprior v hv]
      · rw [Function.update_of_ne hkey]
        exact hv
  have hallowed : T → t.Granted g access repository snap.commit := fun _ =>
    ⟨snap.commit, .inl ⟨ref, snap, by simp [hpinned], h.owner ▸ href, rfl⟩, .refl⟩
  have hpin : (t.world g access T U).pinned (repository, ref) snap :=
    ⟨fun _ _ => by rw [hcache, Function.update_self], hrepository, hallowed⟩
  have hrefs : PinTable.Sound (refSpec access (t.world g access T U) (t.Vacant U)) s.connector.closed
      { s.connector.refs with
        cache := Function.update s.connector.refs.cache (repository, ref) (some snap) }
      (s.calls.map (·.refWaiter)) := by
    refine h.connector.refs.with_cache (fun r task x htask ho hx => ⟨hx.1, hx.2.1, fun hU' _ => ?_⟩)
      hw.pinned fun key v hv => ?_
    · have hkey : task.key ≠ (repository, ref) := fun hkey => by
        have hsome := hU hU' ⟨t, hrestore⟩ task (List.mem_of_getElem? htask) hkey
        simp [ho] at hsome
      rw [hcache, Function.update_of_ne hkey]
      exact hx.2.2 hU' hopen
    · by_cases hkey : key = (repository, ref)
      · subst hkey
        rw [Function.update_self] at hv
        cases hv
        exact hpin
      · rw [Function.update_of_ne hkey] at hv
        exact hw.pinned _ _ (h.connector.refs.cached key v hv)
  have hmono : s.connector.Sound access (t.world g access T U) (fun _ => True)
      (s.calls.map (·.refWaiter)) (s.calls.map (·.pullWaiter)) :=
    h.connector.mono hw _ fun _ _ => trivial
  have hsnap : (t.world g access T U).allowed snap.repository snap.commit := by
    rw [hrepository]
    exact hallowed
  have hstored := hmono.store hsnap s.connector.ancestry
  rw [hrepository] at hstored
  subst ht
  refine ⟨h.owner, ⟨hrefs, hstored.pulls, hstored.snapshots, fun _ _ hmiss _ _ => hmiss⟩,
    fun call hcall => (h.calls call hcall).mono hw, List.forall_mem_append.mpr
      ⟨fun x hx => hw.pinned _ _ (h.observed x hx), fun e he => ?_⟩⟩
  obtain rfl := List.mem_singleton.mp he
  exact hpin

/-- What is known does not matter once the connector is closed. -/
theorem System.world_closed (hp : s.pinned = t.pinned) (hr : s.reported = t.reported)
    (hclosed : t.connector.closed = true) : s.world g access T U ≤ t.world g access T U :=
  System.world_le (by rw [hp]; exact List.Subset.refl _) (by rw [hr]; exact List.Subset.refl _)
    fun _ hopen => by simp [hclosed] at hopen

theorem System.Sound.closeTransport (h : s.Sound g access T U) :
    System.Sound g access T U { s with connector := { s.connector with closed := true } } := by
  have hw : s.world g access T U ≤
      System.world g access T U { s with connector := { s.connector with closed := true } } :=
    System.world_closed rfl rfl rfl
  have hc := h.connector.mono hw (System.Vacant U
    { s with connector := { s.connector with closed := true } }) fun _ _ _ hopen => nomatch hopen
  exact ⟨h.owner, ⟨hc.refs.close, hc.pulls.close, hc.snapshots, fun hopen => nomatch hopen⟩,
    fun call hcall => (h.calls call hcall).mono hw, fun e he => hw.pinned _ _ (h.observed e he)⟩

theorem System.Sound.revoke (h : s.Sound g access T U) : s.revoke.Sound g access T U := by
  have hw : s.world g access T U ≤ s.revoke.world g access T U := System.world_closed rfl rfl rfl
  have hc := h.connector.mono hw (s.revoke.Vacant U) fun _ _ _ hopen => nomatch hopen
  exact ⟨h.owner, ⟨hc.refs.revoke, hc.pulls.revoke, (fun _ _ _ hs => nomatch hs), fun hopen => nomatch hopen⟩,
    fun call hcall => (h.calls call hcall).mono hw, fun e he => hw.pinned _ _ (h.observed e he)⟩

theorem System.Sound.step (h : s.Sound g access T U) {l : Label} (hT : T → s.Truthful g l)
    (hU : U → s.Undisturbed l) (hstep : s.step lib l = some t) : t.Sound g access T U := by
  cases l with
  | execute scope operation args => exact Option.some.inj hstep ▸ h.execute scope operation args
  | answer i result => exact h.answer hT hstep
  | wake i => exact h.wake hstep
  | cancel i timeout => exact h.cancel hstep
  | refAnswer r result => exact h.refAnswer hstep
  | pullAnswer r result => exact h.pullAnswer hT hstep
  | refFinished r =>
    simp only [System.step] at hstep
    split at hstep
    · cases hstep
      exact ⟨h.owner, { h.connector with refs := h.connector.refs.finished ‹_› }, h.calls, h.observed⟩
    · cases hstep
  | pullFinished r =>
    simp only [System.step] at hstep
    split at hstep
    · cases hstep
      exact ⟨h.owner, { h.connector with pulls := h.connector.pulls.finished ‹_› }, h.calls, h.observed⟩
    · cases hstep
  | restoreSnapshot scope repository ref snap =>
    simp only [System.step] at hstep
    split at hstep
    · cases hstep
      exact h.restoreSnapshot hU ‹_›
    · cases hstep
      exact h
  | getRefSnapshot scope repository ref =>
    simp only [System.step] at hstep
    split at hstep
    · cases hstep
      exact h.getRefSnapshot ‹_›
    · cases hstep
      exact h
  | closeTransport => exact Option.some.inj hstep ▸ h.closeTransport
  | revoke => exact Option.some.inj hstep ▸ h.revoke

/-- A new connector. -/
theorem System.sound_init : System.Sound g access T U { connector := { access := access } } :=
  ⟨rfl, ⟨.empty _ _, .empty _ _, (fun _ _ _ hs => nomatch hs), fun _ _ hmiss _ _ => hmiss⟩,
    (fun _ hcall => nomatch hcall), fun _ he => nomatch he⟩

end Others

end Soveren.GitHub
