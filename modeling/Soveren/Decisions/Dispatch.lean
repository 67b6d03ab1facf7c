import Soveren.Decisions.Planner

/-! The order in which a dispatch turn performs its operations: one claim, at most one
acceptance, and a dispatch of nothing but the decision it has accepted or restored. -/
namespace Soveren.Decisions
open Soveren.Process Soveren.Relational

variable {D : DecisionType}

/-- How far a turn has come: before its claim, or with its claim and what it has accepted. -/
inductive Phase where
  | start
  | claimed (c : DecisionDispatchClaim) (accepted : Option Acceptance)

/-- The decision and run that a turn may dispatch: those it has accepted itself, or else the
ones its claim has returned. -/
def Dispatchable (c : DecisionDispatchClaim) (d : D.Decision) (runId : String) :
    Option Acceptance → Prop
  | some a => serializeDecision D d = .ok a.decision ∧ runId = a.runId
  | none => c.status = .dispatching ∧ c.runId = some runId ∧
      ∃ fields, c.decision = some fields ∧
        ∃ parser : DecisionParser D, parser.parse (Json.dumps (.obj fields)) = .ok d

/-- The order in which a turn for an event performs its operations. -/
def protocol (D : DecisionType) (event : EventRef) : Protocol (Op D) (Res D) where
  Phase := Phase
  allowed φ o := match o with
    | .claimReceipt e _ _ => φ = .start ∧ e = event
    | .acceptReceipt receiptId _ a => (∃ c, φ = .claimed c none ∧ receiptId = c.id) ∧
        ∃ d, serializeDecision D d = .ok a.decision
    | .completeReceipt receiptId _ _ => ∃ c a, φ = .claimed c a ∧ receiptId = c.id
    | .releaseReceipt receiptId _ => ∃ c a, φ = .claimed c a ∧ receiptId = c.id
    | .dispatch d context => ∃ c a, φ = .claimed c a ∧
        context.sourceEventId = event.triggerEventId ∧ Dispatchable c d context.runId a
    | .claimRun _ _ _ _ _ _ | .finalizeRun _ _ _ _ | .buildContext | .respond _ => True
  next φ o r := match o, φ, r with
    | .claimReceipt _ _ _, .start, .ok c => .claimed c none
    | .acceptReceipt _ _ a, .claimed c none, .ok true => .claimed c (some a)
    | _, φ, _ => φ

section Follows

variable {event : EventRef} {α : Type} {φ : Phase} {Q : Phase → Except Raised α → Prop}

theorem await_ends {o : Op D} {Q : Phase → Res D o → Prop} (h : (protocol D event).allowed φ o)
    (hq : ∀ r, Q ((protocol D event).next φ o r) r) :
    Ends (protocol D event) Q φ (await o).run := ⟨h, hq⟩

theorem check_ends {x : Except Raised α} (h : Q φ x) :
    Ends (protocol D event) Q φ (check (D := D) x).run := h

/-- A pure step continues with its value. -/
theorem check_andThen {β : Type} {Q : Phase → Except Raised β → Prop} {x : Except Raised α}
    {f : α → Program D β} (hok : ∀ a, x = .ok a → Ends (protocol D event) Q φ (f a).run)
    (herror : ∀ e, x = .error e → Q φ (.error e)) :
    Ends (protocol D event) Q φ (check x >>= f).run := by
  cases x with
  | error e => exact herror e rfl
  | ok a => exact hok a rfl

theorem raise_ends {e : Raised} (h : Q φ (.error e)) :
    Ends (protocol D event) Q φ (raise (D := D) e).run := h

theorem requireMoved_ends {Q : Phase → Except Raised Unit → Prop} {moved : Bool} {e : Raised}
    (hok : moved = true → Q φ (.ok ())) (herror : Q φ (.error e)) :
    Ends (protocol D event) Q φ (requireMoved (D := D) moved e).run := by
  cases moved with
  | true => exact hok rfl
  | false => exact herror

/-- A program that keeps the phase. -/
def Keeps (event : EventRef) (φ : Phase) (x : Program D α) : Prop :=
  Ends (protocol D event) (fun φ' _ => φ' = φ) φ x.run

theorem Keeps.andThen {β : Type} {x : Program D α} {f : α → Program D β} (hx : Keeps event φ x)
    (hf : ∀ a, Keeps event φ (f a)) : Keeps event φ (x >>= f) :=
  Ends.andThen hx (fun _ a h => h ▸ hf a) fun _ _ h => h

theorem Keeps.orCatch {x : Program D α} {handler : Raised → Program D α} (hx : Keeps event φ x)
    (hh : ∀ e, Keeps event φ (handler e)) : Keeps event φ (tryCatch x handler) :=
  Ends.orCatch hx (fun _ _ h => h) fun _ e h => h ▸ hh e

theorem keeps_check (x : Except Raised α) : Keeps event φ (check (D := D) x) := check_ends rfl

theorem keeps_raise (e : Raised) : Keeps event φ (raise (D := D) (α := α) e) := raise_ends rfl

theorem keeps_requireMoved (moved : Bool) (e : Raised) :
    Keeps event φ (requireMoved (D := D) moved e) := requireMoved_ends (fun _ => rfl) rfl

theorem keeps_finalizeRun (runId leaseToken status : String) (output : Json.Object) :
    Keeps event φ (await (D := D) (.finalizeRun runId leaseToken status output)) :=
  await_ends trivial fun _ => rfl

theorem failPlannerTurn_keeps (runId leaseToken : String) (context : Option PlannerContext)
    (e : Raised) : Keeps event φ (failPlannerTurn (D := D) (α := α) runId leaseToken context e) := by
  unfold failPlannerTurn
  split
  · exact keeps_raise _
  · refine .andThen (.orCatch (.andThen (keeps_finalizeRun ..) fun finalized => ?_) fun _ => ?_)
      fun _ => keeps_raise _
    · exact keeps_requireMoved _ _
    · exact keeps_raise _

theorem planWithContext_keeps (c : TurnConfig D) (runId leaseToken : String)
    (context : PlannerContext) : Keeps event φ (planWithContext c runId leaseToken context) := by
  refine .andThen (await_ends trivial fun _ => rfl) fun response => ?_
  refine .andThen (keeps_check _) fun decision => .andThen (keeps_check _) fun fields => ?_
  refine .andThen (keeps_finalizeRun ..) fun finalized => ?_
  exact .andThen (keeps_requireMoved _ _) fun _ => keeps_check (.ok _)

/-- Planning touches no receipt. -/
theorem runPlannerTurn_keeps (c : TurnConfig D) : Keeps event φ (runPlannerTurn c) := by
  refine .andThen (keeps_check _) fun sourceId => ?_
  refine .andThen (await_ends trivial fun _ => rfl) fun run => ?_
  dsimp only
  split
  · split
    · exact keeps_check _
    · exact keeps_raise _
  · split
    · exact keeps_raise _
    · refine .andThen (.orCatch (await_ends trivial fun _ => rfl) fun e => ?_) fun context => ?_
      · exact failPlannerTurn_keeps _ _ _ e
      · exact .orCatch (planWithContext_keeps c _ _ context) fun e => failPlannerTurn_keeps _ _ _ e

/-- What a turn with its claim has decided is what it has accepted or restored. -/
def Decided (event : EventRef) (claim : DecisionDispatchClaim) (φ : Phase)
    (r : Except Raised (PlannerResult D × DispatchContext)) : Prop :=
  ∃ a, φ = .claimed claim a ∧ ∀ p, r = .ok p →
    p.2.sourceEventId = event.triggerEventId ∧ Dispatchable claim p.1.decision p.2.runId a

theorem decided_error {claim : DecisionDispatchClaim} {a : Option Acceptance} (e : Raised) :
    Decided (D := D) event claim (.claimed claim a) (.error e) :=
  ⟨a, rfl, fun _ h => by cases h⟩

theorem DispatchContext.build_ok {c c' : DispatchContext} (h : c.build = .ok c') : c' = c := by
  unfold DispatchContext.build at h
  split at h
  · cases h
  · exact (Except.ok.inj h).symm

theorem dispatchContext_ok {e : AgentEvent} {planner : PlannerResult D}
    {extras : Option DispatchContextExtras} {context : DispatchContext}
    (h : dispatchContext e planner extras = .ok context) :
    context.runId = planner.runId ∧ context.sourceEventId = e.id := by
  obtain ⟨sourceId, -, h⟩ := bind_eq_ok h
  obtain rfl := DispatchContext.build_ok h
  exact ⟨rfl, rfl⟩

theorem restoreReceiptPlannerResult_ok {claim : DecisionDispatchClaim} {parser : DecisionParser D}
    {planner : PlannerResult D} (h : restoreReceiptPlannerResult claim parser = .ok planner) :
    claim.runId = some planner.runId ∧ ∃ fields, claim.decision = some fields ∧
      parser.parse (Json.dumps (.obj fields)) = .ok planner.decision := by
  unfold restoreReceiptPlannerResult at h
  split at h
  · rename_i runId decision result hrun hdecision _
    split at h
    · split at h
      · split at h
        · cases h
        · obtain ⟨parsed, hparsed, h⟩ := bind_eq_ok h
          obtain ⟨context, -, h⟩ := bind_eq_ok h
          obtain rfl := Except.ok.inj h
          exact ⟨hrun, decision, hdecision, hparsed⟩
      · cases h
    · cases h
  · cases h

theorem validateDispatchContext_ok {runId : String} {context : DispatchContext}
    (h : validateDispatchContext event runId context = .ok ()) :
    context.sourceEventId = event.triggerEventId ∧ context.runId = runId := by
  unfold validateDispatchContext at h
  split at h
  · cases h
  · rename_i hno
    simp only [not_or, not_not] at hno
    exact hno.2.2

theorem acceptedDecision_ends (c : TurnConfig D) (claim : DecisionDispatchClaim)
    (leaseToken : String) (hid : event.triggerEventId = c.event.id) :
    Ends (protocol D event) (Decided event claim) (.claimed claim none)
      (acceptedDecision c event claim leaseToken).run := by
  unfold acceptedDecision
  split
  · refine .andThen (runPlannerTurn_keeps c) ?_ (fun _ e h => h ▸ decided_error e)
    rintro _ planner rfl
    refine check_andThen (fun context hcontext => ?_) fun e _ => decided_error e
    refine check_andThen (fun fields hfields => ?_) fun e _ => decided_error e
    refine ⟨⟨⟨claim, rfl, rfl⟩, planner.decision, hfields⟩, fun r => ?_⟩
    match r with
    | .error e => exact decided_error e
    | .ok false => exact decided_error _
    | .ok true =>
      obtain ⟨hrun, hevent⟩ := dispatchContext_ok hcontext
      refine ⟨_, rfl, fun p hp => ?_⟩
      obtain rfl := Except.ok.inj hp
      exact ⟨hevent.trans hid.symm, hfields, hrun⟩
  · rename_i hstatus
    refine check_andThen (fun planner hplanner => ?_) fun e _ => decided_error e
    refine check_andThen (fun context _ => ?_) fun e _ => decided_error e
    refine check_andThen (fun _ hvalid => ?_) fun e _ => decided_error e
    obtain ⟨hrun, fields, hfields, hparsed⟩ := restoreReceiptPlannerResult_ok hplanner
    obtain ⟨hevent, hrunId⟩ := validateDispatchContext_ok hvalid
    refine ⟨none, rfl, fun p hp => ?_⟩
    obtain rfl := Except.ok.inj hp
    exact ⟨hevent, hstatus, hrunId ▸ hrun, fields, hfields, c.parser, hparsed⟩
  · exact raise_ends (decided_error _)

/-- A turn with its claim stays with it. -/
theorem dispatchAccepted_ends (c : TurnConfig D) (claim : DecisionDispatchClaim)
    (leaseToken : String) (hid : event.triggerEventId = c.event.id) :
    Ends (protocol D event) (fun φ _ => ∃ a, φ = .claimed claim a) (.claimed claim none)
      (dispatchAccepted c event claim leaseToken).run := by
  refine .andThen (acceptedDecision_ends c claim leaseToken hid) ?_ fun φ e h => ⟨h.choose, h.choose_spec.1⟩
  rintro _ p ⟨a, rfl, hp⟩
  refine ⟨⟨claim, a, rfl, hp p rfl⟩, fun r => ?_⟩
  match r with
  | .error e => exact ⟨a, rfl⟩
  | .ok dispatch =>
    refine ⟨⟨claim, a, rfl, rfl⟩, fun r => ?_⟩
    match r with
    | .error e => exact ⟨a, rfl⟩
    | .ok false => exact ⟨a, rfl⟩
    | .ok true => exact ⟨a, rfl⟩

theorem failDispatch_follows (claim : DecisionDispatchClaim) (leaseToken : String)
    (a : Option Acceptance) (e : Raised) :
    Ends (protocol D event) (fun _ _ => True) (.claimed claim a)
      (failDispatch (D := D) (α := α) claim leaseToken e).run := by
  unfold failDispatch
  split
  · trivial
  · refine ⟨⟨claim, a, rfl, rfl⟩, fun r => ?_⟩
    match r with
    | .error e => trivial
    | .ok false => trivial
    | .ok true => trivial

/-- Every turn keeps to the protocol of its event. -/
theorem runPlannerDispatchTurn_follows (c : TurnConfig D) {sourceId : String}
    (hs : c.event.sourceId = .ok sourceId) :
    Follows (protocol D (c.event.ref sourceId)) .start (runPlannerDispatchTurn c).run := by
  refine Ends.follows (Q := fun _ _ => True) (check_andThen (fun s hsource => ?_) fun _ _ => trivial)
  obtain rfl := Except.ok.inj (hs.symm.trans hsource)
  refine Ends.andThen (R := fun φ r => ∀ claim, r = .ok claim → φ = Phase.claimed claim none)
    (await_ends ⟨rfl, rfl⟩ fun r claim h => h ▸ rfl) (fun φ claim h => ?_) fun _ _ _ => trivial
  obtain rfl := h claim rfl
  dsimp only
  split
  · split
    · trivial
    · trivial
  · split
    · trivial
    · refine .orCatch (dispatchAccepted_ends c claim _ rfl) (fun _ _ _ => trivial) ?_
      rintro _ e ⟨a, rfl⟩
      exact failDispatch_follows claim _ a e

end Follows

end Soveren.Decisions
