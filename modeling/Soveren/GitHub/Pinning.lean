import Soveren.GitHub.Steps

/-! Pins are immutable and shared, as long as no pin is restored while its ref is being read: the
end of such a read overwrites the restored pin. -/
namespace Soveren.GitHub
open Soveren.Process Soveren.Async Soveren.Run Soveren.Conversation

/-- At most one read of a key is under way. -/
def SingleRead {κ τ : Type} (f : Flights κ Failure τ) : Prop :=
  ∀ (r r' : ℕ) (t t' : SharedTask κ Failure τ), f.tasks[r]? = some t → f.tasks[r']? = some t' →
    t.key = t'.key → t.outcome = none → t'.outcome = none → r = r'

/-- A read that a caller waits for was not cancelled. -/
def Awaited {κ τ : Type} (f : Flights κ Failure τ) (r : ℕ) : Prop :=
  ∃ t, f.tasks[r]? = some t ∧ t.cancelling = false ∧ t.outcome ≠ some (.error .cancelled)

/-- What holds of pins: all observations of a ref agree, its reads are shared, and a call fails as
cancelled only if it was cancelled itself. -/
structure System.PinsHold (s : System) : Prop where
  immutable : ∀ e ∈ s.observed, ∀ e' ∈ s.observed, e.1 = e'.1 → e.2 = e'.2
  singleRef : SingleRead s.connector.refs.flights
  singlePull : SingleRead s.connector.pulls.flights
  awaitedRef : s.connector.closed = false → ∀ call ∈ s.calls, ∀ key k r,
    call.program = .call (.pinRef key) k → call.suspended = some (.ref (.waiting r)) →
      Awaited s.connector.refs.flights r
  awaitedPull : s.connector.closed = false → ∀ call ∈ s.calls, ∀ key grant k r,
    call.program = .call (.pinPull key grant) k → call.suspended = some (.pull (.waiting r)) →
      Awaited s.connector.pulls.flights r
  cancelled : ∀ call ∈ s.calls, call.outcome = some (.error .cancelled) → call.cancelRequested = true

section Closed

variable {s t : System} {lib : Library}

theorem Connector.run_closed {α : Type} (lib : Library) (c : Connector) (x : Proc Op Res α) :
    (c.run lib x).1.closed = c.closed := by
  induction x generalizing c with
  | ret a => rfl
  | call o k ih =>
    have hperform : (c.perform lib o).1.closed = c.closed := by
      cases o with
      | get | pinRef | pinPull | hasSnapshot | isProven => rfl
      | knownSnapshot | storeSnapshot | storeAncestor =>
        simp only [Connector.perform]
        split <;> rfl
    unfold Connector.run
    split
    · rename_i c' r hc
      rw [hc] at hperform
      exact (ih r c').trans hperform
    · rename_i c' r hc
      rw [hc] at hperform
      exact hperform

/-- A call of a closed connector shows no pin. -/
theorem System.continueCall_observed {i : ℕ} {call : Call}
    {x : Proc Op Res (Except Failure ReadResult)}
    (hclosed : (s.continueCall lib i call x).connector.closed = true) :
    (s.continueCall lib i call x).observed = s.observed := by
  have hrun := Connector.run_closed lib s.connector x
  revert hclosed
  unfold System.continueCall
  split
  · rename_i c result hpair
    rw [hpair] at hrun
    intro hclosed
    have hc : c.closed = true := hclosed
    cases result with
    | ok r => simp [System.conclude, Call.concluded, Call.shows, hc]
    | error e =>
      cases e with
      | github code => simp [System.conclude, Call.concluded, Call.shows]
      | cancelled =>
        simp only [System.conclude, Call.concluded]
        split <;> simp [Call.shows]
  · exact fun _ => rfl

theorem System.refMoved_observed {i : ℕ} {call : Call}
    {k : Except Failure GitHubSnapshot → Proc Op Res (Except Failure ReadResult)}
    {table : PinTable RefKey GitHubSnapshot} {wait : Wait Failure GitHubSnapshot}
    (hclosed : (s.refMoved lib i call k table wait).connector.closed = true) :
    (s.refMoved lib i call k table wait).observed = s.observed := by
  revert hclosed
  unfold System.refMoved
  split
  · exact System.continueCall_observed
  · exact fun _ => rfl

theorem System.pullMoved_observed {i : ℕ} {call : Call}
    {k : Except Failure PullSnapshot → Proc Op Res (Except Failure ReadResult)}
    {table : PinTable PullKey PullSnapshot} {wait : Wait Failure PullSnapshot}
    (hclosed : (s.pullMoved lib i call k table wait).connector.closed = true) :
    (s.pullMoved lib i call k table wait).observed = s.observed := by
  revert hclosed
  unfold System.pullMoved
  split
  · exact System.continueCall_observed
  · exact fun _ => rfl

/-- Nothing is observed any more once the connector is closed. -/
theorem System.step_observed {l : Label} (hstep : s.step lib l = some t)
    (hclosed : t.connector.closed = true) : t.observed = s.observed := by
  cases l with
  | execute scope operation args =>
    obtain rfl := Option.some.inj hstep
    revert hclosed
    unfold System.execute
    split
    · exact fun _ => rfl
    · split
      · exact fun _ => rfl
      · exact System.continueCall_observed
  | answer i result =>
    simp only [System.step, System.answer] at hstep
    split at hstep
    · split at hstep
      · split at hstep
        · cases hstep
        · obtain rfl := Option.some.inj hstep
          exact System.continueCall_observed hclosed
      · cases hstep
    · cases hstep
  | wake i =>
    simp only [System.step, System.wake] at hstep
    split at hstep
    · split at hstep
      · obtain ⟨p, -, rfl⟩ := Option.map_eq_some_iff.mp hstep
        exact System.refMoved_observed hclosed
      · obtain ⟨p, -, rfl⟩ := Option.map_eq_some_iff.mp hstep
        exact System.pullMoved_observed hclosed
      · cases hstep
    · cases hstep
  | cancel i timeout =>
    simp only [System.step, System.cancel] at hstep
    split at hstep
    · split at hstep
      · obtain rfl := Option.some.inj hstep
        exact System.continueCall_observed hclosed
      · obtain ⟨p, -, rfl⟩ := Option.map_eq_some_iff.mp hstep
        exact System.refMoved_observed hclosed
      · obtain ⟨p, -, rfl⟩ := Option.map_eq_some_iff.mp hstep
        exact System.pullMoved_observed hclosed
      · cases hstep
    · cases hstep
  | refAnswer r result =>
    simp only [System.step, System.refAnswer] at hstep
    split at hstep
    · split at hstep
      · cases hstep
      · split at hstep <;> (obtain rfl := Option.some.inj hstep; rfl)
    · cases hstep
  | pullAnswer r result =>
    simp only [System.step, System.pullAnswer] at hstep
    split at hstep
    · split at hstep
      · cases hstep
      · split at hstep <;> (obtain rfl := Option.some.inj hstep; rfl)
    · cases hstep
  | refFinished r | pullFinished r =>
    simp only [System.step] at hstep
    split at hstep
    · obtain rfl := Option.some.inj hstep
      rfl
    · cases hstep
  | restoreSnapshot scope repository ref snap =>
    simp only [System.step] at hstep
    split at hstep
    · rename_i u hrestore
      obtain rfl := Option.some.inj hstep
      obtain ⟨hopen, -, -, -, rfl⟩ := System.restoreSnapshot_ok hrestore
      cases hopen.symm.trans hclosed
    · cases hstep
      rfl
  | getRefSnapshot scope repository ref =>
    simp only [System.step] at hstep
    split at hstep
    · rename_i snap hget
      obtain rfl := Option.some.inj hstep
      obtain ⟨grant, hgrant, -⟩ := bind_eq_ok hget
      cases (System.pinGrant_ok hgrant).1.symm.trans hclosed
    · cases hstep
      rfl
  | closeTransport | revoke =>
    obtain rfl := Option.some.inj hstep
    rfl

end Closed

section Main

variable {g : CommitGraph} {access : GitHubAccess} {s t : System} {lib : Library}

theorem PinTable.Sound.awaited {κ τ : Type} {S : PinSpec κ τ} {table : PinTable κ τ}
    {waiters : List (Waiter κ τ)} {i r : ℕ} {p : Waiter κ τ} (h : table.Sound S false waiters)
    (hp : waiters[i]? = some p) (hwait : p.wait = .waiting r) : Awaited table.flights r := by
  have hw := PinTable.Sound.getElem?_wait hp
  rw [hwait] at hw
  obtain ⟨t, ht, -⟩ := h.shared.exists_task hw
  have hnot := h.shared.not_cancelling rfl hw ht
  refine ⟨t, ht, hnot, fun ho => ?_⟩
  cases hnot.symm.trans (h.ended r t _ ht ho rfl)

theorem System.Sound.pinsHold {T : Prop} (h : s.Sound g access T True)
    (himmutable : ∀ e ∈ s.observed, ∀ e' ∈ s.observed, e.1 = e'.1 → e.2 = e'.2) : s.PinsHold where
  immutable := himmutable
  singleRef _ _ _ _ ht ht' hkey ho ho' := h.connector.refs.shared.running_eq ht ht' hkey ho ho'
  singlePull _ _ _ _ ht ht' hkey ho ho' := h.connector.pulls.shared.running_eq ht ht' hkey ho ho'
  awaitedRef hopen call hcall key k r hprogram hsuspended := by
    obtain ⟨i, hi⟩ := List.mem_iff_getElem?.mp hcall
    have hp : (s.calls.map (·.refWaiter))[i]? = some call.refWaiter := by
      rw [List.getElem?_map, hi]
      rfl
    have hrefs := h.connector.refs
    rw [hopen] at hrefs
    exact hrefs.awaited hp (by rw [Call.refWaiter_eq hprogram hsuspended])
  awaitedPull hopen call hcall key grant k r hprogram hsuspended := by
    obtain ⟨i, hi⟩ := List.mem_iff_getElem?.mp hcall
    have hp : (s.calls.map (·.pullWaiter))[i]? = some call.pullWaiter := by
      rw [List.getElem?_map, hi]
      rfl
    have hpulls := h.connector.pulls
    rw [hopen] at hpulls
    exact hpulls.awaited hp (by rw [Call.pullWaiter_eq hprogram hsuspended])
  cancelled call hcall ho := (h.calls call hcall).outcome _ ho rfl

/-- All observations agree with the pins of an open connector. -/
theorem System.Sound.immutable {T : Prop} (h : s.Sound g access T True)
    (hopen : s.connector.closed = false) :
    ∀ e ∈ s.observed, ∀ e' ∈ s.observed, e.1 = e'.1 → e.2 = e'.2 := by
  intro e he e' he' hkey
  have hpin := (h.observed e he).1 trivial hopen
  have hpin' := (h.observed e' he').1 trivial hopen
  rw [hkey, hpin'] at hpin
  exact (Option.some.inj hpin).symm

/-- In every run in which no pin is restored while its ref is being read, pins are immutable and
shared. -/
theorem pins_hold (lib : Library) (access : GitHubAccess) (ls : List Label) (s : System)
    (hm : Meets (System.step lib) System.Undisturbed { connector := { access := access } } ls)
    (h : exec (System.step lib) { connector := { access := access } } ls = some s) : s.PinsHold := by
  have hinv := exec_invariant_of_meets
    (I := fun s => s.Sound ⟨fun _ _ => ∅⟩ access False True ∧
      ∀ e ∈ s.observed, ∀ e' ∈ s.observed, e.1 = e'.1 → e.2 = e'.2)
    (fun s l t hs hl ht => ?_) ⟨System.sound_init, List.forall_mem_nil _⟩ hm h
  · exact hinv.1.pinsHold hinv.2
  · have hsound := hs.1.step (fun hf => hf.elim) (fun _ => hl) ht
    refine ⟨hsound, ?_⟩
    cases hclosed : t.connector.closed with
    | false => exact hsound.immutable hclosed
    | true =>
      rw [System.step_observed ht hclosed]
      exact hs.2

end Main

section Example

def exampleLibrary : Library where
  parseDate _ := some 0
  showDate _ := ""
  casefold s := s
  utf8Length s := s.toList.length
  utf8Prefix s n := String.ofList (s.toList.take n)
  decodeFile _ := none

def exampleAccess : GitHubAccess :=
  ⟨⟨"t", "s"⟩, [⟨"o/r", ["main", "dev"], [], [.resolveRef, .listTree], false⟩]⟩

/-- Forty times the same digit. -/
def exampleSha (c : Char) : String := String.ofList (List.replicate 40 c)

def exampleCommit (c : Char) : Json :=
  .obj [("sha", .str (exampleSha c)),
    ("commit", .obj [("tree", .obj [("sha", .str (exampleSha 'e'))])])]

def resolve (ref : String) : Label :=
  .execute ⟨"t", "s"⟩ .resolveRef (.obj [("repository", .str "o/r"), ("ref", .str ref)])

def restoreMain (c : Char) : Label :=
  .restoreSnapshot ⟨"t", "s"⟩ "o/r" "main" ⟨"o/r", exampleSha c, exampleSha 'e'⟩

theorem System.undisturbed_restore_iff {s : System} {scope : Scope} {repository ref : String}
    {snap : GitHubSnapshot} : ((s.restoreSnapshot scope repository ref snap).isOk = true →
      ∀ task ∈ s.connector.refs.flights.tasks, task.key = (repository, ref) → task.outcome.isSome = true) ↔
        s.Undisturbed (.restoreSnapshot scope repository ref snap) := by
  have hok : (s.restoreSnapshot scope repository ref snap).isOk = true ↔
      ∃ t, s.restoreSnapshot scope repository ref snap = .ok t := by
    cases s.restoreSnapshot scope repository ref snap <;> simp [Except.isOk, Except.toBool]
  rw [hok, System.Undisturbed]

instance (s : System) (l : Label) : Decidable (s.Undisturbed l) := by
  cases l with
  | restoreSnapshot scope repository ref snap => exact decidable_of_iff _ System.undisturbed_restore_iff
  | _ => exact isTrue trivial

/-- Two calls share the read of a ref. Another ref is restored meanwhile, the call that began the read is
cancelled, and the other one is served. -/
def sharedRead : List Label :=
  [resolve "dev", resolve "dev", restoreMain 'a', .cancel 0 false, resolve "main",
    .refAnswer 0 (.ok (exampleCommit 'b')), .refFinished 0, .wake 1]

theorem pins_hold_restored : ∃ s, exec (System.step exampleLibrary)
    { connector := { access := exampleAccess } } sharedRead = some s ∧
      (s.calls.map fun call => call.outcome.map fun o => o.toOption.isSome) =
        [some false, some true, some true] ∧
      s.observed = [(("o/r", "main"), ⟨"o/r", exampleSha 'a', exampleSha 'e'⟩),
        (("o/r", "main"), ⟨"o/r", exampleSha 'a', exampleSha 'e'⟩),
        (("o/r", "dev"), ⟨"o/r", exampleSha 'b', exampleSha 'e'⟩)] ∧ s.PinsHold := by
  have hrun : (exec (System.step exampleLibrary) { connector := { access := exampleAccess } } sharedRead).map
      (fun s => (s.calls.map fun call => call.outcome.map fun o => o.toOption.isSome, s.observed)) =
        some ([some false, some true, some true],
          [(("o/r", "main"), ⟨"o/r", exampleSha 'a', exampleSha 'e'⟩),
            (("o/r", "main"), ⟨"o/r", exampleSha 'a', exampleSha 'e'⟩),
            (("o/r", "dev"), ⟨"o/r", exampleSha 'b', exampleSha 'e'⟩)]) := by decide +kernel
  have hmeets : Meets (System.step exampleLibrary) System.Undisturbed
      { connector := { access := exampleAccess } } sharedRead := by decide +kernel
  obtain ⟨s, hs, hvalue⟩ := Option.map_eq_some_iff.mp hrun
  obtain ⟨hcalls, hobserved⟩ := Prod.mk.inj hvalue
  exact ⟨s, hs, hcalls, hobserved, pins_hold exampleLibrary exampleAccess _ s hmeets hs⟩

/-- A pin is restored while its ref is being read; the read then pins and returns another commit. -/
theorem restored_pin_overwritten : ∃ s, exec (System.step exampleLibrary)
    { connector := { access := exampleAccess } }
      [resolve "main", restoreMain 'a', .refAnswer 0 (.ok (exampleCommit 'b')), .refFinished 0, .wake 0] =
        some s ∧ ¬ s.PinsHold := by
  have hrun : (exec (System.step exampleLibrary) { connector := { access := exampleAccess } }
      [resolve "main", restoreMain 'a', .refAnswer 0 (.ok (exampleCommit 'b')), .refFinished 0, .wake 0]).map
        (·.observed) = some [(("o/r", "main"), ⟨"o/r", exampleSha 'a', exampleSha 'e'⟩),
          (("o/r", "main"), ⟨"o/r", exampleSha 'b', exampleSha 'e'⟩)] := by decide +kernel
  obtain ⟨s, hs, hobserved⟩ := Option.map_eq_some_iff.mp hrun
  refine ⟨s, hs, fun hpins => ?_⟩
  have hsame := hpins.immutable
  rw [hobserved] at hsame
  have hcommit := congrArg GitHubSnapshot.commit
    (hsame _ List.mem_cons_self _ (List.mem_cons_of_mem _ List.mem_cons_self) rfl)
  exact absurd hcommit (by decide +kernel)

end Example

end Soveren.GitHub
