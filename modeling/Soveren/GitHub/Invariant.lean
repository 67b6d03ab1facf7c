import Soveren.GitHub.Pins
import Soveren.GitHub.Safety

/-! The invariant of the connector beside its calls, and its steps. What is known of the provider's
answers and of restored pins is a parameter: `T` that answers are truthful, `U` that no pin is
restored while its ref is being read. -/
namespace Soveren.GitHub
open Soveren.Process Soveren.Async Soveren.Run Soveren.Conversation

variable {g : CommitGraph}

/-- The world of a call. -/
def World.forCall (w : World g) (cancelled : Prop) : World g :=
  { w with pins := True, cancelled := cancelled }

/-- The world of a read of a pin. It waits for no other pin. -/
def World.forRead (w : World g) (cancelled : Prop) : World g :=
  { w with pins := False, cancelled := cancelled }

theorem World.forCall_le {w w' : World g} (hw : w ≤ w') {c c' : Prop} (hc : c → c') :
    w.forCall c ≤ w'.forCall c' :=
  ⟨hw.allowed, hw.pinned, fun h => h, hc⟩

theorem World.forRead_le {w w' : World g} (hw : w ≤ w') {c c' : Prop} (hc : c → c') :
    w.forRead c ≤ w'.forRead c' :=
  ⟨hw.allowed, hw.pinned, fun h => h, hc⟩

/-- The reads of refs. A ref that is being read has no pin. -/
def refSpec (access : GitHubAccess) (w : World g) (Vacant : RefKey → Prop) :
    PinSpec RefKey GitHubSnapshot where
  Running key _ x := access.HasRef key ∧ x = (Connector.refFetch key).run ∧ Vacant key
  Loaded := w.pinned
  cancel _ _ _ _ _ h := h

/-- The two commits of a pull request may be read. -/
def World.AllowedPull (repository : String) (w : World g) (pull : PullSnapshot) : Prop :=
  w.allowed repository pull.base ∧ w.allowed repository pull.head

def pullSpec (access : GitHubAccess) (w : World g) : PinSpec PullKey PullSnapshot where
  Running key cancelled x := Safe (readContract access)
    (Outcome (World.AllowedPull key.repository) Raises) (w.forRead cancelled) x
  Loaded key pull := w.AllowedPull key.repository pull
  cancel _ _ _ _ hc h := h.mono (World.forRead_le le_rfl hc)

theorem pullFetch_running {access : GitHubAccess} {w : World g} {lib : Library} {key : PullKey}
    {grant : Option GitHubRepositoryAccess}
    (hgrant : grant = none → access.Explicit key.repository key.number) :
    (pullSpec access w).Running key False (Connector.pullFetch lib key grant).run :=
  pullSnapshot_reads hgrant

/-- What holds of the connector, given the callers of its pins. -/
structure Connector.Sound (access : GitHubAccess) (w : World g) (Vacant : RefKey → Prop)
    (c : Connector) (refs : List (Waiter RefKey GitHubSnapshot))
    (pulls : List (Waiter PullKey PullSnapshot)) : Prop where
  refs : c.refs.Sound (refSpec access w Vacant) c.closed refs
  pulls : c.pulls.Sound (pullSpec access w) c.closed pulls
  snapshots : ∀ repository commit snap, c.snapshots (repository, commit) = some snap →
    snap.repository = repository ∧ snap.commit = commit ∧ w.allowed repository commit
  vacant : c.closed = false → ∀ key, c.refs.cache key = none → Vacant key

/-- A program as a caller of the pins of refs. -/
def refWaiter {α : Type} (cancelled : Bool) : Proc Op Res α → Option Suspended →
    Waiter RefKey GitHubSnapshot
  | .call (.pinRef key) _, some (.ref wait) => ⟨some key, cancelled, wait⟩
  | _, _ => ⟨none, cancelled, .returned (.error .cancelled)⟩

def pullWaiter {α : Type} (cancelled : Bool) : Proc Op Res α → Option Suspended →
    Waiter PullKey PullSnapshot
  | .call (.pinPull key _) _, some (.pull wait) => ⟨some key, cancelled, wait⟩
  | _, _ => ⟨none, cancelled, .returned (.error .cancelled)⟩

theorem refWaiter_idle {α : Type} {b : Bool} {x : Proc Op Res α} {s : Option Suspended}
    (h : ∀ wait, s ≠ some (.ref wait)) : (refWaiter b x s).wait = .returned (.error .cancelled) := by
  unfold refWaiter
  split
  · exact absurd rfl (h _)
  · rfl

theorem pullWaiter_idle {α : Type} {b : Bool} {x : Proc Op Res α} {s : Option Suspended}
    (h : ∀ wait, s ≠ some (.pull wait)) : (pullWaiter b x s).wait = .returned (.error .cancelled) := by
  unfold pullWaiter
  split
  · exact absurd rfl (h _)
  · rfl

/-- An operation of the `i`-th caller led to a connector and a result or a suspension. -/
structure Connector.Performed {α : Type} (access : GitHubAccess) (w : World g) (Vacant : RefKey → Prop)
    (refs : List (Waiter RefKey GitHubSnapshot)) (pulls : List (Waiter PullKey PullSnapshot)) (i : ℕ)
    (b : Bool) (c : Connector) (o : Op) (k : Res o → Proc Op Res α) (c' : Connector)
    (r : Res o ⊕ Suspended) : Prop where
  closed : c'.closed = c.closed
  cache : c'.refs.cache = c.refs.cache
  result : ∀ res, r = .inl res → (readContract access).post (w.forCall (b = true)) o res ∧
    ∃ p q d d', p.wait = .returned d ∧ q.wait = .returned d' ∧
      c'.Sound access w Vacant (refs.set i p) (pulls.set i q)
  suspended : ∀ s, r = .inr s → c'.Sound access w Vacant
    (refs.set i (refWaiter b (.call o k) (some s))) (pulls.set i (pullWaiter b (.call o k) (some s)))

namespace Connector.Sound

variable {access : GitHubAccess} {w w' : World g} {Vacant Vacant' : RefKey → Prop} {c : Connector}
  {refs : List (Waiter RefKey GitHubSnapshot)} {pulls : List (Waiter PullKey PullSnapshot)}
  {lib : Library} {i : ℕ} {α : Type} {Q : World g → α → Prop}

theorem store (h : c.Sound access w Vacant refs pulls) {snap : GitHubSnapshot}
    (ha : w.allowed snap.repository snap.commit) (ancestry : List (String × String × String)) :
    Connector.Sound access w Vacant
      { c with
        snapshots := Function.update c.snapshots (snap.repository, snap.commit) (some snap)
        ancestry := ancestry } refs pulls := by
  refine ⟨h.refs, h.pulls, fun repository commit snap' hs => ?_, h.vacant⟩
  by_cases hkey : (repository, commit) = (snap.repository, snap.commit)
  · cases hkey
    simp only [Function.update_self] at hs
    cases hs
    exact ⟨rfl, rfl, ha⟩
  · simp only [Function.update_of_ne hkey] at hs
    exact h.snapshots repository commit snap' hs

/-- Both pins' callers wait for nothing. -/
theorem idle (h : c.Sound access w Vacant refs pulls) {p p' : Waiter RefKey GitHubSnapshot}
    {q q' : Waiter PullKey PullSnapshot} {a a' : Except Failure GitHubSnapshot}
    {b b' : Except Failure PullSnapshot} (hp : refs[i]? = some p) (hpw : p.wait = .returned a)
    (hq : pulls[i]? = some q) (hqw : q.wait = .returned b) (hp' : p'.wait = .returned a')
    (hq' : q'.wait = .returned b') :
    c.Sound access w Vacant (refs.set i p') (pulls.set i q') :=
  { h with
    refs := h.refs.idle hp (fun r => by rw [hpw]; rfl) hp'
    pulls := h.pulls.idle hq (fun r => by rw [hqw]; rfl) hq' }

/-- An operation of a call that waits for nothing: its result, or its suspension. -/
theorem perform {b : Bool} {o : Op} (k : Res o → Proc Op Res α)
    (h : c.Sound access w Vacant refs pulls) {p : Waiter RefKey GitHubSnapshot}
    {q : Waiter PullKey PullSnapshot} {a : Except Failure GitHubSnapshot}
    {a' : Except Failure PullSnapshot} (hp : refs[i]? = some p) (hpw : p.wait = .returned a)
    (hq : pulls[i]? = some q) (hqw : q.wait = .returned a')
    (hpre : requires access (w.forCall (b = true)) o) {c' : Connector} {r : Res o ⊕ Suspended}
    (hperform : c.perform lib o = (c', r)) :
    Performed access w Vacant refs pulls i b c o k c' r := by
  have hidle := h.idle hp hpw hq hqw hpw hqw
  -- an operation that neither waits nor touches the pins
  have hdone : ∀ (res : Res o) (c₁ : Connector),
      c₁.Sound access w Vacant (refs.set i p) (pulls.set i q) → c₁.closed = c.closed →
      c₁.refs = c.refs → c' = c₁ → r = .inl res →
      (readContract access).post (w.forCall (b = true)) o res →
      Performed access w Vacant refs pulls i b c o k c' r := by
    rintro res c₁ hs hclosed hrefs rfl rfl hres
    refine ⟨hclosed, congrArg _ hrefs, fun res' hres' => ?_, fun s hs => nomatch hs⟩
    cases hres'
    exact ⟨hres, p, q, a, a', hpw, hqw, hs⟩
  cases o with
  | get e =>
    cases hperform
    refine ⟨rfl, rfl, (fun res hres => nomatch hres), fun s hs => ?_⟩
    cases hs
    exact h.idle hp hpw hq hqw rfl rfl
  | pinRef key =>
    obtain ⟨hpin, hcache, hres⟩ := h.refs.pin hp (fun r => by rw [hpw]; rfl)
      (fun hopen hmiss => ⟨hpre.2, rfl, h.vacant hopen key hmiss⟩) b
    obtain ⟨table, wait, hpair⟩ : ∃ table wait,
      c.refs.pin c.closed key (refFetch key) = (table, wait) := ⟨_, _, rfl⟩
    simp only [Connector.perform, hpair] at hperform
    rw [hpair] at hpin hcache hres
    obtain ⟨rfl, rfl⟩ := Prod.mk.inj hperform
    refine ⟨rfl, hcache, fun res hr => ?_, fun s hs => ?_⟩
    · cases wait with
      | returned res' =>
        cases hr
        refine ⟨?_, ⟨some key, b, .returned res⟩, q, res, a', rfl, hqw,
          { hidle with refs := hpin, vacant := fun hopen key hmiss => h.vacant hopen key (hcache ▸ hmiss) }⟩
        have hres := hres res rfl
        cases res with
        | ok v => exact hres
        | error e => exact fun he => (hres he).elim
      | _ => cases hr
    · cases wait with
      | returned res' => cases hs
      | _ =>
        cases hs
        exact { h.idle hp hpw hq hqw hpw rfl with
          refs := hpin
          vacant := fun hopen key hmiss => h.vacant hopen key (hcache ▸ hmiss) }
  | pinPull key grant =>
    obtain ⟨hpin, -, hres⟩ := h.pulls.pin hq (fun r => by rw [hqw]; rfl)
      (fun _ _ => pullFetch_running hpre.2) b
    obtain ⟨table, wait, hpair⟩ : ∃ table wait,
      c.pulls.pin c.closed key (pullFetch lib key grant) = (table, wait) := ⟨_, _, rfl⟩
    simp only [Connector.perform, hpair] at hperform
    rw [hpair] at hpin hres
    obtain ⟨rfl, rfl⟩ := Prod.mk.inj hperform
    refine ⟨rfl, rfl, fun res hr => ?_, fun s hs => ?_⟩
    · cases wait with
      | returned res' =>
        cases hr
        refine ⟨?_, p, ⟨some key, b, .returned res⟩, a, res, hpw, rfl, { hidle with pulls := hpin }⟩
        have hres := hres res rfl
        cases res with
        | ok v => exact hres
        | error e => exact fun he => (hres he).elim
      | _ => cases hr
    · cases wait with
      | returned res' => cases hs
      | _ =>
        cases hs
        exact { h.idle hp hpw hq hqw rfl hqw with pulls := hpin }
  | knownSnapshot repository commit =>
    simp only [Connector.perform] at hperform
    split at hperform
    · rename_i snap hsnap
      cases hperform
      exact hdone _ c hidle rfl rfl rfl rfl (h.snapshots _ _ _ hsnap)
    · cases hperform
      exact hdone _ c hidle rfl rfl rfl rfl fun he => nomatch he
  | hasSnapshot repository commit =>
    cases hperform
    refine hdone _ c hidle rfl rfl rfl rfl fun hsome => ?_
    obtain ⟨snap, hsnap⟩ := Option.isSome_iff_exists.mp hsome
    exact (h.snapshots _ _ _ hsnap).2.2
  | isProven repository target anchor =>
    cases hperform
    exact hdone _ c hidle rfl rfl rfl rfl trivial
  | storeSnapshot snap =>
    simp only [Connector.perform] at hperform
    split at hperform
    · cases hperform
      exact hdone _ c hidle rfl rfl rfl rfl fun he => nomatch he
    · cases hperform
      exact hdone _ _ (hidle.store hpre c.ancestry) rfl rfl rfl rfl trivial
  | storeAncestor snap anchor =>
    simp only [Connector.perform] at hperform
    split at hperform
    · cases hperform
      exact hdone _ c hidle rfl rfl rfl rfl fun he => nomatch he
    · cases hperform
      exact hdone _ _ (hidle.store hpre _) rfl rfl rfl rfl trivial

/-- A call runs to its next suspension or result. -/
theorem run {b : Bool} {x : Proc Op Res α} (h : c.Sound access w Vacant refs pulls)
    {p : Waiter RefKey GitHubSnapshot} {q : Waiter PullKey PullSnapshot}
    {a : Except Failure GitHubSnapshot} {a' : Except Failure PullSnapshot}
    (hp : refs[i]? = some p) (hpw : p.wait = .returned a) (hq : pulls[i]? = some q)
    (hqw : q.wait = .returned a')
    (hx : Safe (readContract access) Q (w.forCall (b = true)) x) {c' : Connector}
    {x' : Proc Op Res α} {s : Option Suspended} (hrun : c.run lib x = (c', x', s)) :
    c'.Sound access w Vacant (refs.set i (refWaiter b x' s)) (pulls.set i (pullWaiter b x' s)) ∧
      Safe (readContract access) Q (w.forCall (b = true)) x' ∧ c'.closed = c.closed ∧
      c'.refs.cache = c.refs.cache := by
  induction x generalizing c refs pulls p q a a' with
  | ret v =>
    cases hrun
    exact ⟨h.idle hp hpw hq hqw rfl rfl, hx, rfl, rfl⟩
  | call o k ih =>
    obtain ⟨hpre, hpost⟩ := hx _ le_rfl
    unfold Connector.run at hrun
    split at hrun
    · rename_i c₁ r hperform
      have hperformed := h.perform k hp hpw hq hqw hpre hperform
      obtain ⟨hres, p', q', d, d', hp', hq', h₁⟩ := hperformed.result r rfl
      have hi := List.getElem?_set_self (a := p') (List.getElem?_eq_some_iff.mp hp).1
      have hi' := List.getElem?_set_self (a := q') (List.getElem?_eq_some_iff.mp hq).1
      obtain ⟨h₂, hx', hclosed', hcache'⟩ := ih r h₁ hi hp' hi' hq' (hpost r hres) hrun
      rw [List.set_set, List.set_set] at h₂
      exact ⟨h₂, hx', hclosed'.trans hperformed.closed, hcache'.trans hperformed.cache⟩
    · rename_i c₁ suspended hperform
      have hperformed := h.perform k hp hpw hq hqw hpre hperform
      cases hrun
      exact ⟨hperformed.suspended suspended rfl, hx, hperformed.closed, hperformed.cache⟩

/-- A read of a pin runs to its next suspension or result. It touches no pin. -/
theorem run_read {b : Prop} {x : Proc Op Res α} (h : c.Sound access w Vacant refs pulls)
    (hx : Safe (readContract access) Q (w.forRead b) x) {c' : Connector}
    {x' : Proc Op Res α} {s : Option Suspended} (hrun : c.run lib x = (c', x', s)) :
    c'.Sound access w Vacant refs pulls ∧ Safe (readContract access) Q (w.forRead b) x' ∧
      c'.closed = c.closed ∧ c'.refs = c.refs ∧ c'.pulls = c.pulls := by
  induction x generalizing c with
  | ret v =>
    cases hrun
    exact ⟨h, hx, rfl, rfl, rfl⟩
  | call o k ih =>
    obtain ⟨hpre, hpost⟩ := hx _ le_rfl
    unfold Connector.run at hrun
    cases o with
    | get e =>
      cases hrun
      exact ⟨h, hx, rfl, rfl, rfl⟩
    | pinRef key => exact hpre.1.elim
    | pinPull key grant => exact hpre.1.elim
    | knownSnapshot repository commit =>
      simp only [Connector.perform] at hrun
      cases hsnap : c.snapshots (repository, commit) with
      | none =>
        rw [hsnap] at hrun
        exact ih _ h (hpost (.error (.github .denied)) fun he => nomatch he) hrun
      | some snap =>
        rw [hsnap] at hrun
        exact ih _ h (hpost (.ok snap) (h.snapshots _ _ _ hsnap)) hrun
    | hasSnapshot repository commit =>
      refine ih _ h (hpost (.ok (c.snapshots (repository, commit)).isSome) fun hsome => ?_) hrun
      obtain ⟨snap, hsnap⟩ := Option.isSome_iff_exists.mp hsome
      exact (h.snapshots _ _ _ hsnap).2.2
    | isProven repository target anchor => exact ih _ h (hpost (.ok (c.ancestry.contains (repository, target, anchor))) trivial) hrun
    | storeSnapshot snap =>
      simp only [Connector.perform] at hrun
      by_cases hclosed : c.closed = true
      · rw [if_pos hclosed] at hrun
        exact ih _ h (hpost (.error (.github .closed)) fun he => nomatch he) hrun
      · rw [if_neg hclosed] at hrun
        have hstored := ih _ (h.store hpre c.ancestry) (hpost (.ok ()) trivial) hrun
        exact hstored
    | storeAncestor snap anchor =>
      simp only [Connector.perform] at hrun
      by_cases hclosed : c.closed = true
      · rw [if_pos hclosed] at hrun
        exact ih _ h (hpost (.error (.github .closed)) fun he => nomatch he) hrun
      · rw [if_neg hclosed] at hrun
        have hstored := ih _ (h.store hpre _) (hpost (.ok ()) trivial) hrun
        exact hstored

end Connector.Sound

end Soveren.GitHub
