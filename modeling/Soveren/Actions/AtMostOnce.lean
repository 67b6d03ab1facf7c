import Soveren.Actions.System

/-! At-most-once execution of actions. A call of the executor is settled when it ended
retryably and the first outcome recorded after its start is the retry. -/
namespace Soveren.Actions
open Soveren.Process Soveren.Queue Soveren.Run

/-- The first outcome that a log records for an action. -/
def firstRecord (k : ActionRef) (log : List Entry) : Option Verdict :=
  log.findSome? fun
    | .recorded k' v => if k' = k then some v else none
    | _ => none

/-- Every call started for the action ended retryably and was recorded so. -/
def Settled (k : ActionRef) (log : List Entry) : Prop :=
  ∀ pre i post, log = pre ++ .started k i :: post →
    (∃ o : ExecutionEnd, o.verdict = .retryable ∧ Entry.ended k i o ∈ post) ∧
      firstRecord k post = some .retryable

/-- A call may start when all earlier calls for its action are settled. -/
def StartsSettled (pre : List Entry) (e : Entry) : Prop :=
  ∀ k i, e = .started k i → Settled k pre

/-- Run `i` has a call under way, or ended and not recorded, in a log whose earlier calls for
the action are settled. -/
def InCall (k : ActionRef) (i : ℕ) (st : ActionStatus) (log : List Entry) (φ : Phase) : Prop :=
  ∃ pre post, log = pre ++ .started k i :: post ∧ Settled k pre ∧ (∀ j, .started k j ∉ post) ∧
    (∀ o, φ = .ended o → .ended k i o ∈ post) ∧ (st = .executing → firstRecord k post = none)

theorem firstRecord_append (k : ActionRef) (xs ys : List Entry) :
    firstRecord k (xs ++ ys) = (firstRecord k xs).or (firstRecord k ys) := List.findSome?_append

theorem firstRecord_snoc {k : ActionRef} {log : List Entry} {e : Entry}
    (h : ∀ v, e ≠ .recorded k v) : firstRecord k (log ++ [e]) = firstRecord k log := by
  have he : firstRecord k [e] = none := by
    cases e with
    | recorded k' v =>
      have : k' ≠ k := fun hk => h v (hk ▸ rfl)
      simp [firstRecord, this]
    | started | ended => rfl
  rw [firstRecord_append, he, Option.or_none]

theorem firstRecord_append_some {k : ActionRef} {log : List Entry} {v : Verdict}
    (h : firstRecord k log = some v) (ys : List Entry) : firstRecord k (log ++ ys) = some v := by
  rw [firstRecord_append, h, Option.some_or]

theorem firstRecord_snoc_recorded {k : ActionRef} {log : List Entry} (v : Verdict)
    (h : firstRecord k log = none) : firstRecord k (log ++ [.recorded k v]) = some v := by
  rw [firstRecord_append, h, Option.none_or]
  simp [firstRecord]

theorem settled_nil (k : ActionRef) : Settled k [] := by
  intro pre i post h
  simp at h

/-- Only a new start can unsettle an action. -/
theorem Settled.snoc {k : ActionRef} {log : List Entry} {e : Entry} (h : Settled k log)
    (he : ∀ j, e ≠ .started k j) : Settled k (log ++ [e]) := by
  intro pre i post hsplit
  rcases snoc_split hsplit with ⟨-, -, rfl⟩ | ⟨post', rfl, hlog⟩
  · exact absurd rfl (he i)
  · obtain ⟨⟨o, ho, hmem⟩, hrec⟩ := h pre i post' hlog
    exact ⟨⟨o, ho, by simp [hmem]⟩, firstRecord_append_some hrec _⟩

theorem InCall.snoc {k : ActionRef} {i : ℕ} {st st' : ActionStatus} {log : List Entry} {φ : Phase}
    {e : Entry} (h : InCall k i st log φ) (he : ∀ j, e ≠ .started k j)
    (hst : st' = .executing → st = .executing ∧ ∀ v, e ≠ .recorded k v) :
    InCall k i st' (log ++ [e]) φ := by
  obtain ⟨pre, post, rfl, hpre, hstart, hend, hrec⟩ := h
  refine ⟨pre, post ++ [e], by simp, hpre, fun j hj => ?_, fun o ho => ?_, fun hs => ?_⟩
  · rcases List.mem_append.mp hj with hj | hj
    · exact hstart j hj
    · exact he j (List.mem_singleton.mp hj).symm
  · exact List.mem_append_left _ (hend o ho)
  · obtain ⟨hs', hv⟩ := hst hs
    rw [firstRecord_snoc hv]
    exact hrec hs'

/-- A retryable end that is recorded first settles the action. -/
theorem InCall.settle {k : ActionRef} {i : ℕ} {log : List Entry} {o : ExecutionEnd}
    (h : InCall k i .executing log (.ended o)) (ho : o.verdict = .retryable) :
    Settled k (log ++ [.recorded k .retryable]) := by
  obtain ⟨pre, post, rfl, hpre, hstart, hend, hrec⟩ := h
  intro pre' j post' hsplit
  rcases snoc_split hsplit with ⟨-, -, hx⟩ | ⟨mid, rfl, hlog⟩
  · cases hx
  · rcases List.append_eq_append_iff.mp hlog with ⟨as, rfl, has⟩ | ⟨bs, rfl, hbs⟩
    · cases as with
      | nil =>
        obtain ⟨hji, rfl⟩ := List.cons.inj has
        obtain rfl : i = j := by simpa using hji
        exact ⟨⟨o, ho, by simp [hend o rfl]⟩, firstRecord_snoc_recorded _ (hrec rfl)⟩
      | cons a as =>
        obtain ⟨-, rfl⟩ := List.cons.inj has
        exact absurd (by simp) (hstart j)
    · cases bs with
      | nil =>
        obtain ⟨hji, rfl⟩ := List.cons.inj hbs
        obtain rfl : j = i := by simpa using hji
        exact ⟨⟨o, ho, by simp [hend o rfl]⟩, firstRecord_snoc_recorded _ (hrec rfl)⟩
      | cons b bs =>
        obtain ⟨rfl, rfl⟩ := List.cons.inj hbs
        obtain ⟨⟨o', ho', hmem⟩, hr⟩ := hpre pre' j bs rfl
        refine ⟨⟨o', ho', by simp [hmem]⟩, ?_⟩
        exact firstRecord_append_some (firstRecord_append_some hr _) _

def Phase.isOwner : Phase → Bool
  | .owning | .calling | .ended _ => true
  | _ => false

/-- The run has won `mark_executing` for the action and recorded no outcome yet. -/
def Run.Owns (run : Run) (k : ActionRef) : Prop :=
  actionReference run.event = .ok k ∧ run.phase.isOwner = true

/-- An action that was never executed or waits for a retry. -/
def ActionRow.IsOpen (r : ActionRow) : Prop := r.status = .pending ∨ r.IsExecutable

/-- What an owner knows of its action. -/
structure OwnerView (s : System) (i : ℕ) (φ : Phase) (k : ActionRef) (r : ActionRow) : Prop where
  found : getAction s.tables.actions k = some r
  status : r.status = .executing ∨ r.status = .uncertain ∨ r.status = .failed
  settled : φ = .owning → Settled k s.log
  inCall : φ ≠ .owning → InCall k i r.status s.log φ

/-- The invariant: calls start settled, open actions are settled, and an action has at most
one owner, which has it executing unless the action was given up meanwhile. -/
structure Safe (s : System) : Prop where
  ids : (s.tables.actions.map (·.id)).Nodup
  follows : ∀ run ∈ s.runs, Follows (protocol run.event) run.phase run.program
  starts : Always StartsSettled s.log
  opened : ∀ k, (∀ r, getAction s.tables.actions k = some r → r.IsOpen) → Settled k s.log
  owner : ∀ (i : ℕ) (run : Run) k, s.runs[i]? = some run → run.Owns k → ∃ r, OwnerView s i run.phase k r
  unique : ∀ (i j : ℕ) (ri rj : Run) k, s.runs[i]? = some ri → s.runs[j]? = some rj →
    ri.Owns k → rj.Owns k → i = j

theorem StartsSettled.of_not_started {pre : List Entry} {e : Entry}
    (h : ∀ k i, e ≠ .started k i) : StartsSettled pre e := fun k i he => absurd he (h k i)

/-- How a store call of the application can change the row of an action. -/
inductive RowChange : Option ActionRow → Option ActionRow → Prop
  | same (o : Option ActionRow) : RowChange o o
  | inserted {r : ActionRow} (h : r.IsOpen) : RowChange none (some r)
  | decided {r r' : ActionRow} (h : r.status = .pending)
      (h' : r'.status = .approved ∨ r'.status = .denied) : RowChange (some r) (some r')

theorem Safe.of_application {s t : System} (hs : Safe s)
    (hids : (t.tables.actions.map (·.id)).Nodup)
    (hrows : ∀ k, RowChange (getAction s.tables.actions k) (getAction t.tables.actions k))
    (new : List Run) (hruns : t.runs = s.runs ++ new)
    (hnew : ∀ run ∈ new, run.phase = .start ∧ Follows (protocol run.event) run.phase run.program)
    (hlog : t.log = s.log) : Safe t := by
  have hold : ∀ (i : ℕ) (run : Run) k, t.runs[i]? = some run → run.Owns k → s.runs[i]? = some run := by
    intro i run k hi hown
    rw [hruns] at hi
    rcases getElem?_append_cases hi with hi | ⟨-, hmem⟩
    · exact hi
    · have hphase := (hnew run hmem).1
      simp [Run.Owns, hphase, Phase.isOwner] at hown
  refine ⟨hids, fun run hmem => ?_, hlog ▸ hs.starts, fun k hopen => ?_, ?_, ?_⟩
  · rw [hruns] at hmem
    rcases List.mem_append.mp hmem with hmem | hmem
    · exact hs.follows run hmem
    · exact (hnew run hmem).2
  · rw [hlog]
    refine hs.opened k fun r hr => ?_
    have hch := hrows k
    rw [hr] at hch
    generalize ho : getAction t.tables.actions k = o at hch
    cases hch with
    | same => exact hopen r ho
    | decided h _ => exact .inl h
  · intro i run k hi hown
    obtain ⟨r, hview⟩ := hs.owner i run k (hold i run k hi hown) hown
    have hch := hrows k
    rw [hview.found] at hch
    generalize ho : getAction t.tables.actions k = o at hch
    cases hch with
    | same => exact ⟨r, ho, hview.status, hlog ▸ hview.settled, hlog ▸ hview.inCall⟩
    | decided h _ =>
      rcases hview.status with h' | h' | h' <;> rw [h] at h' <;> cases h'
  · intro i j ri rj k hi hj hoi hoj
    exact hs.unique i j ri rj k (hold i ri k hi hoi) (hold j rj k hj hoj) hoi hoj

section Advance

variable {s : System} {i : ℕ} {run : Run}

/-- No other run owns an action that run `i` owns. -/
theorem Safe.not_owns (hs : Safe s) (hi : s.runs[i]? = some run) {k : ActionRef}
    (hown : run.Owns k) : ∀ (j : ℕ) (run' : Run), j ≠ i → s.runs[j]? = some run' → ¬ run'.Owns k :=
  fun j run' hji hj hown' => hji (hs.unique j i run' run k hj hi hown' hown)

/-- The invariant after run `i` moved, from what the move does to the owners. -/
theorem Safe.of_advance (hs : Safe s) (hi : s.runs[i]? = some run) {db : Tables} {φ : Phase}
    {prog : Program} {new : List Entry} (hfol : Follows (protocol run.event) φ prog)
    (hids : db.actions.map (·.id) = s.tables.actions.map (·.id))
    (hstarts : Always StartsSettled (s.log ++ new))
    (hopened : ∀ k, (∀ r, getAction db.actions k = some r → r.IsOpen) → Settled k (s.log ++ new))
    (howner : ∀ k, Run.Owns ⟨run.event, φ, prog⟩ k →
      (∃ r, OwnerView ⟨db, [], s.log ++ new⟩ i φ k r) ∧
      ∀ (j : ℕ) (run' : Run), j ≠ i → s.runs[j]? = some run' → ¬ run'.Owns k)
    (hothers : ∀ (j : ℕ) (run' : Run) k r, j ≠ i → s.runs[j]? = some run' → run'.Owns k →
      OwnerView s j run'.phase k r → ∃ r', OwnerView ⟨db, [], s.log ++ new⟩ j run'.phase k r') :
    Safe ⟨db, s.runs.set i ⟨run.event, φ, prog⟩, s.log ++ new⟩ := by
  refine ⟨hids ▸ hs.ids, forall_set hs.follows hfol, hstarts, hopened, ?_, ?_⟩
  · intro j run' k hj hown
    rcases getElem?_set_cases hi hj with ⟨rfl, rfl⟩ | ⟨hji, hj⟩
    · obtain ⟨⟨r, hv⟩, -⟩ := howner k hown
      exact ⟨r, hv.found, hv.status, hv.settled, hv.inCall⟩
    · obtain ⟨r, hr⟩ := hs.owner j run' k hj hown
      obtain ⟨r', hv⟩ := hothers j run' k r hji hj hown hr
      exact ⟨r', hv.found, hv.status, hv.settled, hv.inCall⟩
  · intro j l rj rl k hj hl hoj hol
    rcases getElem?_set_cases hi hj with ⟨rfl, rfl⟩ | ⟨hji, hj'⟩
    · rcases getElem?_set_cases hi hl with ⟨rfl, rfl⟩ | ⟨hli, hl'⟩
      · rfl
      · exact absurd hol ((howner k hoj).2 l rl hli hl')
    · rcases getElem?_set_cases hi hl with ⟨rfl, rfl⟩ | ⟨hli, hl'⟩
      · exact absurd hoj ((howner k hol).2 j rj hji hj')
      · exact hs.unique j l rj rl k hj' hl' hoj hol

/-- An operation that touches neither the actions nor the log, and makes no owner. -/
theorem Safe.quiet (hs : Safe s) (hi : s.runs[i]? = some run) {db : Tables} {φ : Phase}
    {prog : Program} (hdb : db.actions = s.tables.actions)
    (hφ : φ = run.phase ∨ φ.isOwner = false) (hfol : Follows (protocol run.event) φ prog) :
    Safe ⟨db, s.runs.set i ⟨run.event, φ, prog⟩, s.log ++ []⟩ := by
  have hkeep : ∀ (j : ℕ) (φ : Phase) k r, OwnerView s j φ k r →
      OwnerView ⟨db, [], s.log ++ []⟩ j φ k r := by
    intro j φ k r hv
    rw [List.append_nil]
    exact ⟨by simpa [hdb] using hv.found, hv.status, hv.settled, hv.inCall⟩
  refine hs.of_advance hi hfol (by rw [hdb]) (by simpa using hs.starts) (fun k hopen => ?_)
    (fun k hown => ?_) fun j run' k r _ _ _ hv => ⟨r, hkeep j _ k r hv⟩
  · rw [List.append_nil]
    exact hs.opened k fun r hr => hopen r (by simpa [hdb] using hr)
  · rcases hφ with rfl | hφ
    · obtain ⟨r, hv⟩ := hs.owner i run k hi hown
      exact ⟨⟨r, hkeep i _ k r hv⟩, hs.not_owns hi hown⟩
    · simp [Run.Owns, hφ] at hown

theorem Safe.admitted (hs : Safe s) (hi : s.runs[i]? = some run) {k : ActionRef} {r r' : ActionRow}
    {t : List ActionRow} {prog : Program} (hk : actionReference run.event = .ok k)
    (hw : Rewrites s.tables.actions t k r r') (h : r.IsExecutable) (h' : r'.status = .executing)
    (hfol : Follows (protocol run.event) .owning prog) :
    Safe ⟨{ s.tables with actions := t }, s.runs.set i ⟨run.event, .owning, prog⟩, s.log ++ []⟩ := by
  -- An executable action has no owner.
  have hfree : ∀ (j : ℕ) (run' : Run), s.runs[j]? = some run' → ¬ run'.Owns k := by
    intro j run' hj hown
    obtain ⟨q, hv⟩ := hs.owner j run' k hj hown
    obtain rfl : r = q := Option.some.inj (hw.found.symm.trans hv.found)
    rcases h with h | ⟨h, -⟩ <;> simpa [h] using hv.status
  have hsettled : Settled k s.log := by
    refine hs.opened k fun q hq => ?_
    obtain rfl : r = q := Option.some.inj (hw.found.symm.trans hq)
    exact .inr h
  refine hs.of_advance hi hfol hw.ids (by simpa using hs.starts) (fun k' hopen => ?_)
    (fun k' hown => ?_) fun j run' k' q hji hj hown hv => ?_
  · rw [List.append_nil]
    by_cases hkk : k' = k
    · exact hkk ▸ hsettled
    · exact hs.opened k' fun q hq => hopen q ((hw.others k' hkk).trans hq)
  · obtain rfl : k = k' := Except.ok.inj (hk.symm.trans hown.1)
    rw [List.append_nil]
    exact ⟨⟨r', hw.now, .inl h', fun _ => hsettled, fun hne => absurd rfl hne⟩,
      fun j run' _ hj => hfree j run' hj⟩
  · have hkk : k' ≠ k := fun hkk => hfree j run' hj (hkk ▸ hown)
    rw [List.append_nil]
    exact ⟨q, (hw.others k' hkk).trans hv.found, hv.status, hv.settled, hv.inCall⟩

theorem Safe.started (hs : Safe s) (hi : s.runs[i]? = some run) {k : ActionRef} {prog : Program}
    (hk : actionReference run.event = .ok k) (hφ : run.phase = .owning)
    (hfol : Follows (protocol run.event) .calling prog) :
    Safe ⟨s.tables, s.runs.set i ⟨run.event, .calling, prog⟩, s.log ++ [.started k i]⟩ := by
  have hown : run.Owns k := ⟨hk, by rw [hφ]; rfl⟩
  obtain ⟨r, hv⟩ := hs.owner i run k hi hown
  have hsettled := hv.settled hφ
  refine hs.of_advance hi hfol rfl ?_ (fun k' hopen => ?_) (fun k' hown' => ?_)
    fun j run' k' q hji hj hown' hv' => ?_
  · refine always_snoc.mpr ⟨hs.starts, fun k' j he => ?_⟩
    cases he
    exact hsettled
  · have hkk : k' ≠ k := by
      rintro rfl
      have hst := hv.status
      rcases hopen r hv.found with h | h | ⟨h, -⟩ <;> simp [h] at hst
    exact (hs.opened k' hopen).snoc fun j he => hkk (by cases he; rfl)
  · obtain rfl : k = k' := Except.ok.inj (hk.symm.trans hown'.1)
    refine ⟨⟨r, hv.found, hv.status, (fun h => nomatch h), fun _ => ?_⟩, hs.not_owns hi hown⟩
    exact ⟨s.log, [], rfl, hsettled, by simp, by simp, fun _ => rfl⟩
  · have hkk : k' ≠ k := fun hkk => hs.not_owns hi hown j run' hji hj (hkk ▸ hown')
    have hne : ∀ l, Entry.started k i ≠ .started k' l := fun l he => hkk (by cases he; rfl)
    exact ⟨q, hv'.found, hv'.status, fun h => (hv'.settled h).snoc hne,
      fun h => (hv'.inCall h).snoc hne fun hst => ⟨hst, fun v he => nomatch he⟩⟩

theorem Safe.ended (hs : Safe s) (hi : s.runs[i]? = some run) {k : ActionRef} {prog : Program}
    (hk : actionReference run.event = .ok k) (hφ : run.phase = .calling) (x : ExecutionEnd)
    (hfol : Follows (protocol run.event) (.ended x) prog) :
    Safe ⟨s.tables, s.runs.set i ⟨run.event, .ended x, prog⟩, s.log ++ [.ended k i x]⟩ := by
  have hown : run.Owns k := ⟨hk, by rw [hφ]; rfl⟩
  have hne : ∀ k' l, Entry.ended k i x ≠ .started k' l := fun _ _ he => nomatch he
  refine hs.of_advance hi hfol rfl ?_ (fun k' hopen => (hs.opened k' hopen).snoc (hne k'))
    (fun k' hown' => ?_) fun j run' k' q hji hj hown' hv' => ?_
  · exact always_snoc.mpr ⟨hs.starts, .of_not_started hne⟩
  · obtain rfl : k = k' := Except.ok.inj (hk.symm.trans hown'.1)
    obtain ⟨r, hv⟩ := hs.owner i run k hi hown
    refine ⟨⟨r, hv.found, hv.status, (fun h => nomatch h), fun _ => ?_⟩, hs.not_owns hi hown⟩
    obtain ⟨pre, post, hlog, hpre, hstart, -, hrec⟩ := hv.inCall (by simp [hφ])
    refine ⟨pre, post ++ [.ended k i x], by simp [hlog], hpre, fun j hj => ?_, fun o ho => ?_,
      fun hst => ?_⟩
    · rcases List.mem_append.mp hj with hj | hj
      · exact hstart j hj
      · simp at hj
    · cases ho
      simp
    · rw [firstRecord_snoc (by simp)]
      exact hrec hst
  · exact ⟨q, hv'.found, hv'.status, fun h => (hv'.settled h).snoc (hne k'),
      fun h => (hv'.inCall h).snoc (hne k') fun hst => ⟨hst, fun v he => nomatch he⟩⟩

theorem Safe.recorded (hs : Safe s) (hi : s.runs[i]? = some run) {o : Op} {k : ActionRef}
    {r r' : ActionRow} {t : List ActionRow} {v : Verdict} {φ : Phase} {prog : Program}
    (hk : actionReference run.event = .ok k) (hw : Rewrites s.tables.actions t k r r')
    (hrec : Records run.event run.phase o k r r' v φ)
    (hfol : Follows (protocol run.event) φ prog) :
    Safe ⟨{ s.tables with actions := t }, s.runs.set i ⟨run.event, φ, prog⟩,
      s.log ++ [.recorded k v]⟩ := by
  have hne : ∀ k' l, Entry.recorded k v ≠ .started k' l := fun _ _ he => nomatch he
  have hown : ∀ x, run.phase = .ended x → run.Owns k := fun x hx => ⟨hk, by rw [hx]; rfl⟩
  refine hs.of_advance hi hfol hw.ids ?_ (fun k' hopen => ?_) (fun k' hown' => ?_)
    fun j run' k' q hji hj hown' hv' => ?_
  · exact always_snoc.mpr ⟨hs.starts, .of_not_started hne⟩
  · by_cases hkk : k' = k
    · subst hkk
      have hopen' := hopen r' hw.now
      cases hrec with
      | failed h' => simp [ActionRow.IsOpen, ActionRow.IsExecutable, h'] at hopen'
      | uncertain _ h' => simp [ActionRow.IsOpen, ActionRow.IsExecutable, h'] at hopen'
      | executed _ h' => simp [ActionRow.IsOpen, ActionRow.IsExecutable, h'] at hopen'
      | handedOff _ _ h' => simp [ActionRow.IsOpen, ActionRow.IsExecutable, h'] at hopen'
      | @retryable x _ hφ hx _ _ hst _ =>
        obtain ⟨q, hv⟩ := hs.owner i run k' hi (hown x hφ)
        obtain rfl : r = q := Option.some.inj (hw.found.symm.trans hv.found)
        have hcall := hv.inCall (by simp [hφ])
        rw [hst, hφ] at hcall
        exact hcall.settle hx
    · exact (hs.opened k' fun q hq => hopen q ((hw.others k' hkk).trans hq)).snoc (hne k')
  · have : φ.isOwner = false := by cases hrec <;> rfl
    simp [Run.Owns, this] at hown'
  · by_cases hkk : k' = k
    · subst hkk
      -- Another owner sees its action given up; its own call keeps the log.
      have hgone : r'.status = .failed ∨ r'.status = .uncertain := by
        cases hrec with
        | failed h' => exact .inl h'
        | uncertain _ h' => exact .inr h'
        | executed hφ _ => exact absurd hown' (hs.not_owns hi (hown _ hφ) j run' hji hj)
        | handedOff hφ _ _ => exact absurd hown' (hs.not_owns hi (hown _ hφ) j run' hji hj)
        | retryable hφ _ _ _ _ _ => exact absurd hown' (hs.not_owns hi (hown _ hφ) j run' hji hj)
      refine ⟨r', hw.now, .inr hgone.symm, fun h => (hv'.settled h).snoc (hne k'), fun h => ?_⟩
      refine (hv'.inCall h).snoc (hne k') fun hst => ?_
      rcases hgone with hg | hg <;> simp [hg] at hst
    · have hne' : ∀ v', Entry.recorded k v ≠ .recorded k' v' :=
        fun v' he => hkk (by cases he; rfl)
      exact ⟨q, (hw.others k' hkk).trans hv'.found, hv'.status,
        fun h => (hv'.settled h).snoc (hne k'),
        fun h => (hv'.inCall h).snoc (hne k') fun hst => ⟨hst, hne'⟩⟩

end Advance

section Application

theorem ActionRow.isOpen_row (a : InsertActionArgs) : a.row.IsOpen := by
  by_cases h : a.approvalPolicy = "auto"
  · exact .inr (.inl (by simp [InsertActionArgs.row, h]))
  · exact .inl (by simp [InsertActionArgs.row, h])

theorem rowChange_append (t : List ActionRow) {row : ActionRow} (h : row.IsOpen) (k : ActionRef) :
    RowChange (getAction t k) (getAction (t ++ [row]) k) := by
  cases hk : getAction t k with
  | some r =>
    rw [getAction_append_of_some hk]
    exact .same _
  | none =>
    cases hnew : getAction (t ++ [row]) k with
    | none => exact .same _
    | some r =>
      rcases getAction_append hnew with hold | ⟨-, rfl, -⟩
      · rw [hk] at hold
        cases hold
      · exact .inserted h

/-- A decision on a pending action. -/
theorem rowChange_decision {f : ActionRow → ActionRow} (hf : ∀ r, (f r).ref = r.ref)
    (h' : ∀ r, (f r).status = .approved ∨ (f r).status = .denied) (t : List ActionRow)
    (k k' : ActionRef) :
    RowChange (getAction t k') (getAction (transition [.pending] f t k).1 k') := by
  rw [getAction_transition hf]
  cases getAction t k' with
  | none => exact .same _
  | some r =>
    simp only [Option.map_some, List.mem_singleton]
    split
    · rename_i h
      exact .decided h.2 (h' r)
    · exact .same _

end Application

/-- An operator's reconciliation. -/
def Label.isResolve : Label → Bool
  | .resolve _ _ _ => true
  | _ => false

/-- No `mark_executing` is made on an action that a worker has handed off downstream. -/
def admitsNoHandoff (s : System) : Label → Bool
  | .advance i _ _ => match s.nextOp i with
    | some (.markExecuting k) => (getAction s.tables.actions k).all fun r =>
        !(r.status = .queued && r.lastError = none)
    | _ => true
  | _ => true

theorem Safe.advance {s t : System} (hs : Safe s) {i : ℕ} {now : Int} {ends : ExecutionEnd}
    (hc : admitsNoHandoff s (.advance i now ends) = true)
    (h : advance s i now ends = some t) : Safe t := by
  obtain ⟨run, o, db, φ, new, prog, hi, ho, heff, hfol, rfl⟩ := advance_effect hs.ids hs.follows h
  cases heff with
  | idle _ => exact hs.quiet hi rfl (.inl rfl) hfol
  | @read k hk hφ =>
    refine hs.quiet hi rfl (.inr ?_) hfol
    cases getAction s.tables.actions k with
    | none => rfl
    | some r =>
      simp only [Phase.afterRead]
      split
      · split <;> rfl
      · split <;> rfl
  | refused hk _ => exact hs.quiet hi rfl (.inr rfl) hfol
  | closed hφ now => exact hs.quiet hi rfl (.inr rfl) hfol
  | retried hφ => exact hs.quiet hi rfl (.inr rfl) hfol
  | @admitted k r r' t hk hφ ho' hw hst hst' =>
    refine hs.admitted hi hk hw ?_ hst' hfol
    subst ho'
    have hne : ¬ (r.status = .queued ∧ r.lastError = none) := by
      have := hc
      simp only [admitsNoHandoff, ho, hw.found, Option.all_some] at this
      simpa [← not_and_or] using this
    rcases hst with hst | hst
    · exact .inl hst
    · exact .inr ⟨hst, fun hnone => hne ⟨hst, hnone⟩⟩
  | started hk hφ => exact hs.started hi hk hφ hfol
  | ended hk hφ x => exact hs.ended hi hk hφ x hfol
  | recorded hk hw hrec => exact hs.recorded hi hk hw hrec hfol

/-- A store call that only touches the event table, or nothing. -/
theorem Safe.events {s : System} (hs : Safe s) (events : List EventRow) :
    Safe { s with tables.events := events } :=
  hs.of_application hs.ids (fun _ => .same _) [] (by simp) (by simp) rfl

theorem Safe.step {registered : String → Bool} {backoff : Int} {s t : System} {l : Label}
    (hs : Safe s) (hr : l.isResolve = false) (hc : admitsNoHandoff s l = true)
    (h : step registered backoff s l = some t) : Safe t := by
  cases l with
  | insert a w eventId eventNow =>
    cases h
    cases hins : insertActionAndExecutionEvent s.tables a w eventId eventNow with
    | error e => simpa only [orKeep, hins] using hs
    | ok p =>
      obtain ⟨id, created, hrow, -, -⟩ := insertActionAndExecutionEvent_ok hins
      simp only [orKeep]
      refine hs.of_application ?_ (fun k => ?_) [] (by simp) (by simp) rfl
      · rcases (insertAction_ok hrow).2.2 with ⟨ht, -, hn⟩ | ht
        · simpa only [ht] using nodup_append_row hs.ids hn
        · simpa only [ht] using hs.ids
      · rcases (insertAction_ok hrow).2.2 with ⟨ht, -, -⟩ | ht
        · simp only [ht]
          exact rowChange_append _ (ActionRow.isOpen_row a) k
        · simp only [ht]
          exact .same _
  | approve k approverId recipient eventId now eventNow =>
    cases h
    cases happ : approveActionAndEnqueue s.tables k approverId recipient eventId now eventNow with
    | error e => simpa only [orKeep, happ] using hs
    | ok p =>
      obtain ⟨ht, -, -⟩ := approveActionAndEnqueue_ok happ
      simp only [orKeep]
      refine hs.of_application ?_ (fun k' => ?_) [] (by simp) (by simp) rfl
      · rw [ht, approveAction_ids]
        exact hs.ids
      · rw [ht]
        exact rowChange_decision (by exact fun _ => rfl) (by exact fun _ => .inl rfl) _ k k'
  | deny k approverId now =>
    cases h
    refine hs.of_application ?_ (fun k' => ?_) [] (by simp) (by simp) rfl
    · exact (denyAction_ids _ _ _ _).symm ▸ hs.ids
    · exact rowChange_decision (by exact fun _ => rfl) (by exact fun _ => .inr rfl) _ k k'
  | resolve resolution q eventId => simp [Label.isResolve] at hr
  | enqueue a =>
    simp only [Actions.step] at h
    split at h <;> cases h
    · exact hs.events _
    · exact hs
  | claim a =>
    simp only [Actions.step] at h
    split at h
    · cases h
    · split at h <;> cases h
      · refine hs.of_application hs.ids (fun _ => .same _) _ rfl (fun run hrun => ?_) rfl
        obtain ⟨row, -, rfl⟩ := List.mem_map.mp hrun
        exact ⟨rfl, processActionQueueEvent_follows registered backoff _⟩
      · exact hs
  | renew eventId leaseToken leaseSeconds now =>
    simp only [Actions.step] at h
    split at h <;> cases h
    · exact hs.events _
    · exact hs
  | advance i now ends => exact hs.advance hc h

theorem safe_init {db : Tables} (hdb : (db.actions.map (·.id)).Nodup) : Safe { tables := db } where
  ids := hdb
  follows := by simp
  starts := always_nil _
  opened k _ := settled_nil k
  owner := by simp
  unique := by simp

/-- From any store, in every run without reconciliations and without an admission of a
handed-off action: a call starts only after every earlier call for its action ended
retryably, with the retry as the first recorded outcome. -/
theorem execute_starts_settled (registered : String → Bool) (retryBackoffS : Int) (db : Tables)
    (hdb : (db.actions.map (·.id)).Nodup) (ls : List Label) (t : System)
    (hrun : exec (step registered retryBackoffS) { tables := db } ls = some t)
    (hno : ∀ l ∈ ls, l.isResolve = false)
    (hadm : Meets (step registered retryBackoffS) (fun s l => admitsNoHandoff s l = true)
      { tables := db } ls) : Always StartsSettled t.log := by
  have hs : Safe t := exec_invariant_of_meets (fun s l u hs hc h => hs.step hc.1 hc.2 h)
    (safe_init hdb) (hadm.and_forall hno) hrun
  exact hs.starts

section Schedules

/-- One automatically approved action. -/
def insertAuto : Label :=
  .insert { actionHex := "1", tenantId := "t", sourceId := "s", kind := "send", payload := .obj [],
            approvalPolicy := "auto", now := 0 } true "evt_1" 0

def claimAt (now : Int) (leaseToken : String) : Label :=
  .claim { recipient := "actions", limit := 5, leaseOwner := "host/actions", leaseSeconds := 60,
           recoverExhausted := true, now := now, leaseToken := leaseToken }

/-- Run `i` performs its next `n` operations. -/
def advances (i : ℕ) (now : Int) (ends : ExecutionEnd) (n : ℕ) : List Label :=
  List.replicate n (.advance i now ends)

/-- The first worker fails before its external call, and the retry executes the action. -/
def retriedSchedule : List Label :=
  [insertAuto, claimAt 0 "first"] ++ advances 0 1 (.notStarted "offline") 8 ++
    [claimAt 40 "second"] ++ advances 1 41 (.returned (some {})) 7

theorem execute_starts_settled_retried :
    ∃ t, exec (step (fun _ => true) 30) {} retriedSchedule = some t ∧
      t.log.map (fun | .started _ i => some i | _ => none) =
        [some 0, none, none, some 1, none, none] ∧
      Always StartsSettled t.log := by
  have hlog : (exec (step (fun _ => true) 30) {} retriedSchedule).map
      (fun t => t.log.map (fun | .started _ i => some i | _ => none)) =
      some [some 0, none, none, some 1, none, none] := by decide
  obtain ⟨t, ht, hl⟩ := Option.map_eq_some_iff.mp hlog
  refine ⟨t, ht, hl, ?_⟩
  exact execute_starts_settled _ 30 {} (by decide) retriedSchedule t ht (by decide) (by decide)

/-- The first worker reads the approved action and stalls; the second hands it off; the first
then wins `mark_executing` on the handed-off action. -/
def handoffSchedule : List Label :=
  let handOff : ExecutionEnd := .returned (some { status := "queued" })
  [insertAuto, claimAt 0 "first"] ++ advances 0 1 handOff 1 ++
    [claimAt 60 "second"] ++ advances 1 61 handOff 7 ++ advances 0 62 handOff 3

theorem handed_off_action_executed_again :
    ∃ t, exec (step (fun _ => true) 30) {} handoffSchedule = some t ∧
      (∀ l ∈ handoffSchedule, l.isResolve = false) ∧
      t.log = [.started ⟨"act_1", "t", "s"⟩ 1,
        .ended ⟨"act_1", "t", "s"⟩ 1 (.returned (some { status := "queued" })),
        .recorded ⟨"act_1", "t", "s"⟩ .handedOff, .started ⟨"act_1", "t", "s"⟩ 0] ∧
      ¬ Always StartsSettled t.log := by
  have hlog : (exec (step (fun _ => true) 30) {} handoffSchedule).map (·.log) =
      some [.started ⟨"act_1", "t", "s"⟩ 1,
        .ended ⟨"act_1", "t", "s"⟩ 1 (.returned (some { status := "queued" })),
        .recorded ⟨"act_1", "t", "s"⟩ .handedOff, .started ⟨"act_1", "t", "s"⟩ 0] := by decide
  obtain ⟨t, ht, hl⟩ := Option.map_eq_some_iff.mp hlog
  refine ⟨t, ht, by decide, hl, fun hall => ?_⟩
  rw [hl] at hall
  obtain ⟨-, hrec⟩ := hall [_, _, _] _ [] rfl _ 0 rfl [] 1 _ rfl
  revert hrec
  decide

end Schedules

end Soveren.Actions
