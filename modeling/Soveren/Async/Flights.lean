import Mathlib.Logic.Function.Basic
import Soveren.Relational.Accounting
import Soveren.Relational.Process

/-! Shared tasks. At most one task of a key is under way; the callers that need its result wait
for it together, and the last one that gives up cancels it. A caller that comes while a task is
being cancelled waits until it has ended and tries again. -/
namespace Soveren.Async
open Soveren.Accounting

variable {κ ε τ : Type}

/-- A task with the number of its waiters. It has ended when it has an outcome. -/
structure SharedTask (κ ε τ : Type) where
  key : κ
  waiters : ℕ := 0
  cancelling : Bool := false
  outcome : Option (Except ε τ) := none

/-- The task was asked to stop; a task that has ended is not. -/
def SharedTask.stopped (t : SharedTask κ ε τ) : SharedTask κ ε τ :=
  { t with cancelling := t.cancelling || t.outcome.isNone }

/-- All tasks that were started, and the one that is registered for a key. -/
structure Flights (κ ε τ : Type) where
  tasks : List (SharedTask κ ε τ) := []
  current : κ → Option ℕ := fun _ => none

/-- Where a caller is: it waits for a task, waits for a cancelled one to end before it tries
again, waits for the one that it has cancelled to end before it fails, or has a result. -/
inductive Wait (ε τ : Type) where
  | waiting (r : ℕ)
  | draining (r : ℕ) (cancelled : Bool)
  | leaving (r : ℕ) (failure : ε)
  | returned (result : Except ε τ)

namespace Flights

variable (f : Flights κ ε τ)

def modify (r : ℕ) (change : SharedTask κ ε τ → SharedTask κ ε τ) : Flights κ ε τ :=
  { f with tasks := f.tasks.modify r change }

def cancel (r : ℕ) : Flights κ ε τ := f.modify r (·.stopped)

def cancelAll : Flights κ ε τ := { f with tasks := f.tasks.map (·.stopped) }

def settle (r : ℕ) (outcome : Except ε τ) : Flights κ ε τ :=
  f.modify r fun t => { t with outcome := some outcome }

/-- A waiter takes the outcome of a task that has ended. -/
def take (r : ℕ) (outcome : Except ε τ) : Flights κ ε τ × Wait ε τ :=
  (f.modify r fun t => { t with waiters := t.waiters - 1 }, .returned outcome)

/-- A waiter fails; the last waiter of a task that is under way cancels it and stays until it has
ended. -/
def leave (r : ℕ) (failure : ε) : Flights κ ε τ × Wait ε τ :=
  let left := f.modify r fun t => { t with waiters := t.waiters - 1 }
  if left.tasks[r]?.any (fun t => t.waiters = 0 && t.outcome.isNone) then
    (left.cancel r, .leaving r failure)
  else (left, .returned (.error failure))

variable [DecidableEq κ]

/-- A task of a key is started and registered; its first waiter is the caller. -/
def start (k : κ) : Flights κ ε τ where
  tasks := f.tasks ++ [{ key := k, waiters := 1 }]
  current := Function.update f.current k (some f.tasks.length)

/-- The callback of a task that has ended: it is not registered any more. -/
def clear (r : ℕ) : Flights κ ε τ :=
  match f.tasks[r]? with
  | some t => if f.current t.key = some r then
      { f with current := Function.update f.current t.key none }
    else f
  | none => f

/-- A caller that needs the result of a key. -/
def arrive (k : κ) : Flights κ ε τ × Wait ε τ :=
  match f.current k with
  | none => (f.start k, .waiting f.tasks.length)
  | some r => match f.tasks[r]? with
    | none => (f, .draining r false)
    | some t =>
      if t.cancelling then (f, .draining r false)
      else match t.outcome with
        | some outcome => (f, .returned outcome)
        | none => (f.modify r fun t => { t with waiters := t.waiters + 1 }, .waiting r)

end Flights

/-- What a caller counts for at a task. -/
def Wait.usage (w : Wait ε τ) (r : ℕ) : ℕ :=
  match w with
  | .waiting r' => if r' = r then 1 else 0
  | _ => 0

/-- The cancelled task whose end a caller awaits. -/
def Wait.stops : Wait ε τ → Option ℕ
  | .draining r _ | .leaving r _ => some r
  | .waiting _ | .returned _ => none

def Flights.waiters (f : Flights κ ε τ) (r : ℕ) : ℕ := (f.tasks[r]?.map (·.waiters)).getD 0

/-- What holds of shared tasks and of the callers that wait for them; once the owner is closed,
tasks are cancelled with waiters. -/
structure Shared (closed : Bool) (f : Flights κ ε τ) (waits : List (Wait ε τ)) : Prop where
  balanced : Balanced Wait.usage f.waiters waits
  registered : ∀ k r, f.current k = some r → ∃ t, f.tasks[r]? = some t ∧ t.key = k
  running : ∀ r t, f.tasks[r]? = some t → t.outcome = none → f.current t.key = some r
  abandoned : closed = false → ∀ (r : ℕ) (t : SharedTask κ ε τ), f.tasks[r]? = some t → t.cancelling = true → t.waiters = 0
  stopping : ∀ w ∈ waits, ∀ r, w.stops = some r → ∃ t, f.tasks[r]? = some t ∧ t.cancelling = true

/-- The same tasks, apart from their waiters and from requests to stop. -/
structure Flights.Keeps (f f' : Flights κ ε τ) : Prop where
  length : f'.tasks.length = f.tasks.length
  task : ∀ (r : ℕ) (t' : SharedTask κ ε τ), f'.tasks[r]? = some t' → ∃ t, f.tasks[r]? = some t ∧
    t'.key = t.key ∧ t'.outcome = t.outcome ∧ (t.cancelling = true → t'.cancelling = true)

namespace Flights.Keeps

variable {f f' f'' : Flights κ ε τ}

theorem refl (f : Flights κ ε τ) : f.Keeps f :=
  ⟨rfl, fun _ t ht => ⟨t, ht, rfl, rfl, fun hc => hc⟩⟩

theorem trans (h : f.Keeps f') (h' : f'.Keeps f'') : f.Keeps f'' := by
  refine ⟨h'.length.trans h.length, fun r t'' ht'' => ?_⟩
  obtain ⟨t', ht', hkey', ho', hc'⟩ := h'.task r t'' ht''
  obtain ⟨t, ht, hkey, ho, hc⟩ := h.task r t' ht'
  exact ⟨t, ht, hkey'.trans hkey, ho'.trans ho, fun hs => hc' (hc hs)⟩

theorem modify (f : Flights κ ε τ) (r : ℕ) {g : SharedTask κ ε τ → SharedTask κ ε τ}
    (hg : ∀ t, (g t).key = t.key ∧ (g t).outcome = t.outcome ∧
      (t.cancelling = true → (g t).cancelling = true)) : f.Keeps (f.modify r g) := by
  refine ⟨List.length_modify .., fun r' t' ht' => ?_⟩
  by_cases hr : r = r'
  · subst hr
    simp only [Flights.modify, List.getElem?_modify_eq] at ht'
    obtain ⟨t, ht, rfl⟩ := Option.map_eq_some_iff.mp ht'
    exact ⟨t, ht, hg t⟩
  · simp only [Flights.modify, List.getElem?_modify, if_neg hr] at ht'
    exact ⟨t', by simpa using ht', rfl, rfl, fun hc => hc⟩

theorem cancel (f : Flights κ ε τ) (r : ℕ) : f.Keeps (f.cancel r) :=
  modify f r fun _ => ⟨rfl, rfl, fun hc => by simp [SharedTask.stopped, hc]⟩

theorem cancelAll (f : Flights κ ε τ) : f.Keeps f.cancelAll := by
  refine ⟨List.length_map .., fun r t' ht' => ?_⟩
  rw [Flights.cancelAll, List.getElem?_map, Option.map_eq_some_iff] at ht'
  obtain ⟨t, ht, rfl⟩ := ht'
  exact ⟨t, ht, rfl, rfl, fun hc => by simp [SharedTask.stopped, hc]⟩

theorem take (f : Flights κ ε τ) (r : ℕ) (o : Except ε τ) : f.Keeps (f.take r o).1 :=
  modify f r fun _ => ⟨rfl, rfl, fun hc => hc⟩

theorem leave (f : Flights κ ε τ) (r : ℕ) (e : ε) : f.Keeps (f.leave r e).1 := by
  have hleft : f.Keeps (f.modify r fun t => { t with waiters := t.waiters - 1 }) :=
    modify f r fun _ => ⟨rfl, rfl, fun hc => hc⟩
  unfold Flights.leave
  dsimp only
  split
  · exact hleft.trans (cancel _ r)
  · exact hleft

theorem clear [DecidableEq κ] (f : Flights κ ε τ) (r : ℕ) : f.Keeps (f.clear r) := by
  unfold Flights.clear
  split
  · split
    · exact ⟨rfl, fun _ t ht => ⟨t, ht, rfl, rfl, fun hc => hc⟩⟩
    · exact refl f
  · exact refl f

/-- A task that was there is still there. -/
theorem exists_task (h : f.Keeps f') {r : ℕ} {t : SharedTask κ ε τ} (ht : f.tasks[r]? = some t) :
    ∃ t', f'.tasks[r]? = some t' ∧ t'.key = t.key := by
  have hlt : r < f'.tasks.length := h.length ▸ (List.getElem?_eq_some_iff.mp ht).1
  obtain ⟨t₀, ht₀, hkey, -, -⟩ := h.task r _ (List.getElem?_eq_getElem hlt)
  obtain rfl := Option.some.inj (ht.symm.trans ht₀)
  exact ⟨_, List.getElem?_eq_getElem hlt, hkey⟩

end Flights.Keeps

theorem Flights.leave_wait (f : Flights κ ε τ) (r : ℕ) (e : ε) :
    (f.leave r e).2 = .leaving r e ∨ (f.leave r e).2 = .returned (.error e) := by
  unfold Flights.leave
  dsimp only
  split
  · exact .inl rfl
  · exact .inr rfl

/-- A caller starts the task of its key, or changes no task but for its waiters. -/
theorem Flights.arrive_cases [DecidableEq κ] (f : Flights κ ε τ) (k : κ) :
    (f.current k = none ∧ f.arrive k = (f.start k, .waiting f.tasks.length)) ∨
      ∃ r, f.current k = some r ∧ f.Keeps (f.arrive k).1 ∧
        ((f.arrive k).2 = .draining r false ∨ ∃ t, f.tasks[r]? = some t ∧ t.cancelling = false ∧
          ((f.arrive k).2 = .waiting r ∨ ∃ o, t.outcome = some o ∧ (f.arrive k).2 = .returned o)) := by
  unfold Flights.arrive
  split
  · exact .inl ⟨‹_›, rfl⟩
  · rename_i r hr
    refine .inr ⟨r, hr, ?_⟩
    split
    · exact ⟨.refl f, .inl rfl⟩
    · rename_i t ht
      split
      · exact ⟨.refl f, .inl rfl⟩
      · rename_i hc
        have hc : t.cancelling = false := by simpa using hc
        split
        · exact ⟨.refl f, .inr ⟨t, ht, hc, .inr ⟨_, ‹_›, rfl⟩⟩⟩
        · exact ⟨.modify f r fun _ => ⟨rfl, rfl, fun hc => hc⟩, .inr ⟨t, ht, hc, .inl rfl⟩⟩

namespace Shared

variable {closed : Bool} {f f' : Flights κ ε τ} {waits : List (Wait ε τ)} {i r : ℕ}
  {w w' : Wait ε τ} {t : SharedTask κ ε τ}

theorem empty (closed : Bool) : Shared closed ({} : Flights κ ε τ) [] :=
  ⟨fun _ => rfl, (fun _ _ hk => nomatch hk), (fun _ _ ht => nomatch ht), (fun _ _ _ ht => nomatch ht),
    fun _ hw => nomatch hw⟩

/-- At most one task of a key is under way. -/
theorem running_eq (h : Shared closed f waits) {r' : ℕ} {t' : SharedTask κ ε τ}
    (ht : f.tasks[r]? = some t) (ht' : f.tasks[r']? = some t') (hkey : t.key = t'.key)
    (ho : t.outcome = none) (ho' : t'.outcome = none) : r = r' := by
  have hr := h.running r t ht ho
  rw [hkey, h.running r' t' ht' ho'] at hr
  exact (Option.some.inj hr).symm

/-- A task that a caller waits for was not cancelled. -/
theorem not_cancelling (h : Shared closed f waits) (hopen : closed = false)
    (hw : waits[i]? = some (.waiting r)) (ht : f.tasks[r]? = some t) : t.cancelling = false := by
  by_contra hc
  have hzero := h.abandoned hopen r t ht (by simpa using hc)
  have hle := h.balanced.usage_le (k := r) (List.mem_of_getElem? hw)
  simp [Wait.usage, Flights.waiters, ht, hzero] at hle

theorem exists_task (h : Shared closed f waits) (hw : waits[i]? = some (.waiting r)) :
    ∃ t, f.tasks[r]? = some t ∧ 1 ≤ t.waiters := by
  have hle := h.balanced.usage_le (k := r) (List.mem_of_getElem? hw)
  cases ht : f.tasks[r]? with
  | none => simp [Wait.usage, Flights.waiters, ht] at hle
  | some t => exact ⟨t, rfl, by simpa [Wait.usage, Flights.waiters, ht] using hle⟩

theorem waiters_modify (ht : f.tasks[r]? = some t) (g : SharedTask κ ε τ → SharedTask κ ε τ)
    (r' : ℕ) : (f.modify r g).waiters r' = if r' = r then (g t).waiters else f.waiters r' := by
  by_cases hr : r' = r
  · subst hr
    simp [Flights.waiters, Flights.modify, ht]
  · simp [Flights.waiters, Flights.modify, hr, Ne.symm hr]

theorem modify_self (ht : f.tasks[r]? = some t) (g : SharedTask κ ε τ → SharedTask κ ε τ) :
    (f.modify r g).tasks[r]? = some (g t) := by
  simp [Flights.modify, ht]

/-- One task changes, and the callers that count for it. -/
theorem modify_with (h : Shared closed f waits) (ht : f.tasks[r]? = some t)
    {g : SharedTask κ ε τ → SharedTask κ ε τ} (hkey : (g t).key = t.key)
    (hrunning : (g t).outcome = none → t.outcome = none)
    (habandoned : closed = false → (g t).cancelling = true → (g t).waiters = 0)
    (hstopping : t.cancelling = true → (g t).cancelling = true) {waits' : List (Wait ε τ)}
    (hbalanced : Balanced Wait.usage (f.modify r g).waiters waits')
    (hstops : ∀ x ∈ waits', ∀ r', x.stops = some r' → x ∈ waits ∨ r' = r ∧ (g t).cancelling = true) :
    Shared closed (f.modify r g) waits' := by
  have hself := modify_self ht g
  have hne : ∀ {r' : ℕ}, r' ≠ r → (f.modify r g).tasks[r']? = f.tasks[r']? := by
    intro r' hr
    simp [Flights.modify, Ne.symm hr]
  have hcases : ∀ {r' : ℕ} {t' : SharedTask κ ε τ}, (f.modify r g).tasks[r']? = some t' →
      (r' = r ∧ t' = g t) ∨ (r' ≠ r ∧ f.tasks[r']? = some t') := by
    intro r' t' h'
    by_cases hr : r' = r
    · subst hr
      exact .inl ⟨rfl, (Option.some.inj (hself.symm.trans h')).symm⟩
    · exact .inr ⟨hr, hne hr ▸ h'⟩
  refine ⟨hbalanced, fun k r' hk => ?_, fun r' t' ht' ho => ?_, fun hopen r' t' ht' hc => ?_,
    fun x hx r' hr' => ?_⟩
  · obtain ⟨t', ht', hk'⟩ := h.registered k r' hk
    by_cases hr : r' = r
    · subst hr
      obtain rfl := Option.some.inj (ht.symm.trans ht')
      exact ⟨g t, hself, hkey.trans hk'⟩
    · exact ⟨t', (hne hr).trans ht', hk'⟩
  · obtain ⟨rfl, rfl⟩ | ⟨-, ht'⟩ := hcases ht'
    · rw [hkey]
      exact h.running r' t ht (hrunning ho)
    · exact h.running r' t' ht' ho
  · obtain ⟨rfl, rfl⟩ | ⟨-, ht'⟩ := hcases ht'
    · exact habandoned hopen hc
    · exact h.abandoned hopen r' t' ht' hc
  · obtain hx | ⟨rfl, hc⟩ := hstops x hx r' hr'
    · obtain ⟨t', ht', hc⟩ := h.stopping x hx r' hr'
      by_cases hr : r' = r
      · subst hr
        obtain rfl := Option.some.inj (ht.symm.trans ht')
        exact ⟨g t, hself, hstopping hc⟩
      · exact ⟨t', (hne hr).trans ht', hc⟩
    · exact ⟨g t, hself, hc⟩

/-- One task changes together with a caller that counts for it. -/
theorem modify (h : Shared closed f waits) (ht : f.tasks[r]? = some t)
    {g : SharedTask κ ε τ → SharedTask κ ε τ} (hkey : (g t).key = t.key)
    (hrunning : (g t).outcome = none → t.outcome = none)
    (habandoned : closed = false → (g t).cancelling = true → (g t).waiters = 0)
    (hstopping : t.cancelling = true → (g t).cancelling = true)
    (hw : waits[i]? = some w) (w' : Wait ε τ) (hother : ∀ r', r' ≠ r → w'.usage r' = w.usage r')
    (hwaiters : (g t).waiters + w.usage r = t.waiters + w'.usage r) (hstops : w'.stops = none) :
    Shared closed (f.modify r g) (waits.set i w') := by
  refine h.modify_with ht hkey hrunning habandoned hstopping
    (h.balanced.set hw fun r' => ?_) fun x hx r' hr' => ?_
  · rw [waiters_modify ht]
    by_cases hr : r' = r
    · subst hr
      simpa [Flights.waiters, ht] using hwaiters
    · simp [hr, hother r' hr]
  · obtain hx | rfl := List.mem_or_eq_of_mem_set hx
    · exact .inl hx
    · rw [hstops] at hr'
      cases hr'

/-- A caller that waits for no task moves on. -/
theorem move (h : Shared closed f waits) (hw : waits[i]? = some w) (w' : Wait ε τ)
    (hsame : ∀ r, w'.usage r = w.usage r)
    (hstops : ∀ r, w'.stops = some r → ∃ t, f.tasks[r]? = some t ∧ t.cancelling = true) :
    Shared closed f (waits.set i w') :=
  { h with
    balanced := h.balanced.set hw fun r => by rw [hsame r]
    stopping := fun x hx r hr => by
      obtain hx | rfl := List.mem_or_eq_of_mem_set hx
      · exact h.stopping x hx r hr
      · exact hstops r hr }

theorem push (h : Shared closed f waits) (hw : ∀ r, w.usage r = 0) (hstops : w.stops = none) :
    Shared closed f (waits ++ [w]) :=
  { h with
    balanced := h.balanced.push hw
    stopping := fun x hx r hr => by
      obtain hx | hx := List.mem_append.mp hx
      · exact h.stopping x hx r hr
      · rw [List.mem_singleton.mp hx, hstops] at hr
        cases hr }

theorem close (h : Shared closed f waits) : Shared true f waits :=
  { h with abandoned := fun hc => nomatch hc }

/-- A task changes that no caller changes with. -/
theorem modify_task (h : Shared closed f waits) (ht : f.tasks[r]? = some t)
    {g : SharedTask κ ε τ → SharedTask κ ε τ} (hkey : (g t).key = t.key)
    (hrunning : (g t).outcome = none → t.outcome = none)
    (habandoned : closed = false → (g t).cancelling = true → (g t).waiters = 0)
    (hstopping : t.cancelling = true → (g t).cancelling = true)
    (hwaiters : (g t).waiters = t.waiters) : Shared closed (f.modify r g) waits := by
  refine h.modify_with ht hkey hrunning habandoned hstopping (fun r' => ?_) fun x hx _ _ => .inl hx
  rw [waiters_modify ht, ← h.balanced r']
  by_cases hr : r' = r
  · subst hr
    simp [Flights.waiters, ht, hwaiters]
  · simp [hr]

theorem settle (h : Shared closed f waits) (ht : f.tasks[r]? = some t) (o : Except ε τ) :
    Shared closed (f.settle r o) waits :=
  h.modify_task ht rfl (fun he => nomatch he) (fun hopen hc => h.abandoned hopen r t ht hc)
    (fun hc => hc) rfl

/-- The owner is closed and cancels its tasks. -/
theorem cancelAll (h : Shared closed f waits) : Shared true f.cancelAll waits := by
  have hget : ∀ r : ℕ, f.cancelAll.tasks[r]? = f.tasks[r]?.map (·.stopped) := fun r => by
    simp [Flights.cancelAll]
  refine ⟨fun r => ?_, fun k r hk => ?_, fun r t ht ho => ?_, (fun hc => nomatch hc),
    fun w hw r hr => ?_⟩
  · rw [← h.balanced r]
    simp [Flights.waiters, hget, Function.comp_def, SharedTask.stopped]
  · obtain ⟨t, ht, hkey⟩ := h.registered k r hk
    exact ⟨_, (hget r).trans (congrArg _ ht), hkey⟩
  · rw [hget, Option.map_eq_some_iff] at ht
    obtain ⟨t, ht, rfl⟩ := ht
    exact h.running r t ht ho
  · obtain ⟨t, ht, hc⟩ := h.stopping w hw r hr
    exact ⟨_, (hget r).trans (congrArg _ ht), by simp [SharedTask.stopped, hc]⟩

/-- A caller that awaits the end of a task was cancelled and passes it on. -/
theorem cancel_stopping (h : Shared closed f waits) (hw : waits[i]? = some w) (hr : w.stops = some r)
    (hidle : ∀ r', w'.usage r' = w.usage r') (hsame : w'.stops = some r) :
    Shared closed (f.cancel r) (waits.set i w') := by
  obtain ⟨t, ht, hc⟩ := h.stopping w (List.mem_of_getElem? hw) r hr
  have hcancel : Shared closed (f.cancel r) waits :=
    h.modify_task ht rfl (fun ho => ho) (fun hopen _ => h.abandoned hopen r t ht hc)
      (fun _ => by simp [SharedTask.stopped, hc]) rfl
  refine hcancel.move hw w' hidle fun r' hr' => ?_
  obtain rfl := Option.some.inj (hsame.symm.trans hr')
  exact hcancel.stopping w (List.mem_of_getElem? hw) r hr

/-- A waiter takes the outcome of its task. -/
theorem take (h : Shared closed f waits) (hw : waits[i]? = some (.waiting r))
    (o : Except ε τ) : Shared closed (f.take r o).1 (waits.set i (f.take r o).2) := by
  obtain ⟨t, ht, hone⟩ := h.exists_task hw
  refine h.modify ht rfl (fun ho => ho) (fun hopen hc => ?_) (fun hc => hc) hw (.returned o)
    (fun r' hr' => ?_) ?_ rfl
  · rw [h.not_cancelling hopen hw ht] at hc
    cases hc
  · simp [Wait.usage, Ne.symm hr']
  · simp only [Wait.usage, if_true]
    omega

theorem leave (h : Shared closed f waits) (hw : waits[i]? = some (.waiting r)) (e : ε) :
    Shared closed (f.leave r e).1 (waits.set i (f.leave r e).2) := by
  obtain ⟨t, ht, hone⟩ := h.exists_task hw
  have hleft : Shared closed (f.modify r fun t => { t with waiters := t.waiters - 1 })
      (waits.set i (.returned (.error e))) := by
    refine h.modify ht rfl (fun ho => ho) (fun hopen hc => ?_) (fun hc => hc) hw _
      (fun r' hr' => ?_) ?_ rfl
    · rw [h.not_cancelling hopen hw ht] at hc
      cases hc
    · simp [Wait.usage, Ne.symm hr']
    · simp only [Wait.usage, if_true]
      omega
  unfold Flights.leave
  dsimp only
  split
  · rename_i hlast
    obtain ⟨t', ht', hlast⟩ := (Option.any_eq_true ..).mp hlast
    simp only [Bool.and_eq_true, decide_eq_true_eq] at hlast
    have hcancel := hleft.modify_task ht' (g := SharedTask.stopped) rfl (fun ho => ho)
      (fun _ _ => hlast.1) (fun hc => by simp [SharedTask.stopped, hc]) rfl
    have hget : (waits.set i (Wait.returned (.error e)))[i]? = some (.returned (.error e)) :=
      List.getElem?_set_self (List.getElem?_eq_some_iff.mp hw).1
    have hmove := hcancel.move hget (.leaving r e) (fun _ => rfl) fun r' hr' => by
      obtain rfl := Option.some.inj hr'
      exact ⟨_, modify_self ht' _, by simp [SharedTask.stopped, hlast.2]⟩
    rwa [List.set_set] at hmove
  · exact hleft

variable [DecidableEq κ]

theorem clear (h : Shared closed f waits)
    (hdone : ∀ t, f.tasks[r]? = some t → t.outcome.isSome = true) : Shared closed (f.clear r) waits := by
  unfold Flights.clear
  split
  · rename_i t ht
    split
    · rename_i hcur
      refine { h with registered := fun k r' hk => ?_, running := fun r' t' ht' ho => ?_ }
      · by_cases hk' : k = t.key
        · subst hk'
          simp at hk
        · simp only [Function.update_of_ne hk'] at hk
          exact h.registered k r' hk
      · have hr' := h.running r' t' ht' ho
        by_cases hk' : t'.key = t.key
        · rw [hk', hcur] at hr'
          obtain rfl := Option.some.inj hr'
          obtain rfl := Option.some.inj (ht.symm.trans ht')
          have hsome := hdone t ht
          rw [ho] at hsome
          cases hsome
        · simp only [Function.update_of_ne hk']
          exact hr'
    · exact h
  · exact h

/-- A caller that waits for nothing asks for the result of a key. -/
theorem arrive (h : Shared closed f waits) (hw : waits[i]? = some w) (hidle : ∀ r, w.usage r = 0)
    (k : κ) : Shared closed (f.arrive k).1 (waits.set i (f.arrive k).2) := by
  unfold Flights.arrive
  split
  · rename_i hnone
    have hnew : ∀ {r' : ℕ} {t' : SharedTask κ ε τ}, (f.start k).tasks[r']? = some t' →
        (r' = f.tasks.length ∧ t' = { key := k, waiters := 1 }) ∨ f.tasks[r']? = some t' := by
      intro r' t' ht'
      obtain ht' | ⟨hlen, ht'⟩ := Process.getElem?_append_cases ht'
      · exact .inr ht'
      · have hlt : r' < (f.start k).tasks.length := (List.getElem?_eq_some_iff.mp ‹_›).1
        rw [Flights.start, List.length_append, List.length_singleton] at hlt
        exact .inl ⟨by omega, List.mem_singleton.mp ht'⟩
    refine ⟨h.balanced.set hw fun r' => ?_, fun k' r' hk => ?_, fun r' t' ht' ho => ?_,
      fun hopen r' t' ht' hc => ?_, fun x hx r' hr' => ?_⟩
    · rw [hidle r']
      simp only [Flights.waiters, Flights.start, Wait.usage]
      by_cases hr' : f.tasks.length = r'
      · subst hr'
        simp
      · rw [List.getElem?_append]
        split
        · simp
        · have hne : r' - f.tasks.length ≠ 0 := by omega
          rw [List.getElem?_singleton, if_neg hne, List.getElem?_eq_none (by omega)]
    · by_cases hk' : k' = k
      · subst hk'
        obtain rfl : f.tasks.length = r' := by simpa [Flights.start] using hk
        exact ⟨_, List.getElem?_concat_length, rfl⟩
      · simp only [Flights.start, Function.update_of_ne hk'] at hk
        obtain ⟨t, ht, hkey⟩ := h.registered k' r' hk
        exact ⟨t, by simp [Flights.start, List.getElem?_append_left (List.getElem?_eq_some_iff.mp ht).1, ht], hkey⟩
    · obtain ⟨rfl, rfl⟩ | ht' := hnew ht'
      · simp [Flights.start]
      · have hr' := h.running r' t' ht' ho
        have hk' : t'.key ≠ k := by
          rintro rfl
          rw [hnone] at hr'
          cases hr'
        simp only [Flights.start, Function.update_of_ne hk']
        exact hr'
    · obtain ⟨-, rfl⟩ | ht' := hnew ht'
      · cases hc
      · exact h.abandoned hopen r' t' ht' hc
    · obtain hx | rfl := List.mem_or_eq_of_mem_set hx
      · obtain ⟨t, ht, hc⟩ := h.stopping x hx r' hr'
        exact ⟨t, (List.getElem?_append_left (List.getElem?_eq_some_iff.mp ht).1).trans ht, hc⟩
      · cases hr'
  · rename_i r hr
    split
    · rename_i hnone
      obtain ⟨t, ht, -⟩ := h.registered k r hr
      rw [hnone] at ht
      cases ht
    · rename_i t ht
      split
      · rename_i hcancel
        refine h.move hw _ (fun r' => by rw [hidle r']; rfl) fun r' hr' => ?_
        obtain rfl := Option.some.inj hr'
        exact ⟨t, ht, hcancel⟩
      · rename_i hcancel
        split
        · exact h.move hw _ (fun r' => by rw [hidle r']; rfl) fun r' hr' => nomatch hr'
        · refine h.modify ht rfl (fun ho => ho) (fun _ hc => absurd hc hcancel) (fun hc => hc) hw
            (.waiting r) (fun r' hr' => ?_) ?_ rfl
          · rw [hidle r']
            simp [Wait.usage, Ne.symm hr']
          · rw [hidle r]
            simp [Wait.usage]

end Shared

end Soveren.Async
