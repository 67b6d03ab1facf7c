import Soveren.GitHub.Connector

/-! What holds of a pin cache and its reads through `_pin`: every value that a read has stored or
returned is good for its key, and only a cancelled caller or read ends as cancelled. -/
namespace Soveren.GitHub
open Soveren.Process Soveren.Async

variable {κ τ : Type}

/-- What is to hold of the program of a read that is under way, given whether it was cancelled, and
of the values that are read for a key. -/
structure PinSpec (κ τ : Type) where
  Running : κ → Prop → Proc Op Res (Except Failure τ) → Prop
  Loaded : κ → τ → Prop
  cancel : ∀ k x (p q : Prop), (p → q) → Running k p x → Running k q x

/-- A result for a key; it is a cancellation only for cause. -/
def PinSpec.Result (S : PinSpec κ τ) (key : κ) (cancelled : Prop) : Except Failure τ → Prop
  | .ok v => S.Loaded key v
  | .error e => e = .cancelled → cancelled

/-- A caller of `_pin`: the key that it asks for, whether it was cancelled, and where it is. -/
structure Waiter (κ τ : Type) where
  key : Option κ
  cancelled : Bool
  wait : Wait Failure τ

/-- The caller will end as cancelled. -/
def Waiter.Marked (p : Waiter κ τ) : Prop :=
  match p.wait with
  | .draining _ cancelled => cancelled = true
  | .leaving _ failure => failure = .cancelled
  | .waiting _ | .returned _ => False

structure PinTable.Sound (S : PinSpec κ τ) (closed : Bool) (table : PinTable κ τ)
    (waiters : List (Waiter κ τ)) : Prop where
  shared : Shared closed table.flights (waiters.map (·.wait))
  aligned : table.loads.length = table.flights.tasks.length
  running : ∀ (r : ℕ) (t : SharedTask κ Failure τ) x, table.flights.tasks[r]? = some t →
    table.loads[r]? = some x → t.outcome = none → S.Running t.key (t.cancelling = true) x
  ended : ∀ (r : ℕ) (t : SharedTask κ Failure τ) o, table.flights.tasks[r]? = some t →
    t.outcome = some o → S.Result t.key (t.cancelling = true) o
  cached : ∀ k v, table.cache k = some v → S.Loaded k v
  keyed : ∀ p ∈ waiters, ∀ r, p.wait = .waiting r → ∃ t, table.flights.tasks[r]? = some t ∧
    p.key = some t.key
  marked : ∀ p ∈ waiters, p.Marked → p.cancelled = true

namespace PinTable.Sound

variable {S S' : PinSpec κ τ} {closed : Bool} {table table' : PinTable κ τ}
  {waiters waiters' : List (Waiter κ τ)} {i r : ℕ} {p q : Waiter κ τ} {key : κ}
  {t : SharedTask κ Failure τ}

theorem Result.mono {o : Except Failure τ} {c c' : Prop} (h : S.Result key c o) (hc : c → c') :
    S.Result key c' o := by
  cases o with
  | ok v => exact h
  | error e => exact fun he => hc (h he)

theorem empty (S : PinSpec κ τ) (closed : Bool) : Sound S closed {} [] :=
  ⟨.empty closed, rfl, (fun _ _ _ ht => nomatch ht), (fun _ _ _ ht => nomatch ht),
    (fun _ _ hv => nomatch hv), (fun _ hp => nomatch hp), fun _ hp => nomatch hp⟩

/-- The tasks are the same but for their waiters and requests to stop. -/
theorem of_keeps (h : Sound S closed table waiters) (hcache : table'.cache = table.cache)
    (hloads : table'.loads = table.loads) (hkeeps : table.flights.Keeps table'.flights)
    {closed' : Bool} (hshared : Shared closed' table'.flights (waiters'.map (·.wait)))
    (hkeyed : ∀ p ∈ waiters', ∀ r, p.wait = .waiting r → ∃ t, table'.flights.tasks[r]? = some t ∧
      p.key = some t.key)
    (hmarked : ∀ p ∈ waiters', p.Marked → p.cancelled = true) : Sound S closed' table' waiters' := by
  refine ⟨hshared, ?_, fun r t' x ht' hx ho => ?_, fun r t' o ht' ho => ?_, ?_, hkeyed, hmarked⟩
  · rw [hloads, hkeeps.length, h.aligned]
  · obtain ⟨t, ht, hkey, ho', hc⟩ := hkeeps.task r t' ht'
    rw [hkey]
    exact S.cancel _ _ _ _ hc (h.running r t x ht (hloads ▸ hx) (ho' ▸ ho))
  · obtain ⟨t, ht, hkey, ho', hc⟩ := hkeeps.task r t' ht'
    rw [hkey]
    exact Result.mono (h.ended r t o ht (ho' ▸ ho)) hc
  · rw [hcache]
    exact h.cached

theorem keyed_of_keeps (h : Sound S closed table waiters) {f : Flights κ Failure τ}
    (hkeeps : table.flights.Keeps f) :
    ∀ p ∈ waiters, ∀ r, p.wait = .waiting r → ∃ t, f.tasks[r]? = some t ∧ p.key = some t.key := by
  intro p hp r hr
  obtain ⟨t, ht, hkey⟩ := h.keyed p hp r hr
  obtain ⟨t', ht', hkey'⟩ := hkeeps.exists_task ht
  exact ⟨t', ht', by rw [hkey, hkey']⟩

/-- One caller changes together with the tasks. -/
theorem set (h : Sound S closed table waiters) (hcache : table'.cache = table.cache)
    (hloads : table'.loads = table.loads) (hkeeps : table.flights.Keeps table'.flights)
    (hshared : Shared closed table'.flights ((waiters.map (·.wait)).set i q.wait))
    (hkeyed : ∀ r, q.wait = .waiting r → ∃ t, table'.flights.tasks[r]? = some t ∧ q.key = some t.key)
    (hmarked : q.Marked → q.cancelled = true) : Sound S closed table' (waiters.set i q) := by
  refine h.of_keeps hcache hloads hkeeps (by rwa [List.map_set]) (fun x hx => ?_) fun x hx => ?_
  · obtain hx | rfl := List.mem_or_eq_of_mem_set hx
    · exact h.keyed_of_keeps hkeeps x hx
    · exact hkeyed
  · obtain hx | rfl := List.mem_or_eq_of_mem_set hx
    · exact h.marked x hx
    · exact hmarked

theorem getElem?_wait (hp : waiters[i]? = some p) : (waiters.map (·.wait))[i]? = some p.wait := by
  rw [List.getElem?_map, hp]
  rfl

/-- A caller that waits for nothing changes. -/
theorem idle (h : Sound S closed table waiters) (hp : waiters[i]? = some p)
    (hidle : ∀ r, p.wait.usage r = 0) {res : Except Failure τ} (hq : q.wait = .returned res) :
    Sound S closed table (waiters.set i q) := by
  refine h.set rfl rfl (.refl _) ?_ (fun r hr => ?_) fun hm => ?_
  · rw [hq]
    exact h.shared.move (getElem?_wait hp) _ (fun r => (hidle r).symm) fun r hr => nomatch hr
  · rw [hq] at hr
    cases hr
  · simp [Waiter.Marked, hq] at hm

theorem push (h : Sound S closed table waiters) {res : Except Failure τ} (hq : q.wait = .returned res) :
    Sound S closed table (waiters ++ [q]) := by
  refine h.of_keeps rfl rfl (.refl _) ?_ (fun x hx r hr => ?_) fun x hx hm => ?_
  · rw [List.map_append, List.map_singleton, hq]
    exact h.shared.push (fun _ => rfl) rfl
  · obtain hx | hx := List.mem_append.mp hx
    · exact h.keyed x hx r hr
    · rw [List.mem_singleton.mp hx, hq] at hr
      cases hr
  · obtain hx | hx := List.mem_append.mp hx
    · exact h.marked x hx hm
    · rw [List.mem_singleton.mp hx] at hm
      simp [Waiter.Marked, hq] at hm

/-- The cache and what is to hold of the reads change. -/
theorem with_cache (h : Sound S closed table waiters) {cache : κ → Option τ}
    (hrunning : ∀ (r : ℕ) (t : SharedTask κ Failure τ) x, table.flights.tasks[r]? = some t →
      t.outcome = none → S.Running t.key (t.cancelling = true) x →
      S'.Running t.key (t.cancelling = true) x)
    (hloaded : ∀ k v, S.Loaded k v → S'.Loaded k v)
    (hcached : ∀ k v, cache k = some v → S'.Loaded k v) :
    Sound S' closed { table with cache := cache } waiters := by
  refine { h with
    running := fun r t x ht hx ho => hrunning r t x ht ho (h.running r t x ht hx ho)
    ended := fun r t o ht ho => ?_
    cached := hcached }
  have hres := h.ended r t o ht ho
  cases o with
  | ok v => exact hloaded _ _ hres
  | error e => exact hres

theorem mono (h : Sound S closed table waiters)
    (hrunning : ∀ k c x, S.Running k c x → S'.Running k c x)
    (hloaded : ∀ k v, S.Loaded k v → S'.Loaded k v) : Sound S' closed table waiters :=
  h.with_cache (fun _ _ _ _ _ => hrunning _ _ _) hloaded fun k v hv => hloaded k v (h.cached k v hv)

theorem close (h : Sound S closed table waiters) : Sound S true table waiters :=
  { h with shared := h.shared.close }

theorem revoke (h : Sound S closed table waiters) : Sound S true table.revoke waiters := by
  have hkeeps := Flights.Keeps.cancelAll table.flights
  refine ⟨h.shared.cancelAll, ?_, fun r t' x ht' hx ho => ?_, fun r t' o ht' ho => ?_,
    (fun k v hv => nomatch hv), h.keyed_of_keeps hkeeps, h.marked⟩
  · exact h.aligned.trans hkeeps.length.symm
  · obtain ⟨t, ht, hkey, ho', hc⟩ := hkeeps.task r t' ht'
    rw [hkey]
    exact S.cancel _ _ _ _ hc (h.running r t x ht hx (ho' ▸ ho))
  · obtain ⟨t, ht, hkey, ho', hc⟩ := hkeeps.task r t' ht'
    rw [hkey]
    exact Result.mono (h.ended r t o ht (ho' ▸ ho)) hc

theorem set_marked {wait : Wait Failure τ} {c : Bool} (h : Sound S closed table waiters)
    (hcache : table'.cache = table.cache) (hloads : table'.loads = table.loads)
    (hkeeps : table.flights.Keeps table'.flights)
    (hshared : Shared closed table'.flights ((waiters.map (·.wait)).set i wait))
    (hwait : ∀ r, wait ≠ .waiting r) (hmarked : (⟨some key, c, wait⟩ : Waiter κ τ).Marked → c = true) :
    Sound S closed table' (waiters.set i ⟨some key, c, wait⟩) :=
  h.set hcache hloads hkeeps hshared (fun r hr => absurd hr (hwait r)) hmarked

theorem continue_ (h : Sound S closed table waiters) (ht : table.flights.tasks[r]? = some t)
    {x : Proc Op Res (Except Failure τ)} (hx : S.Running t.key (t.cancelling = true) x) :
    Sound S closed { table with loads := table.loads.set r x } waiters := by
  refine { h with
    aligned := (List.length_set ..).trans h.aligned
    running := fun r' t' x' ht' hx' ho => ?_ }
  by_cases hr : r' = r
  · subst hr
    obtain rfl := Option.some.inj (ht.symm.trans ht')
    rw [List.getElem?_set_self (h.aligned ▸ (List.getElem?_eq_some_iff.mp ht).1)] at hx'
    cases hx'
    exact hx
  · rw [List.getElem?_set_ne (Ne.symm hr)] at hx'
    exact h.running r' t' x' ht' hx' ho

variable [DecidableEq κ]

theorem finished (h : Sound S closed table waiters) (hdone : Flights.isDone table.flights r = true) :
    Sound S closed (table.finished r) waiters := by
  have hkeeps := Flights.Keeps.clear table.flights r
  have hcache : (table.finished r).cache = table.cache := rfl
  refine h.of_keeps hcache rfl hkeeps (h.shared.clear fun t ht => ?_) (h.keyed_of_keeps hkeeps) h.marked
  simpa [Flights.isDone, ht] using hdone

/-- A read is started for a caller that waits for nothing. -/
theorem start (h : Sound S closed table waiters) (hp : waiters[i]? = some p)
    (hidle : ∀ r, p.wait.usage r = 0) (hnone : table.flights.current key = none)
    {x : Proc Op Res (Except Failure τ)} (hx : S.Running key False x) {c : Bool} :
    Sound S closed
      { table with flights := table.flights.start key, loads := table.loads ++ [x] }
      (waiters.set i ⟨some key, c, .waiting table.flights.tasks.length⟩) := by
  have hnew : ∀ {r' : ℕ} {t' : SharedTask κ Failure τ}, (table.flights.start key).tasks[r']? = some t' →
      table.flights.tasks[r']? = some t' ∨
        r' = table.flights.tasks.length ∧ t' = { key := key, waiters := 1 } := by
    intro r' t' ht'
    obtain ht | ⟨hlen, ht⟩ := getElem?_append_cases ht'
    · exact .inl ht
    · have hlt : r' < (table.flights.start key).tasks.length := (List.getElem?_eq_some_iff.mp ht').1
      rw [Flights.start, List.length_append, List.length_singleton] at hlt
      exact .inr ⟨by omega, List.mem_singleton.mp ht⟩
  have hold : ∀ {r' : ℕ} {t' : SharedTask κ Failure τ}, table.flights.tasks[r']? = some t' →
      (table.flights.start key).tasks[r']? = some t' := fun ht' =>
    (List.getElem?_append_left (List.getElem?_eq_some_iff.mp ht').1).trans ht'
  have hshared := h.shared.arrive (getElem?_wait hp) hidle key
  rw [Flights.arrive, hnone] at hshared
  refine ⟨by rwa [List.map_set], ?_, fun r' t' x' ht' hx' ho => ?_, fun r' t' o ht' ho => ?_, h.cached,
    fun q hq r' hr' => ?_, fun q hq hm => ?_⟩
  · simp [Flights.start, h.aligned]
  · obtain ht' | ⟨rfl, rfl⟩ := hnew ht'
    · have hlt := (List.getElem?_eq_some_iff.mp ht').1
      rw [List.getElem?_append_left (h.aligned ▸ hlt)] at hx'
      exact h.running r' t' x' ht' hx' ho
    · rw [← h.aligned, List.getElem?_concat_length] at hx'
      cases hx'
      exact S.cancel _ _ _ _ (fun hf => hf.elim) hx
  · obtain ht' | ⟨rfl, rfl⟩ := hnew ht'
    · exact h.ended r' t' o ht' ho
    · cases ho
  · obtain hq | rfl := List.mem_or_eq_of_mem_set hq
    · obtain ⟨t', ht', hkey⟩ := h.keyed q hq r' hr'
      exact ⟨t', hold ht', hkey⟩
    · cases hr'
      exact ⟨_, List.getElem?_concat_length, rfl⟩
  · obtain hq | rfl := List.mem_or_eq_of_mem_set hq
    · exact h.marked q hq hm
    · exact hm.elim

/-- `_pin` up to its suspension or result. -/
theorem pin (h : Sound S closed table waiters) (hp : waiters[i]? = some p)
    (hidle : ∀ r, p.wait.usage r = 0) {fetch : Program τ}
    (hfetch : closed = false → table.cache key = none → S.Running key False fetch.run) (c : Bool) :
    Sound S closed (table.pin closed key fetch).1
      (waiters.set i ⟨some key, c, (table.pin closed key fetch).2⟩) ∧
    (table.pin closed key fetch).1.cache = table.cache ∧
    ∀ res, (table.pin closed key fetch).2 = .returned res → S.Result key False res := by
  unfold PinTable.pin
  split
  · refine ⟨h.idle hp hidle rfl, rfl, fun res hres => ?_⟩
    cases hres
    exact fun he => nomatch he
  · rename_i hopen
    split
    · rename_i v hv
      refine ⟨h.idle hp hidle rfl, rfl, fun res hres => ?_⟩
      cases hres
      exact h.cached key v hv
    · rename_i hmiss
      obtain ⟨hnone, harrive⟩ | ⟨r, hr, hkeeps, hwait⟩ := table.flights.arrive_cases key
      · simp only [harrive, hnone, Option.isNone_none, if_true]
        exact ⟨h.start hp hidle hnone (hfetch (by simpa using hopen) hmiss), trivial,
          fun res hres => nomatch hres⟩
      · simp only [hr, Option.isNone_some, Bool.false_eq_true, if_false]
        have hcache : ({ table with flights := (table.flights.arrive key).1 } : PinTable κ τ).cache =
          table.cache := rfl
        have hkey : ∀ {t : SharedTask κ Failure τ}, table.flights.tasks[r]? = some t → t.key = key := by
          intro t ht
          obtain ⟨t', ht', hkey⟩ := h.shared.registered key r hr
          obtain rfl := Option.some.inj (ht.symm.trans ht')
          exact hkey
        refine ⟨h.set hcache rfl hkeeps (h.shared.arrive (getElem?_wait hp) hidle key) ?_ ?_, trivial, ?_⟩
        · obtain hwait | ⟨t, ht, -, hwait | ⟨o, -, hwait⟩⟩ := hwait
          · exact fun r' hr' => nomatch hwait.symm.trans hr'
          · intro r' hr'
            obtain ⟨t', ht', hkey'⟩ := hkeeps.exists_task ht
            obtain rfl := Wait.waiting.inj (hwait.symm.trans hr')
            exact ⟨t', ht', by rw [hkey', hkey ht]⟩
          · exact fun r' hr' => nomatch hwait.symm.trans hr'
        · intro hm
          obtain hwait | ⟨t, ht, -, hwait | ⟨o, -, hwait⟩⟩ := hwait
          all_goals
            rw [Waiter.Marked, hwait] at hm
            cases hm
        · intro res hres
          obtain hwait | ⟨t, ht, hc, hwait | ⟨o, ho, hwait⟩⟩ := hwait
          · cases hwait.symm.trans hres
          · cases hwait.symm.trans hres
          · obtain rfl := Wait.returned.inj (hwait.symm.trans hres)
            have hended := h.ended r t o ht ho
            rw [hkey ht] at hended
            exact Result.mono hended fun hs => by simp [hc] at hs

/-- A caller goes on when the task that it awaits has ended. -/
theorem wake (h : Sound S closed table waiters) (hp : waiters[i]? = some p) (hkey : p.key = some key)
    {fetch : Program τ}
    (hfetch : closed = false → table.cache key = none → S.Running key False fetch.run)
    {wait : Wait Failure τ} (hwake : table.wake closed key fetch p.wait = some (table', wait)) :
    Sound S closed table' (waiters.set i ⟨some key, p.cancelled, wait⟩) ∧
    table'.cache = table.cache ∧
    ∀ res, wait = .returned res → S.Result key (p.cancelled = true) res := by
  have hmem := List.mem_of_getElem? hp
  have hwait := getElem?_wait hp
  have hmarked := h.marked p hmem
  have hkeyed := h.keyed p hmem
  unfold Waiter.Marked at hmarked
  revert hwake
  unfold PinTable.wake
  split
  · rename_i r hr
    intro hwake
    obtain ⟨o, ho, hwake⟩ := Option.map_eq_some_iff.mp hwake
    obtain ⟨t, ht, ho⟩ := Option.bind_eq_some_iff.mp ho
    cases hwake
    rw [hr] at hwait
    refine ⟨h.set_marked rfl rfl (Flights.Keeps.take _ r (o.mapError (raisedWhileWaiting closed)))
      (h.shared.take hwait _) (fun _ hr' => nomatch hr') (fun hm => hm.elim), rfl, fun res hres => ?_⟩
    cases hres
    obtain ⟨t', ht', hk⟩ := hkeyed r hr
    obtain rfl := Option.some.inj (ht.symm.trans ht')
    obtain rfl := Option.some.inj (hkey.symm.trans hk)
    have hended := h.ended r t o ht ho
    cases o with
    | ok v => exact hended
    | error e =>
      intro hc
      cases e with
      | github code => cases hc
      | cancelled =>
        simp only [raisedWhileWaiting] at hc
        split at hc
        · cases hc
        · rename_i hopen
          have hnot := h.shared.not_cancelling (by simpa using hopen) hwait ht
          simp [hended rfl] at hnot
  · rename_i r c hr
    rw [hr] at hmarked
    intro hwake
    split at hwake
    · split at hwake
      · cases hwake
        refine ⟨h.idle hp (by simp [hr, Wait.usage]) rfl, rfl, fun res hres => ?_⟩
        cases hres
        exact fun _ => hmarked ‹_›
      · obtain ⟨hs, hcache, hres⟩ := h.pin hp (by simp [hr, Wait.usage]) hfetch p.cancelled
        rw [Option.some.inj hwake] at hs hcache hres
        exact ⟨hs, hcache, fun res hr => Result.mono (hres res hr) fun hf => hf.elim⟩
    · cases hwake
  · rename_i r failure hr
    rw [hr] at hmarked
    intro hwake
    split at hwake
    · cases hwake
      refine ⟨h.idle hp (by simp [hr, Wait.usage]) rfl, rfl, fun res hres => ?_⟩
      cases hres
      exact hmarked
    · cases hwake
  · intro hwake
    cases hwake

omit [DecidableEq κ] in
/-- A caller is cancelled. -/
theorem cancel (h : Sound S closed table waiters) (hp : waiters[i]? = some p)
    {wait : Wait Failure τ} (hcancel : table.cancel closed p.wait = some (table', wait)) :
    Sound S closed table' (waiters.set i ⟨some key, true, wait⟩) ∧ table'.cache = table.cache ∧
    ∀ res, wait = .returned res → S.Result key True res := by
  have hwait := getElem?_wait hp
  revert hcancel
  unfold PinTable.cancel
  split
  · rename_i r hr
    intro hcancel
    rw [hr] at hwait
    obtain ⟨rfl, rfl⟩ := Prod.mk.inj (Option.some.inj hcancel)
    obtain hleave | hleave := table.flights.leave_wait r (raisedWhileWaiting closed .cancelled)
    all_goals
      refine ⟨h.set_marked rfl rfl (Flights.Keeps.leave _ r (raisedWhileWaiting closed .cancelled))
        (h.shared.leave hwait _) (fun r' hr' => nomatch hleave.symm.trans hr') (fun _ => rfl), rfl,
        fun res hres => ?_⟩
    · cases hleave.symm.trans hres
    · obtain rfl := Wait.returned.inj (hleave.symm.trans hres)
      exact fun _ => trivial
  · rename_i r c hr
    intro hcancel
    rw [hr] at hwait
    cases hcancel
    exact ⟨h.set_marked rfl rfl (.cancel ..) (h.shared.cancel_stopping hwait rfl (fun _ => rfl) rfl)
      (fun _ hr' => nomatch hr') (fun _ => rfl), rfl, fun res hres => nomatch hres⟩
  · rename_i r failure hr
    intro hcancel
    rw [hr] at hwait
    cases hcancel
    exact ⟨h.set_marked rfl rfl (.cancel ..) (h.shared.cancel_stopping hwait rfl (fun _ => rfl) rfl)
      (fun _ hr' => nomatch hr') (fun _ => rfl), rfl, fun res hres => nomatch hres⟩
  · intro hcancel
    cases hcancel

/-- A read has ended. Its value is stored, so what is to hold of other keys may change. -/
theorem loaded (h : Sound S closed table waiters) (ht : table.flights.tasks[r]? = some t)
    (ho : t.outcome = none) {o : Except Failure τ}
    (hrunning : ∀ k c x, k ≠ t.key → S.Running k c x → S'.Running k c x)
    (hloaded : ∀ k v, S.Loaded k v → S'.Loaded k v)
    (hresult : closed = false → S'.Result t.key (t.cancelling = true) o)
    (hcancelled : o = .error .cancelled → t.cancelling = true) :
    Sound S' closed (table.loaded closed r t.key o) waiters := by
  have hsettle : ∀ (o' : Except Failure τ) (cache : κ → Option τ),
      S'.Result t.key (t.cancelling = true) o' → (∀ k v, cache k = some v → S'.Loaded k v) →
      Sound S' closed { table with cache := cache, flights := table.flights.settle r o' } waiters := by
    intro o' cache hres hcache
    have hget : ∀ {r' : ℕ} {t' : SharedTask κ Failure τ},
        (table.flights.settle r o').tasks[r']? = some t' →
        (r' = r ∧ t' = { t with outcome := some o' }) ∨ (r' ≠ r ∧ table.flights.tasks[r']? = some t') := by
      intro r' t' ht'
      by_cases hr : r = r'
      · subst hr
        simp only [Flights.settle, Flights.modify, List.getElem?_modify_eq, ht] at ht'
        exact .inl ⟨rfl, (Option.some.inj ht').symm⟩
      · simp only [Flights.settle, Flights.modify, List.getElem?_modify, if_neg hr] at ht'
        exact .inr ⟨Ne.symm hr, by simpa using ht'⟩
    refine ⟨h.shared.settle ht o', ?_, fun r' t' x ht' hx ho' => ?_, fun r' t' o'' ht' ho' => ?_, hcache,
      fun p hp r' hr' => ?_, h.marked⟩
    · simpa [Flights.settle, Flights.modify] using h.aligned
    · obtain ⟨-, rfl⟩ | ⟨hr, ht'⟩ := hget ht'
      · cases ho'
      · refine hrunning _ _ _ (fun hkey => hr ?_) (h.running r' t' x ht' hx ho')
        exact h.shared.running_eq ht' ht hkey ho' ho
    · obtain ⟨-, rfl⟩ | ⟨hr, ht'⟩ := hget ht'
      · cases ho'
        exact hres
      · have hended := h.ended r' t' o'' ht' ho'
        cases o'' with
        | ok v => exact hloaded _ _ hended
        | error e => exact hended
    · obtain ⟨t', ht', hkey⟩ := h.keyed p hp r' hr'
      by_cases hr : r = r'
      · subst hr
        obtain rfl := Option.some.inj (ht.symm.trans ht')
        exact ⟨_, Shared.modify_self ht _, hkey⟩
      · refine ⟨t', ?_, hkey⟩
        simpa [Flights.settle, Flights.modify, List.getElem?_modify, hr] using ht'
  have hcached : ∀ k v, table.cache k = some v → S'.Loaded k v := fun k v hv => hloaded k v (h.cached k v hv)
  unfold PinTable.loaded
  split
  · rename_i e
    exact hsettle (.error e) table.cache (fun he => hcancelled (by rw [he])) hcached
  · rename_i v
    split
    · exact hsettle _ table.cache (fun he => by cases he) hcached
    · rename_i hopen
      have hv := hresult (by simpa using hopen)
      refine hsettle (.ok v) _ hv fun k v' hk => ?_
      by_cases hkey : k = t.key
      · subst hkey
        rw [Function.update_self] at hk
        cases hk
        exact hv
      · rw [Function.update_of_ne hkey] at hk
        exact hcached k v' hk

end PinTable.Sound

end Soveren.GitHub
