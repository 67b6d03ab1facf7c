import Mathlib.Data.List.Infix
import Soveren.Dialogue.Agreement
import Soveren.Dialogue.Search
import Soveren.Dialogue.Transcript

/-! Reading the transcript of a task page by page, the newest page first, while calls append to it. -/
namespace Soveren.Dialogue
open Soveren.Relational Soveren.Conversation

structure DialogueTask where
  taskId : String
  scope : Scope
  title : String
  originalRequest : String
  status : TaskStatus
  revision : ℕ
  createdAt : Int
  updatedAt : Int
  deriving DecidableEq

structure DialogueMessage where
  messageId : String
  role : MessageRole
  actorId : Option String
  text : String
  occurredAt : Int
  inputId : Option String
  sourceMessageId : Option String
  deriving DecidableEq

structure DialogueTaskContext where
  task : DialogueTask
  messages : List DialogueMessage
  hasOlder : Bool
  nextBeforeMessageId : Option String
  deriving DecidableEq

/-- `_task`. -/
def task (row : TaskRow) : DialogueTask :=
  ⟨row.id, row.scope, row.title, row.originalRequest, row.status, row.revision, row.createdAt, row.updatedAt⟩

/-- `_message`. -/
def message (row : DialogueMessageRow) : DialogueMessage :=
  ⟨row.messageId, row.role, row.actorId, row.text, row.occurredAt, row.inputId, row.sourceMessageId⟩

section Queries

variable (db : Tables) (scope : Scope) (taskId : String)

/-- The messages with their `sequence`. -/
def numbered : List (DialogueMessageRow × ℕ) := db.messages.zipIdx

/-- The sequence of the message of an input that is assigned to the task. -/
def throughSequence (inputId : String) : Option ℕ :=
  if db.inputs.any fun i => isInput scope inputId i && i.taskId = some taskId then
    ((numbered db).find? fun m => m.1.scope = scope && m.1.inputId = some inputId).map (·.2)
  else none

def beforeSequence (messageId : String) : Option ℕ :=
  ((numbered db).find? fun m => m.1.scope = scope && m.1.taskId = taskId && m.1.messageId = messageId).map (·.2)

/-- A boundary that was asked for must be found; without one there is none. -/
def boundary (sequenceOf : String → Option ℕ) : Option String → Option (Option ℕ)
  | none => some none
  | some id => (sequenceOf id).map some

/-- The rows of the task before one sequence and, but for the assistant's, up to another. -/
def visible (before through : Option ℕ) (m : DialogueMessageRow × ℕ) : Bool :=
  m.1.scope = scope && m.1.taskId = taskId && (before.all fun n => m.2 < n) &&
    through.all fun n => m.1.role = .assistant || m.2 ≤ n

def getTaskContext (limit : Int) (beforeMessageId throughInputId : Option String) :
    Except StoreError (Option DialogueTaskContext) :=
  if !(1 ≤ limit && limit ≤ maxPageSize) then .error (.valueError "limit must be between 1 and 100")
  else match getTaskRow db scope taskId with
    | none => .ok none
    | some row => match boundary (throughSequence db scope taskId) throughInputId with
      | none => .ok none
      | some through => match boundary (beforeSequence db scope taskId) beforeMessageId with
        | none => .ok none
        | some before =>
          let rows := ((numbered db).filter (visible scope taskId before through)).reverse.take (limit + 1).toNat
          let hasOlder := limit < rows.length
          let messages := (rows.take limit.toNat).reverse.map fun m => message m.1
          .ok (some ⟨task row, messages, hasOlder,
            if hasOlder then messages.head?.map (·.messageId) else none⟩)

/-- The transcript that the first read is about. -/
def transcript (throughInputId : Option String) : List DialogueMessage :=
  match boundary (throughSequence db scope taskId) throughInputId with
  | none => []
  | some through => ((numbered db).filter (visible scope taskId none through)).map fun m => message m.1

end Queries

/-- The pages that a reader collects who follows the cursor, the newest first. The tables may be others at
each read. -/
inductive Follows (dbs : ℕ → Tables) (scope : Scope) (taskId : String) (limit : Int)
    (throughInputId : Option String) : ℕ → Option String → List (List DialogueMessage) → Prop
  | last {k : ℕ} {cursor : Option String} {page : DialogueTaskContext}
      (h : getTaskContext (dbs k) scope taskId limit cursor throughInputId = .ok (some page))
      (hlast : page.hasOlder = false) : Follows dbs scope taskId limit throughInputId k cursor [page.messages]
  | next {k : ℕ} {cursor : Option String} {page : DialogueTaskContext} {pages : List (List DialogueMessage)}
      (h : getTaskContext (dbs k) scope taskId limit cursor throughInputId = .ok (some page))
      (holder : page.hasOlder = true)
      (hrest : Follows dbs scope taskId limit throughInputId (k + 1) page.nextBeforeMessageId pages) :
      Follows dbs scope taskId limit throughInputId k cursor (page.messages :: pages)

section Appending

/-- The transcript is only appended to, and an input keeps its task. -/
structure Appends (db db' : Tables) : Prop where
  messages : db.messages <+: db'.messages
  inputs : ∀ scope inputId taskId, Holds scope db inputId (some taskId) none →
    Holds scope db' inputId (some taskId) none
  tasks : ∀ scope taskId, (getTaskRow db scope taskId).isSome → (getTaskRow db' scope taskId).isSome

theorem Appends.refl (db : Tables) : Appends db db := ⟨List.prefix_refl _, fun _ _ _ h => h, fun _ _ h => h⟩

theorem Appends.trans {db db' db'' : Tables} (h : Appends db db') (h' : Appends db' db'') : Appends db db'' :=
  ⟨h.messages.trans h'.messages, fun _ _ _ hold => h'.inputs _ _ _ (h.inputs _ _ _ hold),
    fun _ _ hrow => h'.tasks _ _ (h.tasks _ _ hrow)⟩

theorem prefix_of_grows {db db' : Tables} {P : DialogueMessageRow → Prop}
    (h : Grows (fun r s => s = r) P db.messages db'.messages) : db.messages <+: db'.messages := by
  obtain ⟨g, new, hmessages, hg, -⟩ := h
  refine ⟨new, ?_⟩
  rw [hmessages, List.map_congr_left hg, List.map_id']

theorem applyRoutes_holds {c : Application} {s : RouteState} {items : List DialogueInput}
    {result : RouteState × List (String × Assigned)} (hkeys : Keyed s.db)
    (h : applyRoutes c s items = .ok result) {inputId taskId : String} {scope : Scope}
    (hold : Holds scope s.db inputId (some taskId) none) :
    Holds scope result.1.db inputId (some taskId) none := by
  induction items generalizing s result with
  | nil =>
    obtain rfl := Except.ok.inj h
    exact hold
  | cons item items ih =>
    obtain ⟨r, hr, h⟩ := bind_eq_ok h
    obtain ⟨⟨s1, a⟩, h1, h⟩ := bind_eq_ok h
    obtain ⟨⟨s2, others⟩, h2, h⟩ := bind_eq_ok h
    obtain rfl := Except.ok.inj h
    have hkeys1 := (applyRoute_step h1).keys hkeys
    have hrest : Holds scope s2.db inputId (some taskId) none :=
      ih hkeys1 h2 (hold.step (applyRoute_routeStep hkeys h1))
    exact hrest

theorem applyDialoguePlan_appends {c : Application} {db : Tables} {r : Tables × DialoguePlanResult}
    (hkeys : Keyed db) (h : applyDialoguePlan c db = .ok r) : Appends db r.1 := by
  have hstep := applyDialoguePlan_step h
  refine ⟨prefix_of_grows hstep.messages, fun scope inputId taskId hold => ?_, fun scope taskId hrow => ?_⟩
  · obtain hsame | hcommit := applyDialoguePlan_ok h
    · rw [hsame]
      exact hold
    · obtain ⟨s, assigned, hroutes, -, -, -, hinsert⟩ := commitPlan_ok hcommit
      obtain ⟨hdb, -⟩ := insertPlan_ok hinsert
      rw [hdb]
      exact applyRoutes_holds hkeys hroutes hold
  · obtain ⟨row, hrow⟩ := Option.isSome_iff_exists.mp hrow
    obtain ⟨row', hrow', -⟩ := getTaskRow_step hstep hrow
    simp [hrow']

theorem perform_appends {db : Tables} (hid : (db.outbound.map (·.id)).Nodup) (hkeys : Keyed db) (call : Call) :
    Appends db (perform db call) := by
  generalize hdb : perform db call = db'
  have hperformed := perform_performed hid call
  rw [hdb] at hperformed
  cases hperformed with
  | same => exact .refl db
  | outbound h rows => exact ⟨List.prefix_refl _, fun _ _ _ h => h, fun _ _ h => h⟩
  | resolved hr hs hh => exact ⟨List.prefix_refl _, fun _ _ _ h => h, fun _ _ h => h⟩
  | planned h => exact applyDialoguePlan_appends hkeys h
  | sent hr hh hrec hproj =>
    refine ⟨?_, fun scope inputId taskId hold => ?_, fun scope taskId hrow => ?_⟩
    · obtain ⟨-, hm⟩ | ⟨_, _, _, -, hm, -⟩ := hproj.messages
      · rw [hm]
      · rw [hm]
        exact List.prefix_append _ _
    · rwa [Holds, hproj.inputs]
    · obtain ⟨row, hrow⟩ := Option.isSome_iff_exists.mp hrow
      obtain ⟨row', hrow', -⟩ := (Performed.sent hr hh hrec hproj).dialogue.getTaskRow hrow
      simp [hrow']

theorem runCalls_appends (pre post : List Call) : Appends (runCalls pre) (runCalls (pre ++ post)) := by
  induction post using List.reverseRecOn with
  | nil => simpa using Appends.refl (runCalls pre)
  | append_singleton post call ih =>
    rw [← List.append_assoc, runCalls_snoc]
    exact ih.trans (perform_appends (runCalls_distinct _).ids (runCalls_keyed _) call)

end Appending

section Numbers

variable {db db' : Tables} {scope : Scope} {taskId : String}

theorem numbered_isPrefix (h : Appends db db') : numbered db <+: numbered db' := by
  obtain ⟨new, hnew⟩ := h.messages
  refine ⟨new.zipIdx db.messages.length, ?_⟩
  rw [numbered, numbered, ← hnew, List.zipIdx_append]
  simp

theorem numbered_sorted (db : Tables) : (numbered db).Pairwise fun x y => x.2 < y.2 := by
  have hrange : ((numbered db).map (·.2)).Pairwise (· < ·) := by
    have hsnd : (numbered db).map (·.2) = List.range' 0 db.messages.length := List.zipIdx_map_snd 0 db.messages
    rw [hsnd]
    exact List.pairwise_lt_range'
  exact List.pairwise_map.mp hrange

/-- The rows before a row of the list are those with a smaller sequence. -/
theorem filter_before {l pre post : List (DialogueMessageRow × ℕ)} {m : DialogueMessageRow × ℕ}
    (hsorted : l.Pairwise fun x y => x.2 < y.2) (hl : l = pre ++ m :: post) :
    l.filter (fun x => decide (x.2 < m.2)) = pre := by
  rw [hl, List.pairwise_append, List.pairwise_cons] at hsorted
  obtain ⟨-, ⟨hpost, -⟩, hpre⟩ := hsorted
  rw [hl, List.filter_append, List.filter_cons_of_neg (by simp)]
  have hbefore : pre.filter (fun x => decide (x.2 < m.2)) = pre :=
    List.filter_eq_self.mpr fun x hx => by simpa using hpre x hx m (by simp)
  have hafter : post.filter (fun x => decide (x.2 < m.2)) = [] :=
    List.filter_eq_nil_iff.mpr fun x hx => by simpa using (hpost x hx).le
  rw [hbefore, hafter, List.append_nil]

/-- What was appended later is not before a row that was there. -/
theorem filter_visible (h : Appends db db') {through : Option ℕ} {m : DialogueMessageRow × ℕ}
    (hm : m ∈ numbered db) :
    (numbered db').filter (visible scope taskId (some m.2) through) =
      ((numbered db).filter (visible scope taskId none through)).filter fun x => decide (x.2 < m.2) := by
  obtain ⟨new, hnew⟩ := numbered_isPrefix h
  have hsorted := numbered_sorted db'
  rw [← hnew, List.pairwise_append] at hsorted
  have hlate : new.filter (visible scope taskId (some m.2) through) = [] := by
    refine List.filter_eq_nil_iff.mpr fun x hx hvisible => ?_
    simp only [visible, Bool.and_eq_true, Option.all_some, decide_eq_true_eq] at hvisible
    exact absurd hvisible.1.2 (hsorted.2.2 m hm x hx).le.not_gt
  rw [← hnew, List.filter_append, hlate, List.append_nil, List.filter_filter]
  refine List.filter_congr fun x _ => ?_
  simp only [visible, Option.all_some, Option.all_none, Bool.and_true]
  cases decide (x.2 < m.2) <;> simp

theorem messageKeys_nodup (h : Keyed db) :
    ((numbered db).map fun m => (m.1.scope, m.1.messageId)).Nodup := by
  have hrows : ((numbered db).map (·.1)).Pairwise fun m n => n.conflicts m = false := by
    have hfst : (numbered db).map (·.1) = db.messages := List.zipIdx_map_fst 0 db.messages
    rw [hfst]
    exact h.messages
  rw [List.Nodup, List.pairwise_map]
  refine (List.pairwise_map.mp hrows).imp fun {x y} hxy he => ?_
  simp [DialogueMessageRow.conflicts, (Prod.mk.inj he).1, (Prod.mk.inj he).2] at hxy

/-- A cursor is mapped back to the sequence of its row. -/
theorem beforeSequence_eq (hkeys : Keyed db) {m : DialogueMessageRow × ℕ} (hm : m ∈ numbered db)
    (hscope : m.1.scope = scope) (htask : m.1.taskId = taskId) :
    beforeSequence db scope taskId m.1.messageId = some m.2 := by
  unfold beforeSequence
  cases hfind : (numbered db).find? fun x => x.1.scope = scope && x.1.taskId = taskId &&
      x.1.messageId = m.1.messageId with
  | none => exact absurd (List.find?_eq_none.mp hfind m hm) (by simp [hscope, htask])
  | some x =>
    have hx := List.find?_some hfind
    simp only [Bool.and_eq_true, decide_eq_true_eq] at hx
    rw [eq_of_key (messageKeys_nodup hkeys) (List.mem_of_find?_eq_some hfind) hm
      (by rw [hx.1.1, hx.2, hscope])]
    rfl

theorem throughSequence_appends (h : Appends db db') {inputId : String} {n : ℕ}
    (hn : throughSequence db scope taskId inputId = some n) :
    throughSequence db' scope taskId inputId = some n := by
  unfold throughSequence at hn ⊢
  split at hn
  · rename_i hany
    obtain ⟨i, hi, hin⟩ := List.any_eq_true.mp hany
    simp only [Bool.and_eq_true, decide_eq_true_eq] at hin
    obtain ⟨i', hi', hin', htask', -⟩ := h.inputs scope inputId taskId ⟨i, hi, hin.1, hin.2, by simp⟩
    rw [if_pos (List.any_eq_true.mpr ⟨i', hi', by simp [hin', htask']⟩)]
    obtain ⟨m, hm, hmn⟩ := Option.map_eq_some_iff.mp hn
    obtain ⟨new, hnew⟩ := numbered_isPrefix h
    rw [← hnew, List.find?_append, hm, Option.some_or, Option.map_some, hmn]
  · cases hn

theorem boundary_appends (h : Appends db db') {throughInputId : Option String} {through : Option ℕ}
    (hn : boundary (throughSequence db scope taskId) throughInputId = some through) :
    boundary (throughSequence db' scope taskId) throughInputId = some through := by
  cases throughInputId with
  | none => exact hn
  | some id =>
    obtain ⟨n, hid, rfl⟩ := Option.map_eq_some_iff.mp hn
    simp [boundary, throughSequence_appends h hid]

end Numbers

section Pages

variable {scope : Scope} {taskId : String} {limit : Int} {throughInputId : Option String}

/-- One page is the end of the rows that it is taken from. -/
theorem getTaskContext_page {db : Tables} (hlimit : 1 ≤ limit) (hmax : limit ≤ maxPageSize) {row : TaskRow}
    (hrow : getTaskRow db scope taskId = some row) {before through : Option ℕ} {cursor : Option String}
    (hthrough : boundary (throughSequence db scope taskId) throughInputId = some through)
    (hbefore : boundary (beforeSequence db scope taskId) cursor = some before)
    {xs : List (DialogueMessageRow × ℕ)}
    (hxs : (numbered db).filter (visible scope taskId before through) = xs) :
    getTaskContext db scope taskId limit cursor throughInputId = .ok (some ⟨task row,
      (xs.drop (xs.length - limit.toNat)).map fun m => message m.1, limit < xs.length,
      if limit < xs.length then (xs.drop (xs.length - limit.toNat)).head?.map (·.1.messageId) else none⟩) := by
  have hpage : ((xs.reverse.take (limit + 1).toNat).take limit.toNat).reverse =
      xs.drop (xs.length - limit.toNat) := by
    rw [List.take_take, min_eq_left (by omega), List.take_reverse, List.reverse_reverse]
  have holder : limit < ((xs.reverse.take (limit + 1).toNat).length : Int) ↔ limit < xs.length := by
    rw [List.length_take, List.length_reverse]
    omega
  simp only [getTaskContext, hlimit, hmax, hrow, hthrough, hbefore, hxs, hpage, holder]
  simp only [decide_true, Bool.and_self, Bool.not_true, Bool.false_eq_true, if_false, List.head?_map,
    Option.map_map]
  rfl

theorem transcript_nodup {db : Tables} (hkeys : Keyed db) :
    ((transcript db scope taskId throughInputId).map (·.messageId)).Nodup := by
  unfold transcript
  split
  · exact List.nodup_nil
  · rename_i through _
    have hkeyed := (messageKeys_nodup hkeys).sublist
      ((List.filter_sublist (p := visible scope taskId none through)).map _)
    rw [List.map_map, List.Nodup, List.pairwise_map]
    refine (List.pairwise_map.mp hkeyed).imp_of_mem fun {x y} hx hy hne he => hne ?_
    -- the rows are of one scope, so their keys differ by the message
    simp only [List.mem_filter, visible, Bool.and_eq_true, decide_eq_true_eq] at hx hy
    exact Prod.ext (hx.2.1.1.1.trans hy.2.1.1.1.symm) he

/-- Where a reader stands: the rows that are still to be read come first in the transcript, and the cursor
names the row after them. -/
def StandsAt (rows : List (DialogueMessageRow × ℕ)) (k : ℕ) (cursor : Option String)
    (rest : List (DialogueMessageRow × ℕ)) : Prop :=
  (k = 0 ∧ cursor = none ∧ rest = rows) ∨
    ∃ m post, cursor = some m.1.messageId ∧ rows = rest ++ m :: post

variable {dbs : ℕ → Tables}

theorem read_page (hkeys : ∀ k, Keyed (dbs k)) (happends : ∀ k, Appends (dbs 0) (dbs k))
    (hlimit : 1 ≤ limit) (hmax : limit ≤ maxPageSize) (htask : (getTaskRow (dbs 0) scope taskId).isSome)
    {through : Option ℕ} (hthrough : boundary (throughSequence (dbs 0) scope taskId) throughInputId = some through)
    {k : ℕ} {cursor : Option String} {rest : List (DialogueMessageRow × ℕ)}
    (hat : StandsAt ((numbered (dbs 0)).filter (visible scope taskId none through)) k cursor rest) :
    ∃ page, getTaskContext (dbs k) scope taskId limit cursor throughInputId = .ok (some page) ∧
      page.messages = (rest.drop (rest.length - limit.toNat)).map (fun m => message m.1) ∧
      page.hasOlder = decide (limit < rest.length) ∧
      (limit < rest.length →
        page.nextBeforeMessageId = (rest.drop (rest.length - limit.toNat)).head?.map (·.1.messageId)) := by
  obtain ⟨row, hrow⟩ := Option.isSome_iff_exists.mp ((happends k).tasks scope taskId htask)
  have hthrough' := boundary_appends (happends k) hthrough
  obtain ⟨rfl, rfl, rfl⟩ | ⟨m, post, rfl, hrows⟩ := hat
  · refine ⟨_, getTaskContext_page hlimit hmax hrow hthrough' rfl rfl, rfl, rfl, fun h => if_pos h⟩
  · have hmem : m ∈ (numbered (dbs 0)).filter (visible scope taskId none through) := by simp [hrows]
    obtain ⟨hin, hvisible⟩ := List.mem_filter.mp hmem
    simp only [visible, Bool.and_eq_true, decide_eq_true_eq] at hvisible
    have hbefore : boundary (beforeSequence (dbs k) scope taskId) (some m.1.messageId) = some (some m.2) := by
      have hcursor := beforeSequence_eq (hkeys k) ((numbered_isPrefix (happends k)).subset hin)
        hvisible.1.1.1 hvisible.1.1.2
      simp [boundary, hcursor]
    have hfilter : (numbered (dbs k)).filter (visible scope taskId (some m.2) through) = rest := by
      rw [filter_visible (happends k) hin, filter_before ((numbered_sorted (dbs 0)).filter _) hrows]
    exact ⟨_, getTaskContext_page hlimit hmax hrow hthrough' hbefore hfilter, rfl, rfl, fun h => if_pos h⟩

theorem follows_rest (hkeys : ∀ k, Keyed (dbs k)) (happends : ∀ k, Appends (dbs 0) (dbs k))
    (hlimit : 1 ≤ limit) (hmax : limit ≤ maxPageSize) (htask : (getTaskRow (dbs 0) scope taskId).isSome)
    {through : Option ℕ} (hthrough : boundary (throughSequence (dbs 0) scope taskId) throughInputId = some through)
    {k : ℕ} {cursor : Option String} {rest : List (DialogueMessageRow × ℕ)}
    (hat : StandsAt ((numbered (dbs 0)).filter (visible scope taskId none through)) k cursor rest) :
    (∃ pages, Follows dbs scope taskId limit throughInputId k cursor pages) ∧
      ∀ pages, Follows dbs scope taskId limit throughInputId k cursor pages →
        pages.reverse.flatten = rest.map fun m => message m.1 := by
  induction hn : rest.length using Nat.strong_induction_on generalizing rest k cursor with
  | _ n ih =>
    obtain ⟨page, hread, hmessages, holder, hnext⟩ := read_page hkeys happends hlimit hmax htask hthrough hat
    by_cases hmore : limit < rest.length
    · -- the rows of this page come after those that are still to be read
      have hsplit := List.take_append_drop (rest.length - limit.toNat) rest
      obtain ⟨m, tail, hdrop⟩ : ∃ m tail, rest.drop (rest.length - limit.toNat) = m :: tail := by
        refine List.exists_cons_of_ne_nil fun hnil => ?_
        have hlen := congrArg List.length hnil
        rw [List.length_drop, List.length_nil] at hlen
        omega
      have hcursor : page.nextBeforeMessageId = some m.1.messageId := by rw [hnext hmore, hdrop]; rfl
      have hat' : StandsAt ((numbered (dbs 0)).filter (visible scope taskId none through)) (k + 1)
          page.nextBeforeMessageId (rest.take (rest.length - limit.toNat)) := by
        rw [hdrop] at hsplit
        obtain ⟨-, -, rfl⟩ | ⟨m', post, -, hrows⟩ := hat
        · exact .inr ⟨m, tail, hcursor, hsplit.symm⟩
        · refine .inr ⟨m, tail ++ m' :: post, hcursor, ?_⟩
          calc _ = rest ++ m' :: post := hrows
            _ = (rest.take (rest.length - limit.toNat) ++ m :: tail) ++ m' :: post := by rw [hsplit]
            _ = rest.take (rest.length - limit.toNat) ++ m :: (tail ++ m' :: post) := by simp
      have hlt : (rest.take (rest.length - limit.toNat)).length < n := by
        rw [List.length_take]
        omega
      obtain ⟨⟨pages, hpages⟩, hall⟩ := ih _ hlt hat' rfl
      refine ⟨⟨_, .next hread (by simp [holder, hmore]) hpages⟩, fun pages' hfollows => ?_⟩
      cases hfollows with
      | last h hlast =>
        obtain rfl := Option.some.inj (Except.ok.inj (hread.symm.trans h))
        simp [holder, hmore] at hlast
      | next h _ hrest =>
        obtain rfl := Option.some.inj (Except.ok.inj (hread.symm.trans h))
        rw [List.reverse_cons, List.flatten_append, hall _ hrest, hmessages, List.flatten_singleton,
          ← List.map_append, hsplit]
    · refine ⟨⟨_, .last hread (by simp [holder, hmore])⟩, fun pages' hfollows => ?_⟩
      cases hfollows with
      | last h hlast =>
        obtain rfl := Option.some.inj (Except.ok.inj (hread.symm.trans h))
        rw [hmessages, show rest.length - limit.toNat = 0 by omega]
        simp
      | next h hmore' _ =>
        obtain rfl := Option.some.inj (Except.ok.inj (hread.symm.trans h))
        simp [holder, hmore] at hmore'

end Pages

/-- The tables at each read of a reader, when the calls of one list are made before the next read. -/
def readTables (calls : List Call) (between : ℕ → List Call) (k : ℕ) : Tables :=
  runCalls (calls ++ (List.range k).flatMap between)

/-- A reader who follows the cursor reaches the oldest page, and its pages make up the transcript as it was
at the first read. -/
theorem paging_reads_transcript (calls : List Call) (between : ℕ → List Call) (scope : Scope) (taskId : String)
    (limit : Int) (hlimit : 1 ≤ limit) (hmax : limit ≤ maxPageSize) (throughInputId : Option String)
    (htask : (getTaskRow (runCalls calls) scope taskId).isSome)
    (hthrough : (boundary (throughSequence (runCalls calls) scope taskId) throughInputId).isSome) :
    (∃ pages, Follows (readTables calls between) scope taskId limit throughInputId 0 none pages) ∧
      ∀ pages, Follows (readTables calls between) scope taskId limit throughInputId 0 none pages →
        pages.reverse.flatten = transcript (runCalls calls) scope taskId throughInputId ∧
          (pages.reverse.flatten.map (·.messageId)).Nodup := by
  have hfirst : readTables calls between 0 = runCalls calls := by simp [readTables]
  have hkeys : ∀ k, Keyed (readTables calls between k) := fun k => runCalls_keyed _
  have happends : ∀ k, Appends (readTables calls between 0) (readTables calls between k) := by
    intro k
    rw [hfirst]
    exact runCalls_appends calls _
  obtain ⟨through, hthrough⟩ := Option.isSome_iff_exists.mp hthrough
  have htranscript : transcript (runCalls calls) scope taskId throughInputId =
      ((numbered (runCalls calls)).filter (visible scope taskId none through)).map fun m => message m.1 := by
    rw [transcript, hthrough]
  rw [← hfirst] at htask hthrough htranscript
  obtain ⟨hreads, hall⟩ := follows_rest hkeys happends hlimit hmax htask hthrough (.inl ⟨rfl, rfl, rfl⟩)
  refine ⟨hreads, fun pages hfollows => ?_⟩
  have hpages : pages.reverse.flatten = transcript (runCalls calls) scope taskId throughInputId := by
    rw [hall pages hfollows, ← htranscript, hfirst]
  exact ⟨hpages, hpages ▸ transcript_nodup (runCalls_keyed calls)⟩

theorem extending_present : ["2", "user", "telegram", "a table"].all (!Text.blank ·) = true := by
  decide

def extendingInput : DialogueInput := taskInput "2" extending_present

theorem extending_trusted : Text.blank "t" = false ∧ Text.blank "chat" = false := by
  decide

def extendTask : Application where
  plan :=
    { planId := "extend"
      scope := ⟨"t", "chat"⟩
      inputs := [extendingInput]
      routes := [{ inputId := "2", action := .attach, taskId := some "task_1" }]
      trusted := extending_trusted }
  now := 3
  draw := id

/-- Another message of the user arrives between the reads. -/
theorem paging_reads_confirmed :
    (runCalls confirmedCalls).messages.length = 2 ∧
    (runCalls (confirmedCalls ++ [.applyPlan extendTask])).messages.length = 3 ∧
    (transcript (runCalls confirmedCalls) ⟨"t", "chat"⟩ "task_1" (some "1")).map (·.messageId) =
      ["input_1", "outbound_out_1"] ∧
    ∃ pages, Follows (readTables confirmedCalls fun _ => [.applyPlan extendTask]) ⟨"t", "chat"⟩ "task_1" 1
        (some "1") 0 none pages ∧
      pages.reverse.flatten = transcript (runCalls confirmedCalls) ⟨"t", "chat"⟩ "task_1" (some "1") := by
  have hread := paging_reads_transcript confirmedCalls (fun _ => [.applyPlan extendTask]) ⟨"t", "chat"⟩
    "task_1" 1 (by decide) (by decide) (some "1") (by decide +kernel) (by decide +kernel)
  obtain ⟨⟨pages, hpages⟩, hall⟩ := hread
  exact ⟨by decide +kernel, by decide +kernel, by decide +kernel, pages, hpages, (hall pages hpages).1⟩

end Soveren.Dialogue
