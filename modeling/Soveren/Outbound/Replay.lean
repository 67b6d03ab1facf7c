import Soveren.Outbound.Ordering

/-! Which requests are replays of a stored message. Four formats of rows are in the table: those of the
current code, those without question generations in their fingerprint, those from before task references and
reply metadata, and those without a fingerprint. -/
namespace Soveren.Outbound
open Soveren.Relational Soveren.Conversation

/-- The fields of a request that its row keeps unchanged. The requested `run_after` is not among them: a
retry overwrites it. -/
structure Command where
  channel : String
  destinationId : String
  text : String
  payload : Json
  priority : Int
  maxAttempts : ℕ
  correlationId : Option String
  orderingKey : Option String
  orderingPosition : Option Int
  taskReference : Option OutboundTaskReference
  replyToMessageId : Option Int
  messageThreadId : Option Int
  deriving DecidableEq

def EnqueueArgs.command (a : EnqueueArgs) : Command where
  channel := a.channel
  destinationId := a.destinationId
  text := a.text
  payload := a.payload
  priority := a.priority
  maxAttempts := a.maxAttempts
  correlationId := a.correlationId
  orderingKey := a.orderingKey
  orderingPosition := a.orderingPosition
  taskReference := a.taskReference
  replyToMessageId := a.replyToMessageId
  messageThreadId := a.messageThreadId

def rowCommand (r : OutboundRow) : Command where
  channel := r.channel
  destinationId := r.destinationId
  text := r.text
  payload := r.payload
  priority := r.priority
  maxAttempts := r.maxAttempts
  correlationId := r.correlationId
  orderingKey := r.orderingKey
  orderingPosition := r.orderingPosition
  taskReference := r.taskReference
  replyToMessageId := r.replyToMessageId
  messageThreadId := r.messageThreadId

/-- The code that wrote a row. -/
inductive RowFormat where
  | current | beforeGenerations | beforeDialogue | beforeFingerprints
  deriving DecidableEq

namespace RowFormat

/-- The request as its row records it. -/
def recorded (f : RowFormat) (a : EnqueueArgs) : EnqueueArgs :=
  match f with
  | .beforeDialogue => { a with taskReference := none, replyToMessageId := none, messageThreadId := none }
  | .current | .beforeGenerations | .beforeFingerprints => a

def fingerprint (f : RowFormat) (a : EnqueueArgs) : Option Json :=
  match f with
  | .current => some a.fingerprint
  | .beforeGenerations => some a.legacyFingerprint
  | .beforeDialogue => some a.preDialogueFingerprint
  | .beforeFingerprints => none

def row (f : RowFormat) (a : EnqueueArgs) : OutboundRow :=
  { (f.recorded a).row with idempotencyFingerprint := f.fingerprint a }

/-- The second request is the first one, as far as the format recorded it. -/
def SameCommand (f : RowFormat) (a b : EnqueueArgs) : Prop :=
  (f.recorded a).command = b.command ∧ (f ≠ .beforeFingerprints → a.runAfter = b.runAfter)

instance (f : RowFormat) (a b : EnqueueArgs) : Decidable (f.SameCommand a b) :=
  inferInstanceAs (Decidable (_ ∧ _))

/-- The row of a request, whatever has become of its delivery. -/
structure Stores (f : RowFormat) (a : EnqueueArgs) (r : OutboundRow) : Prop where
  id : r.id = "out_" ++ a.messageHex
  scope : r.scope = a.scope
  key : r.idempotencyKey = a.idempotencyKey
  fingerprint : r.idempotencyFingerprint = f.fingerprint a
  command : rowCommand r = (f.recorded a).command

theorem stores_row (f : RowFormat) (a : EnqueueArgs) : f.Stores a (f.row a) := by
  cases f <;> exact ⟨rfl, rfl, rfl, rfl, rfl⟩

end RowFormat

section Fingerprints

variable {a b : EnqueueArgs}

theorem revisionJson_inj {m n : Option ℕ} (h : EnqueueArgs.revisionJson m = EnqueueArgs.revisionJson n) :
    m = n := by
  have hcast := Json.ofInt?_inj h
  match m, n with
  | none, none => rfl
  | none, some n => cases hcast
  | some m, none => cases hcast
  | some m, some n => rw [Int.ofNat_inj.mp (Option.some.inj hcast)]

/-- A reference is known by its four columns. -/
theorem reference_ext {x y : Option OutboundTaskReference}
    (htask : x.bind (·.taskId?) = y.bind (·.taskId?))
    (hrevision : x.bind (·.taskRevision?) = y.bind (·.taskRevision?))
    (hquestion : x.bind (·.questionId?) = y.bind (·.questionId?))
    (hgeneration : x.bind (·.questionRevision?) = y.bind (·.questionRevision?)) : x = y := by
  have hcolumns : ∀ z : OutboundTaskReference, z.taskId?.isSome ∨ z.questionId?.isSome := by
    intro z
    cases z <;> simp [OutboundTaskReference.taskId?, OutboundTaskReference.questionId?]
  match x, y with
  | none, none => rfl
  | none, some y =>
    simp only [Option.bind_none, Option.bind_some] at htask hquestion
    have := hcolumns y
    simp [← htask, ← hquestion] at this
  | some x, none =>
    simp only [Option.bind_none, Option.bind_some] at htask hquestion
    have := hcolumns x
    simp [htask, hquestion] at this
  | some (.task t n ht), some (.task u m hu) =>
    obtain rfl := Option.some.inj htask
    obtain rfl := Option.some.inj hrevision
    rfl
  | some (.question q n hq), some (.question p m hp) =>
    obtain rfl := Option.some.inj hquestion
    obtain rfl := Option.some.inj hgeneration
    rfl
  | some (.task _ _ _), some (.question _ _ _) => cases htask
  | some (.question _ _ _), some (.task _ _ _) => cases htask

theorem fingerprint_inj : a.fingerprint = b.fingerprint ↔ a.command = b.command ∧ a.runAfter = b.runAfter := by
  constructor
  · intro h
    simp only [EnqueueArgs.fingerprint, Soveren.idempotencyFingerprint, Json.obj.injEq, List.cons.injEq,
      Prod.mk.injEq, Json.str.injEq, Json.int.injEq, Int.ofNat_inj, true_and, and_true] at h
    obtain ⟨hchannel, hcorrelation, hdestination, hmax, hthread, hkey, hposition, hpayload, hpriority, hreply,
      hquestion, hgeneration, hafter, htask, hrevision, htext⟩ := h
    have href := reference_ext (Json.ofString?_inj htask) (revisionJson_inj hrevision)
      (Json.ofString?_inj hquestion) (revisionJson_inj hgeneration)
    refine ⟨?_, Json.ofInt?_inj hafter⟩
    simp only [EnqueueArgs.command, hchannel, hdestination, htext, hpayload, hpriority, hmax, href,
      Json.ofString?_inj hcorrelation, Json.ofString?_inj hkey, Json.ofInt?_inj hposition,
      Json.ofInt?_inj hthread, Json.ofInt?_inj hreply]
  · rintro ⟨hcommand, hafter⟩
    simp only [EnqueueArgs.command, Command.mk.injEq] at hcommand
    simp only [EnqueueArgs.fingerprint, EnqueueArgs.taskId, EnqueueArgs.taskRevision, EnqueueArgs.questionId,
      EnqueueArgs.questionRevision, hcommand, hafter]

/-- The fingerprint without the generation of a question fixes everything else. -/
theorem legacyFingerprint_inj : a.legacyFingerprint = b.legacyFingerprint ∧
    a.questionRevision = b.questionRevision ↔ a.command = b.command ∧ a.runAfter = b.runAfter := by
  rw [← fingerprint_inj]
  simp only [EnqueueArgs.fingerprint, EnqueueArgs.legacyFingerprint, Soveren.idempotencyFingerprint,
    Json.obj.injEq, List.cons.injEq, Prod.mk.injEq, true_and, and_true]
  constructor
  · rintro ⟨h, hgeneration⟩
    simp [h, hgeneration]
  · intro h
    exact ⟨by simp [h], revisionJson_inj h.2.2.2.2.2.2.2.2.2.2.2.1⟩

/-- Without task reference and reply metadata the oldest fingerprint fixes everything. -/
theorem preDialogueFingerprint_inj
    (ha : a.taskReference = none ∧ a.replyToMessageId = none ∧ a.messageThreadId = none)
    (hb : b.taskReference = none ∧ b.replyToMessageId = none ∧ b.messageThreadId = none) :
    a.preDialogueFingerprint = b.preDialogueFingerprint ↔ a.command = b.command ∧ a.runAfter = b.runAfter := by
  rw [← fingerprint_inj]
  simp [EnqueueArgs.fingerprint, EnqueueArgs.preDialogueFingerprint, Soveren.idempotencyFingerprint,
    EnqueueArgs.taskId, EnqueueArgs.taskRevision, EnqueueArgs.questionId, EnqueueArgs.questionRevision, ha, hb]

/-- The formats list different fields. -/
theorem fingerprint_ne_legacy : a.fingerprint ≠ b.legacyFingerprint := by
  simp [EnqueueArgs.fingerprint, EnqueueArgs.legacyFingerprint, Soveren.idempotencyFingerprint]

theorem fingerprint_ne_preDialogue : a.fingerprint ≠ b.preDialogueFingerprint := by
  simp [EnqueueArgs.fingerprint, EnqueueArgs.preDialogueFingerprint, Soveren.idempotencyFingerprint]

theorem legacy_ne_preDialogue : a.legacyFingerprint ≠ b.preDialogueFingerprint := by
  simp [EnqueueArgs.legacyFingerprint, EnqueueArgs.preDialogueFingerprint, Soveren.idempotencyFingerprint]

end Fingerprints

/-- Two requests agree in every field but the payload, and `==` takes the payload of the first for that of the
second. -/
def Command.alike (c d : Command) (ownNan : Bool) : Bool :=
  c.payload.equals ownNan d.payload && { c with payload := d.payload } = d

namespace RowFormat

variable {f : RowFormat} {a b : EnqueueArgs} {r : OutboundRow}

theorem hasNoFields_iff (h : rowCommand r = (RowFormat.beforeDialogue.recorded a).command) :
    hasNoDialogueOrReplyFields r b = true ↔
      b.taskReference = none ∧ b.replyToMessageId = none ∧ b.messageThreadId = none := by
  simp only [rowCommand, recorded, EnqueueArgs.command, Command.mk.injEq] at h
  simp [hasNoDialogueOrReplyFields, h, and_assoc]

/-- A row with a fingerprint is replayed by the command that it records, and by no other. -/
theorem replayMatches_iff (h : f.Stores a r) (hf : f ≠ .beforeFingerprints) :
    replayMatches r b = true ↔ f.SameCommand a b := by
  have hsame : f.SameCommand a b ↔ (f.recorded a).command = b.command ∧ a.runAfter = b.runAfter := by
    simp [SameCommand, hf]
  rw [hsame, replayMatches, h.fingerprint]
  cases f with
  | current =>
    simp only [fingerprint, recorded, fingerprint_ne_legacy, fingerprint_ne_preDialogue, ← fingerprint_inj]
    simp
  | beforeGenerations =>
    have hgeneration : r.questionRevision = a.questionRevision :=
      congrArg (fun c => c.taskReference.bind (·.questionRevision?)) h.command
    simp only [fingerprint, recorded, (fingerprint_ne_legacy).symm, legacy_ne_preDialogue, hgeneration,
      ← legacyFingerprint_inj]
    simp
  | beforeDialogue =>
    simp only [fingerprint, (fingerprint_ne_preDialogue).symm, (legacy_ne_preDialogue).symm, decide_false,
      Bool.false_and, Bool.or_false, Bool.false_or, Bool.and_eq_true, decide_eq_true_eq,
      hasNoFields_iff h.command]
    have hrecorded : a.preDialogueFingerprint = (RowFormat.beforeDialogue.recorded a).preDialogueFingerprint := rfl
    rw [hrecorded]
    constructor
    · rintro ⟨hnone, heq⟩
      exact (preDialogueFingerprint_inj ⟨rfl, rfl, rfl⟩ hnone).mp heq
    · rintro ⟨hcommand, hafter⟩
      have hnone : b.taskReference = none ∧ b.replyToMessageId = none ∧ b.messageThreadId = none :=
        ⟨(congrArg Command.taskReference hcommand).symm, (congrArg Command.replyToMessageId hcommand).symm,
          (congrArg Command.messageThreadId hcommand).symm⟩
      exact ⟨hnone, (preDialogueFingerprint_inj ⟨rfl, rfl, rfl⟩ hnone).mpr ⟨hcommand, hafter⟩⟩
  | beforeFingerprints => exact absurd rfl hf

/-- A row without a fingerprint is compared column by column. -/
theorem replayMatches_columns (h : RowFormat.beforeFingerprints.Stores a r) :
    replayMatches r b = a.command.alike b.command b.ownNan := by
  have hcommand : rowCommand r = a.command := h.command
  rw [← hcommand, replayMatches, h.fingerprint]
  simp only [fingerprint, storedJsonMatches, Command.alike, rowCommand, EnqueueArgs.command, Command.mk.injEq]
  rw [Bool.eq_iff_iff]
  simp only [Bool.and_eq_true, decide_eq_true_eq, true_and]
  tauto

/-- No call rewrites what a row records of its request. -/
theorem Stores.step {db : Tables} {call : Call} {s : OutboundRow} (h : f.Stores a r)
    (hstep : RowStep db call r s) : f.Stores a s := by
  have hsame := hstep.content
  have hcommand : rowCommand s = rowCommand r := by
    cases hstep with
    | swept h => cases h <;> rfl
    | @resolved resolution => cases resolution <;> rfl
    | suppressed h => obtain rfl | ⟨-, reason, now, rfl⟩ := h <;> rfl
    | same | leased | renewed | admitted | refused | sent | uncertain | dead | retried => rfl
  exact ⟨hsame.id.trans h.id, hsame.scope.trans h.scope, hsame.idempotencyKey.trans h.key,
    hsame.fingerprint.trans h.fingerprint, hcommand.trans h.command⟩

theorem stores_of_calls {db : Tables} (hd : Distinct db.outbound) (hrow : f.row a ∈ db.outbound)
    (calls : List Call) :
    Distinct (calls.foldl perform db).outbound ∧ ∃ r ∈ (calls.foldl perform db).outbound, f.Stores a r := by
  induction calls using List.reverseRecOn with
  | nil => exact ⟨hd, f.row a, hrow, stores_row f a⟩
  | append_singleton calls call ih =>
    obtain ⟨hd, r, hr, hstores⟩ := ih
    rw [List.foldl_append, List.foldl_cons, List.foldl_nil]
    obtain ⟨s, hs, hstep⟩ := (perform_outbound hd.ids call).exists_of_mem hr
    exact ⟨perform_distinct hd call, s, hs, hstores.step hstep⟩

/-- What an enqueue is to do that meets the row of another request under its key. -/
structure ReplaysExactly (f : RowFormat) (a b : EnqueueArgs) (db : Tables) : Prop where
  accepts : f.SameCommand a b → enqueueOutboundWithResult db b = .ok (db, ⟨"out_" ++ a.messageHex, false⟩)
  rejects : ¬ f.SameCommand a b → enqueueOutboundWithResult db b =
    .error (.idempotencyConflict "outbound message" b.idempotencyKey ("out_" ++ a.messageHex)) ∧
      perform db (.enqueue b) = db
  references : ∀ result, enqueueOutboundWithResult db b = .ok result →
    b.taskReference = (f.recorded a).taskReference ∧
      b.replyToMessageId = (f.recorded a).replyToMessageId ∧
      b.messageThreadId = (f.recorded a).messageThreadId

theorem enqueue_existing {db : Tables} (hd : Distinct db.outbound) (hr : r ∈ db.outbound) (h : f.Stores a r)
    (hscope : b.scope = a.scope) (hkey : b.idempotencyKey = a.idempotencyKey) (hb : b.validate = .ok ()) :
    enqueueOutboundWithResult db b = if replayMatches r b then .ok (db, ⟨"out_" ++ a.messageHex, false⟩)
      else .error (.idempotencyConflict "outbound message" b.idempotencyKey ("out_" ++ a.messageHex)) := by
  have hfound : byKey db.outbound b.scope b.idempotencyKey = some r := by
    obtain ⟨x, hx⟩ : ∃ x, byKey db.outbound b.scope b.idempotencyKey = some x := by
      rw [← Option.isSome_iff_exists, byKey, List.find?_isSome]
      exact ⟨r, hr, by simp [h.scope, h.key, hscope, hkey]⟩
    obtain ⟨hmem, hxscope, hxkey⟩ := byKey_some hx
    rw [hx, eq_of_key hd.keys hmem hr (by rw [hxscope, hxkey, h.scope, h.key, hscope, hkey])]
  simp only [enqueueOutboundWithResult, hb, hfound, requireOutboundReplay, requireIdempotentReplay, h.id]
  cases replayMatches r b <;> rfl

theorem references_of_command (h : (f.recorded a).command = b.command) :
    b.taskReference = (f.recorded a).taskReference ∧ b.replyToMessageId = (f.recorded a).replyToMessageId ∧
      b.messageThreadId = (f.recorded a).messageThreadId :=
  ⟨(congrArg Command.taskReference h).symm, (congrArg Command.replyToMessageId h).symm,
    (congrArg Command.messageThreadId h).symm⟩

/-- A request is taken for itself unless its payload has a NaN of its own. -/
theorem alike_self (c : Command) (ownNan : Bool) : c.alike c ownNan = !(ownNan && c.payload.hasNan) := by
  simp [Command.alike, Json.equals_self]

/-- The payloads of two requests for a row without a fingerprint are compared wrongly: they differ and `==` takes
them for equal, or they are the same and have a NaN, which `==` takes for another. -/
def Miscompared (a b : EnqueueArgs) : Prop :=
  (a.command ≠ b.command ∧ a.command.alike b.command b.ownNan = true) ∨
    (a.command = b.command ∧ b.ownNan = true ∧ b.payload.hasNan = true)

instance (a b : EnqueueArgs) : Decidable (Miscompared a b) :=
  inferInstanceAs (Decidable ((_ ∧ _) ∨ (_ ∧ _ ∧ _)))

theorem alike_iff (h : ¬ Miscompared a b) : a.command.alike b.command b.ownNan = true ↔ a.command = b.command := by
  constructor
  · intro halike
    by_contra hne
    exact h (.inl ⟨hne, halike⟩)
  · intro hsame
    rw [hsame, alike_self, Bool.not_eq_true', Bool.eq_false_iff]
    intro hnan
    rw [Bool.and_eq_true] at hnan
    exact h (.inr ⟨hsame, hnan⟩)

/-- A replay is accepted exactly for the original command, unless the row has no fingerprint and the payloads are
compared wrongly. -/
theorem replays_exactly_iff (f : RowFormat) (a b : EnqueueArgs) (hscope : b.scope = a.scope)
    (hkey : b.idempotencyKey = a.idempotencyKey) (hb : b.validate = .ok ()) (db : Tables)
    (hd : Distinct db.outbound) (hrow : f.row a ∈ db.outbound) (calls : List Call) :
    f.ReplaysExactly a b (calls.foldl perform db) ↔ ¬ (f = .beforeFingerprints ∧ Miscompared a b) := by
  obtain ⟨hd, r, hr, hstores⟩ := stores_of_calls hd hrow calls
  have henqueue := enqueue_existing hd hr hstores hscope hkey hb
  -- the same outcomes once it is known which requests match
  have hexact (hmatches : replayMatches r b = true ↔ f.SameCommand a b) :
      f.ReplaysExactly a b (calls.foldl perform db) := by
    refine ⟨fun hsame => ?_, fun hother => ?_, fun result hok => ?_⟩
    · rw [henqueue, if_pos (hmatches.mpr hsame)]
    · rw [if_neg (hmatches.not.mpr hother)] at henqueue
      exact ⟨henqueue, by rw [perform, henqueue]; rfl⟩
    · by_cases hreplay : replayMatches r b = true
      · exact references_of_command (hmatches.mp hreplay).1
      · rw [henqueue, if_neg hreplay] at hok
        cases hok
  by_cases hf : f = .beforeFingerprints
  · subst hf
    have hcolumns := replayMatches_columns (b := b) hstores
    have hsame : RowFormat.beforeFingerprints.SameCommand a b ↔ a.command = b.command := by
      simp [SameCommand, recorded]
    constructor
    · rintro hreplays ⟨-, ⟨hne, halike⟩ | ⟨heq, hnan⟩⟩
      · have hreject := (hreplays.rejects (hsame.not.mpr hne)).1
        rw [henqueue, if_pos (hcolumns.trans halike)] at hreject
        cases hreject
      · have haccept := hreplays.accepts (hsame.mpr heq)
        have hrefused : replayMatches r b = false := by
          rw [hcolumns, heq, alike_self]
          simpa [EnqueueArgs.command] using hnan
        rw [henqueue, hrefused, if_neg Bool.false_ne_true] at haccept
        cases haccept
    · intro hcond
      refine hexact ?_
      rw [hcolumns, hsame]
      exact alike_iff fun h => hcond ⟨rfl, h⟩
  · exact ⟨fun _ h => hf h.1, fun _ => hexact (replayMatches_iff hstores hf)⟩

def askQuestion (generation : ℕ) (payload : Json) (valid : 1 ≤ generation := by decide) : EnqueueArgs where
  messageHex := "1"
  tenantId := "t"
  sourceId := "chat"
  channel := "telegram"
  destinationId := "42"
  text := "which table"
  idempotencyKey := "ask"
  payload := payload
  taskReference := some (.question "q" generation ⟨by decide, valid⟩)
  now := 0

/-- A question is not sent again for another generation, also when its row is from before generations. -/
theorem replays_exactly_older_generation :
    enqueueOutboundWithResult
        { outbound := [RowFormat.beforeGenerations.row (askQuestion 1 (.obj []))] } (askQuestion 2 (.obj [])) =
      .error (.idempotencyConflict "outbound message" "ask" "out_1") := by
  have hreplays := (replays_exactly_iff .beforeGenerations (askQuestion 1 (.obj [])) (askQuestion 2 (.obj []))
    rfl rfl (by decide +kernel)
    { outbound := [RowFormat.beforeGenerations.row (askQuestion 1 (.obj []))] } (List.pairwise_singleton _ _)
    (List.mem_singleton_self _) []).mpr (by decide)
  exact (hreplays.rejects (by decide +kernel)).1

theorem truth_value_replays_one :
    (askQuestion 1 (.obj [("n", .int 1)])).command ≠ (askQuestion 1 (.obj [("n", .bool true)])).command ∧
    enqueueOutboundWithResult
        { outbound := [RowFormat.beforeFingerprints.row (askQuestion 1 (.obj [("n", .int 1)]))] }
        (askQuestion 1 (.obj [("n", .bool true)])) =
      .ok ({ outbound := [RowFormat.beforeFingerprints.row (askQuestion 1 (.obj [("n", .int 1)]))] },
        ⟨"out_1", false⟩) ∧
    ¬ RowFormat.beforeFingerprints.ReplaysExactly (askQuestion 1 (.obj [("n", .int 1)]))
        (askQuestion 1 (.obj [("n", .bool true)]))
        { outbound := [RowFormat.beforeFingerprints.row (askQuestion 1 (.obj [("n", .int 1)]))] } := by
  have hne : (askQuestion 1 (.obj [("n", .int 1)])).command ≠
      (askQuestion 1 (.obj [("n", .bool true)])).command := by decide +kernel
  have haccepts : enqueueOutboundWithResult
        { outbound := [RowFormat.beforeFingerprints.row (askQuestion 1 (.obj [("n", .int 1)]))] }
        (askQuestion 1 (.obj [("n", .bool true)])) =
      .ok ({ outbound := [RowFormat.beforeFingerprints.row (askQuestion 1 (.obj [("n", .int 1)]))] },
        ⟨"out_1", false⟩) := by
    rfl
  refine ⟨hne, haccepts, fun hreplays => ?_⟩
  have hreject := (hreplays.rejects fun h => hne h.1).1
  rw [haccepts] at hreject
  cases hreject

end RowFormat

end Soveren.Outbound
