import Mathlib.Algebra.Ring.Nat
import Soveren.Relational.Json

/-! The batching rule engine. The features of a message are read off its text by regular
expressions; `decideBatch` sees them as given. -/
namespace Soveren.Batching

structure MessageFeatures where
  isCommand : Bool := false
  hasQuestionMark : Bool := false
  hasImperative : Bool := false
  hasExplicitTarget : Bool := false
  hasContinuationMarker : Bool := false
  endsWithContinuationWord : Bool := false
  endsWithOpenPunctuation : Bool := false
  isShortDependentPhrase : Bool := false
  gapSFromPrev : Option Int := none
  deriving DecidableEq, Repr

structure BatchState where
  batchId : String
  tenantId : String
  channel : String
  sourceId : String
  messages : List Json
  features : List MessageFeatures
  now : Int
  firstMessageAt : Int
  lastMessageAt : Int
  messageCount : ℕ
  quietWindowS : Int
  maxWindowS : Int
  maxCount : Int
  deriving DecidableEq

namespace BatchState

def last (s : BatchState) : MessageFeatures := s.features.getLast?.getD {}

def quietElapsed (s : BatchState) : Bool := s.quietWindowS ≤ s.now - s.lastMessageAt

def maxWindowElapsed (s : BatchState) : Bool := s.maxWindowS ≤ s.now - s.firstMessageAt

def maxCountReached (s : BatchState) : Bool := s.maxCount ≤ s.messageCount

end BatchState

inductive DecisionKind where
  | wait | flush | forceFlush
  deriving DecidableEq, Repr

structure BatchRule where
  name : String
  decision : DecisionKind
  weight : ℕ
  reason : String
  predicate : BatchState → Bool

def rules : List BatchRule := [
  ⟨"immediate_command", .forceFlush, 100, "command/admin message", fun s => s.last.isCommand⟩,
  ⟨"max_window_elapsed", .forceFlush, 100, "max batch window elapsed", BatchState.maxWindowElapsed⟩,
  ⟨"max_count_reached", .forceFlush, 100, "max message count reached", BatchState.maxCountReached⟩,
  ⟨"continuation_marker", .wait, 35, "last message says more is coming",
    fun s => s.last.hasContinuationMarker⟩,
  ⟨"continuation_word", .wait, 25, "last message ends with a continuation word",
    fun s => s.last.endsWithContinuationWord⟩,
  ⟨"open_punctuation", .wait, 20, "last message ends with open punctuation",
    fun s => s.last.endsWithOpenPunctuation⟩,
  ⟨"short_dependent_phrase", .wait, 20, "last message is a dependent phrase",
    fun s => s.last.isShortDependentPhrase⟩,
  ⟨"rapid_same_source", .wait, 10, "messages are arriving rapidly",
    fun s => s.last.gapSFromPrev.any (· ≤ 1)⟩,
  ⟨"quiet_window_elapsed", .flush, 45, "quiet window elapsed", BatchState.quietElapsed⟩,
  ⟨"question", .flush, 15, "last message looks like a complete question",
    fun s => s.last.hasQuestionMark⟩,
  ⟨"imperative", .flush, 25, "last message contains an imperative request",
    fun s => s.last.hasImperative⟩,
  ⟨"explicit_target", .flush, 20, "last message has an explicit target/session/project",
    fun s => s.last.hasExplicitTarget⟩]

inductive BatchAction where
  | wait | flush
  deriving DecidableEq, Repr

structure BatchDecision where
  action : BatchAction
  waitScore : ℕ
  flushScore : ℕ
  matchedRules : List String := []
  reasons : List String := []
  deriving DecidableEq, Repr

/-- The summed weight of the rules with one of the decisions. -/
def score (decisions : List DecisionKind) (matched : List BatchRule) : ℕ :=
  ((matched.filter fun r => decisions.contains r.decision).map (·.weight)).sum

def decideBatch (state : Option BatchState) : BatchDecision :=
  match state with
  | none => ⟨.wait, 0, 0, [], []⟩
  | some s =>
    if s.messages = [] then ⟨.wait, 0, 0, [], []⟩
    else
      let matched := rules.filter fun r => r.predicate s
      let names := matched.map (·.name)
      let reasons := matched.map (·.reason)
      let waitScore := score [.wait] matched
      if matched.any fun r => r.decision = .forceFlush then
        ⟨.flush, waitScore, score [.flush, .forceFlush] matched, names, reasons⟩
      else
        let flushScore := score [.flush] matched
        let action := if waitScore ≤ flushScore && s.quietElapsed then .flush else .wait
        ⟨action, waitScore, flushScore, names, reasons⟩

/-- Only a batch with messages is flushed. -/
theorem messages_ne_nil_of_flush {s : BatchState} (h : (decideBatch (some s)).action = .flush) :
    s.messages ≠ [] := by
  intro hnil
  simp [decideBatch, hnil] at h

end Soveren.Batching
