import Mathlib.Data.String.Basic
import Mathlib.Data.List.Sort
import Mathlib.Data.List.Dedup
import Mathlib.Logic.Function.Basic
import Soveren.Relational.Text
import Soveren.Relational.Shell

/-! The batch helper that brings the platform's rules into the host's firewall chains: the canonical form of a
rule, the plan of deletes and inserts for a snapshot, and the helper's run on the host. -/
namespace Soveren.Firewall
open Soveren

/-- A rule as its tokens; a rule of a request starts with the name of its chain. -/
abbrev Rule := List String

instance Rule.lawful : LawfulBEq Rule := inferInstance

/-- Chains by name, each with its rules in order. -/
abbrev Chains := String → Option (List Rule)

/-- The exceptions of the helper; `main` reports all of them as one failed reconciliation. -/
inductive Failure
  | value (message : String)
  | runtime (message : String)
  | index
  | key
  | process
deriving Repr, DecidableEq

def maxChainBytes : ℕ := 1024 * 1024

section Canonical

/-- The rule without its first adjacent `-m tcp`. -/
def dropTcp : Rule → Option Rule
  | a :: b :: rest => if a = "-m" ∧ b = "tcp" then some rest else (dropTcp (b :: rest)).map (a :: ·)
  | _ => none

/-- The loop that drops `-m tcp` until none is left. -/
def stripTcp : ℕ → Rule → Rule
  | 0, rule => rule
  | n + 1, rule =>
    match dropTcp rule with
    | some rest => stripTcp n rest
    | none => rule

/-- `",".join(sorted(value.split(",")))`. -/
def sortStates (value : String) : String :=
  ",".intercalate (((value.toList.splitOn ',').map String.ofList).insertionSort (· ≤ ·))

/-- Sort the states of the next token; there is none after the last one. -/
def sortNext : Rule → Option Rule
  | [] => none
  | value :: rest => some (sortStates value :: rest)

/-- Sort the states after the first `--ctstate`. -/
def sortCtstate : Rule → Option Rule
  | [] => some []
  | token :: rest =>
    (if token = "--ctstate" then sortNext rest else sortCtstate rest).map (token :: ·)

/-- `_canonical`. -/
def canonical (rule : Rule) : Except Failure Rule :=
  match sortCtstate (stripTcp rule.length rule) with
  | some rule => .ok rule
  | none => .error .index

/-- `chain, *body = _canonical(rule)`. -/
def target (rule : Rule) : Except Failure (String × Rule) := do
  match ← canonical rule with
  | chain :: body => return (chain, body)
  | [] => throw (.value "not enough values to unpack")

end Canonical

section Plan

/-- A line of the update. -/
inductive Command
  | delete (chain : String) (body : Rule)
  | insert (chain : String) (body : Rule)
deriving Repr, DecidableEq

def Command.line : Command → String
  | .delete chain body => "-D " ++ Shell.join (chain :: body)
  | .insert chain body => "-I " ++ Shell.join (chain :: "1" :: body)

/-- One line of `iptables -S`: the rule it adds, or nothing for the chain's own line. -/
def readLine (form : Rule → Except Failure Rule) (chain line : String) :
    Except Failure (Option Rule) := do
  let tokens ← (Shell.split line).mapError fun
    | .noClosingQuotation => .value "No closing quotation"
    | .noEscapedCharacter => .value "No escaped character"
  if tokens.take 2 = ["-A", chain] then
    return some (← form (tokens.drop 2))
  else if tokens.take 2 = ["-P", chain] ∨ tokens.take 2 = ["-N", chain] then
    return none
  else throw (.value "unexpected host firewall chain response")

/-- The rules of a chain in its snapshot, each in the given form. -/
def readChain (form : Rule → Except Failure Rule) (chain snapshot : String) :
    Except Failure (List Rule) := do
  if chain ∉ ["INPUT", "DOCKER-USER"] ∨ Text.blank snapshot then
    throw (.value "required host firewall chain is unavailable")
  let entries ← (Shell.splitlines snapshot).mapM (readLine form chain)
  return entries.filterMap id

/-- `initial`: the snapshots with their rules in canonical form. -/
def readSnapshots (snapshots : List (String × String)) : Except Failure Chains := do
  let entries ← snapshots.mapM fun entry => do
    return (entry.1, ← readChain canonical entry.1 entry.2)
  return fun chain => entries.lookup chain

structure Planned where
  current : Chains
  commands : List Command
  created : List Bool

/-- `while body in current[chain]: current[chain].remove(body)`, with the commands it appends. -/
def deleteAll (chain : String) (body : Rule) : ℕ → List Rule × List Command → List Rule × List Command
  | 0, s => s
  | n + 1, s =>
    if body ∈ s.1 then deleteAll chain body n (s.1.erase body, s.2 ++ [.delete chain body]) else s

/-- `current[chain]`. -/
def lookup (current : Chains) (chain : String) : Except Failure (List Rule) :=
  match current chain with
  | some rules => .ok rules
  | none => .error .key

/-- One rule of the request: a rule that is there stays where it is unless it has to be first. -/
def planRule (s : Planned) (entry : Rule × Bool) : Except Failure Planned := do
  let (chain, body) ← target entry.1
  let rules ← lookup s.current chain
  let created := s.created ++ [decide (body ∉ rules)]
  if body ∈ rules ∧ entry.2 = false then
    return { s with created }
  let deleted := deleteAll chain body rules.length (rules, s.commands)
  return { current := Function.update s.current chain (some (body :: deleted.1))
           commands := deleted.2 ++ [.insert chain body]
           created }

def planRemoval (s : Planned) (rule : Rule) : Except Failure Planned := do
  let (chain, body) ← target rule
  let rules ← lookup s.current chain
  let deleted := deleteAll chain body rules.length (rules, s.commands)
  return { s with current := Function.update s.current chain (some deleted.1), commands := deleted.2 }

/-- `plan`: the update as text, empty when nothing changes, and which rules were missing. -/
def plan (rules : List (Rule × Bool)) (removals : List Rule) (snapshots : List (String × String)) :
    Except Failure (String × List Bool) := do
  let initial ← readSnapshots snapshots
  let s ← rules.foldlM planRule { current := initial, commands := [], created := [] }
  let s ← removals.foldlM planRemoval s
  if ∀ entry ∈ snapshots, s.current entry.1 = initial entry.1 then
    return ("", s.created)
  return ("*filter\n" ++ "\n".intercalate (s.commands.map Command.line) ++ "\nCOMMIT\n", s.created)

end Plan

section Host

/-- The canonical form of a rule of a chain, if it has one. -/
def form (rule : Rule) : Option Rule := (canonical rule).toOption

/-- A command on the host's chains: a delete takes the first rule with the command's canonical form, and
fails when there is none; an insert puts the rule at the head. -/
def Command.apply (host : Chains) : Command → Option Chains
  | .delete chain body => do
    let rules ← host chain
    if rules.any (form · = form body) then
      some (Function.update host chain (some (rules.eraseP (form · = form body))))
    else none
  | .insert chain body => do
    let rules ← host chain
    some (Function.update host chain (some (body :: rules)))

/-- A line of the update as the host reads it. -/
def Command.read (line : String) : Option Command :=
  match Shell.split line with
  | .ok (operation :: chain :: rest) =>
    if operation = "-D" then some (.delete chain rest)
    else if operation = "-I" ∧ rest.head? = some "1" then some (.insert chain rest.tail)
    else none
  | _ => none

/-- `iptables-restore --noflush` on the text of an update. -/
def restore (host : Chains) (update : String) : Option Chains :=
  let lines := Shell.splitlines update
  if lines.head? = some "*filter" ∧ lines.getLast? = some "COMMIT" then
    lines.tail.dropLast.foldlM (fun host line => (Command.read line).bind (Command.apply host)) host
  else none

/-- The update on the host: `main` runs nothing when it is empty. -/
def applyUpdate (host : Chains) (update : String) : Option Chains :=
  if update = "" then some host else restore host update

structure Request where
  rules : List (Rule × Bool)
  removals : List Rule

/-- The checks of `main` on one rule. -/
def checkRule (rule : Rule) : Except Failure Unit := do
  match rule with
  | [] => throw (.value "invalid firewall chain")
  | chain :: _ =>
    if chain ∉ ["DOCKER-USER", "INPUT"] then throw (.value "invalid firewall chain")
  if rule.any fun token => token.toList.isEmpty || token.toList.any Text.isSpace then
    throw (.value "invalid firewall token")

/-- The chains that a request names, in order. -/
def Request.chains (q : Request) : List String :=
  ((q.rules.map Prod.fst ++ q.removals).filterMap List.head?).dedup.insertionSort (· ≤ ·)

/-- The output of `iptables -S` for each chain; the host's own rendering is a parameter. -/
def observe (listing : String → List Rule → String) (host : Chains) (chains : List String) :
    Except Failure (List (String × String)) :=
  chains.mapM fun chain =>
    match host chain with
    | none => .error .process
    | some rules =>
      let output := listing chain rules
      if maxChainBytes < output.utf8ByteSize then
        .error (.value "host firewall response exceeds observation limit")
      else .ok (chain, output)

/-- `main` on a decoded request: the flags it prints, and the host's chains after it. -/
def main (listing : String → List Rule → String) (host : Chains) (q : Request) :
    Except Failure (List Bool × Chains) := do
  if ¬ (1 ≤ q.rules.length ∧ q.rules.length ≤ 16) ∨ 16 < q.removals.length then
    throw (.value "invalid firewall rule count")
  (q.rules.map Prod.fst ++ q.removals).forM checkRule
  let (update, created) ← plan q.rules q.removals (← observe listing host q.chains)
  let after ← (applyUpdate host update).elim (.error .process) .ok
  let (remaining, _) ← plan q.rules q.removals (← observe listing after q.chains)
  if remaining ≠ "" then throw (.runtime "host firewall verification failed")
  return (created, after)

end Host

end Soveren.Firewall
