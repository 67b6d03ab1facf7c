import Soveren.GitHub.Pinning

/-! Reads stay within the granted history, if the provider answers truthfully about it. -/
namespace Soveren.GitHub
open Soveren.Process Soveren.Async Soveren.Run Soveren.Conversation

/-- Every snapshot and every commit that a result describes lies in the granted history, and the
result comes from a grant of its operation. -/
structure System.WithinGrants (g : CommitGraph) (access : GitHubAccess) (s : System) : Prop where
  snapshots : ∀ repository commit snap, s.connector.snapshots (repository, commit) = some snap →
    s.Granted g access repository commit
  results : ∀ call ∈ s.calls, ∀ r, call.outcome = some (.ok r) →
    call.grant ∈ access.repositories ∧ call.operation ∈ call.grant.operations ∧
      ∀ p ∈ r.described, p.1 = call.grant.repository ∧ s.Granted g access p.1 p.2

theorem System.Sound.withinGrants {g : CommitGraph} {access : GitHubAccess} {U : Prop} {s : System}
    (h : s.Sound g access True U) : s.WithinGrants g access where
  snapshots repository commit snap hsnap := (h.connector.snapshots repository commit snap hsnap).2.2 trivial
  results call hcall r hr := by
    have hsound := h.calls call hcall
    have hdescribes := hsound.outcome _ hr
    refine ⟨hsound.grant, hsound.operation, fun p hp => ?_⟩
    cases r with
    | ref ref snap =>
      obtain rfl := List.mem_singleton.mp hp
      obtain ⟨-, hrepository, hgranted⟩ := hdescribes
      refine ⟨hrepository, ?_⟩
      rw [hrepository]
      exact hgranted trivial
    | _ => exact ⟨(hdescribes p hp).1, (hdescribes p hp).2 trivial⟩

/-- In every run with truthful answers, nothing outside the granted history is stored or
described. -/
theorem reads_stay_granted (g : CommitGraph) (lib : Library) (access : GitHubAccess) (ls : List Label)
    (s : System)
    (hm : Meets (System.step lib) (System.Truthful g) { connector := { access := access } } ls)
    (h : exec (System.step lib) { connector := { access := access } } ls = some s) :
    s.WithinGrants g access := by
  have hinv := exec_invariant_of_meets (I := fun s => s.Sound g access True False)
    (fun s l t hs hl ht => hs.step (fun _ => hl) (fun hf => hf.elim) ht) System.sound_init hm h
  exact hinv.withinGrants

section Example

def exampleHistory : GitHubAccess :=
  ⟨⟨"t", "s"⟩, [⟨"o/r", ["main"], [7], [.resolveRef, .listTree, .readPullRequest], false⟩]⟩

/-- The commit `a` has the parent `b`, and the commit `d` has the parent `c`. -/
def exampleGraph : CommitGraph where
  parents repository commit := {parent | repository = "o/r" ∧
    ((commit = exampleSha 'a' ∧ parent = exampleSha 'b') ∨ (commit = exampleSha 'd' ∧ parent = exampleSha 'c'))}

def exampleComparison (base : Char) (files : List Json) : Json :=
  .obj [("status", .str "ahead"), ("merge_base_commit", .obj [("sha", .str (exampleSha base))]),
    ("base_commit", exampleCommit base), ("files", .arr files)]

def examplePull : Json :=
  .obj [("number", .int 7), ("title", .str "Add a file"), ("state", .str "open"), ("changed_files", .int 0),
    ("base", .obj [("ref", .str "main"), ("sha", .str (exampleSha 'c')),
      ("repo", .obj [("full_name", .str "o/r")])]),
    ("head", .obj [("sha", .str (exampleSha 'd'))])]

def exampleTree : Json :=
  .obj [("sha", .str (exampleSha 'e')), ("tree", .arr []), ("truncated", .bool false)]

def childCommit (commit parent : Char) : Json :=
  .obj [("sha", .str (exampleSha commit)),
    ("commit", .obj [("tree", .obj [("sha", .str (exampleSha 'e'))])]),
    ("parents", .arr [.obj [("sha", .str (exampleSha parent))]])]

/-- The tree of the parent of `main` is read, which a comparison proves to be an ancestor, and then a pull
request by its number. -/
def historyReads : List Label :=
  [resolve "main", .refAnswer 0 (.ok (childCommit 'a' 'b')), .wake 0,
    .execute ⟨"t", "s"⟩ .listTree (.obj [("repository", .str "o/r"), ("commit", .str (exampleSha 'b')),
      ("anchor_commit", .str (exampleSha 'a'))]),
    .answer 1 (.ok (exampleComparison 'b' [])), .answer 1 (.ok exampleTree),
    .execute ⟨"t", "s"⟩ .readPullRequest (.obj [("repository", .str "o/r"), ("number", .int 7)]),
    .pullAnswer 0 (.ok examplePull), .pullAnswer 0 (.ok (exampleCommit 'c')),
    .pullAnswer 0 (.ok (childCommit 'd' 'c')), .wake 2, .answer 2 (.ok (exampleComparison 'c' []))]

/-- The answer is about one edge of the graph, or about none. -/
def isExampleAnswer (e : Endpoint) (data : Json) : Bool :=
  match e with
  | .commit repository _ _ _ => repository = "o/r" && ((parentIds data).isEmpty ||
      (data.get? "sha" = some (.str (exampleSha 'a')) && parentIds data = [exampleSha 'b']) ||
      (data.get? "sha" = some (.str (exampleSha 'd')) && parentIds data = [exampleSha 'c']))
  | .compare repository base head _ => repository = "o/r" &&
      (data.get? "merge_base_commit").bind (·.get? "sha") = some (.str base) &&
      ((base = exampleSha 'b' && head = exampleSha 'a') || (base = exampleSha 'c' && head = exampleSha 'd'))
  | .commits _ _ _ _ _ _ => false
  | .pull _ _ | .tree _ _ _ | .blob _ _ | .pulls _ _ _ _ => true

/-- A commit without parents has no other ancestor. -/
theorem CommitGraph.eq_of_isAncestor {g : CommitGraph} {repository a c : String}
    (hnone : g.parents repository c = ∅) (h : g.IsAncestor repository a c) : a = c := by
  obtain rfl | ⟨d, -, hd⟩ := Relation.ReflTransGen.cases_tail h
  · rfl
  · rw [hnone] at hd
    exact hd.elim

theorem CommitGraph.isMergeBase_parent {g : CommitGraph} {repository base head : String}
    (hnone : g.parents repository base = ∅) (hparent : base ∈ g.parents repository head) :
    g.IsMergeBase repository base head base where
  ofBase := .refl
  ofHead := .single hparent
  best _ hbase _ _ := CommitGraph.eq_of_isAncestor hnone hbase

theorem exampleGraph_root {repository commit : String} (ha : commit ≠ exampleSha 'a') (hd : commit ≠ exampleSha 'd') :
    exampleGraph.parents repository commit = ∅ := by
  ext parent
  simp [exampleGraph, ha, hd]

theorem exampleGraph_truthful {e : Endpoint} {data : Json} (h : isExampleAnswer e data = true) :
    exampleGraph.Truthful data e := by
  cases e with
  | commit repository ref perPage page =>
    intro c hc p hp
    simp only [isExampleAnswer, Bool.and_eq_true, Bool.or_eq_true, decide_eq_true_eq] at h
    obtain ⟨rfl, (hnone | ⟨hsha, hparents⟩) | ⟨hsha, hparents⟩⟩ := h
    · simp [List.isEmpty_iff.mp hnone] at hp
    · obtain rfl : exampleSha 'a' = c := by simpa using hsha.symm.trans hc
      rw [hparents, List.mem_singleton] at hp
      exact ⟨rfl, .inl ⟨rfl, hp⟩⟩
    · obtain rfl : exampleSha 'd' = c := by simpa using hsha.symm.trans hc
      rw [hparents, List.mem_singleton] at hp
      exact ⟨rfl, .inr ⟨rfl, hp⟩⟩
  | compare repository base head page =>
    intro m hm
    simp only [isExampleAnswer, Bool.and_eq_true, Bool.or_eq_true, decide_eq_true_eq] at h
    obtain ⟨⟨rfl, hmerge⟩, ⟨rfl, rfl⟩ | ⟨rfl, rfl⟩⟩ := h
    · obtain rfl : exampleSha 'b' = m := by simpa using hmerge.symm.trans hm
      exact CommitGraph.isMergeBase_parent (exampleGraph_root (by decide) (by decide)) ⟨rfl, .inl ⟨rfl, rfl⟩⟩
    · obtain rfl : exampleSha 'c' = m := by simpa using hmerge.symm.trans hm
      exact CommitGraph.isMergeBase_parent (exampleGraph_root (by decide) (by decide)) ⟨rfl, .inr ⟨rfl, rfl⟩⟩
  | commits => cases h
  | pull | tree | blob | pulls => trivial

theorem reads_stay_granted_tree : ∃ s, exec (System.step exampleLibrary)
    { connector := { access := exampleHistory } } historyReads = some s ∧
      (s.calls.map fun call => call.outcome.any fun o => o.toOption.isSome) = [true, true, true] ∧
      s.WithinGrants exampleGraph exampleHistory := by
  have hrun : (exec (System.step exampleLibrary) { connector := { access := exampleHistory } } historyReads).map
      (fun s => s.calls.map fun call => call.outcome.any fun o => o.toOption.isSome) =
        some [true, true, true] := by decide +kernel
  have hanswers : Meets (System.step exampleLibrary)
      (fun s l => (s.answered l).all (fun p => isExampleAnswer p.1 p.2) = true)
      { connector := { access := exampleHistory } } historyReads := by decide +kernel
  obtain ⟨s, hs, hcalls⟩ := Option.map_eq_some_iff.mp hrun
  refine ⟨s, hs, hcalls, reads_stay_granted _ exampleLibrary exampleHistory _ s
    (hanswers.mono fun u l hl e data hanswered => exampleGraph_truthful ?_) hs⟩
  rw [hanswered] at hl
  exact hl

end Example

end Soveren.GitHub
