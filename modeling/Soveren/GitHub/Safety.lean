import Mathlib.Logic.Relation
import Soveren.Storage.Idempotency
import Soveren.Relational.Contract
import Soveren.GitHub.Connector

/-! What each read stores and returns, when the provider answers truthfully about a commit graph:
commits of a set that is closed under ancestors. -/
namespace Soveren.GitHub
open Soveren.Process

/-- The commit graph of every repository. -/
structure CommitGraph where
  parents : String → String → Set String

/-- A commit is an ancestor of another, or the same. -/
def CommitGraph.IsAncestor (g : CommitGraph) (repository : String) : String → String → Prop :=
  Relation.ReflTransGen fun a c => a ∈ g.parents repository c

/-- A common ancestor that is no proper ancestor of another one. -/
structure CommitGraph.IsMergeBase (g : CommitGraph) (repository base head m : String) : Prop where
  ofBase : g.IsAncestor repository m base
  ofHead : g.IsAncestor repository m head
  best : ∀ c, g.IsAncestor repository c base → g.IsAncestor repository c head →
    g.IsAncestor repository m c → c = m

/-- The commit ids that a commit object lists as its parents. -/
def parentIds (data : Json) : List String :=
  match data.get? "parents" with
  | some (.arr items) => items.filterMap fun item => match item.get? "sha" with
    | some (.str p) => some p
    | _ => none
  | _ => []

/-- The commit object has the parents that the graph has. -/
def CommitGraph.TrueCommit (g : CommitGraph) (repository : String) (data : Json) : Prop :=
  ∀ c, data.get? "sha" = some (.str c) → ∀ p ∈ parentIds data, p ∈ g.parents repository c

/-- What an answer says about the graph is so. -/
def CommitGraph.Truthful (g : CommitGraph) (data : Json) : Endpoint → Prop
  | .commit repository _ _ _ => g.TrueCommit repository data
  | .compare repository base head _ => ∀ m,
    (data.get? "merge_base_commit").bind (·.get? "sha") = some (.str m) →
      g.IsMergeBase repository base head m
  | .commits repository tip _ _ _ _ => ∀ items, data = .arr items → ∀ item ∈ items,
    g.TrueCommit repository item ∧
      ∀ c, item.get? "sha" = some (.str c) → g.IsAncestor repository c tip
  | .pull _ _ | .tree _ _ _ | .blob _ _ | .pulls _ _ _ _ => True

/-- The pull request was granted by its number. -/
def GitHubAccess.Explicit (access : GitHubAccess) (repository : String) (pullNumber : Int) : Prop :=
  ∃ grant ∈ access.repositories, grant.repository = repository ∧ pullNumber ∈ grant.pullRequests

/-- What a diff says about commits. -/
def FileDiff.described (d : FileDiff) : List (String × String) :=
  (d.headCitation.toList ++ d.baseCitation.toList).map fun c => (c.repository, c.commit)

/-- The commits, with their repositories, that a result describes. -/
def ReadResult.described : ReadResult → List (String × String)
  | .ref _ snap => [(snap.repository, snap.commit)]
  | .tree citation _ _ _ => [(citation.repository, citation.commit)]
  | .file citation _ _ _ => [(citation.repository, citation.commit)]
  | .commits repository anchor summaries _ _ =>
    (anchor :: summaries.flatMap fun c => c.commit :: c.parents).map (repository, ·)
  | .commit repository anchor summary base files _ _ =>
    (anchor :: summary.commit :: summary.parents ++ base.toList).map (repository, ·) ++
      files.flatMap (·.described)
  | .comparison repository anchor baseAnchor base head mergeBase _ _ files _ _ =>
    [anchor, baseAnchor, base, head, mergeBase].map (repository, ·) ++ files.flatMap (·.described)
  | .pull repository pinned mergeBase files _ _ =>
    [pinned.base, pinned.head, mergeBase].map (repository, ·) ++ files.flatMap (·.described)
  | .pulls _ _ _ _ _ => []

/-- The ref was granted. -/
def GitHubAccess.HasRef (access : GitHubAccess) (key : RefKey) : Prop :=
  ∃ grant ∈ access.repositories, grant.repository = key.1 ∧ key.2 ∈ grant.refs

/-- What is known beside a program: commits that may be read, the pins of refs, whether the program
may wait for pins, and whether it was cancelled. -/
structure World (g : CommitGraph) where
  allowed : String → String → Prop
  pinned : RefKey → GitHubSnapshot → Prop
  pins : Prop
  cancelled : Prop
  ancestors : ∀ repository c a, allowed repository c → g.IsAncestor repository a c →
    allowed repository a

section Contract

variable {g : CommitGraph}

structure World.Le (w w' : World g) : Prop where
  allowed : ∀ repository c, w.allowed repository c → w'.allowed repository c
  pinned : ∀ key snap, w.pinned key snap → w'.pinned key snap
  pins : w.pins → w'.pins
  cancelled : w.cancelled → w'.cancelled

instance : Preorder (World g) where
  le := World.Le
  le_refl _ := ⟨fun _ _ h => h, fun _ _ h => h, fun h => h, fun h => h⟩
  le_trans _ _ _ h h' := ⟨fun r c hw => h'.allowed r c (h.allowed r c hw),
    fun k v hw => h'.pinned k v (h.pinned k v hw), fun hw => h'.pins (h.pins hw),
    fun hw => h'.cancelled (h.cancelled hw)⟩

/-- An answer is truthful, unless everything may be read anyway. -/
def World.Informs (w : World g) (data : Json) (e : Endpoint) : Prop :=
  g.Truthful data e ∨ ∀ repository c, w.allowed repository c

/-- The commits that a report on a pull request names may be read, if it was granted by number. -/
def Reports (access : GitHubAccess) (w : World g) (data : Json) : Endpoint → Prop
  | .pull repository pullNumber => access.Explicit repository pullNumber → ∀ b h,
    (data.get? "base").bind (·.get? "sha") = some (.str b) →
    (data.get? "head").bind (·.get? "sha") = some (.str h) →
      w.allowed repository b ∧ w.allowed repository h
  | _ => True

/-- What a program learns from the value of an operation. -/
def learns (access : GitHubAccess) (w : World g) : (o : Op) → Value o → Prop
  | .get e, data => w.Informs data e ∧ Reports access w data e
  | .pinRef key, snap => w.pinned key snap
  | .pinPull key _, pull =>
    w.allowed key.repository pull.base ∧ w.allowed key.repository pull.head
  | .knownSnapshot repository commit, snap =>
    snap.repository = repository ∧ snap.commit = commit ∧ w.allowed repository commit
  | .hasSnapshot repository commit, known => known = true → w.allowed repository commit
  | .isProven _ _ _, _ => True
  | .storeSnapshot _, _ => True
  | .storeAncestor _ _, _ => True

/-- What an operation requires. -/
def requires (access : GitHubAccess) (w : World g) : Op → Prop
  | .storeSnapshot snap => w.allowed snap.repository snap.commit
  | .storeAncestor snap _ => w.allowed snap.repository snap.commit
  | .pinPull key grant => w.pins ∧ (grant = none → access.Explicit key.repository key.number)
  | .pinRef key => w.pins ∧ access.HasRef key
  | .get _ | .knownSnapshot _ _ | .hasSnapshot _ _ | .isProven _ _ _ => True

/-- What a read may raise: a cancellation only if it was cancelled. -/
def Raises (w : World g) (e : Failure) : Prop := e = .cancelled → w.cancelled

def readContract (access : GitHubAccess) : Contract (World g) Op Res where
  pre w o := requires access w o
  post w o r := Outcome (fun w v => learns access w o v) Raises w r

variable {access : GitHubAccess} {w w' : World g}

theorem raises_mono (w : World g) (e : Failure) (h : Raises w e) (w' : World g) (hw : w ≤ w') :
    Raises w' e :=
  fun he => hw.cancelled (h he)

theorem learns_mono (hw : w ≤ w') {o : Op} {v : Value o} (h : learns access w o v) :
    learns access w' o v := by
  cases o with
  | get e =>
    refine ⟨h.1.imp_right fun hall repository c => hw.allowed _ _ (hall repository c), ?_⟩
    have hr := h.2
    cases e with
    | pull repository pullNumber =>
      exact fun hx b hd hb hh => ⟨hw.allowed _ _ (hr hx b hd hb hh).1, hw.allowed _ _ (hr hx b hd hb hh).2⟩
    | _ => trivial
  | pinRef key => exact hw.pinned _ _ h
  | pinPull key grant => exact ⟨hw.allowed _ _ h.1, hw.allowed _ _ h.2⟩
  | knownSnapshot repository commit => exact ⟨h.1, h.2.1, hw.allowed _ _ h.2.2⟩
  | hasSnapshot repository commit => exact fun hk => hw.allowed _ _ (h hk)
  | isProven repository target anchor => trivial
  | storeSnapshot snap => trivial
  | storeAncestor snap anchor => trivial

theorem World.Informs.mergeBase {data : Json} {repository base head m : String} {page : Int}
    (h : w.Informs data (.compare repository base head page))
    (hm : (data.get? "merge_base_commit").bind (·.get? "sha") = some (.str m))
    (ha : w.allowed repository base ∨ w.allowed repository head) : w.allowed repository m := by
  obtain h | h := h
  · obtain ha | ha := ha
    · exact w.ancestors _ _ _ ha (h m hm).ofBase
    · exact w.ancestors _ _ _ ha (h m hm).ofHead
  · exact h repository m

/-- A read from a world on, with what holds of its value. -/
abbrev Reads {α : Type} (access : GitHubAccess) (w : World g) (x : Program α)
    (Q : World g → α → Prop) : Prop :=
  SafeOr (readContract access) Q Raises w x

variable {α β : Type}

theorem Reads.bind {x : Program β} {f : β → Program α} {R : World g → β → Prop}
    {Q : World g → α → Prop} (hx : Reads access w x R)
    (hf : ∀ w', w ≤ w' → ∀ b, R w' b → Reads access w' (f b) Q) : Reads access w (x >>= f) Q :=
  SafeOr.bind hx raises_mono hf

theorem reads_await {o : Op} (hpre : ∀ w', w ≤ w' → requires access w' o) :
    Reads access w (await o) fun w v => learns access w o v := by
  intro w' hw'
  refine ⟨hpre w' hw', fun r hr w'' hw'' => ?_⟩
  cases r with
  | error e => exact raises_mono w' e hr w'' hw''
  | ok v => exact learns_mono hw'' hr

theorem reads_check {x : Except GitHubErrorCode α} :
    Reads access w (check x) fun _ a => x = .ok a := by
  intro w' _
  cases x with
  | error e => exact fun he => nomatch he
  | ok a => rfl

/-- A check, with what its value satisfies. -/
theorem Reads.check {x : Except GitHubErrorCode β} {f : β → Program α} {Q : World g → α → Prop}
    (hf : ∀ b, x = .ok b → Reads access w (f b) Q) : Reads access w (check x >>= f) Q :=
  reads_check.bind fun _ hw b hb => (hf b hb).mono hw

theorem Reads.await {o : Op} {f : Value o → Program α} {Q : World g → α → Prop}
    (hpre : ∀ w', w ≤ w' → requires access w' o)
    (hf : ∀ w', w ≤ w' → ∀ v, learns access w' o v → Reads access w' (f v) Q) :
    Reads access w (await o >>= f) Q :=
  (reads_await hpre).bind hf

theorem reads_raise {code : GitHubErrorCode} {Q : World g → α → Prop} :
    Reads access w (GitHub.check (raise code) : Program α) Q :=
  fun _ _ he => nomatch he

theorem reads_pure {a : α} {Q : World g → α → Prop} (h : ∀ w', w ≤ w' → Q w' a) :
    Reads access w (pure a : Program α) Q := h

end Contract

section Values

theorem require_ok {condition : Bool} {code : GitHubErrorCode} {u : Unit}
    (h : require condition code = .ok u) : condition = true := by
  unfold require at h
  split at h
  · assumption
  · cases h

theorem shaOr_ok {code : GitHubErrorCode} {value : Option Json} {s : String}
    (h : shaOr code value = .ok s) : value = some (.str s) ∧ isSha s = true := by
  unfold shaOr at h
  split at h
  · split at h
    · cases h
      exact ⟨rfl, ‹_›⟩
    · cases h
  · cases h

theorem object_ok {value : Option Json} {v : Json} (h : object value = .ok v) : value = some v := by
  unfold object at h
  split at h
  · cases h
    rfl
  · cases h

/-- The id of an object that a field holds. -/
theorem field_sha {data o : Json} {field s : String} {code : GitHubErrorCode}
    (ho : object (data.get? field) = .ok o) (hs : shaOr code (o.get? "sha") = .ok s) :
    (data.get? field).bind (·.get? "sha") = some (.str s) := by
  rw [object_ok ho]
  exact (shaOr_ok hs).1

theorem commitSnapshot_ok {repository ref : String} {payload : Json} {snap : GitHubSnapshot}
    (h : commitSnapshot repository ref payload = .ok snap) :
    snap.repository = repository ∧ (isSha ref = true → snap.commit = ref) := by
  obtain ⟨data, -, h⟩ := bind_eq_ok h
  obtain ⟨commit, -, h⟩ := bind_eq_ok h
  obtain ⟨details, -, h⟩ := bind_eq_ok h
  obtain ⟨tree, -, h⟩ := bind_eq_ok h
  obtain ⟨treeSha, -, h⟩ := bind_eq_ok h
  obtain ⟨u, hreq, h⟩ := bind_eq_ok h
  cases h
  refine ⟨rfl, fun href => ?_⟩
  have hreq := require_ok hreq
  simpa [href] using hreq

theorem ancestorSnapshot_ok {repository target : String} {payload : Json} {snap : GitHubSnapshot}
    (h : ancestorSnapshot repository target payload = .ok snap) :
    snap.repository = repository ∧ snap.commit = target ∧
      (payload.get? "merge_base_commit").bind (·.get? "sha") = some (.str target) := by
  obtain ⟨data, hdata, h⟩ := bind_eq_ok h
  obtain rfl := Option.some.inj (object_ok hdata)
  obtain ⟨-, -, h⟩ := bind_eq_ok h
  obtain ⟨mergeBase, hmerge, h⟩ := bind_eq_ok h
  obtain ⟨mergeBaseSha, hsha, h⟩ := bind_eq_ok h
  obtain ⟨u, hreq, h⟩ := bind_eq_ok h
  obtain ⟨base, -, h⟩ := bind_eq_ok h
  obtain ⟨baseSha, -, h⟩ := bind_eq_ok h
  obtain ⟨u, -, h⟩ := bind_eq_ok h
  obtain ⟨details, -, h⟩ := bind_eq_ok h
  obtain ⟨tree, -, h⟩ := bind_eq_ok h
  obtain ⟨treeSha, -, h⟩ := bind_eq_ok h
  cases h
  obtain rfl : mergeBaseSha = target := by simpa using require_ok hreq
  exact ⟨rfl, rfl, field_sha hmerge hsha⟩

theorem mapM_ok {α β : Type} {f : α → Except GitHubErrorCode β} {xs : List α} {ys : List β}
    (h : xs.mapM f = .ok ys) : ∀ y ∈ ys, ∃ x ∈ xs, f x = .ok y := by
  induction xs generalizing ys with
  | nil =>
    cases h
    exact fun y hy => nomatch hy
  | cons x xs ih =>
    rw [List.mapM_cons] at h
    obtain ⟨y, hy, h⟩ := bind_eq_ok h
    obtain ⟨ys', hys, h⟩ := bind_eq_ok h
    cases h
    intro z hz
    obtain rfl | hz := List.mem_cons.mp hz
    · exact ⟨x, List.mem_cons_self, hy⟩
    · obtain ⟨x', hx', hf⟩ := ih hys z hz
      exact ⟨x', List.mem_cons_of_mem _ hx', hf⟩

theorem commitSummary_ok {lib : Library} {payload : Json} {c : CommitSummary}
    (h : commitSummary lib payload = .ok c) :
    payload.get? "sha" = some (.str c.commit) ∧ ∀ p ∈ c.parents, p ∈ parentIds payload := by
  obtain ⟨data, hdata, h⟩ := bind_eq_ok h
  obtain rfl := Option.some.inj (object_ok hdata)
  obtain ⟨commit, hcommit, h⟩ := bind_eq_ok h
  obtain ⟨details, -, h⟩ := bind_eq_ok h
  obtain ⟨message, -, h⟩ := bind_eq_ok h
  split at h
  · rename_i items hitems
    obtain ⟨-, -, h⟩ := bind_eq_ok h
    obtain ⟨author, -, h⟩ := bind_eq_ok h
    obtain ⟨authored, -, h⟩ := bind_eq_ok h
    obtain ⟨committer, -, h⟩ := bind_eq_ok h
    obtain ⟨committed, -, h⟩ := bind_eq_ok h
    obtain ⟨parents, hparents, h⟩ := bind_eq_ok h
    cases h
    refine ⟨(shaOr_ok hcommit).1, fun p hp => ?_⟩
    obtain ⟨item, hitem, hp⟩ := mapM_ok hparents p hp
    obtain ⟨parent, hparent, hp⟩ := bind_eq_ok hp
    obtain rfl := Option.some.inj (object_ok hparent)
    simp only [parentIds, hitems, List.mem_filterMap]
    exact ⟨item, hitem, by rw [(shaOr_ok hp).1]⟩
  · cases h

theorem fileDiff_ok {lib : Library} {repository head : String} {base : Option String} {item : Json}
    {budget rest : ℕ} {file : FileDiff} {cut : Bool}
    (h : fileDiff lib repository base head item budget = .ok (some (file, rest, cut))) :
    ∀ p ∈ file.described, p.1 = repository ∧ (p.2 = head ∨ base = some p.2) := by
  obtain ⟨path, -, h⟩ := bind_eq_ok h
  obtain ⟨status, -, h⟩ := bind_eq_ok h
  obtain ⟨oldPath, -, h⟩ := bind_eq_ok h
  obtain ⟨patch, -, h⟩ := bind_eq_ok h
  dsimp only at h
  split at h
  · cases h
  · cases h
    intro p hp
    obtain ⟨c, hc, rfl⟩ := List.mem_map.mp hp
    simp only [List.mem_append, Option.mem_toList] at hc
    obtain hc | hc := hc
    · split at hc
      · cases hc
        exact ⟨rfl, .inl rfl⟩
      · cases hc
    · split at hc
      · obtain ⟨b, rfl, rfl⟩ := Option.map_eq_some_iff.mp hc
        exact ⟨rfl, .inr rfl⟩
      · cases hc

theorem diffPage_ok {lib : Library} {repository head : String} {base : Option String}
    {items : List Json} {page files : List FileDiff} {trimmed cut : Bool} {budget : ℕ}
    (h : diffPage lib repository base head page trimmed budget items = .ok (files, cut))
    (hpage : ∀ p ∈ page.flatMap (·.described), p.1 = repository ∧ (p.2 = head ∨ base = some p.2)) :
    ∀ p ∈ files.flatMap (·.described), p.1 = repository ∧ (p.2 = head ∨ base = some p.2) := by
  induction items generalizing page trimmed budget with
  | nil =>
    cases h
    exact hpage
  | cons item items ih =>
    obtain ⟨next, hnext, h⟩ := bind_eq_ok h
    cases next with
    | none =>
      simp only at h
      split at h
      · cases h
      · cases h
        exact hpage
    | some next =>
      refine ih h fun p hp => ?_
      rw [List.flatMap_append, List.mem_append] at hp
      obtain hp | hp := hp
      · exact hpage p hp
      · exact fileDiff_ok hnext p (by simpa using hp)

/-- A window of a diff cites its two commits. -/
theorem diffWindow_ok {lib : Library} {repository head : String} {base : Option String}
    {items : List Json} {files : List FileDiff} {offset : Int} {next : Option Int} {cut : Bool}
    (h : diffWindow lib repository base head items offset = .ok (files, next, cut)) :
    ∀ p ∈ files.flatMap (·.described), p.1 = repository ∧ (p.2 = head ∨ base = some p.2) := by
  obtain ⟨⟨page, trimmed⟩, hpage, h⟩ := bind_eq_ok h
  cases h
  exact diffPage_ok hpage fun p hp => nomatch hp

end Values

section Programs

variable {g : CommitGraph} {access : GitHubAccess} {w : World g} {lib : Library}

theorem snapshot_reads {repository commit : String} (hsha : isSha commit = true)
    (ha : w.allowed repository commit) :
    Reads access w (snapshot repository commit) fun _ _ => True := by
  refine Reads.await (fun _ _ => trivial) fun w₁ hw₁ data _ => Reads.check fun snap hsnap => ?_
  obtain ⟨hrepository, hcommit⟩ := commitSnapshot_ok hsnap
  refine Reads.await (fun w₂ hw₂ => ?_) fun _ _ _ _ => reads_pure fun _ _ => trivial
  rw [requires, hrepository, hcommit hsha]
  exact (hw₁.trans hw₂).allowed _ _ ha

theorem ensureSnapshot_reads {repository commit : String} (hsha : isSha commit = true)
    (ha : w.allowed repository commit) :
    Reads access w (ensureSnapshot repository commit) fun _ _ => True := by
  refine Reads.await (fun _ _ => trivial) fun w₁ hw₁ known _ => ?_
  split
  · exact reads_pure fun _ _ => trivial
  · exact (snapshot_reads hsha (hw₁.allowed _ _ ha)).bind fun _ _ _ _ => reads_pure fun _ _ => trivial

theorem knownSnapshot_reads {repository commit : String} :
    Reads access w (knownSnapshot repository commit) fun w snap =>
      snap.repository = repository ∧ snap.commit = commit ∧ w.allowed repository commit :=
  reads_await fun _ _ => trivial

/-- A commit that was proved to be an ancestor of a known one. -/
theorem historicalSnapshot_reads {repository : String} {commit anchor : Option Json} :
    Reads access w (historicalSnapshot repository commit anchor) fun w snap =>
      snap.repository = repository ∧ commit = some (.str snap.commit) ∧
        w.allowed repository snap.commit ∧ ∃ a, anchor = some (.str a) ∧ w.allowed repository a := by
  refine Reads.check fun target htarget => Reads.check fun a ha => ?_
  refine knownSnapshot_reads.bind fun w₁ _ _ hknown => ?_
  refine Reads.await (fun _ _ => trivial) fun w₂ hw₂ proven _ => ?_
  have hanchor : w₂.allowed repository a := hw₂.allowed _ _ hknown.2.2
  split
  · refine SafeOr.weaken knownSnapshot_reads fun w₃ hw₃ snap hsnap => ?_
    obtain ⟨hrepository, hcommit, hallowed⟩ := hsnap
    rw [hcommit]
    exact ⟨hrepository, (shaOr_ok htarget).1, hallowed, a, (shaOr_ok ha).1, hw₃.allowed _ _ hanchor⟩
  · refine Reads.await (fun _ _ => trivial) fun w₃ hw₃ data hdata => Reads.check fun snap hsnap => ?_
    obtain ⟨hrepository, hcommit, hmerge⟩ := ancestorSnapshot_ok hsnap
    have hallowed := hdata.1.mergeBase hmerge (.inr (hw₃.allowed _ _ hanchor))
    refine Reads.await (fun w₄ hw₄ => ?_) fun w₄ hw₄ _ _ => reads_pure fun w₅ hw₅ => ?_
    · rw [requires, hrepository, hcommit]
      exact hw₄.allowed _ _ hallowed
    · rw [hcommit]
      exact ⟨hrepository, (shaOr_ok htarget).1, (hw₄.trans hw₅).allowed _ _ hallowed, a, (shaOr_ok ha).1,
        (hw₃.trans (hw₄.trans hw₅)).allowed _ _ hanchor⟩

/-- The result is the pin of a ref, or about commits of the repository that may be read. -/
def World.Describes (w : World g) (repository : String) : ReadResult → Prop
  | .ref ref snap => w.pinned (repository, ref) snap
  | r => ∀ p ∈ r.described, p.1 = repository ∧ w.allowed p.1 p.2

theorem tree_reads {snap : GitHubSnapshot} {args : Json} (ha : w.allowed snap.repository snap.commit) :
    Reads access w (tree lib snap args) fun w r => w.Describes snap.repository r := by
  refine Reads.check fun root _ => Reads.check fun offset _ => ?_
  refine Reads.await (fun _ _ => trivial) fun w₁ hw₁ payload _ => ?_
  refine Reads.check fun items _ => Reads.check fun selected _ => Reads.check fun page _ => ?_
  refine reads_pure fun w₂ hw₂ => fun p hp => ?_
  obtain rfl := List.mem_singleton.mp hp
  exact ⟨rfl, (hw₁.trans hw₂).allowed _ _ ha⟩

theorem findBlob_reads {repository : String} {components : List (List Char)} {treeSha : String} :
    Reads access w (findBlob repository treeSha components) fun _ _ => True := by
  induction components generalizing w treeSha with
  | nil => exact reads_raise
  | cons component rest ih =>
    refine Reads.await (fun _ _ => trivial) fun w₁ _ payload _ => Reads.check fun items _ => ?_
    dsimp only
    split
    · exact reads_raise
    · refine Reads.check fun _ _ => Reads.check fun id _ => ?_
      split
      · exact Reads.check fun size _ => reads_pure fun _ _ => trivial
      · exact ih

theorem file_reads {snap : GitHubSnapshot} {args : Json} (ha : w.allowed snap.repository snap.commit) :
    Reads access w (file lib snap args) fun w r => w.Describes snap.repository r := by
  refine Reads.check fun target _ => Reads.check fun start _ => Reads.check fun stop _ => ?_
  refine Reads.check fun maxBytes _ => findBlob_reads.bind fun w₁ hw₁ blob _ => Reads.check fun _ _ => ?_
  refine Reads.await (fun _ _ => trivial) fun w₂ hw₂ payload _ => Reads.check fun blob _ => ?_
  refine Reads.check fun _ _ => Reads.check fun _ _ => Reads.check fun blobSize _ => ?_
  refine Reads.check fun _ _ => Reads.check fun _ _ => Reads.check fun _ _ => ?_
  refine Reads.check fun content _ => ?_
  split
  · exact reads_raise
  · refine Reads.check fun _ _ => Reads.check fun _ _ => ?_
    split
    · exact reads_raise
    · refine Reads.check fun _ _ => Reads.check fun output _ => reads_pure fun w₃ hw₃ => fun p hp => ?_
      obtain rfl := List.mem_singleton.mp hp
      exact ⟨rfl, (hw₁.trans (hw₂.trans hw₃)).allowed _ _ ha⟩

/-- The commits of a pull request were reported for its number, or are ancestors of its anchors. -/
theorem pullSnapshot_reads {repository : String} {n : Int} {grant : Option GitHubRepositoryAccess}
    {anchor baseAnchor : Option String} (hgrant : grant = none → access.Explicit repository n) :
    Reads access w (pullSnapshot lib repository n grant anchor baseAnchor) fun w pull =>
      w.allowed repository pull.base ∧ w.allowed repository pull.head := by
  refine Reads.await (fun _ _ => trivial) fun w₁ _ payload hpayload => ?_
  refine Reads.check fun data hdata => Reads.check fun base hbase => Reads.check fun repo _ => ?_
  refine Reads.check fun canonical _ => Reads.check fun _ _ => Reads.check fun title _ => ?_
  refine Reads.check fun state _ => Reads.check fun baseSha hbaseSha => ?_
  refine Reads.check fun head hhead => Reads.check fun headSha hheadSha => Reads.check fun changed _ => ?_
  obtain rfl := Option.some.inj (object_ok hdata)
  cases grant with
  | none =>
    obtain ⟨hab, hah⟩ := hpayload.2 (hgrant rfl) baseSha headSha (field_sha hbase hbaseSha)
      (field_sha hhead hheadSha)
    refine (snapshot_reads (shaOr_ok hbaseSha).2 hab).bind fun w₂ hw₂ _ _ => ?_
    refine (snapshot_reads (shaOr_ok hheadSha).2 (hw₂.allowed _ _ hah)).bind fun w₃ hw₃ _ _ => ?_
    exact reads_pure fun w₄ hw₄ => ⟨(hw₂.trans (hw₃.trans hw₄)).allowed _ _ hab,
      (hw₂.trans (hw₃.trans hw₄)).allowed _ _ hah⟩
  | some grant =>
    refine Reads.check fun _ _ => historicalSnapshot_reads.bind fun w₂ _ base hb => ?_
    refine historicalSnapshot_reads.bind fun w₃ hw₃ head hh => ?_
    obtain ⟨-, hbc, hab, -⟩ := hb
    obtain ⟨-, hhc, hah, -⟩ := hh
    obtain rfl : baseSha = base.commit := by simpa using hbc
    obtain rfl : headSha = head.commit := by simpa using hhc
    exact reads_pure fun w₄ hw₄ => ⟨(hw₃.trans hw₄).allowed _ _ hab, hw₄.allowed _ _ hah⟩

/-- What a window of a diff cites may be read if its two commits may. -/
theorem allowed_of_diffWindow {repository head : String} {base : Option String} {items : List Json}
    {files : List FileDiff} {offset : Int} {next : Option Int} {cut : Bool}
    (h : diffWindow lib repository base head items offset = .ok (files, next, cut))
    (hhead : w.allowed repository head) (hbase : ∀ b, base = some b → w.allowed repository b) :
    ∀ p ∈ files.flatMap (·.described), p.1 = repository ∧ w.allowed p.1 p.2 := by
  intro p hp
  obtain ⟨hrepository, hcommit⟩ := diffWindow_ok h p hp
  refine ⟨hrepository, hrepository ▸ ?_⟩
  obtain hcommit | hcommit := hcommit
  · exact hcommit ▸ hhead
  · exact hbase _ hcommit

/-- Commits of one repository. -/
theorem allowed_of_map {repository : String} {commits : List String}
    (h : ∀ c ∈ commits, w.allowed repository c) :
    ∀ p ∈ commits.map (repository, ·), p.1 = repository ∧ w.allowed p.1 p.2 := by
  intro p hp
  obtain ⟨c, hc, rfl⟩ := List.mem_map.mp hp
  exact ⟨rfl, h c hc⟩

theorem pull_reads {key : PullKey} {grant : Option GitHubRepositoryAccess} {args : Json}
    (hpins : w.pins) (hgrant : grant = none → access.Explicit key.repository key.number) :
    Reads access w (pull lib key grant args) fun w r => w.Describes key.repository r := by
  refine Reads.check fun offset _ => ?_
  refine Reads.await (fun _ hw => ⟨hw.pins hpins, hgrant⟩) fun w₁ _ pull hpull => ?_
  refine Reads.await (fun _ _ => trivial) fun w₂ hw₂ payload hpayload => ?_
  refine Reads.check fun data hdata => Reads.check fun o ho => Reads.check fun mergeBase hmerge => ?_
  obtain rfl := Option.some.inj (object_ok hdata)
  have hallowed := hpayload.1.mergeBase (field_sha ho hmerge) (.inl (hw₂.allowed _ _ hpull.1))
  refine (ensureSnapshot_reads (shaOr_ok hmerge).2 hallowed).bind fun w₃ hw₃ _ _ => ?_
  refine Reads.check fun files _ => Reads.check fun window hwindow => reads_pure fun w₄ hw₄ => ?_
  have hw := hw₂.trans (hw₃.trans hw₄)
  have hmergeBase := (hw₃.trans hw₄).allowed _ _ hallowed
  refine List.forall_mem_append.mpr ⟨allowed_of_map ?_, allowed_of_diffWindow hwindow
    (hw.allowed _ _ hpull.2) ?_⟩
  · simpa using ⟨hw.allowed _ _ hpull.1, hw.allowed _ _ hpull.2, hmergeBase⟩
  · rintro b ⟨⟩
    exact hmergeBase

/-- A summary of a commit that may be read, with its parents. -/
theorem allowed_of_commitSummary {repository : String} {payload : Json} {c : CommitSummary}
    (hsummary : commitSummary lib payload = .ok c)
    (htrue : g.TrueCommit repository payload ∨ ∀ repository c, w.allowed repository c)
    (ha : w.allowed repository c.commit) :
    ∀ x ∈ c.commit :: c.parents, w.allowed repository x := by
  obtain ⟨hsha, hparents⟩ := commitSummary_ok hsummary
  refine List.forall_mem_cons.mpr ⟨ha, fun p hp => ?_⟩
  obtain htrue | hall := htrue
  · exact w.ancestors _ _ _ ha (.single (htrue _ hsha p (hparents p hp)))
  · exact hall repository p

theorem history_reads {snap : GitHubSnapshot} {args : Json}
    (ha : w.allowed snap.repository snap.commit) :
    Reads access w (history lib snap args) fun w r => w.Describes snap.repository r := by
  refine Reads.check fun page _ => Reads.check fun since _ => Reads.check fun until_ _ => ?_
  refine Reads.check fun _ _ => Reads.check fun target _ => ?_
  refine Reads.await (fun _ _ => trivial) fun w₁ hw₁ payload hpayload => ?_
  split
  · rename_i items
    refine Reads.check fun _ _ => Reads.check fun commits hcommits => ?_
    refine reads_pure fun w₂ hw₂ => allowed_of_map (List.forall_mem_cons.mpr
      ⟨(hw₁.trans hw₂).allowed _ _ ha, fun x hx => ?_⟩)
    obtain ⟨c, hc, hx⟩ := List.mem_flatMap.mp hx
    obtain ⟨item, hitem, hsummary⟩ := mapM_ok hcommits c (List.mem_of_mem_filter hc)
    refine hw₂.allowed _ _ ?_
    obtain htruthful | hall := hpayload.1
    · obtain ⟨htrue, hancestor⟩ := htruthful items rfl item hitem
      refine allowed_of_commitSummary hsummary (.inl htrue) ?_ x hx
      exact w₁.ancestors _ _ _ (hw₁.allowed _ _ ha) (hancestor _ (commitSummary_ok hsummary).1)
    · exact hall _ x
  · exact reads_raise

theorem readCommit_reads {repository : String} {args : Json} :
    Reads access w (readCommit lib repository args) fun w r => w.Describes repository r := by
  refine Reads.check fun offset _ => historicalSnapshot_reads.bind fun w₁ _ snap hsnap => ?_
  obtain ⟨-, -, hallowed, a, hanchor, ha⟩ := hsnap
  refine Reads.await (fun _ _ => trivial) fun w₂ hw₂ payload hpayload => ?_
  refine Reads.check fun data hdata => Reads.check fun summary hsummary => Reads.check fun _ hsame => ?_
  obtain rfl := Option.some.inj (object_ok hdata)
  refine Reads.check fun details _ => Reads.check fun treeObject _ => Reads.check fun treeSha _ => ?_
  refine Reads.check fun _ _ => Reads.check fun files _ => Reads.check fun window hwindow => ?_
  refine Reads.check fun stats _ => Reads.check fun _ _ => Reads.check fun anchor hrequest => ?_
  obtain rfl : a = anchor := by simpa [hanchor] using (shaOr_ok hrequest).1
  have hcommit : summary.commit = snap.commit := by simpa using require_ok hsame
  refine reads_pure fun w₃ hw₃ => ?_
  have hw := hw₂.trans hw₃
  have hsummary : ∀ x ∈ summary.commit :: summary.parents, w₃.allowed repository x := fun x hx =>
    hw₃.allowed _ _ (allowed_of_commitSummary hsummary hpayload.1
      (hcommit ▸ hw₂.allowed _ _ hallowed) x hx)
  have hbase : ∀ b, summary.parents.head? = some b → w₃.allowed repository b := fun b hb =>
    hsummary b (List.mem_cons_of_mem _ (List.mem_of_mem_head? hb))
  refine List.forall_mem_append.mpr ⟨allowed_of_map ?_, allowed_of_diffWindow hwindow
    (hw.allowed _ _ hallowed) hbase⟩
  refine List.forall_mem_cons.mpr ⟨hw.allowed _ _ ha, List.forall_mem_append.mpr ⟨hsummary, fun b hb => ?_⟩⟩
  exact hbase b (Option.mem_toList.mp hb)

theorem compareCommits_reads {repository : String} {args : Json} :
    Reads access w (compareCommits lib repository args) fun w r => w.Describes repository r := by
  refine Reads.check fun offset _ => Reads.check fun anchor _ => Reads.check fun baseAnchor _ => ?_
  refine knownSnapshot_reads.bind fun w₁ _ _ hanchor => ?_
  refine knownSnapshot_reads.bind fun w₂ hw₂ _ hbaseAnchor => ?_
  refine historicalSnapshot_reads.bind fun w₃ hw₃ base hbase => ?_
  refine historicalSnapshot_reads.bind fun w₄ hw₄ head hhead => ?_
  refine Reads.await (fun _ _ => trivial) fun w₅ hw₅ payload hpayload => Reads.check fun data hdata => ?_
  obtain rfl := Option.some.inj (object_ok hdata)
  refine Reads.check fun baseObject _ => Reads.check fun baseSha _ => Reads.check fun _ _ => ?_
  refine Reads.check fun o ho => Reads.check fun mergeBase hmerge => Reads.check fun status _ => ?_
  refine Reads.check fun files _ => Reads.check fun window hwindow => Reads.check fun counts _ => ?_
  refine reads_pure fun w₆ hw₆ => ?_
  have hw := hw₄.trans (hw₅.trans hw₆)
  have hab : w₆.allowed repository base.commit := hw.allowed _ _ hbase.2.2.1
  have hah : w₆.allowed repository head.commit := (hw₅.trans hw₆).allowed _ _ hhead.2.2.1
  have ham : w₆.allowed repository mergeBase := hw₆.allowed _ _ (hpayload.1.mergeBase
    (field_sha ho hmerge) (.inl ((hw₄.trans hw₅).allowed _ _ hbase.2.2.1)))
  refine List.forall_mem_append.mpr ⟨allowed_of_map ?_, allowed_of_diffWindow hwindow hah ?_⟩
  · simpa using ⟨(hw₂.trans (hw₃.trans hw)).allowed _ _ hanchor.2.2, (hw₃.trans hw).allowed _ _ hbaseAnchor.2.2,
      hab, hah, ham⟩
  · rintro b ⟨⟩
    exact ham

theorem listPulls_reads {grant : GitHubRepositoryAccess} {args : Json} {repository : String} :
    Reads access w (listPulls lib grant args) fun w r => w.Describes repository r := by
  unfold listPulls
  split
  · refine Reads.check fun _ _ => Reads.check fun page _ => ?_
    split
    · refine Reads.check fun _ _ => Reads.await (fun _ _ => trivial) fun w₁ _ payload _ => ?_
      split
      · refine Reads.check fun _ _ => Reads.check fun numbers _ => ?_
        exact reads_pure fun _ _ p hp => nomatch hp
      · exact reads_raise
    · exact reads_raise
  · exact reads_raise

theorem readPullRequest_reads {grant : GitHubRepositoryAccess} {args : Json} (hpins : w.pins)
    (hgrant : grant ∈ access.repositories) :
    Reads access w (readPullRequest lib grant args) fun w r => w.Describes grant.repository r := by
  unfold readPullRequest
  split
  · rename_i n _
    refine Reads.check fun _ _ => ?_
    split
    · rename_i hn
      exact pull_reads hpins fun _ => ⟨grant, hgrant, rfl, List.contains_iff_mem.mp hn⟩
    · refine Reads.check fun _ _ => Reads.check fun anchor _ => ?_
      refine knownSnapshot_reads.bind fun w₁ hw₁ _ _ => Reads.check fun baseAnchor _ => ?_
      refine knownSnapshot_reads.bind fun w₂ hw₂ _ _ => ?_
      exact pull_reads ((hw₁.trans hw₂).pins hpins) fun hnone => nomatch hnone
  · exact reads_raise

theorem selectedSnapshot_reads {grant : GitHubRepositoryAccess} {args : Json} :
    Reads access w (selectedSnapshot grant args) fun w snap =>
      snap.repository = grant.repository ∧ w.allowed snap.repository snap.commit := by
  unfold selectedSnapshot
  split
  · refine SafeOr.weaken historicalSnapshot_reads fun _ _ snap hsnap => ?_
    exact ⟨hsnap.1, hsnap.1 ▸ hsnap.2.2.1⟩
  · split
    · refine SafeOr.weaken knownSnapshot_reads fun _ _ snap hsnap => ?_
      obtain ⟨hrepository, hcommit, hallowed⟩ := hsnap
      exact ⟨hrepository, by rwa [hrepository, hcommit]⟩
    · exact reads_raise

theorem resolveRef_reads {grant : GitHubRepositoryAccess} {args : Json} (hpins : w.pins)
    (hgrant : grant ∈ access.repositories) :
    Reads access w (resolveRef grant args) fun w r => w.Describes grant.repository r := by
  unfold resolveRef
  split
  · rename_i ref _
    refine Reads.check fun _ href => ?_
    have href := List.contains_iff_mem.mp (require_ok href)
    refine Reads.await (fun _ hw => ⟨hw.pins hpins, grant, hgrant, rfl, href⟩) fun w₁ _ snap hsnap => ?_
    exact reads_pure fun w₂ hw₂ => hw₂.pinned _ _ hsnap
  · exact reads_raise

/-- Every operation returns the pin of a ref or describes commits that may be read. -/
theorem executeOperation_reads {grant : GitHubRepositoryAccess} {operation : Operation} {args : Json}
    (hpins : w.pins) (hgrant : grant ∈ access.repositories) :
    Reads access w (executeOperation lib grant operation args) fun w r =>
      w.Describes grant.repository r := by
  cases operation with
  | resolveRef => exact resolveRef_reads hpins hgrant
  | listPullRequests => exact listPulls_reads
  | readPullRequest => exact readPullRequest_reads hpins hgrant
  | compareCommits => exact compareCommits_reads
  | readCommit => exact readCommit_reads
  | listCommits => exact selectedSnapshot_reads.bind fun _ _ snap hs => hs.1 ▸ history_reads hs.2
  | listTree => exact selectedSnapshot_reads.bind fun _ _ snap hs => hs.1 ▸ tree_reads hs.2
  | readFile => exact selectedSnapshot_reads.bind fun _ _ snap hs => hs.1 ▸ file_reads hs.2

end Programs

end Soveren.GitHub
