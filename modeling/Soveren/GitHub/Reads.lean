import Soveren.Conversation.Schema
import Soveren.Relational.Process

/-! The reads of the GitHub connector as programs. A read awaits the provider and the pins of refs
and pull requests, and reads and extends the connector's snapshots in between. What the reads take
from the language's library (dates, base64, text encodings) is a parameter. -/
namespace Soveren.GitHub
open Soveren.Process Soveren.Conversation

inductive GitHubErrorCode where
  | denied | invalid | closed | busy | auth | forbidden | notFound | rateLimited | timeout
  | unavailable | protocol | tooLarge | pathMissing | notText | lineTooLarge
  deriving DecidableEq

/-- What a read raises: an error of the connector, or its cancellation. -/
inductive Failure where
  | github (code : GitHubErrorCode)
  | cancelled
  deriving DecidableEq

inductive Operation where
  | resolveRef | listTree | readFile | listCommits | readCommit | compareCommits | listPullRequests
  | readPullRequest
  deriving DecidableEq

structure GitHubRepositoryAccess where
  repository : String
  refs : List String := []
  pullRequests : List Int := []
  operations : List Operation
  pullRequestsFromRefs : Bool := false
  deriving DecidableEq

structure GitHubAccess where
  conversation : Scope
  repositories : List GitHubRepositoryAccess
  deriving DecidableEq

structure GitHubSnapshot where
  repository : String
  commit : String
  tree : String
  deriving DecidableEq

structure PullSnapshot where
  number : Int
  title : String
  state : String
  base : String
  head : String
  changedFiles : Int
  deriving DecidableEq

abbrev RefKey := String × String

/-- The key of a pull request pin: repository, number, anchor and base anchor. -/
structure PullKey where
  repository : String
  number : Int
  anchor : Option String
  baseAnchor : Option String
  deriving DecidableEq

/-- What the reads take from the library. An instant is counted from the epoch. Of a text of base64, once
its blanks are left out, `decodeFile` gives the number of bytes and, if they are UTF-8, their text. -/
structure Library where
  parseDate : String → Option Int
  showDate : Int → String
  casefold : String → String
  utf8Length : String → ℕ
  utf8Prefix : String → ℕ → String
  decodeFile : String → Option (ℕ × Option String)

/-- The resources of the provider that reads ask for. -/
inductive Endpoint where
  | commit (repository ref : String) (perPage page : Int)
  | compare (repository base head : String) (page : Int)
  | pull (repository : String) (number : Int)
  | tree (repository sha : String) (isRecursive : Bool)
  | blob (repository sha : String)
  | commits (repository sha : String) (page : Int) (since until_ path : Option String)
  | pulls (repository base state : String) (page : Int)

inductive Op where
  | get (endpoint : Endpoint)
  | pinRef (key : RefKey)
  | pinPull (key : PullKey) (grant : Option GitHubRepositoryAccess)
  | knownSnapshot (repository commit : String)
  | hasSnapshot (repository commit : String)
  | isProven (repository target anchor : String)
  | storeSnapshot (snap : GitHubSnapshot)
  | storeAncestor (snap : GitHubSnapshot) (anchor : String)

def Value : Op → Type
  | .get _ => Json
  | .pinRef _ => GitHubSnapshot
  | .pinPull _ _ => PullSnapshot
  | .knownSnapshot _ _ => GitHubSnapshot
  | .hasSnapshot _ _ => Bool
  | .isProven _ _ _ => Bool
  | .storeSnapshot _ => Unit
  | .storeAncestor _ _ => Unit

def Res (o : Op) : Type := Except Failure (Value o)

/-- A read that may raise. -/
abbrev Program (α : Type) := ExceptT Failure (Proc Op Res) α

def await (o : Op) : Program (Value o) := ExceptT.mk (.call o .ret)

/-- A computation of the read itself, which raises errors of the connector only. -/
def check {α : Type} (x : Except GitHubErrorCode α) : Program α :=
  ExceptT.mk (.ret (x.mapError .github))

def raise {α : Type} (code : GitHubErrorCode) : Except GitHubErrorCode α := .error code

/-- Raise unless the condition holds. -/
def require (condition : Bool) (code : GitHubErrorCode) : Except GitHubErrorCode Unit :=
  if condition then .ok () else raise code

section Values

def object : Option Json → Except GitHubErrorCode Json
  | some (.obj fields) => .ok (.obj fields)
  | _ => raise .protocol

def string : Option Json → Except GitHubErrorCode String
  | some (.str s) => .ok s
  | _ => raise .protocol

/-- `[0-9a-f]{40}`. -/
def isSha (s : String) : Bool :=
  Text.len s = 40 && s.toList.all fun c => c.isDigit || ('a' ≤ c && c ≤ 'f')

/-- `_sha` and `_request_sha`: a commit id of the provider or of the arguments. -/
def shaOr (code : GitHubErrorCode) : Option Json → Except GitHubErrorCode String
  | some (.str s) => if isSha s then .ok s else raise code
  | _ => raise code

def sha : Option Json → Except GitHubErrorCode String := shaOr .protocol

def requestSha : Option Json → Except GitHubErrorCode String := shaOr .invalid

def number : Option Json → Except GitHubErrorCode Int
  | some (.int n) => if n < 0 then raise .protocol else .ok n
  | _ => raise .protocol

def bounded (value : Json) (low high : Int) : Except GitHubErrorCode Int :=
  match value with
  | .int n => if low ≤ n && n ≤ high then .ok n else raise .invalid
  | _ => raise .invalid

/-- `path.split("/")`. -/
def segments (path : String) : List (List Char) := path.toList.splitOn '/'

def path (value : Json) (allowEmpty : Bool) : Except GitHubErrorCode String :=
  match value with
  | .str s =>
    if 1024 < Text.len s || 32 < (segments s).length then raise .invalid
    else if s = "" && allowEmpty then .ok s
    else if (segments s).any (fun p => p = [] || p = ['.'] || p = ['.', '.']) ||
        s.toList.any (·.toNat < 32) then raise .invalid
    else .ok s
  | _ => raise .invalid

def date (lib : Library) (code : GitHubErrorCode) : Option Json → Except GitHubErrorCode Int
  | some (.str s) => match lib.parseDate s with
    | some instant => .ok instant
    | none => raise code
  | _ => raise code

/-- The entries of a tree, and whether the provider left some out. -/
def entries (payload : Json) (expectedSha : String) : Except GitHubErrorCode (List Json × Bool) := do
  let data ← object (some payload)
  let id ← sha (data.get? "sha")
  require (id = expectedSha) .protocol
  match data.get? "tree", data.get? "truncated" with
  | some (.arr items), some (.bool truncated) => do
    let items ← items.mapM fun item => object (some item)
    .ok (items, truncated)
  | _, _ => raise .protocol

end Values

structure Citation where
  repository : String
  commit : String
  path : String := ""
  deriving DecidableEq

structure CommitSummary where
  commit : String
  message : String
  messageTruncated : Bool
  authoredAt : Int
  committedAt : Int
  parents : List String
  deriving DecidableEq

structure FileDiff where
  path : String
  status : String
  previousPath : Option String
  patch : Option String
  patchTruncated : Bool
  patchAvailable : Bool
  headCitation : Option Citation
  baseCitation : Option Citation
  deriving DecidableEq

structure TreeEntry where
  path : String
  kind : String
  sha : String
  deriving DecidableEq

/-- What a read returns. -/
inductive ReadResult where
  | ref (ref : String) (snap : GitHubSnapshot)
  | tree (citation : Citation) (entries : List TreeEntry) (truncated : Bool) (nextOffset : Option Int)
  | file (citation : Citation) (lines : List String) (totalLines : ℕ) (nextLine : Option Int)
  | commits (repository anchorCommit : String) (commits : List CommitSummary) (page : Int)
      (truncated : Bool)
  | commit (repository anchorCommit : String) (summary : CommitSummary) (baseCommit : Option String)
      (files : List FileDiff) (nextOffset : Option Int) (truncated : Bool)
  | comparison (repository anchorCommit baseAnchorCommit baseCommit headCommit mergeBaseCommit : String)
      (status : String) (counts : List Int) (files : List FileDiff) (nextOffset : Option Int)
      (truncated : Bool)
  | pull (repository : String) (pull : PullSnapshot) (mergeBaseCommit : String) (files : List FileDiff)
      (nextOffset : Option Int) (truncated : Bool)
  | pulls (repository ref state : String) (numbers : List Int) (truncated : Bool)

section Formats

variable (lib : Library)

def commitSummary (payload : Json) : Except GitHubErrorCode CommitSummary := do
  let data ← object (some payload)
  let commit ← sha (data.get? "sha")
  let details ← object (data.get? "commit")
  let message ← string (details.get? "message")
  match data.get? "parents" with
  | some (.arr items) => do
    require (items.length ≤ 32) .protocol
    let author ← object (details.get? "author")
    let authored ← date lib .protocol (author.get? "date")
    let committer ← object (details.get? "committer")
    let committed ← date lib .protocol (committer.get? "date")
    let parents ← items.mapM fun item => do
      let parent ← object (some item)
      sha (parent.get? "sha")
    .ok ⟨commit, lib.utf8Prefix message 2048, 2048 < lib.utf8Length message, authored, committed,
      parents⟩
  | _ => raise .protocol

/-- The patch of a file, if the provider gives one. -/
def patchOf (item : Json) : Except GitHubErrorCode (Option String) :=
  match item.getSome? "patch" with
  | some (.str s) => .ok (some s)
  | none => .ok none
  | some _ => raise .protocol

/-- The path that a file had before. -/
def oldPathOf (item : Json) (path status : String) : Except GitHubErrorCode String :=
  if status = "renamed" then string (item.get? "previous_filename") else .ok path

/-- One file of a diff with its texts and what it costs. -/
def fileDiff (repository : String) (base : Option String) (head : String) (item : Json)
    (budget : ℕ) : Except GitHubErrorCode (Option (FileDiff × ℕ × Bool)) := do
  let path ← string (item.get? "filename")
  let status ← string (item.get? "status")
  let oldPath ← oldPathOf item path status
  let patch ← patchOf item
  let cost := lib.utf8Length path + lib.utf8Length oldPath + 500
  if budget < cost then .ok none
  else do
    let rest := budget - cost
    let text := patch.getD ""
    let fragment := lib.utf8Prefix text rest
    let cut := rest < lib.utf8Length text
    .ok (some (
      { path := path
        status := status
        previousPath := if oldPath ≠ path then some oldPath else none
        patch := if text ≠ "" then some fragment else none
        patchTruncated := cut
        patchAvailable := patch.isSome
        headCitation := if status ≠ "removed" then some ⟨repository, head, path⟩ else none
        baseCitation := if status ≠ "added" then base.map fun b => ⟨repository, b, oldPath⟩ else none },
      rest - lib.utf8Length fragment, cut || patch.isNone))

/-- The loop of `_diff_window`. -/
def diffPage (repository : String) (base : Option String) (head : String) (page : List FileDiff)
    (trimmed : Bool) (budget : ℕ) : List Json → Except GitHubErrorCode (List FileDiff × Bool)
  | [] => .ok (page, trimmed)
  | item :: items => do
    match ← fileDiff lib repository base head item budget with
    | none => if page = [] then raise .tooLarge else .ok (page, trimmed)
    | some (file, rest, cut) =>
      diffPage repository base head (page ++ [file]) (trimmed || cut) rest items

def diffWindow (repository : String) (base : Option String) (head : String) (files : List Json)
    (offset : Int) : Except GitHubErrorCode (List FileDiff × Option Int × Bool) := do
  let (page, trimmed) ← diffPage lib repository base head [] false 24000
    ((files.drop offset.toNat).take 30)
  let next := offset + page.length
  .ok (page, if next < files.length then some next else none, trimmed)

/-- The entries under a prefix, in the order of their paths, within the byte budget. -/
def treePage (page : List TreeEntry) (budget : ℕ) : List TreeEntry → Except GitHubErrorCode (List TreeEntry)
  | [] => .ok page
  | e :: rest =>
    let cost := lib.utf8Length e.path + 100
    if budget < cost then
      if page = [] then raise .tooLarge else .ok page
    else treePage (page ++ [e]) (budget - cost) rest

def selectEntries (root : String) (items : List Json) : Except GitHubErrorCode (List TreeEntry) := do
  let selected ← items.mapM fun item => do
    let path ← string (item.get? "path")
    if root = "" || path = root || (root.toList ++ ['/']).isPrefixOf path.toList then do
      let kind ← string (item.get? "type")
      let id ← sha (item.get? "sha")
      .ok (some ⟨path, kind, id⟩)
    else .ok none
  .ok ((selected.filterMap id).mergeSort fun a b => a.path ≤ b.path)

/-- The lines of a text, each with its line end. -/
def textLines (text : String) : List String :=
  let parts := text.toList.splitOn '\n'
  let ended := parts.dropLast.map fun l => String.ofList (l ++ ['\n'])
  match parts.getLast? with
  | some (c :: l) => ended ++ [String.ofList (c :: l)]
  | _ => ended

def takeLines (output : List String) (budget : ℕ) : List String → Except GitHubErrorCode (List String)
  | [] => .ok output
  | line :: lines =>
    let size := lib.utf8Length line
    if budget < size then
      if output = [] then raise .lineTooLarge else .ok output
    else takeLines (output ++ [line]) (budget - size) lines

end Formats

/-- An argument with its default. -/
def arg (args : Json) (name : String) (default : Json) : Json := (args.get? name).getD default

section Reads

variable (lib : Library)

/-- The snapshot that a commit object describes; a commit that was asked for by its id has it. -/
def commitSnapshot (repository ref : String) (payload : Json) : Except GitHubErrorCode GitHubSnapshot := do
  let data ← object (some payload)
  let commit ← sha (data.get? "sha")
  let details ← object (data.get? "commit")
  let tree ← object (details.get? "tree")
  let treeSha ← sha (tree.get? "sha")
  require (!(isSha ref && commit ≠ ref)) .protocol
  .ok ⟨repository, commit, treeSha⟩

/-- `_snapshot`. -/
def snapshot (repository ref : String) : Program GitHubSnapshot := do
  let data ← await (.get (.commit repository ref 1 1))
  let snap ← check (commitSnapshot repository ref data)
  await (.storeSnapshot snap)
  pure snap

/-- Read a snapshot unless there is one. -/
def ensureSnapshot (repository commit : String) : Program Unit := do
  let known : Bool ← await (.hasSnapshot repository commit)
  if known then pure ()
  else do
    let _ ← snapshot repository commit
    pure ()

/-- `_known_snapshot`. -/
def knownSnapshot (repository commit : String) : Program GitHubSnapshot :=
  await (.knownSnapshot repository commit)

/-- The status of a comparison whose head contains its base. -/
def containsBase (data : Json) : Except GitHubErrorCode Unit :=
  match data.get? "status" with
  | some (.str s) => require (s = "ahead" || s = "identical") .denied
  | some (.arr _) | some (.obj _) => raise .protocol
  | _ => raise .denied

/-- The snapshot of the base of a comparison whose merge base is that base. -/
def ancestorSnapshot (repository target : String) (payload : Json) :
    Except GitHubErrorCode GitHubSnapshot := do
  let data ← object (some payload)
  containsBase data
  let mergeBase ← object (data.get? "merge_base_commit")
  let mergeBaseSha ← sha (mergeBase.get? "sha")
  require (mergeBaseSha = target) .denied
  let base ← object (data.get? "base_commit")
  let baseSha ← sha (base.get? "sha")
  require (baseSha = target) .protocol
  let details ← object (base.get? "commit")
  let tree ← object (details.get? "tree")
  let treeSha ← sha (tree.get? "sha")
  .ok ⟨repository, target, treeSha⟩

def historicalSnapshot (repository : String) (commit anchorCommit : Option Json) :
    Program GitHubSnapshot := do
  let target ← check (requestSha commit)
  let anchor ← check (requestSha anchorCommit)
  let _ ← knownSnapshot repository anchor
  let proven : Bool ← await (.isProven repository target anchor)
  if target = anchor || proven then knownSnapshot repository target
  else do
    let data ← await (.get (.compare repository target anchor 2))
    let snap ← check (ancestorSnapshot repository target data)
    await (.storeAncestor snap anchor)
    pure snap

def tree (snap : GitHubSnapshot) (args : Json) : Program ReadResult := do
  let root ← check (path (arg args "prefix" (.str "")) true)
  let offset ← check (bounded (arg args "offset" (.int 0)) 0 100000)
  let payload ← await (.get (.tree snap.repository snap.tree true))
  let (items, providerTruncated) ← check (entries payload snap.tree)
  let selected ← check (selectEntries root items)
  let page ← check (treePage lib [] 24000 ((selected.drop offset.toNat).take 200))
  let next := offset + page.length
  let nextOffset := if next < selected.length then some next else none
  pure (.tree ⟨snap.repository, snap.commit, ""⟩ page (providerTruncated || nextOffset.isSome) nextOffset)

/-- The walk of `_file` from a tree to the blob at a path. -/
def findBlob (repository : String) (treeSha : String) : List (List Char) → Program (String × Int)
  | [] => check (raise .pathMissing)
  | component :: rest => do
    let payload ← await (.get (.tree repository treeSha false))
    let (items, truncated) ← check (entries payload treeSha)
    match items.find? fun item => item.get? "path" = some (.str (String.ofList component)) with
    | none => check (raise (if truncated then .tooLarge else .pathMissing))
    | some entry => do
      let modes := if rest = [] then ["100644", "100755"] else ["040000"]
      check (require (modes.any fun m => entry.get? "mode" = some (.str m)) .notText)
      let id ← check (sha (entry.get? "sha"))
      if rest = [] then do
        let size ← check (number (entry.get? "size"))
        pure (id, size)
      else findBlob repository id rest

/-- A character that a text file may not have. -/
def isControl (c : Char) : Bool := c.toNat < 32 && ! ['\n', '\r', '\t'].contains c

def file (snap : GitHubSnapshot) (args : Json) : Program ReadResult := do
  let target ← check (path (arg args "path" .null) false)
  let start ← check (bounded (arg args "start_line" (.int 1)) 1 1000000)
  let stop ← check (bounded (arg args "end_line" (.int (start + 199))) start (start + 199))
  let maxBytes ← check (bounded (arg args "max_bytes" (.int 24000)) 1 24000)
  let (id, entrySize) ← findBlob snap.repository snap.tree (segments target)
  check (require (entrySize ≤ 256 * 1024) .tooLarge)
  let payload ← await (.get (.blob snap.repository id))
  let blob ← check (object (some payload))
  let blobSha ← check (sha (blob.get? "sha"))
  check (require (blobSha = id) .protocol)
  let blobSize ← check (number (blob.get? "size"))
  check (require (blobSize ≤ 256 * 1024) .tooLarge)
  check (require (blobSize = entrySize) .protocol)
  check (require (blob.get? "encoding" = some (.str "base64")) .notText)
  let content ← check (string (blob.get? "content"))
  match lib.decodeFile content with
  | none => check (raise .protocol)
  | some (size, text) => do
    check (require (size ≤ 256 * 1024) .tooLarge)
    check (require ((size : Int) = blobSize) .protocol)
    match text with
    | none => check (raise .notText)
    | some text => do
      check (require (!text.toList.any isControl) .notText)
      let lines := textLines text
      let output ← check (takeLines lib [] maxBytes.toNat
        ((lines.take stop.toNat).drop (start - 1).toNat))
      let next := start + output.length
      pure (.file ⟨snap.repository, snap.commit, target⟩ output lines.length
        (if next ≤ lines.length then some next else none))

def pullSnapshot (repository : String) (pullNumber : Int) (grant : Option GitHubRepositoryAccess)
    (anchor baseAnchor : Option String) : Program PullSnapshot := do
  let payload ← await (.get (.pull repository pullNumber))
  let data ← check (object (some payload))
  let base ← check (object (data.get? "base"))
  let repo ← check (object (base.get? "repo"))
  let canonical ← check (string (repo.get? "full_name"))
  check (require (lib.casefold canonical = lib.casefold repository) .protocol)
  let title ← check (string (data.get? "title"))
  let state ← check (string (data.get? "state"))
  let baseSha ← check (sha (base.get? "sha"))
  let head ← check (object (data.get? "head"))
  let headSha ← check (sha (head.get? "sha"))
  let changed ← check (number (data.get? "changed_files"))
  match grant with
  | none => do
    let _ ← snapshot repository baseSha
    let _ ← snapshot repository headSha
    pure ⟨pullNumber, Text.clip 1024 title, state, baseSha, headSha, changed⟩
  | some grant => do
    check (require ((match base.get? "ref" with
      | some (.str ref) => grant.refs.contains ref
      | _ => false) && data.get? "number" = some (.int pullNumber)) .denied)
    let _ ← historicalSnapshot repository (some (.str baseSha)) (baseAnchor.map .str)
    let _ ← historicalSnapshot repository (some (.str headSha)) (anchor.map .str)
    pure ⟨pullNumber, Text.clip 1024 title, state, baseSha, headSha, changed⟩

def filesOf (data : Json) (limit : ℕ) : Except GitHubErrorCode (List Json) :=
  match data.get? "files" with
  | some (.arr items) => do
    require (items.length ≤ limit) .protocol
    items.mapM fun item => object (some item)
  | _ => raise .protocol

/-- The files of a pull request's comparison; their number is not bounded here. -/
def pullFiles (data : Json) : Except GitHubErrorCode (List Json) :=
  match data.get? "files" with
  | some (.arr items) => items.mapM fun item => object (some item)
  | _ => raise .protocol

def pull (key : PullKey) (grant : Option GitHubRepositoryAccess) (args : Json) :
    Program ReadResult := do
  let offset ← check (bounded (arg args "offset" (.int 0)) 0 300)
  let pull ← await (.pinPull key grant)
  let payload ← await (.get (.compare key.repository pull.base pull.head 1))
  let data ← check (object (some payload))
  let mergeBaseObject ← check (object (data.get? "merge_base_commit"))
  let mergeBase ← check (sha (mergeBaseObject.get? "sha"))
  ensureSnapshot key.repository mergeBase
  let files ← check (pullFiles data)
  let (page, nextOffset, trimmed) ←
    check (diffWindow lib key.repository (some mergeBase) pull.head files offset)
  let complete := files.length < 300 && (files.length : Int) = pull.changedFiles
  pure (.pull key.repository pull mergeBase page nextOffset (!complete || nextOffset.isSome || trimmed))

/-- An optional date of the arguments. -/
def optionalDate (args : Json) (name : String) : Except GitHubErrorCode (Option Int) :=
  match args.get? name with
  | some value => do
    let instant ← date lib .invalid (some value)
    .ok (some instant)
  | none => .ok none

def history (snap : GitHubSnapshot) (args : Json) : Program ReadResult := do
  let page ← check (bounded (arg args "page" (.int 1)) 1 10000)
  let since ← check (optionalDate lib args "since")
  let until_ ← check (optionalDate lib args "until")
  check (require (match since, until_ with
    | some a, some b => a < b
    | _, _ => true) .invalid)
  let target ← check (match args.get? "path" with
    | some value => do
      let p ← path value false
      .ok (some p)
    | none => .ok none)
  let payload ← await (.get (.commits snap.repository snap.commit page (since.map lib.showDate)
    (until_.map lib.showDate) target))
  match payload with
  | .arr items => do
    check (require (items.length ≤ 20) .protocol)
    let commits ← check (items.mapM (commitSummary lib))
    let selected := commits.filter fun c =>
      since.all (· ≤ c.committedAt) && until_.all (c.committedAt < ·)
    pure (.commits snap.repository snap.commit selected page (items.length = 20))
  | _ => check (raise .protocol)

def readCommit (repository : String) (args : Json) : Program ReadResult := do
  let offset ← check (bounded (arg args "offset" (.int 0)) 0 2999)
  let snap ← historicalSnapshot repository (args.get? "commit") (args.get? "anchor_commit")
  let payload ← await (.get (.commit repository snap.commit 30 (offset / 30 + 1)))
  let data ← check (object (some payload))
  let summary ← check (commitSummary lib data)
  check (require (summary.commit = snap.commit) .protocol)
  let details ← check (object (data.get? "commit"))
  let treeObject ← check (object (details.get? "tree"))
  let treeSha ← check (sha (treeObject.get? "sha"))
  check (require (treeSha = snap.tree) .protocol)
  let files ← check (filesOf data 30)
  let base := summary.parents.head?
  let (selected, nextLocal, trimmed) ←
    check (diffWindow lib repository base snap.commit files (offset % 30))
  let cap := files.length = 30 && offset / 30 = 99
  let next := match nextLocal with
    | some n => some (offset / 30 * 30 + n)
    | none => if files.length = 30 && !cap then some ((offset / 30 + 1) * 30) else none
  let stats ← check (object (data.get? "stats"))
  let _ ← check (["additions", "deletions", "total"].mapM fun name => number (stats.get? name))
  let anchor ← check (requestSha (args.get? "anchor_commit"))
  pure (.commit repository anchor summary base selected next (next.isSome || cap || trimmed))

def comparisonStatus (data : Json) : Except GitHubErrorCode String :=
  match data.get? "status" with
  | some (.str s) =>
    if List.contains ["ahead", "behind", "identical", "diverged"] s then .ok s else raise .protocol
  | _ => raise .protocol

def compareCommits (repository : String) (args : Json) : Program ReadResult := do
  let offset ← check (bounded (arg args "offset" (.int 0)) 0 300)
  let anchor ← check (requestSha (args.get? "anchor_commit"))
  let baseAnchor ← check (requestSha (some (arg args "base_anchor_commit" (.str anchor))))
  let _ ← knownSnapshot repository anchor
  let _ ← knownSnapshot repository baseAnchor
  let base ← historicalSnapshot repository (args.get? "base_commit") (some (.str baseAnchor))
  let head ← historicalSnapshot repository (args.get? "head_commit") (some (.str anchor))
  let payload ← await (.get (.compare repository base.commit head.commit 1))
  let data ← check (object (some payload))
  let baseObject ← check (object (data.get? "base_commit"))
  let baseSha ← check (sha (baseObject.get? "sha"))
  check (require (baseSha = base.commit) .protocol)
  let mergeBaseObject ← check (object (data.get? "merge_base_commit"))
  let mergeBase ← check (sha (mergeBaseObject.get? "sha"))
  let status ← check (comparisonStatus data)
  let files ← check (filesOf data 300)
  let (page, nextOffset, trimmed) ←
    check (diffWindow lib repository (some mergeBase) head.commit files offset)
  let counts ← check (["total_commits", "ahead_by", "behind_by"].mapM fun name =>
    number (data.get? name))
  pure (.comparison repository anchor baseAnchor base.commit head.commit mergeBase status counts page
    nextOffset (files.length = 300 || nextOffset.isSome || trimmed))

/-- One listed pull request. -/
def listedPull (repository ref : String) (payload : Json) : Except GitHubErrorCode Int := do
  let item ← object (some payload)
  let base ← object (item.get? "base")
  let repo ← object (base.get? "repo")
  let canonical ← string (repo.get? "full_name")
  require (base.get? "ref" = some (.str ref) && lib.casefold canonical = lib.casefold repository)
    .protocol
  let n ← number (item.get? "number")
  require (1 ≤ n && (item.get? "state" = some (.str "open") || item.get? "state" = some (.str "closed")))
    .protocol
  let _ ← string (item.get? "title")
  let head ← object (item.get? "head")
  let _ ← string (head.get? "ref")
  let _ ← ["created_at", "merged_at"].mapM fun name => match item.getSome? name with
    | some value => do
      let instant ← date lib .protocol (some value)
      .ok (some instant)
    | none => .ok none
  .ok n

def listPulls (grant : GitHubRepositoryAccess) (args : Json) : Program ReadResult := do
  match args.get? "ref" with
  | some (.str ref) => do
    check (require (grant.pullRequestsFromRefs && grant.refs.contains ref) .denied)
    let page ← check (bounded (arg args "page" (.int 1)) 1 10000)
    match arg args "state" (.str "all") with
    | .str state => do
      check (require (List.contains ["all", "open", "closed"] state) .invalid)
      let payload ← await (.get (.pulls grant.repository ref state page))
      match payload with
      | .arr items => do
        check (require (items.length ≤ 20) .protocol)
        let numbers ← check (items.mapM (listedPull lib grant.repository ref))
        pure (.pulls grant.repository ref state numbers (items.length = 20))
      | _ => check (raise .protocol)
    | _ => check (raise .invalid)
  | _ => check (raise .denied)

def resolveRef (grant : GitHubRepositoryAccess) (args : Json) : Program ReadResult :=
  match args.get? "ref" with
  | some (.str ref) => do
    check (require (grant.refs.contains ref) .denied)
    let snap ← await (.pinRef (grant.repository, ref))
    pure (.ref ref snap)
  | _ => check (raise .denied)

def readPullRequest (grant : GitHubRepositoryAccess) (args : Json) : Program ReadResult :=
  match args.get? "number" with
  | some (.int n) => do
    check (require (1 ≤ n) .denied)
    if grant.pullRequests.contains n then pull lib ⟨grant.repository, n, none, none⟩ none args
    else do
      check (require grant.pullRequestsFromRefs .denied)
      let anchor ← check (requestSha (args.get? "anchor_commit"))
      let _ ← knownSnapshot grant.repository anchor
      let baseAnchor ← check (requestSha (some (arg args "base_anchor_commit" (.str anchor))))
      let _ ← knownSnapshot grant.repository baseAnchor
      pull lib ⟨grant.repository, n, some anchor, some baseAnchor⟩ (some grant) args
  | _ => check (raise .denied)

/-- The snapshot that a read is about: proved from an anchor if one is given, else known. -/
def selectedSnapshot (grant : GitHubRepositoryAccess) (args : Json) : Program GitHubSnapshot :=
  match args.getSome? "anchor_commit" with
  | some anchor => historicalSnapshot grant.repository (args.get? "commit") (some anchor)
  | none => match args.get? "commit" with
    | some (.str commit) => knownSnapshot grant.repository commit
    | _ => check (raise .denied)

/-- `_execute`. -/
def executeOperation (grant : GitHubRepositoryAccess) (operation : Operation) (args : Json) :
    Program ReadResult :=
  match operation with
  | .resolveRef => resolveRef grant args
  | .listPullRequests => listPulls lib grant args
  | .readPullRequest => readPullRequest lib grant args
  | .compareCommits => compareCommits lib grant.repository args
  | .readCommit => readCommit lib grant.repository args
  | .listCommits => do
    let snap ← selectedSnapshot grant args
    history lib snap args
  | .listTree => do
    let snap ← selectedSnapshot grant args
    tree lib snap args
  | .readFile => do
    let snap ← selectedSnapshot grant args
    file lib snap args

end Reads

end Soveren.GitHub
