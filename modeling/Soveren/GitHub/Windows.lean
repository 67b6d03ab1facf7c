import Soveren.GitHub.Http
import Soveren.GitHub.Pinning
import Soveren.Relational.Windows

/-! Windowed reads of files, trees and commits: following the continuation of each answer shows the whole
object, each part once and in order. -/
namespace Soveren.GitHub
open Soveren.Process Soveren.Windows

section Answers

variable {α β : Type}

/-- Run a program against a provider and a connector that answer each operation the same way every time. -/
def run (world : (o : Op) → Res o) : Proc Op Res α → α
  | .ret a => a
  | .call o k => run world (k (world o))

def answer (world : (o : Op) → Res o) (x : Program α) : Except Failure α := run world x.run

variable {world : (o : Op) → Res o}

theorem run_bind (x : Proc Op Res α) (f : α → Proc Op Res β) :
    run world (x >>= f) = run world (f (run world x)) := by
  induction x with
  | ret a => rfl
  | call o k ih =>
    rw [Proc.call_bind]
    exact ih (world o)

theorem answer_bind (x : Program α) (f : α → Program β) :
    answer world (x >>= f) = match answer world x with
      | .ok a => answer world (f a)
      | .error e => .error e := by
  have hbind : answer world (x >>= f) = run world (x.run >>= ExceptT.bindCont f) := rfl
  rw [hbind, run_bind, answer]
  cases run world x.run <;> rfl

@[simp] theorem answer_pure (a : α) : answer world (pure a : Program α) = .ok a := rfl

@[simp] theorem answer_await (o : Op) : answer world (await o) = world o := rfl

@[simp] theorem answer_check_ok (a : α) : answer world (check (.ok a)) = .ok a := rfl

@[simp] theorem answer_check_error (code : GitHubErrorCode) :
    answer world (check (.error code : Except GitHubErrorCode α)) = .error (.github code) := rfl

/-- A step that succeeds is left behind. -/
theorem answer_step {x : Program α} {f : α → Program β} {a : α} (h : answer world x = .ok a) :
    answer world (x >>= f) = answer world (f a) := by
  rw [answer_bind, h]

theorem answer_fail {x : Program α} {f : α → Program β} {e : Failure} (h : answer world x = .error e) :
    answer world (x >>= f) = .error e := by
  rw [answer_bind, h]

theorem answer_checked {x : Except GitHubErrorCode α} {f : α → Program β} {a : α} (h : x = .ok a) :
    answer world (check x >>= f) = answer world (f a) := by
  rw [answer_step (a := a) (h ▸ rfl)]

theorem answer_awaited {o : Op} {f : Value o → Program β} {v : Value o} (h : world o = .ok v) :
    answer world (await o >>= f) = answer world (f v) :=
  answer_step (a := v) h

end Answers

section Lines

theorem flatMap_ended (parts : List (List Char)) (h : parts ≠ []) :
    (parts.dropLast.map fun l => String.ofList (l ++ ['\n'])).flatMap String.toList ++
      parts.getLast?.getD [] = List.intercalate ['\n'] parts := by
  induction parts with
  | nil => exact absurd rfl h
  | cons p parts ih =>
    cases parts with
    | nil => simp [List.intercalate]
    | cons q parts =>
      have hrest := ih (by simp)
      simp only [List.dropLast_cons_cons, List.map_cons, List.flatMap_cons, String.toList_ofList,
        List.getLast?_cons_cons] at hrest ⊢
      rw [List.append_assoc, hrest, List.append_assoc]
      simp [List.intercalate]

/-- The lines of a text are the text. -/
theorem textLines_flatten (text : String) : (textLines text).flatMap String.toList = text.toList := by
  have hended := flatMap_ended (text.toList.splitOn '\n') (List.splitOnP_ne_nil _ _)
  rw [List.intercalate_splitOn] at hended
  unfold textLines
  simp only
  cases hlast : (text.toList.splitOn '\n').getLast? with
  | none =>
    rw [hlast, Option.getD_none, List.append_nil] at hended
    exact hended
  | some last =>
    rw [hlast] at hended
    cases last with
    | nil =>
      rw [Option.getD_some, List.append_nil] at hended
      exact hended
    | cons c l =>
      simp only [List.flatMap_append, List.flatMap_singleton, String.toList_ofList]
      exact hended

theorem ne_empty_of_mem_textLines {text line : String} (h : line ∈ textLines text) : line.toList ≠ [] := by
  have hended : ∀ x ∈ ((text.toList.splitOn '\n').dropLast.map fun l => String.ofList (l ++ ['\n'])),
      x.toList ≠ [] := by
    intro x hx
    obtain ⟨l, -, rfl⟩ := List.mem_map.mp hx
    simp
  unfold textLines at h
  simp only at h
  split at h
  · obtain h | h := List.mem_append.mp h
    · exact hended line h
    · obtain rfl := List.mem_singleton.mp h
      simp
  · exact hended line h

theorem length_le_flatMap {lines : List String} (h : ∀ line ∈ lines, line.toList ≠ []) :
    lines.length ≤ (lines.flatMap String.toList).length := by
  induction lines with
  | nil => simp
  | cons line lines ih =>
    have hline := List.length_pos_of_ne_nil (h line List.mem_cons_self)
    have hrest := ih fun x hx => h x (List.mem_cons_of_mem line hx)
    rw [List.flatMap_cons, List.length_append, List.length_cons]
    omega

theorem length_textLines_le (text : String) : (textLines text).length ≤ text.toList.length := by
  have h : (textLines text).length ≤ ((textLines text).flatMap String.toList).length :=
    length_le_flatMap fun line hline => ne_empty_of_mem_textLines hline
  rwa [textLines_flatten] at h

theorem utf8ByteSize_cons (c : Char) (l : List Char) :
    (String.ofList (c :: l)).utf8ByteSize = c.utf8Size + (String.ofList l).utf8ByteSize := by
  have hcons : String.ofList (c :: l) = String.singleton c ++ String.ofList l := by
    rw [← String.toList_inj]
    simp
  rw [hcons, String.utf8ByteSize_append, String.utf8ByteSize_singleton]

/-- A character takes at least one byte. -/
theorem length_le_utf8ByteSize (s : String) : s.toList.length ≤ s.utf8ByteSize := by
  have hlist : ∀ l : List Char, l.length ≤ (String.ofList l).utf8ByteSize := by
    intro l
    induction l with
    | nil => simp
    | cons c l ih =>
      have hpos := c.utf8Size_pos
      rw [utf8ByteSize_cons, List.length_cons]
      omega
  simpa using hlist s.toList

theorem takeLines_eq (lib : Library) (output : List String) (budget : ℕ) (lines : List String) :
    takeLines lib output budget lines =
      match within lib.utf8Length output budget lines with
      | some page => .ok page
      | none => .error .lineTooLarge := by
  induction lines generalizing output budget with
  | nil => rfl
  | cons line lines ih =>
    rw [takeLines, within]
    by_cases hline : budget < lib.utf8Length line
    · simp only [hline, if_true]
      by_cases hout : output = []
      · simp [hout, raise]
      · simp [hout]
    · simp only [hline, if_false]
      exact ih _ _

end Lines

section Files

variable (lib : Library) (provider : Endpoint → Response) (known : (o : Op) → Res o)

/-- The arguments of a read of a file from a line on. -/
def fileArgs (path : String) (maxBytes : ℕ) (start : Int) : Json :=
  .obj [("max_bytes", .int maxBytes), ("path", .str path), ("start_line", .int start)]

def readFile (snap : GitHubSnapshot) (path : String) (maxBytes : ℕ) (start : Int) : Except Failure ReadResult :=
  answer (served provider known) (file lib snap (fileArgs path maxBytes start))

def ReadResult.lines : ReadResult → List String
  | .file _ lines _ _ => lines
  | _ => []

def ReadResult.next : ReadResult → Option Int
  | .file _ _ _ next => next
  | .tree _ _ _ next => next
  | .commit _ _ _ _ _ next _ => next
  | _ => none

/-- The first entry of a tree under a name, with its mode and its id. -/
structure IsEntry (repository treeSha name mode id : String) (entry : Json) : Prop where
  listed : ∃ payload items truncated, (provider (.tree repository treeSha false)).Holds payload ∧
    entries payload treeSha = .ok (items, truncated) ∧
    items.find? (fun item => item.get? "path" = some (.str name)) = some entry
  mode : entry.get? "mode" = some (.str mode)
  id : sha (entry.get? "sha") = .ok id

/-- The trees lead along the components of a path to a blob of some size; the listings on the way. -/
inductive Leads (repository : String) :
    String → List (List Char) → String → ℕ → List Endpoint → Prop where
  | blob {treeSha component mode id entry} {size : ℕ}
      (found : IsEntry provider repository treeSha (String.ofList component) mode id entry)
      (plain : mode ∈ ["100644", "100755"]) (sized : number (entry.get? "size") = .ok (size : Int)) :
      Leads repository treeSha [component] id size [.tree repository treeSha false]
  | directory {treeSha component entry next rest id size listings}
      (found : IsEntry provider repository treeSha (String.ofList component) "040000" next entry)
      (leads : Leads repository next rest id size listings) :
      Leads repository treeSha (component :: rest) id size (.tree repository treeSha false :: listings)

/-- A snapshot has a text file at a path: the trees lead to a blob whose content is the text. `asked` are
the requests that find it. -/
structure HasFile (snap : GitHubSnapshot) (target : String) (text : String) (asked : List Endpoint) : Prop where
  valid : path (.str target) false = .ok target
  small : text.utf8ByteSize ≤ 256 * 1024
  plain : ∀ c ∈ text.toList, isControl c = false
  found : ∃ id listings blob content,
    Leads provider snap.repository snap.tree (segments target) id text.utf8ByteSize listings ∧
    asked = listings ++ [.blob snap.repository id] ∧ (provider (.blob snap.repository id)).Holds blob ∧
    object (some blob) = .ok blob ∧ sha (blob.get? "sha") = .ok id ∧
    number (blob.get? "size") = .ok (text.utf8ByteSize : Int) ∧
    blob.get? "encoding" = some (.str "base64") ∧ string (blob.get? "content") = .ok content ∧
    lib.decodeFile content = some (text.utf8ByteSize, some text)

variable {lib provider known}

theorem fileArgs_path (path : String) (maxBytes : ℕ) (start : Int) :
    arg (fileArgs path maxBytes start) "path" .null = .str path := by
  simp [arg, fileArgs, Json.get?]

theorem fileArgs_start (path : String) (maxBytes : ℕ) (start : Int) :
    arg (fileArgs path maxBytes start) "start_line" (.int 1) = .int start := by
  simp [arg, fileArgs, Json.get?]

theorem fileArgs_end (path : String) (maxBytes : ℕ) (start : Int) (default : Json) :
    arg (fileArgs path maxBytes start) "end_line" default = default := by
  simp [arg, fileArgs, Json.get?]

theorem fileArgs_maxBytes (path : String) (maxBytes : ℕ) (start : Int) (default : Json) :
    arg (fileArgs path maxBytes start) "max_bytes" default = .int maxBytes := by
  simp [arg, fileArgs, Json.get?]

theorem bounded_ok {n low high : Int} (hlow : low ≤ n) (hhigh : n ≤ high) :
    bounded (.int n) low high = .ok n := by
  simp [bounded, hlow, hhigh]

theorem require_true (code : GitHubErrorCode) {condition : Bool} (h : condition = true) :
    require condition code = .ok () := by
  simp [require, h]

theorem findBlob_leads {repository treeSha id : String} {components : List (List Char)} {size : ℕ}
    {listings : List Endpoint} (h : Leads provider repository treeSha components id size listings)
    (hshort : ∀ e ∈ listings, (provider e).Short) :
    answer (served provider known) (findBlob repository treeSha components) = .ok (id, (size : Int)) := by
  induction h with
  | blob found plain sized =>
    obtain ⟨⟨payload, items, truncated, hholds, hentries, hfind⟩, hmode, hid⟩ := found
    rw [findBlob, answer_awaited (served_get hholds (hshort _ List.mem_cons_self)), answer_checked hentries]
    simp only [hfind, if_true]
    rw [answer_checked (require_true _ (List.any_eq_true.mpr ⟨_, plain, decide_eq_true hmode⟩)),
      answer_checked hid, answer_checked sized]
    rfl
  | @directory treeSha component entry next rest id size listings found leads ih =>
    obtain ⟨⟨payload, items, truncated, hholds, hentries, hfind⟩, hmode, hid⟩ := found
    have hrest : rest ≠ [] := by
      rintro rfl
      cases leads
    rw [findBlob, answer_awaited (served_get hholds (hshort _ List.mem_cons_self)), answer_checked hentries]
    simp only [hfind, if_neg hrest]
    rw [answer_checked (require_true _ (by simp [hmode])), answer_checked hid]
    exact ih fun e he => hshort e (List.mem_cons_of_mem _ he)

/-- What a read of a file from a line on answers. -/
theorem readFile_eq {snap : GitHubSnapshot} {target text : String} {asked : List Endpoint}
    (h : HasFile lib provider snap target text asked) (hshort : ∀ e ∈ asked, (provider e).Short)
    {maxBytes : ℕ} (hmin : 1 ≤ maxBytes) (hmax : maxBytes ≤ 24000) {start : Int} (hstart : 1 ≤ start)
    (hfar : start ≤ 1000000) :
    readFile lib provider known snap target maxBytes start =
      match takeLines lib [] maxBytes (((textLines text).take (start + 199).toNat).drop (start - 1).toNat) with
      | .ok output => .ok (.file ⟨snap.repository, snap.commit, target⟩ output (textLines text).length
          (if start + output.length ≤ (textLines text).length then some (start + output.length) else none))
      | .error code => .error (.github code) := by
  obtain ⟨hvalid, hsmall, hplain, id, listings, blob, content, hleads, rfl, hholds, hobject, hblobSha, hblobSize,
    hencoding, hcontent, hdecode⟩ := h
  have hsize : ((text.utf8ByteSize : Int) ≤ 256 * 1024) := by omega
  have hfound : answer (served provider known) (findBlob snap.repository snap.tree (segments target)) =
      .ok (id, (text.utf8ByteSize : Int)) :=
    findBlob_leads hleads fun e he => hshort e (List.mem_append_left _ he)
  have hblob : served provider known (.get (.blob snap.repository id)) = .ok blob :=
    served_get hholds (hshort _ (List.mem_append_right _ List.mem_cons_self))
  have hcontrol : text.toList.any isControl = false := List.any_eq_false.mpr fun c hc => by simp [hplain c hc]
  rw [readFile, file]
  rw [fileArgs_path, answer_checked hvalid, fileArgs_start, answer_checked (bounded_ok hstart hfar), fileArgs_end,
    answer_checked (bounded_ok (by omega) le_rfl), fileArgs_maxBytes,
    answer_checked (bounded_ok (by omega) (by omega)), answer_step hfound]
  simp only
  rw [answer_checked (require_true _ (decide_eq_true hsize)), answer_awaited hblob,
    answer_checked hobject, answer_checked hblobSha, answer_checked (require_true _ (by simp)),
    answer_checked hblobSize, answer_checked (require_true _ (decide_eq_true hsize)),
    answer_checked (require_true _ (by simp)), answer_checked (require_true _ (decide_eq_true hencoding)),
    answer_checked hcontent, hdecode]
  simp only
  rw [answer_checked (require_true _ (decide_eq_true hsmall)), answer_checked (require_true _ (by simp)),
    answer_checked (require_true _ (by simp [hcontrol])), Int.toNat_natCast]
  cases takeLines lib [] maxBytes (((textLines text).take (start + 199).toNat).drop (start - 1).toNat) with
  | error code => exact answer_fail rfl
  | ok output => exact answer_checked rfl

/-- An answer that shows at most `size` items from a position on, as many as its budget lets it. -/
theorem isWindow_of_taken {α : Type} {l : List α} {limit n k size : ℕ} {base : Int} {r : ReadResult}
    {items : ReadResult → List α} (hn : n ≤ l.length) (hlimit : l.length ≤ limit)
    (hk : k ≤ ((l.drop n).take size).length) (hpos : (l.drop n).take size ≠ [] → 0 < k) (hsize : 0 < size)
    (hitems : items r = ((l.drop n).take size).take k)
    (hnext : r.next = if n + k < l.length then some (base + ↑(n + k)) else none) :
    IsWindow ReadResult.next items base l limit n r := by
  rw [List.length_take, List.length_drop] at hk
  refine ⟨k, by rw [hitems, List.take_take, min_eq_left (by omega)], ?_⟩
  rw [hnext]
  by_cases hmore : n + k < l.length
  · refine .inr ⟨if_pos hmore, hpos ?_, by omega, by omega⟩
    apply List.ne_nil_of_length_pos
    rw [List.length_take, List.length_drop]
    omega
  · exact .inl ⟨if_neg hmore, by omega⟩

def ReadResult.text (r : ReadResult) : String := String.ofList (r.lines.flatMap String.toList)

/-- Reading a file on from line 1 gives the whole text, or a line is longer than an answer may be. -/
theorem readFile_whole (hlib : lib.utf8Length = String.utf8ByteSize) {snap : GitHubSnapshot} {target text : String}
    {asked : List Endpoint} (h : HasFile lib provider snap target text asked)
    (hshort : ∀ e ∈ asked, (provider e).Short) {maxBytes : ℕ} (hmin : 1 ≤ maxBytes) (hmax : maxBytes ≤ 24000) :
    ∃ fuel, (readOn (readFile lib provider known snap target maxBytes) ReadResult.next fuel 1 =
        some (.error (.github .lineTooLarge)) ∧ ∃ line ∈ textLines text, maxBytes < line.utf8ByteSize) ∨
      ∃ results, readOn (readFile lib provider known snap target maxBytes) ReadResult.next fuel 1 = some (.ok results) ∧
        results.flatMap (fun r => r.text.toList) = text.toList := by
  have hlines := length_textLines_le text
  have hbytes := length_le_utf8ByteSize text
  have hsmall := h.small
  have hwindow : ∀ n ≤ (textLines text).length, n ≤ (textLines text).length →
      (∃ e, readFile lib provider known snap target maxBytes (1 + n) = .error e ∧ e = .github .lineTooLarge ∧
        ∃ line ∈ textLines text, maxBytes < line.utf8ByteSize) ∨
      ∃ r, readFile lib provider known snap target maxBytes (1 + n) = .ok r ∧
        IsWindow ReadResult.next ReadResult.lines 1 (textLines text) (textLines text).length n r := by
    intro n hn _
    rw [readFile_eq h hshort hmin hmax (by omega) (by omega), takeLines_eq, List.drop_take]
    have hstart : (1 + (n : Int) - 1).toNat = n := by omega
    have hcount : (1 + (n : Int) + 199).toNat - (1 + (n : Int) - 1).toNat = 200 := by omega
    rw [hcount, hstart]
    obtain ⟨hnone, -, line, hline, hlong⟩ | ⟨k, hsome, hk, hpos⟩ :=
      within_cases lib.utf8Length [] maxBytes (((textLines text).drop n).take 200)
    · rw [hnone]
      refine .inl ⟨_, rfl, rfl, line, List.mem_of_mem_drop (List.mem_of_mem_take hline), ?_⟩
      rwa [hlib] at hlong
    · rw [hsome]
      refine .inr ⟨_, rfl, isWindow_of_taken hn le_rfl hk (hpos rfl) (by omega) rfl ?_⟩
      have hlength : ((((textLines text).drop n).take 200).take k).length = k := List.length_take_of_le hk
      simp only [ReadResult.next, List.nil_append, hlength]
      congr 1
      · simp only [eq_iff_iff]
        omega
      · congr 1
        omega
  obtain ⟨fuel, hread⟩ := readOn_windows (readFile lib provider known snap target maxBytes) ReadResult.next
    ReadResult.lines 1 (textLines text) _ _ 0 (Nat.zero_le _) (Nat.zero_le _) hwindow
  refine ⟨fuel, ?_⟩
  obtain ⟨e, he, rfl, hlong⟩ | ⟨results, hresults, hshown⟩ := hread
  · exact .inl ⟨he, hlong⟩
  · refine .inr ⟨results, hresults, ?_⟩
    rw [List.drop_zero] at hshown
    rw [← textLines_flatten, ← hshown, List.flatMap_assoc]
    simp [ReadResult.text]

end Files

section Trees

variable (lib : Library) (provider : Endpoint → Response) (known : (o : Op) → Res o)

def treeArgs (root : String) (offset : Int) : Json :=
  .obj [("offset", .int offset), ("prefix", .str root)]

def listTree (snap : GitHubSnapshot) (root : String) (offset : Int) : Except Failure ReadResult :=
  answer (served provider known) (tree lib snap (treeArgs root offset))

def ReadResult.entries : ReadResult → List TreeEntry
  | .tree _ entries _ _ => entries
  | _ => []

/-- The entries of a listing that are at or under a path, in the provider's order. -/
def entriesUnder (root : String) (items : List Json) : Except GitHubErrorCode (List TreeEntry) := do
  let selected ← items.mapM fun item => do
    let path ← string (item.get? "path")
    if root = "" || path = root || (root.toList ++ ['/']).isPrefixOf path.toList then do
      let kind ← string (item.get? "type")
      let id ← sha (item.get? "sha")
      .ok (some ⟨path, kind, id⟩)
    else .ok none
  .ok (selected.filterMap id)

theorem selectEntries_eq (root : String) (items : List Json) :
    selectEntries root items =
      (entriesUnder root items).map fun found => found.mergeSort fun a b => a.path ≤ b.path := by
  rw [selectEntries, entriesUnder]
  generalize (items.mapM _ : Except GitHubErrorCode (List (Option TreeEntry))) = x
  cases x <;> rfl

/-- A snapshot has a tree listing whose entries under a path are these, in the provider's order. -/
structure HasTree (snap : GitHubSnapshot) (root : String) (found : List TreeEntry) : Prop where
  valid : path (.str root) true = .ok root
  listed : ∃ payload items truncated, (provider (.tree snap.repository snap.tree true)).Holds payload ∧
    entries payload snap.tree = .ok (items, truncated) ∧ items.length ≤ 100000 ∧
    entriesUnder root items = .ok found

variable {lib provider known}

theorem mapM_length {α β : Type} {f : α → Except GitHubErrorCode β} {xs : List α} {ys : List β}
    (h : xs.mapM f = .ok ys) : ys.length = xs.length := by
  induction xs generalizing ys with
  | nil =>
    cases h
    rfl
  | cons x xs ih =>
    rw [List.mapM_cons] at h
    obtain ⟨y, -, h⟩ := bind_eq_ok h
    obtain ⟨ys', hys, h⟩ := bind_eq_ok h
    cases h
    rw [List.length_cons, List.length_cons, ih hys]

theorem entriesUnder_length {root : String} {items : List Json} {found : List TreeEntry}
    (h : entriesUnder root items = .ok found) : found.length ≤ items.length := by
  rw [entriesUnder] at h
  obtain ⟨selected, hselected, h⟩ := bind_eq_ok h
  cases h
  exact (List.length_filterMap_le _ _).trans (mapM_length hselected).le

theorem treePage_eq (page : List TreeEntry) (budget : ℕ) (items : List TreeEntry) :
    treePage lib page budget items =
      match within (fun e => lib.utf8Length e.path + 100) page budget items with
      | some page => .ok page
      | none => .error .tooLarge := by
  induction items generalizing page budget with
  | nil => rfl
  | cons e items ih =>
    rw [treePage, within]
    by_cases he : budget < lib.utf8Length e.path + 100
    · simp only [he, if_true]
      by_cases hpage : page = []
      · simp [hpage, raise]
      · simp [hpage]
    · simp only [he, if_false]
      exact ih _ _

/-- A tree whose listing is longer than the transport reads cannot be listed. -/
theorem listTree_tooLarge {snap : GitHubSnapshot} {root : String} {found : List TreeEntry}
    (h : HasTree provider snap root found) (hlong : ¬ (provider (.tree snap.repository snap.tree true)).Short) :
    listTree lib provider known snap root 0 = .error (.github .tooLarge) := by
  obtain ⟨hvalid, payload, items, truncated, hholds, -⟩ := h
  have hpayload : served provider known (.get (.tree snap.repository snap.tree true)) = .error (.github .tooLarge) :=
    served_tooLarge hholds hlong
  have hoffset : bounded (arg (treeArgs root 0) "offset" (.int 0)) 0 100000 = .ok 0 := by
    have harg : arg (treeArgs root 0) "offset" (.int 0) = .int 0 := by
      simp [arg, treeArgs, Json.get?]
    rw [harg]
    exact bounded_ok le_rfl (by omega)
  have hroot : arg (treeArgs root 0) "prefix" (.str "") = .str root := by
    simp [arg, treeArgs, Json.get?]
  rw [listTree, tree, hroot, answer_checked hvalid, answer_checked hoffset]
  exact answer_fail hpayload

/-- Listing a tree on from offset 0 gives each entry under the path once, in the order of the paths. -/
theorem listTree_whole {snap : GitHubSnapshot} {root : String} {found : List TreeEntry}
    (h : HasTree provider snap root found) (hshort : (provider (.tree snap.repository snap.tree true)).Short)
    (hpaths : ∀ e ∈ found, lib.utf8Length e.path ≤ 4096) :
    ∃ fuel results, readOn (listTree lib provider known snap root) ReadResult.next fuel 0 = some (.ok results) ∧
      (results.flatMap ReadResult.entries).Perm found ∧
      (results.flatMap ReadResult.entries).Pairwise (fun a b => a.path ≤ b.path) := by
  obtain ⟨hvalid, payload, items, truncated, hholds, hentries, hcount, hfound⟩ := h
  have hpayload : served provider known (.get (.tree snap.repository snap.tree true)) = .ok payload :=
    served_get hholds hshort
  have hlength := entriesUnder_length hfound
  set selected := found.mergeSort fun a b => a.path ≤ b.path with hselected
  have hselect : selectEntries root items = .ok selected := by
    rw [selectEntries_eq, hfound]
    rfl
  have hperm : selected.Perm found := List.mergeSort_perm _ _
  have hwindow : ∀ n ≤ selected.length, n ≤ selected.length →
      (∃ e, listTree lib provider known snap root (0 + n) = .error e ∧ False) ∨
      ∃ r, listTree lib provider known snap root (0 + n) = .ok r ∧
        IsWindow ReadResult.next ReadResult.entries 0 selected selected.length n r := by
    intro n hn _
    have hbound : selected.length = found.length := hperm.length_eq
    have hoffset : bounded (arg (treeArgs root (0 + n)) "offset" (.int 0)) 0 100000 = .ok (0 + n : Int) := by
      have harg : arg (treeArgs root (0 + n)) "offset" (.int 0) = .int (0 + n) := by
        simp [arg, treeArgs, Json.get?]
      rw [harg]
      exact bounded_ok (by omega) (by omega)
    have hroot : arg (treeArgs root (0 + n)) "prefix" (.str "") = .str root := by
      simp [arg, treeArgs, Json.get?]
    rw [listTree, tree, hroot, answer_checked hvalid, answer_checked hoffset, answer_awaited hpayload,
      answer_checked hentries]
    simp only
    rw [answer_checked hselect, treePage_eq]
    have hstart : (0 + (n : Int)).toNat = n := by omega
    rw [hstart]
    obtain ⟨-, -, e, he, hlong⟩ | ⟨k, hsome, hk, hpos⟩ :=
      within_cases (fun e => lib.utf8Length e.path + 100) [] 24000 ((selected.drop n).take 200)
    · have hmem := hperm.mem_iff.mp (List.mem_of_mem_drop (List.mem_of_mem_take he))
      have hshort := hpaths e hmem
      omega
    · rw [hsome]
      simp only
      rw [answer_checked rfl]
      refine .inr ⟨_, rfl, isWindow_of_taken hn le_rfl hk (hpos rfl) (by omega) rfl ?_⟩
      have htaken : (((selected.drop n).take 200).take k).length = k := List.length_take_of_le hk
      simp only [ReadResult.next, List.nil_append, htaken]
      congr 1
      · simp only [eq_iff_iff]
        omega
      · congr 1
        omega
  obtain ⟨fuel, ⟨_, _, hfalse⟩ | ⟨results, hresults, hshown⟩⟩ :=
    readOn_windows (listTree lib provider known snap root) ReadResult.next ReadResult.entries 0 selected _ _ 0
      (Nat.zero_le _) (Nat.zero_le _) hwindow
  · exact hfalse.elim
  · rw [List.drop_zero] at hshown
    refine ⟨fuel, results, hresults, hshown ▸ hperm, hshown ▸ ?_⟩
    have hsorted : selected.Pairwise fun a b => decide (a.path ≤ b.path) = true := List.pairwise_mergeSort
      (fun a b c hab hbc => by simpa using String.le_trans (by simpa using hab) (by simpa using hbc))
      (fun a b => by simpa using String.le_total a.path b.path) found
    exact hsorted.imp fun hab => by simpa using hab

end Trees

section Commits

variable (lib : Library) (provider : Endpoint → Response) (known : (o : Op) → Res o)

def commitArgs (commit anchor : String) (offset : Int) : Json :=
  .obj [("anchor_commit", .str anchor), ("commit", .str commit), ("offset", .int offset)]

def readCommitFrom (repository commit anchor : String) (offset : Int) : Except Failure ReadResult :=
  answer (served provider known) (readCommit lib repository (commitArgs commit anchor offset))

/-- A changed file, with the path that it had before. -/
structure Change where
  path : String
  status : String
  oldPath : String
  deriving DecidableEq

def FileDiff.change (file : FileDiff) : Change :=
  ⟨file.path, file.status, file.previousPath.getD file.path⟩

/-- The changed files that an answer shows. -/
def ReadResult.changes : ReadResult → List Change
  | .commit _ _ _ _ files _ _ => files.map FileDiff.change
  | _ => []

/-- A file of a commit as the provider describes it. -/
def IsChange (item : Json) (change : Change) : Prop :=
  string (item.get? "filename") = .ok change.path ∧ string (item.get? "status") = .ok change.status ∧
    oldPathOf item change.path change.status = .ok change.oldPath ∧ ∃ patch, patchOf item = .ok patch

/-- What the paths of a file take of an answer. -/
def Change.cost (change : Change) : ℕ := lib.utf8Length change.path + lib.utf8Length change.oldPath + 500

/-- A page of a commit with these files. -/
structure IsCommitPage (snap : GitHubSnapshot) (files : List Json) (payload : Json) : Prop where
  isObject : object (some payload) = .ok payload
  summary : ∃ c, commitSummary lib payload = .ok c ∧ c.commit = snap.commit
  tree : ∃ details treeObject, object (payload.get? "commit") = .ok details ∧
    object (details.get? "tree") = .ok treeObject ∧ sha (treeObject.get? "sha") = .ok snap.tree
  listed : filesOf payload 30 = .ok files
  stats : ∃ stats counts, object (payload.get? "stats") = .ok stats ∧
    ["additions", "deletions", "total"].mapM (fun name => number (stats.get? name)) = .ok counts

/-- A commit that can be read, with its changed files in the provider's order, in pages of 30. -/
structure HasCommit (repository commit anchor : String) (snap : GitHubSnapshot) (files : List Json) :
    Prop where
  anchored : isSha anchor = true
  found : answer (served provider known) (historicalSnapshot repository (some (.str commit)) (some (.str anchor))) =
    .ok snap
  pages : ∀ page : ℕ, ∃ payload, (provider (.commit repository snap.commit 30 (page + 1))).Holds payload ∧
    IsCommitPage lib snap ((files.drop (30 * page)).take 30) payload

variable {lib provider known}

theorem fileDiff_none {item : Json} {change : Change} (h : IsChange item change) {budget : ℕ}
    (hbudget : budget < change.cost lib) (repository head : String) (base : Option String) :
    fileDiff lib repository base head item budget = .ok none := by
  obtain ⟨hpath, hstatus, hold, patch, hpatch⟩ := h
  rw [fileDiff, hpath, ok_bind, hstatus, ok_bind, hold, ok_bind, hpatch, ok_bind]
  exact if_pos hbudget

theorem fileDiff_some {item : Json} {change : Change} (h : IsChange item change) {budget : ℕ}
    (hbudget : ¬ budget < change.cost lib) (repository head : String) (base : Option String) :
    ∃ file rest cut, fileDiff lib repository base head item budget = .ok (some (file, rest, cut)) ∧
      file.change = change := by
  obtain ⟨hpath, hstatus, hold, patch, hpatch⟩ := h
  rw [fileDiff, hpath, ok_bind, hstatus, ok_bind, hold, ok_bind, hpatch, ok_bind]
  refine ⟨_, _, _, if_neg hbudget, ?_⟩
  cases change with
  | mk path status oldPath =>
    by_cases hsame : oldPath = path
    · simp [FileDiff.change, hsame]
    · simp [FileDiff.change, hsame]

/-- The loop over the files of a page shows some of them, and the first one if it starts with all its budget. -/
theorem diffPage_changes (repository head : String) (base : Option String) {items : List Json}
    {changes : List Change} (h : List.Forall₂ IsChange items changes) (hcost : ∀ c ∈ changes, c.cost lib ≤ 24000)
    (page : List FileDiff) (trimmed : Bool) (budget : ℕ) (hfirst : page = [] → 24000 ≤ budget) :
    ∃ out trimmed' k, diffPage lib repository base head page trimmed budget items = .ok (out, trimmed') ∧
      out.map FileDiff.change = page.map FileDiff.change ++ changes.take k ∧
      out.length = page.length + k ∧ k ≤ changes.length ∧ (page = [] → changes ≠ [] → 0 < k) := by
  induction h generalizing page trimmed budget with
  | nil => exact ⟨page, trimmed, 0, rfl, by simp, rfl, Nat.le_refl 0, by simp⟩
  | @cons item change items changes hchange _ ih =>
    by_cases hbudget : budget < change.cost lib
    · have hnone := fileDiff_none hchange hbudget repository head base
      have hpage : page ≠ [] := by
        intro hpage
        have hfits := hcost change List.mem_cons_self
        have hall := hfirst hpage
        omega
      refine ⟨page, trimmed, 0, ?_, by simp, rfl, Nat.zero_le _, fun h => absurd h hpage⟩
      rw [diffPage, hnone, ok_bind]
      exact if_neg hpage
    · obtain ⟨file, rest, cut, hsome, hfile⟩ := fileDiff_some hchange hbudget repository head base
      obtain ⟨out, trimmed', k, hout, hmap, hlen, hle, -⟩ :=
        ih (fun c hc => hcost c (List.mem_cons_of_mem change hc)) (page ++ [file]) (trimmed || cut) rest (by simp)
      refine ⟨out, trimmed', k + 1, ?_, ?_, ?_, by simpa using hle, fun _ _ => Nat.succ_pos k⟩
      · rw [diffPage, hsome, ok_bind]
        exact hout
      · rw [hmap, List.map_append, List.append_assoc]
        simp [hfile]
      · rw [hlen, List.length_append, List.length_singleton]
        omega

/-- Where a read of a commit continues, after a page with `count` files whose window continues at `next`. -/
def pageContinuation (offset count : ℕ) (next : Option Int) : Option Int :=
  match next with
  | some n => some ((offset : Int) / 30 * 30 + n)
  | none => if decide (count = 30) && !(decide (count = 30) && decide ((offset : Int) / 30 = 99)) then
      some (((offset : Int) / 30 + 1) * 30) else none

def continuation (offset shown count : ℕ) : Option Int :=
  pageContinuation offset count
    (if (offset : Int) % 30 + shown < count then some ((offset : Int) % 30 + shown) else none)

/-- The pages of 30 and the offsets inside them fit together. -/
theorem continuation_window {l n k : ℕ} (hl : l ≤ 3000) (hn : n ≤ l) (hlast : n ≤ 2999)
    (hk : k ≤ min 30 (l - 30 * (n / 30)) - n % 30) (hpos : 0 < min 30 (l - 30 * (n / 30)) - n % 30 → 0 < k) :
    (continuation n k (min 30 (l - 30 * (n / 30))) = none ∧ l ≤ n + k) ∨
      (continuation n k (min 30 (l - 30 * (n / 30))) = some ((0 : Int) + ↑(n + k)) ∧
        0 < k ∧ n + k ≤ l ∧ n + k ≤ 2999) := by
  unfold continuation pageContinuation
  by_cases hinside : (n : Int) % 30 + k < (min 30 (l - 30 * (n / 30)) : ℕ)
  · refine .inr ⟨?_, by omega, by omega, by omega⟩
    rw [if_pos hinside]
    simp only
    congr 1
    omega
  · rw [if_neg hinside]
    simp only
    by_cases hfull : min 30 (l - 30 * (n / 30)) = 30
    · by_cases hcap : (n : Int) / 30 = 99
      · exact .inl ⟨by simp [hfull, hcap], by omega⟩
      · refine .inr ⟨?_, by omega, by omega, by omega⟩
        simp only [hfull, hcap, decide_true, decide_false, Bool.and_false, Bool.not_false, Bool.and_self, if_true]
        congr 1
        omega
    · exact .inl ⟨by simp [hfull], by omega⟩

/-- A read of a commit answers with the window of one page, or fails as the window does. -/
theorem readCommitFrom_page {repository commit anchor : String} {snap : GitHubSnapshot} {files : List Json}
    (h : HasCommit lib provider known repository commit anchor snap files)
    (hshort : ∀ page : ℕ, (provider (.commit repository snap.commit 30 (page + 1))).Short) {n : ℕ} (hn : n ≤ 2999) :
    ∃ base, (∀ code, diffWindow lib repository base snap.commit ((files.drop (30 * (n / 30))).take 30)
        ((n : Int) % 30) = .error code →
        readCommitFrom lib provider known repository commit anchor n = .error (.github code)) ∧
      ∀ page next trimmed, diffWindow lib repository base snap.commit ((files.drop (30 * (n / 30))).take 30)
        ((n : Int) % 30) = .ok (page, next, trimmed) →
        ∃ r, readCommitFrom lib provider known repository commit anchor n = .ok r ∧
          r.changes = page.map FileDiff.change ∧
          r.next = pageContinuation n ((files.drop (30 * (n / 30))).take 30).length next := by
  obtain ⟨hanchor, hfound, hpages⟩ := h
  obtain ⟨payload, hholds, hobject, ⟨c, hsummary, hcommit⟩, ⟨details, treeObject, hdetails, htree, hsha⟩,
    hlisted, stats, counts, hstats, hcounts⟩ := hpages (n / 30)
  have hpayload : served provider known (.get (.commit repository snap.commit 30 ((n / 30 : ℕ) + 1))) = .ok payload :=
    served_get hholds (hshort (n / 30))
  have hoffset : arg (commitArgs commit anchor n) "offset" (.int 0) = .int n := by
    simp [arg, commitArgs, Json.get?]
  have hcommitArg : (commitArgs commit anchor n).get? "commit" = some (.str commit) := by
    simp [commitArgs, Json.get?]
  have hanchorArg : (commitArgs commit anchor n).get? "anchor_commit" = some (.str anchor) := by
    simp [commitArgs, Json.get?]
  have hnumber : ((n : Int) / 30 + 1) = ((n / 30 : ℕ) : Int) + 1 := by omega
  have hrequest : requestSha (some (.str anchor)) = .ok anchor := by simp [requestSha, shaOr, hanchor]
  rw [readCommitFrom, readCommit, hoffset, answer_checked (bounded_ok (by omega) (by omega)), hcommitArg,
    hanchorArg, answer_step hfound, hnumber, answer_awaited hpayload, answer_checked hobject,
    answer_checked hsummary, answer_checked (require_true _ (decide_eq_true hcommit)), answer_checked hdetails,
    answer_checked htree, answer_checked hsha, answer_checked (require_true _ (by simp)),
    answer_checked hlisted]
  simp only
  refine ⟨c.parents.head?, ?_, ?_⟩
  · intro code hwindow
    rw [hwindow]
    exact answer_fail rfl
  · intro page next trimmed hwindow
    rw [answer_checked hwindow]
    simp only
    rw [answer_checked hstats, answer_checked hcounts, answer_checked hrequest, ← hnumber]
    exact ⟨_, rfl, rfl, rfl⟩

theorem readCommitFrom_window {repository commit anchor : String} {snap : GitHubSnapshot} {files : List Json}
    {changes : List Change} (h : HasCommit lib provider known repository commit anchor snap files)
    (hshort : ∀ page : ℕ, (provider (.commit repository snap.commit 30 (page + 1))).Short)
    (hchanges : List.Forall₂ IsChange files changes) (hcost : ∀ c ∈ changes, c.cost lib ≤ 24000) {n : ℕ}
    (hn : n ≤ 2999) :
    ∃ r k, readCommitFrom lib provider known repository commit anchor n = .ok r ∧
      r.changes = (((changes.drop (30 * (n / 30))).take 30).drop (n % 30)).take k ∧
      k ≤ (((changes.drop (30 * (n / 30))).take 30).drop (n % 30)).length ∧
      ((((changes.drop (30 * (n / 30))).take 30).drop (n % 30)) ≠ [] → 0 < k) ∧
      r.next = continuation n k ((changes.drop (30 * (n / 30))).take 30).length := by
  obtain ⟨base, -, hpage⟩ := readCommitFrom_page h hshort hn
  have hitems : List.Forall₂ IsChange ((((files.drop (30 * (n / 30))).take 30).drop ((n : Int) % 30).toNat).take 30)
      (((changes.drop (30 * (n / 30))).take 30).drop (n % 30)) := by
    have hlocal : ((n : Int) % 30).toNat = n % 30 := by omega
    have hall : ((((files.drop (30 * (n / 30))).take 30).drop (n % 30)).take 30) =
        ((files.drop (30 * (n / 30))).take 30).drop (n % 30) := by
      apply List.take_of_length_le
      rw [List.length_drop, List.length_take]
      omega
    rw [hlocal, hall]
    exact List.forall₂_drop _ (List.forall₂_take _ (List.forall₂_drop _ hchanges))
  have hcount : ((files.drop (30 * (n / 30))).take 30).length = ((changes.drop (30 * (n / 30))).take 30).length := by
    rw [List.length_take, List.length_take, List.length_drop, List.length_drop, hchanges.length_eq]
  have hshownCost : ∀ c ∈ ((changes.drop (30 * (n / 30))).take 30).drop (n % 30), c.cost lib ≤ 24000 :=
    fun c hc => hcost c (List.mem_of_mem_drop (List.mem_of_mem_take (List.mem_of_mem_drop hc)))
  obtain ⟨page, trimmed, k, hloop, hmap, hlen, hk, hpos⟩ := diffPage_changes repository
    snap.commit base hitems hshownCost [] false 24000 fun _ => le_rfl
  rw [List.length_nil, Nat.zero_add] at hlen
  have hdiff : diffWindow lib repository base snap.commit ((files.drop (30 * (n / 30))).take 30)
      ((n : Int) % 30) = .ok (page, (if (n : Int) % 30 + k < ((changes.drop (30 * (n / 30))).take 30).length
        then some ((n : Int) % 30 + k) else none), trimmed) := by
    rw [diffWindow, hloop, ok_bind]
    simp only [hlen, hcount]
  obtain ⟨r, hr, hshown, hnext⟩ := hpage _ _ _ hdiff
  refine ⟨r, k, hr, ?_, hk, hpos rfl, ?_⟩
  · rw [hshown, hmap, List.map_nil, List.nil_append]
  · rw [hnext, hcount, continuation]

/-- Reading a commit on from offset 0 shows each changed file once, in the provider's order. -/
theorem readCommitFrom_whole {repository commit anchor : String} {snap : GitHubSnapshot} {files : List Json}
    {changes : List Change} (h : HasCommit lib provider known repository commit anchor snap files)
    (hshort : ∀ page : ℕ, (provider (.commit repository snap.commit 30 (page + 1))).Short)
    (hchanges : List.Forall₂ IsChange files changes) (hcost : ∀ c ∈ changes, c.cost lib ≤ 24000)
    (hmany : files.length ≤ 3000) :
    ∃ fuel results, readOn (readCommitFrom lib provider known repository commit anchor) ReadResult.next fuel 0 =
      some (.ok results) ∧ results.flatMap ReadResult.changes = changes := by
  rw [hchanges.length_eq] at hmany
  have hwindow : ∀ n ≤ changes.length, n ≤ 2999 →
      (∃ e, readCommitFrom lib provider known repository commit anchor (0 + n) = .error e ∧ False) ∨
      ∃ r, readCommitFrom lib provider known repository commit anchor (0 + n) = .ok r ∧
        IsWindow ReadResult.next ReadResult.changes 0 changes 2999 n r := by
    intro n hn hlast
    obtain ⟨r, k, hr, hshown, hk, hpos, hnext⟩ := readCommitFrom_window h hshort hchanges hcost hlast
    have hcount : ((changes.drop (30 * (n / 30))).take 30).length = min 30 (changes.length - 30 * (n / 30)) := by
      rw [List.length_take, List.length_drop]
    rw [List.length_drop, hcount] at hk
    rw [hcount] at hnext
    refine .inr ⟨r, by rwa [Int.zero_add], k, ?_, ?_⟩
    · rw [hshown, List.drop_take, List.take_take, List.drop_drop, min_eq_left (by omega), Nat.div_add_mod]
    · rw [hnext]
      refine continuation_window hmany hn hlast hk fun hleft => hpos ?_
      apply List.ne_nil_of_length_pos
      rwa [List.length_drop, hcount]
  obtain ⟨fuel, ⟨_, _, hfalse⟩ | ⟨results, hresults, hshown⟩⟩ :=
    readOn_windows (readCommitFrom lib provider known repository commit anchor) ReadResult.next ReadResult.changes 0
      changes _ 2999 0 (Nat.zero_le _) (Nat.zero_le _) hwindow
  · exact hfalse.elim
  · exact ⟨fuel, results, hresults, hshown⟩

end Commits

section Complete

def exampleFile (path : String) : Json := .obj [("filename", .str path), ("status", .str "modified")]

def exampleBlob : Json :=
  .obj [("content", .str "YQpiCg=="), ("encoding", .str "base64"), ("sha", .str (exampleSha 'b')), ("size", .int 4)]

def exampleEntry : Json :=
  .obj [("path", .str "a.txt"), ("mode", .str "100644"), ("type", .str "blob"), ("sha", .str (exampleSha 'b')),
    ("size", .int 4)]

def exampleDirectory : Json :=
  .obj [("path", .str "doc"), ("mode", .str "040000"), ("type", .str "tree"), ("sha", .str (exampleSha 'd'))]

/-- The listing of a tree. -/
def exampleListing (treeSha : String) (items : List Json) : Json :=
  .obj [("sha", .str treeSha), ("tree", .arr items), ("truncated", .bool false)]

def exampleDeepEntry : Json :=
  .obj [("path", .str "doc/a.txt"), ("mode", .str "100644"), ("type", .str "blob"), ("sha", .str (exampleSha 'b')),
    ("size", .int 4)]

def examplePage (files : List Json) : Json :=
  .obj [("sha", .str (exampleSha 'a')),
    ("commit", .obj [("message", .str "m"), ("tree", .obj [("sha", .str (exampleSha 'e'))]),
      ("author", .obj [("date", .str "2026-01-01T00:00:00Z")]),
      ("committer", .obj [("date", .str "2026-01-01T00:00:00Z")])]),
    ("parents", .arr []), ("files", .arr files),
    ("stats", .obj [("additions", .int 1), ("deletions", .int 0), ("total", .int 1)])]

/-- What a provider holds that has one text file of two lines in a directory and one commit that changes the
file at a path. -/
def exampleContent (path : String) : Endpoint → Json
  | .tree _ treeSha true => exampleListing treeSha [exampleDirectory, exampleDeepEntry]
  | .tree _ treeSha false =>
    exampleListing treeSha (if treeSha = exampleSha 'd' then [exampleEntry] else [exampleDirectory])
  | .commit _ _ _ page => examplePage (if page = 1 then [exampleFile path] else [])
  | _ => exampleBlob

/-- The provider, which pads each body with blanks so that it arrives in these chunks. -/
def exampleProvider (path : String) (chunks : List ℕ) (endpoint : Endpoint) : Response :=
  .answered 200 false chunks (some (exampleContent path endpoint))

def exampleKnown : (o : Op) → Res o
  | .knownSnapshot repository commit => .ok ⟨repository, commit, exampleSha 'e'⟩
  | .isProven _ _ _ => .ok true
  | _ => .error (.github .denied)

def exampleSnapshot : GitHubSnapshot := ⟨"o/r", exampleSha 'a', exampleSha 'e'⟩

def readingLibrary : Library :=
  { exampleLibrary with
    utf8Length := String.utf8ByteSize
    decodeFile := fun _ => some (4, some "a\nb\n") }

theorem exampleProvider_holds (path : String) (chunks : List ℕ) (endpoint : Endpoint) :
    (exampleProvider path chunks endpoint).Holds (exampleContent path endpoint) :=
  ⟨200, false, chunks, rfl, .inl rfl⟩

/-- The requests that find the file. -/
def exampleAsked : List Endpoint :=
  [.tree "o/r" (exampleSha 'e') false, .tree "o/r" (exampleSha 'd') false, .blob "o/r" (exampleSha 'b')]

theorem exampleProvider_leads (path : String) (chunks : List ℕ) :
    Leads (exampleProvider path chunks) "o/r" (exampleSha 'e') (segments "doc/a.txt") (exampleSha 'b') 4
      [.tree "o/r" (exampleSha 'e') false, .tree "o/r" (exampleSha 'd') false] := by
  have hsegments : segments "doc/a.txt" = [['d', 'o', 'c'], ['a', '.', 't', 'x', 't']] := by decide +kernel
  have hroot : IsEntry (exampleProvider path chunks) "o/r" (exampleSha 'e') (String.ofList ['d', 'o', 'c'])
      "040000" (exampleSha 'd') exampleDirectory :=
    ⟨⟨_, [exampleDirectory], false, exampleProvider_holds _ _ _, rfl, rfl⟩, rfl, rfl⟩
  have hname : IsEntry (exampleProvider path chunks) "o/r" (exampleSha 'd')
      (String.ofList ['a', '.', 't', 'x', 't']) "100644" (exampleSha 'b') exampleEntry :=
    ⟨⟨_, [exampleEntry], false, exampleProvider_holds _ _ _, rfl, rfl⟩, rfl, rfl⟩
  rw [hsegments]
  exact .directory hroot (.blob hname (by decide) rfl)

theorem exampleText_plain (c : Char) (hc : c ∈ "a\nb\n".toList) : isControl c = false := by
  have htext : "a\nb\n".toList.any isControl = false := by decide +kernel
  simpa using List.any_eq_false.mp htext c hc

theorem exampleProvider_file (path : String) (chunks : List ℕ) :
    HasFile readingLibrary (exampleProvider path chunks) exampleSnapshot "doc/a.txt" "a\nb\n" exampleAsked where
  valid := by decide +kernel
  small := by decide +kernel
  plain := exampleText_plain
  found := ⟨exampleSha 'b', _, exampleBlob, "YQpiCg==", exampleProvider_leads path chunks, rfl,
    exampleProvider_holds _ _ _, rfl, by decide +kernel, rfl, rfl, rfl, rfl⟩

def exampleEntries : List TreeEntry :=
  [⟨"doc", "tree", exampleSha 'd'⟩, ⟨"doc/a.txt", "blob", exampleSha 'b'⟩]

theorem exampleProvider_tree (path : String) (chunks : List ℕ) :
    HasTree (exampleProvider path chunks) exampleSnapshot "" exampleEntries where
  valid := by decide +kernel
  listed := ⟨_, [exampleDirectory, exampleDeepEntry], false, exampleProvider_holds _ _ _, rfl, by decide, rfl⟩

theorem examplePage_files (files : List Json) (h : filesOf (examplePage files) 30 = .ok files) :
    IsCommitPage readingLibrary exampleSnapshot files (examplePage files) where
  isObject := rfl
  summary := ⟨_, rfl, rfl⟩
  tree := ⟨_, _, rfl, rfl, rfl⟩
  listed := h
  stats := ⟨_, _, rfl, rfl⟩

theorem exampleContent_page (path repository ref : String) (perPage page : Int) :
    exampleContent path (.commit repository ref perPage page) =
      examplePage (if page = 1 then [exampleFile path] else []) := rfl

theorem exampleFile_change (path : String) : IsChange (exampleFile path) ⟨path, "modified", path⟩ :=
  ⟨rfl, rfl, rfl, none, rfl⟩

theorem exampleProvider_commit (path : String) (chunks : List ℕ) :
    HasCommit readingLibrary (exampleProvider path chunks) exampleKnown "o/r" (exampleSha 'a') (exampleSha 'a')
      exampleSnapshot [exampleFile path] where
  anchored := by decide +kernel
  found := rfl
  pages := by
    intro page
    refine ⟨_, exampleProvider_holds _ _ _, ?_⟩
    rw [exampleContent_page]
    cases page with
    | zero => exact examplePage_files [exampleFile path] rfl
    | succ page =>
      have hother : ¬ ((page + 1 : ℕ) : Int) + 1 = 1 := by omega
      have hrest : ([exampleFile path].drop (30 * (page + 1))).take 30 = [] := by
        rw [List.drop_of_length_le (by rw [List.length_singleton]; omega), List.take_nil]
      rw [if_neg hother, hrest]
      exact examplePage_files [] rfl

theorem exampleProvider_short (path : String) (endpoint : Endpoint) :
    (exampleProvider path [65536] endpoint).Short := by
  change [65536].sum ≤ 8 * 1024 * 1024
  decide

theorem exampleProvider_unreadable {path : String} (h : 12000 ≤ path.utf8ByteSize) :
    readCommitFrom readingLibrary (exampleProvider path [65536]) exampleKnown "o/r" (exampleSha 'a') (exampleSha 'a')
      (0 : ℕ) = .error (.github .tooLarge) := by
  obtain ⟨base, herror, -⟩ := readCommitFrom_page (n := 0) (exampleProvider_commit path [65536])
    (fun _ => exampleProvider_short _ _) (by omega)
  apply herror
  have hcost : 24000 < Change.cost readingLibrary ⟨path, "modified", path⟩ := by
    have hlength : readingLibrary.utf8Length = String.utf8ByteSize := rfl
    simp only [Change.cost, hlength]
    omega
  have hnone := fileDiff_none (exampleFile_change path) hcost "o/r" exampleSnapshot.commit base
  have hloop : diffPage readingLibrary "o/r" base exampleSnapshot.commit [] false 24000 [exampleFile path] =
      .error .tooLarge := by
    rw [diffPage, hnone]
    rfl
  have hitems : (((([exampleFile path].drop (30 * (0 / 30))).take 30).drop (((0 : ℕ) : Int) % 30).toNat).take 30) =
      [exampleFile path] := rfl
  rw [diffWindow, hitems, hloop]
  rfl

/-- A path of 12000 bytes. -/
def longPath : String := String.ofList (List.replicate 12000 'a')

/-- A body of more than 8 MiB. -/
def longBody : List ℕ := List.replicate 129 65536

end Complete

end Soveren.GitHub
