import Mathlib.Data.String.Basic
import Soveren.Relational.Like
import Soveren.Dialogue.Store

/-! Searching the active tasks of a scope. -/
namespace Soveren.Dialogue
open Soveren.Relational Soveren.Conversation Soveren.Like

structure DialogueCandidate where
  taskId : String
  title : String
  status : TaskStatus
  revision : ℕ
  updatedAt : Int
  excerpt : Option String
  deriving DecidableEq

structure DialoguePage where
  items : List DialogueCandidate
  offset : Int
  hasMore : Bool
  deriving DecidableEq

def maxPageSize : Int := 100
def maxQueryChars : ℕ := 256

def validatePage (limit offset : Int) : Except StoreError Unit :=
  if !(1 ≤ limit && limit ≤ maxPageSize) then .error (.valueError "limit must be between 1 and 100")
  else if !(0 ≤ offset && offset ≤ 100000) then
    .error (.valueError "offset must be between 0 and 100000")
  else .ok ()

/-- `_candidate`. -/
def candidate (row : TaskRow) : DialogueCandidate :=
  ⟨row.id, row.title, row.status, row.revision, row.updatedAt, some (Text.clip 240 row.originalRequest)⟩

/-- `ORDER BY updated_at DESC, id ASC`. -/
def candidateOrder (r s : TaskRow) : Prop :=
  s.updatedAt < r.updatedAt ∨ (r.updatedAt = s.updatedAt ∧ r.id ≤ s.id)

instance : DecidableRel candidateOrder := fun _ _ => instDecidableOr

/-- The condition `tenant_id = ? AND source_id = ? AND status = 'active'`. -/
def isActive (scope : Scope) (row : TaskRow) : Bool := row.scope = scope && row.status = .active

/-- The page of rows of a statement with `LIMIT limit + 1 OFFSET offset`. -/
def candidatePage (rows : List TaskRow) (limit offset : Int) : DialoguePage :=
  let fetched := (rows.drop offset.toNat).take (limit + 1).toNat
  ⟨(fetched.take limit.toNat).map candidate, offset, limit < fetched.length⟩

/-- `s.replace(c, t)` for a single character. -/
def replaceChar (c : Char) (t s : List Char) : List Char := s.flatMap fun d => if d = c then t else [d]

/-- `query.strip().replace("%", "\\%").replace("_", "\\_")`. -/
def escapeQuery (needle : List Char) : List Char :=
  replaceChar '_' ['\\', '_'] (replaceChar '%' ['\\', '%'] needle)

def searchPattern (query : String) : List Char :=
  '%' :: escapeQuery (Text.strip query).toList ++ ['%']

def searchCandidates (db : Tables) (scope : Scope) (query : String) (limit offset : Int) :
    Except StoreError DialoguePage := do
  validatePage limit offset
  if Text.blank query || maxQueryChars < Text.len query then
    .error (.valueError "query must contain between 1 and 256 characters")
  else
    let pattern := searchPattern query
    .ok (candidatePage (selectOrdered (fun row => isActive scope row &&
      (like '\\' pattern row.title.toList || like '\\' pattern row.originalRequest.toList))
      candidateOrder db.tasks) limit offset)

/-- The active tasks of the scope whose title or request contains the query. -/
def isMatch (scope : Scope) (query : String) (row : TaskRow) : Bool :=
  isActive scope row && (Contains (Text.strip query).toList row.title.toList ||
    Contains (Text.strip query).toList row.originalRequest.toList)

/-- The characters that the escaping forgets are not in the query. -/
def Ordinary (needle : List Char) : Prop := '\\' ∉ needle ∧ '\x00' ∉ needle

/-- The query has a NUL and in front of it a backslash that escapes nothing: its pattern matches no text. -/
def Barren (needle : List Char) : Prop :=
  '\x00' ∈ needle ∧ .never ∈ parse '\\' (escapeQuery (beforeNul needle))

/-- No text of the task has a NUL. -/
def NulFree (row : TaskRow) : Prop := '\x00' ∉ row.title.toList ∧ '\x00' ∉ row.originalRequest.toList

/-- If the task contains the query, then in front of the first NUL of a text. -/
def Visible (query : String) (row : TaskRow) : Prop :=
  Contains (Text.strip query).toList row.title.toList ∨
      Contains (Text.strip query).toList row.originalRequest.toList →
    Contains (Text.strip query).toList (beforeNul row.title.toList) ∨
      Contains (Text.strip query).toList (beforeNul row.originalRequest.toList)

/-- The search returns exactly the tasks that contain the query, in order and by pages. -/
def SearchesLiterally (db : Tables) (scope : Scope) (query : String) (limit offset : Int) : Prop :=
  ∃ rows : List TaskRow, rows.Perm (db.tasks.filter (isMatch scope query)) ∧
    rows.Pairwise candidateOrder ∧
    searchCandidates db scope query limit offset = .ok
      ⟨((rows.drop offset.toNat).take limit.toNat).map candidate, offset, offset + limit < rows.length⟩

section Escape

/-- How one character is written in a pattern. -/
theorem escapeQuery_cons (c : Char) (needle : List Char) :
    escapeQuery (c :: needle) =
      (if c = '%' then ['\\', '%'] else if c = '_' then ['\\', '_'] else [c]) ++ escapeQuery needle := by
  by_cases hany : c = '%'
  · simp [escapeQuery, replaceChar, hany]
  · by_cases hone : c = '_'
    · simp [escapeQuery, replaceChar, hone]
    · simp [escapeQuery, replaceChar, hany, hone]

theorem escapeQuery_append (s t : List Char) :
    escapeQuery (s ++ t) = escapeQuery s ++ escapeQuery t := by
  simp [escapeQuery, replaceChar]

/-- Without a backslash in it, a query is matched character by character. -/
theorem parse_escapeQuery {needle : List Char} (h : '\\' ∉ needle) (p : List Char) :
    parse '\\' (escapeQuery needle ++ p) = needle.map .literal ++ parse '\\' p := by
  induction needle with
  | nil => rfl
  | cons c needle ih =>
    obtain ⟨hc, hrest⟩ := not_or.mp (mt List.mem_cons.mpr h)
    rw [escapeQuery_cons, List.append_assoc, List.map_cons, List.cons_append, ← ih hrest]
    split
    · rename_i hany
      rw [hany]
      exact parse_escape '%' _
    · split
      · rename_i hone
        rw [hone]
        exact parse_escape '_' _
      · rename_i hany hone
        exact parse_literal (Ne.symm hc) hany hone _

theorem nul_not_mem_escapeQuery {needle : List Char} (h : '\x00' ∉ needle) : '\x00' ∉ escapeQuery needle := by
  induction needle with
  | nil => exact h
  | cons c needle ih =>
    obtain ⟨hc, hrest⟩ := not_or.mp (mt List.mem_cons.mpr h)
    rw [escapeQuery_cons, List.mem_append, not_or]
    refine ⟨?_, ih hrest⟩
    split
    · decide
    · split
      · decide
      · simpa using hc

/-- A query with a NUL is escaped up to there. -/
theorem beforeNul_escapeQuery {needle : List Char} (h : '\x00' ∈ needle) (t : List Char) :
    beforeNul (escapeQuery needle ++ t) = escapeQuery (beforeNul needle) := by
  obtain ⟨s, rest, rfl, hs⟩ := List.eq_append_cons_of_mem h
  have hcut : ∀ r, beforeNul ('\x00' :: r) = [] := fun _ => rfl
  have hnul : escapeQuery (s ++ '\x00' :: rest) ++ t =
      escapeQuery s ++ '\x00' :: (escapeQuery rest ++ t) := by
    rw [escapeQuery_append, escapeQuery_cons, if_neg (by decide), if_neg (by decide)]
    simp
  rw [hnul, beforeNul_append (nul_not_mem_escapeQuery hs), beforeNul_append hs, hcut, hcut,
    List.append_nil, List.append_nil]

/-- The pattern of a query as the operator reads it. -/
theorem parse_searchPattern {query : String} (h : '\x00' ∉ (Text.strip query).toList) :
    parse '\\' (beforeNul (searchPattern query)) =
      .any :: parse '\\' (escapeQuery (Text.strip query).toList ++ ['%']) := by
  have hnul : '\x00' ∉ searchPattern query := by
    simp [searchPattern, nul_not_mem_escapeQuery h]
  rw [beforeNul_eq_self hnul, searchPattern, List.cons_append, parse_any (by decide)]

theorem parse_searchPattern_nul {query : String} (h : '\x00' ∈ (Text.strip query).toList) :
    parse '\\' (beforeNul (searchPattern query)) =
      .any :: parse '\\' (escapeQuery (beforeNul (Text.strip query).toList)) := by
  have hcut : beforeNul (searchPattern query) =
      '%' :: beforeNul (escapeQuery (Text.strip query).toList ++ ['%']) := rfl
  rw [hcut, parse_any (by decide), beforeNul_escapeQuery h]

/-- The search sees a plain query in what the operator reads of a text. -/
theorem like_searchPattern {query : String}
    (h : Ordinary (Text.strip query).toList ∨ Barren (Text.strip query).toList) (s : List Char) :
    like '\\' (searchPattern query) s = decide (Contains (Text.strip query).toList (beforeNul s)) := by
  obtain ⟨hslash, hnul⟩ | ⟨hnul, hnever⟩ := h
  · rw [like, parse_searchPattern hnul, parse_escapeQuery hslash, Bool.eq_iff_iff, ← List.cons_append]
    exact matchTokens_contains.trans (decide_eq_true_iff).symm
  · have hmiss : ¬ Contains (Text.strip query).toList (beforeNul s) := fun hc =>
      nul_not_mem_beforeNul s (hc.nul hnul)
    rw [like, parse_searchPattern_nul hnul, matchTokens_never (List.mem_cons_of_mem _ hnever),
      decide_eq_false hmiss]

/-- A text that the pattern of a query matches: a backslash has made the next character literal, or
doubled a backslash of the escaping and left a wildcard. -/
def shadow : List Char → List Char
  | [] => []
  | [c] => if c = '\\' then ['%'] else [c]
  | c :: d :: needle =>
    if c = '\\' then
      if d = '%' then '\\' :: shadow needle
      else if d = '_' then '\\' :: 'x' :: shadow needle
      else d :: shadow needle
    else c :: shadow (d :: needle)

theorem length_shadow_le (needle : List Char) : (shadow needle).length ≤ needle.length := by
  induction needle using shadow.induct <;> simp_all [shadow] <;> omega

/-- Every pattern of a query matches its shadow. -/
theorem matchTokens_shadow (needle : List Char) :
    matchTokens (parse '\\' (escapeQuery needle ++ ['%'])) (shadow needle) = true := by
  induction needle using shadow.induct with
  | case1 => rfl
  | case2 => decide
  | case3 c hc =>
    rw [shadow, if_neg hc, parse_escapeQuery (by simpa using Ne.symm hc)]
    simp [parse, matchTokens]
  | case4 needle ih =>
    -- The backslash of the escaping has become a literal and left the wildcard free.
    rw [escapeQuery_cons, if_neg (by decide), if_neg (by decide), escapeQuery_cons, if_pos rfl]
    simpa [shadow, parse_escape, parse_any, matchTokens] using matchTokens_any_self ih
  | case5 needle hd ih =>
    rw [escapeQuery_cons, if_neg (by decide), if_neg (by decide), escapeQuery_cons, if_neg (by decide),
      if_pos rfl]
    simpa [shadow, parse_escape, parse_one, matchTokens] using ih
  | case6 d needle hany hone ih =>
    rw [escapeQuery_cons, if_neg (by decide), if_neg (by decide), escapeQuery_cons, if_neg hany,
      if_neg hone]
    simpa [shadow, hany, hone, parse_escape, matchTokens] using ih
  | case7 c d needle hc ih =>
    have hmem : '\\' ∉ [c] := by simpa using Ne.symm hc
    have hparse := parse_escapeQuery hmem (escapeQuery (d :: needle) ++ ['%'])
    rw [← List.append_assoc, ← escapeQuery_append, List.singleton_append] at hparse
    rw [hparse]
    simpa [shadow, hc, matchTokens] using ih

/-- The shadow of a query with a backslash is another text, and not a longer one. -/
theorem shadow_ne {needle : List Char} (h : '\\' ∈ needle) :
    (shadow needle).map Char.toLower ≠ needle.map Char.toLower := by
  intro he
  have hlength := congrArg List.length he
  induction needle using shadow.induct with
  | case1 => cases h
  | case2 => exact absurd he (by decide)
  | case3 c hc => exact hc (List.mem_singleton.mp h).symm
  | case4 needle ih =>
    have hle := length_shadow_le needle
    simp [shadow] at hlength
    omega
  | case5 needle hd ih => simp [shadow] at he
  | case6 d needle hany hone ih =>
    have hle := length_shadow_le needle
    simp [shadow, hany, hone] at hlength
    omega
  | case7 c d needle hc ih =>
    simp only [shadow, if_neg hc, List.map_cons, List.cons.injEq, true_and] at he
    obtain h | h := List.mem_cons.mp h
    · exact hc h.symm
    · exact ih h he (congrArg List.length he)

theorem nul_not_mem_shadow {needle : List Char} (h : '\x00' ∉ needle) : '\x00' ∉ shadow needle := by
  induction needle using shadow.induct <;> simp_all [shadow]

theorem not_contains_shadow {needle : List Char} (h : '\\' ∈ needle) :
    ¬ Contains needle (shadow needle) := by
  intro hc
  have hle : (needle.map Char.toLower).length ≤ ((shadow needle).map Char.toLower).length :=
    hc.length_le
  simp only [List.length_map] at hle
  refine shadow_ne h (hc.eq_of_length ?_).symm
  simpa using le_antisymm hle (length_shadow_le needle)

end Escape

section Pages

instance : Std.Total candidateOrder where
  total r s := by
    unfold candidateOrder
    obtain h | h | h := lt_trichotomy r.updatedAt s.updatedAt
    · exact .inr (.inl h)
    · obtain hid | hid := le_total r.id s.id
      · exact .inl (.inr ⟨h, hid⟩)
      · exact .inr (.inr ⟨h.symm, hid⟩)
    · exact .inl (.inl h)

instance : IsTrans TaskRow candidateOrder where
  trans r s t := by
    rintro (hrs | ⟨hrs, hid⟩) (hst | ⟨hst, hid'⟩)
    · exact .inl (hst.trans hrs)
    · exact .inl (hst ▸ hrs)
    · exact .inl (hrs ▸ hst)
    · exact .inr ⟨hrs.trans hst, hid.trans hid'⟩

theorem validatePage_ok {limit offset : Int} (hlimit : 1 ≤ limit) (hmax : limit ≤ maxPageSize)
    (hoffset : 0 ≤ offset) (hfar : offset ≤ 100000) : validatePage limit offset = .ok () := by
  simp [validatePage, hlimit, hmax, hoffset, hfar]

/-- The extra row a statement fetches tells whether there are more. -/
theorem candidatePage_eq (rows : List TaskRow) {limit offset : Int} (hlimit : 1 ≤ limit)
    (hoffset : 0 ≤ offset) : candidatePage rows limit offset =
      ⟨((rows.drop offset.toNat).take limit.toNat).map candidate, offset,
        offset + limit < rows.length⟩ := by
  have hmore : limit < ((rows.drop offset.toNat).take (limit + 1).toNat).length ↔
      offset + limit < rows.length := by
    rw [List.length_take, List.length_drop]
    omega
  simp only [candidatePage, List.take_take, hmore]
  congr 4
  omega

end Pages

/-- What a search whose query is accepted returns. -/
theorem searchCandidates_eq {db : Tables} {scope : Scope} {query : String} {limit offset : Int}
    (hblank : Text.blank query = false) (hlen : Text.len query ≤ maxQueryChars)
    (hlimit : 1 ≤ limit) (hmax : limit ≤ maxPageSize) (hoffset : 0 ≤ offset) (hfar : offset ≤ 100000) :
    searchCandidates db scope query limit offset = .ok (candidatePage (selectOrdered
      (fun row => isActive scope row && (like '\\' (searchPattern query) row.title.toList ||
        like '\\' (searchPattern query) row.originalRequest.toList)) candidateOrder db.tasks)
      limit offset) := by
  have hcond : (Text.blank query || decide (maxQueryChars < Text.len query)) = false := by
    simpa [hblank] using hlen
  rw [searchCandidates, validatePage_ok hlimit hmax hoffset hfar, hcond]
  rfl

theorem searchesLiterally {db : Tables} {scope : Scope} {query : String} {limit offset : Int}
    (hblank : Text.blank query = false) (hlen : Text.len query ≤ maxQueryChars)
    (hquery : Ordinary (Text.strip query).toList ∨ Barren (Text.strip query).toList)
    (hrows : ∀ row ∈ db.tasks, row.status = .active → Visible query row)
    (hlimit : 1 ≤ limit) (hmax : limit ≤ maxPageSize) (hoffset : 0 ≤ offset) (hfar : offset ≤ 100000) :
    SearchesLiterally db scope query limit offset := by
  have hfound : selectOrdered (fun row => isActive scope row &&
      (like '\\' (searchPattern query) row.title.toList ||
        like '\\' (searchPattern query) row.originalRequest.toList)) candidateOrder db.tasks =
      selectOrdered (isMatch scope query) candidateOrder db.tasks := by
    refine congrArg (List.insertionSort candidateOrder) (List.filter_congr fun row hrow => ?_)
    rw [isMatch, Bool.eq_iff_iff]
    simp only [like_searchPattern hquery, Bool.and_eq_true, Bool.or_eq_true, decide_eq_true_eq]
    refine and_congr_right fun hactive => ⟨Or.imp Contains.of_beforeNul Contains.of_beforeNul, ?_⟩
    simp only [isActive, Bool.and_eq_true, decide_eq_true_eq] at hactive
    exact hrows row hrow hactive.2
  refine ⟨selectOrdered (isMatch scope query) candidateOrder db.tasks,
    List.perm_insertionSort _ _, List.pairwise_insertionSort _ _, ?_⟩
  rw [searchCandidates_eq hblank hlen hlimit hmax hoffset hfar, ← candidatePage_eq _ hlimit hoffset, hfound]

/-- The search among one active task finds it if the pattern matches it, and so is literal only if the task
contains the query just then. -/
theorem found_of_searchesLiterally {query : String} {row : TaskRow} (hblank : Text.blank query = false)
    (hlen : Text.len query ≤ maxQueryChars) (hactive : row.status = .active)
    (h : SearchesLiterally { tasks := [row] } row.scope query 1 0) :
    (like '\\' (searchPattern query) row.title.toList ||
      like '\\' (searchPattern query) row.originalRequest.toList) = isMatch row.scope query row := by
  obtain ⟨rows, hperm, -, hresult⟩ := h
  rw [searchCandidates_eq hblank hlen le_rfl (by decide) le_rfl (by decide)] at hresult
  have hmine : isActive row.scope row = true := by simp [isActive, hactive]
  have hitems := congrArg DialoguePage.items (Except.ok.inj hresult)
  cases hlike : like '\\' (searchPattern query) row.title.toList ||
      like '\\' (searchPattern query) row.originalRequest.toList with
  | true =>
    by_contra hno
    have hempty : rows = [] := by
      rw [List.filter_cons_of_neg (fun hm => hno hm.symm)] at hperm
      exact hperm.eq_nil
    simp [selectOrdered, hmine, hlike, hempty, candidatePage] at hitems
  | false =>
    by_contra hno
    have hone : rows = [row] := by
      rw [List.filter_cons_of_pos (by simpa using (Ne.symm hno))] at hperm
      exact List.perm_singleton.mp hperm
    simp [selectOrdered, hmine, hlike, hone, candidatePage] at hitems

/-- A task with a text as its request. -/
def taskWith (scope : Scope) (request : List Char) : TaskRow :=
  { id := "task", scope := scope, title := "a", originalRequest := String.ofList request, status := .active,
    revision := 1, createdAt := 0, updatedAt := 0, terminalAt := none }

/-- A text that the pattern of a query matches and that does not contain it. -/
theorem exists_mismatch {query : String} (hordinary : ¬ Ordinary (Text.strip query).toList)
    (hbarren : ¬ Barren (Text.strip query).toList) : ∃ s, '\x00' ∉ s ∧
      like '\\' (searchPattern query) s = true ∧ ¬ Contains (Text.strip query).toList s := by
  by_cases hnul : '\x00' ∈ (Text.strip query).toList
  · have hnever : .never ∉ parse '\\' (escapeQuery (beforeNul (Text.strip query).toList)) := fun h =>
      hbarren ⟨hnul, h⟩
    have hfree : '\x00' ∉ sample (parse '\\' (escapeQuery (beforeNul (Text.strip query).toList))) :=
      nul_not_mem_sample (nul_not_mem_escapeQuery (nul_not_mem_beforeNul _))
    refine ⟨_, hfree, ?_, fun hc => hfree (hc.nul hnul)⟩
    rw [like, parse_searchPattern_nul hnul, beforeNul_eq_self hfree]
    exact matchTokens_any_self (matchTokens_sample hnever)
  · have hslash : '\\' ∈ (Text.strip query).toList := by
      by_contra hslash
      exact hordinary ⟨hslash, hnul⟩
    have hfree := nul_not_mem_shadow hnul
    refine ⟨_, hfree, ?_, not_contains_shadow hslash⟩
    rw [like, parse_searchPattern hnul, beforeNul_eq_self hfree]
    exact matchTokens_any_self (matchTokens_shadow _)

/-- The title of `taskWith` shows no query that its pattern treats specially. -/
theorem not_contains_title {needle : List Char} (hordinary : ¬ Ordinary needle) : ¬ Contains needle ['a'] := by
  intro h
  refine hordinary ⟨fun hslash => ?_, fun hnul => ?_⟩
  · have hmem : '\\' ∈ ['a'].map Char.toLower := h.subset (List.mem_map.mpr ⟨'\\', hslash, by decide⟩)
    exact absurd hmem (by decide)
  · exact absurd (h.nul hnul) (by decide)

end Soveren.Dialogue
