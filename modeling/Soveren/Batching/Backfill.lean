import Soveren.Relational.Shell
import Soveren.Batching.Store
import Soveren.Batching.Conservation

/-! Migration 025 derives a history row for each stored message that was received before the history existed.
Its row is compared with the one that receiving the message records. -/
namespace Soveren.Batching
open scoped List
open Soveren.Relational Soveren.History

section Migration

/-- `TRIM(value)`: only spaces are trimmed. -/
def sqlTrim (s : String) : String := String.ofList (Text.trimBoth (· == ' ') s.toList)

/-- `json_extract(document, path)`, before the value becomes an SQL value. -/
def extract (document : Json) : List String → Option Json
  | [] => some document
  | key :: path => (document.get? key).bind fun value => extract value path

/-- `json_valid(document)` for a text that was written from a value: infinities and NaN are no JSON, and the
database's parser goes down 1000 levels. -/
def jsonValid (document : Json) : Bool :=
  !document.anyFloat (["inf", "-inf", "nan"].contains ·) && document.depth ≤ 1000

/-- `CASE WHEN json_valid(document) THEN value END`. -/
def whenValid {α : Type} (document : Json) (value : Option α) : Option α :=
  if jsonValid document then value else none

/-- The text of an extracted value. An integer beyond 64 bits is a real for the database; the database's text of
reals, arrays and objects is a parameter. -/
def sqlText (rendered : Json → String) : Json → Option String
  | .null => none
  | .bool b => some (if b then "1" else "0")
  | .int n => some (if Fits n then toString n else rendered (.int n))
  | .str s => some s
  | value => some (rendered value)

/-- `CASE WHEN json_type(document, path) = 'text' THEN NULLIF(TRIM(json_extract(document, path)), '') END`. -/
def trimmedText (document : Json) (path : List String) : Option String :=
  match extract document path with
  | some (.str s) => Text.orNone (sqlTrim s)
  | _ => none

def backfillAuthorId (rendered : Json → String) (document : Json) : Option String :=
  [["user_id"], ["from_user_id"], ["sender_id"], ["payload", "user_id"], ["payload", "from_user_id"],
    ["payload", "sender_id"]].findSome? fun path => (extract document path).bind (sqlText rendered)

def backfillUsername (document : Json) : Option String :=
  ([["username"], ["from_username"], ["payload", "username"], ["payload", "from_username"]].findSome?
    (trimmedText document)).bind fun name => Text.orNone (Text.lstrip '@' (sqlTrim name))

/-- First and last name below a path, with a space between them. -/
def fullName (document : Json) (above : List String) : Option String :=
  let first := [above ++ ["first_name"], above ++ ["from_first_name"]].findSome? (trimmedText document)
  let last := [above ++ ["last_name"], above ++ ["from_last_name"]].findSome? (trimmedText document)
  Text.orNone (sqlTrim (first.getD "" ++ " " ++ last.getD ""))

def backfillDisplayName (document : Json) : Option String :=
  (([["display_name"], ["author_name"], ["sender_name"], ["payload", "display_name"],
    ["payload", "author_name"], ["payload", "sender_name"]].findSome? (trimmedText document)).or
    (fullName document [])).or (fullName document ["payload"])

/-- The row that the migration inserts for a stored message. -/
def backfillRow (rendered : Json → String) (r : BatchMessageRow) : ConversationMessageRow where
  id := "history_in_" ++ r.id
  tenantId := r.tenantId
  sourceId := r.sourceId
  channel := r.channel
  direction := .inbound
  authorId := whenValid r.payload (backfillAuthorId rendered r.payload)
  authorUsername := whenValid r.payload (backfillUsername r.payload)
  authorDisplayName := whenValid r.payload (backfillDisplayName r.payload)
  text := (whenValid r.payload ((extract r.payload ["text"]).bind (sqlText rendered))).getD ""
  sourceMessageId := r.rawEventId
  sourceEventId := r.sourceEventId
  metadata := .obj []
  occurredAt := r.messageAt
  createdAt := r.createdAt

end Migration

section Names

/-- Non-space characters with single spaces between them, or nothing. -/
def Plain (s : String) : Prop := Text.normalize s = s

instance (s : String) : Decidable (Plain s) := inferInstanceAs (Decidable (_ = _))

/-- Neither the first nor the last character is a space. -/
def Edged (l : List Char) : Prop :=
  (∀ c ∈ l.head?, Text.isSpace c = false) ∧ ∀ c ∈ l.getLast?, Text.isSpace c = false

theorem dropWhile_of_head {p : Char → Bool} {l : List Char} (h : ∀ c ∈ l.head?, p c = false) :
    l.dropWhile p = l := by
  cases l with
  | nil => rfl
  | cons c l => rw [List.dropWhile_cons_of_neg (by simpa using h c rfl)]

theorem trimBoth_of_edges {p : Char → Bool} {l : List Char} (hhead : ∀ c ∈ l.head?, p c = false)
    (hlast : ∀ c ∈ l.getLast?, p c = false) : Text.trimBoth p l = l := by
  rw [Text.trimBoth, dropWhile_of_head hhead, dropWhile_of_head (by rwa [List.head?_reverse]),
    List.reverse_reverse]

theorem not_isSpace_ne {c : Char} (h : Text.isSpace c = false) : (c == ' ') = false := by
  rw [beq_eq_false_iff_ne]
  rintro rfl
  exact absurd h (by decide)

theorem Edged.strip {s : String} (h : Edged s.toList) : Text.strip s = s := by
  rw [Text.strip, trimBoth_of_edges h.1 h.2, String.ofList_toList]

theorem Edged.sqlTrim {s : String} (h : Edged s.toList) : sqlTrim s = s := by
  rw [Batching.sqlTrim, trimBoth_of_edges (fun c hc => not_isSpace_ne (h.1 c hc))
    fun c hc => not_isSpace_ne (h.2 c hc), String.ofList_toList]

theorem isSpace_of_mem_splitOnP {s piece : List Char} (h : piece ∈ s.splitOnP Text.isSpace) :
    ∀ c ∈ piece, Text.isSpace c = false := by
  induction s generalizing piece with
  | nil =>
    rw [List.splitOnP_nil, List.mem_singleton] at h
    simp [h]
  | cons c s ih =>
    rw [List.splitOnP_cons_eq_if_modifyHead] at h
    split at h
    · obtain rfl | h := List.mem_cons.mp h
      · simp
      · exact ih h
    · rename_i hc
      match hs : s.splitOnP Text.isSpace with
      | [] => exact absurd hs (List.splitOnP_ne_nil Text.isSpace s)
      | first :: rest =>
        rw [hs, List.modifyHead_cons] at h
        rw [hs] at ih
        obtain rfl | h := List.mem_cons.mp h
        · intro d hd
          obtain rfl | hd := List.mem_cons.mp hd
          · simpa using hc
          · exact ih List.mem_cons_self d hd
        · exact ih (List.mem_cons_of_mem _ h)

theorem edged_of_word {w : List Char} (h : ∀ c ∈ w, Text.isSpace c = false) : Edged w :=
  ⟨fun c hc => h c (List.mem_of_mem_head? hc), fun c hc => h c (List.mem_of_mem_getLast? hc)⟩

/-- A text that begins and ends as two texts without outer spaces do has none either. -/
theorem Edged.append {l m : List Char} (hl : Edged l) (hm : Edged m) (hlne : l ≠ []) (hmne : m ≠ []) (mid : List Char) :
    Edged (l ++ mid ++ m) := by
  refine ⟨fun c hc => ?_, fun c hc => ?_⟩
  · rw [List.append_assoc, List.head?_append_of_ne_nil _ hlne] at hc
    exact hl.1 c hc
  · rw [List.getLast?_append_of_ne_nil _ hmne] at hc
    exact hm.2 c hc

theorem edged_intercalate {ws : List (List Char)} (h : ∀ w ∈ ws, w ≠ [] ∧ ∀ c ∈ w, Text.isSpace c = false) :
    Edged ([' '].intercalate ws) ∧ (ws ≠ [] → [' '].intercalate ws ≠ []) := by
  induction ws with
  | nil => simp [Edged]
  | cons w ws ih =>
    obtain ⟨hne, hword⟩ := h w List.mem_cons_self
    cases ws with
    | nil => simpa using ⟨edged_of_word hword, hne⟩
    | cons v ws =>
      obtain ⟨hedged, hrest⟩ := ih fun u hu => h u (List.mem_cons_of_mem _ hu)
      rw [List.intercalate_cons_cons]
      exact ⟨(edged_of_word hword).append hedged hne (hrest (List.cons_ne_nil v ws)) [' '], by simp [hne]⟩

theorem Plain.eq {s : String} (h : Plain s) : Text.normalize s = s := h

theorem Plain.edged {s : String} (h : Plain s) : Edged s.toList := by
  rw [← h, Text.normalize, String.toList_intercalate, show " ".toList = [' '] from by decide, List.map_map,
    show String.toList ∘ String.ofList = id from funext fun _ => String.toList_ofList, List.map_id]
  refine (edged_intercalate fun w hw => ?_).1
  obtain ⟨hpiece, hne⟩ := List.mem_filter.mp hw
  exact ⟨by simpa using hne, isSpace_of_mem_splitOnP hpiece⟩

/-- The only space in a plain text is the blank. -/
theorem Plain.space {s : String} (h : Plain s) {c : Char} (hc : c ∈ s.toList) (hspace : Text.isSpace c = true) :
    c = ' ' := by
  rw [← h, Text.normalize, String.toList_intercalate, show " ".toList = [' '] from by decide, List.map_map,
    show String.toList ∘ String.ofList = id from funext fun _ => String.toList_ofList, List.map_id] at hc
  obtain hc | ⟨w, hw, hc⟩ := Shell.mem_intercalate hc
  · exact List.mem_singleton.mp hc
  · have hword := isSpace_of_mem_splitOnP (List.mem_filter.mp hw).1 c hc
    rw [hword] at hspace
    cases hspace

end Names

section Fields

def idKeys : List String := ["user_id", "from_user_id", "sender_id"]

def nameKeys : List String :=
  ["username", "from_username", "display_name", "author_name", "sender_name", "first_name", "from_first_name",
    "last_name", "from_last_name"]

/-- A field that names a participant: null or a plain text. -/
def NameField : Json → Prop
  | .null => True
  | .str s => Plain s
  | _ => False

/-- A field that identifies a participant may be an integer as well. -/
def IdField : Json → Prop
  | .int _ => True
  | value => NameField value

instance : DecidablePred NameField
  | .null => isTrue trivial
  | .str s => inferInstanceAs (Decidable (Plain s))
  | .bool _ | .int _ | .float _ | .arr _ | .obj _ => isFalse id

instance : DecidablePred IdField
  | .int _ => isTrue trivial
  | .null => isTrue trivial
  | .str s => inferInstanceAs (Decidable (Plain s))
  | .bool _ | .float _ | .arr _ | .obj _ => isFalse id

theorem NameField.cases {v : Json} (h : NameField v) : v = .null ∨ ∃ s, v = .str s ∧ Plain s := by
  cases v with
  | null => exact .inl rfl
  | str s => exact .inr ⟨s, rfl, h⟩
  | _ => cases h

/-- The identity fields of a payload, at either level and in any combination. -/
structure Identified (payload : Json) : Prop where
  ids : ∀ source ∈ [payload, nestedPayload payload], ∀ key ∈ idKeys, ∀ v ∈ source.get? key, IdField v
  names : ∀ source ∈ [payload, nestedPayload payload], ∀ key ∈ nameKeys, ∀ v ∈ source.get? key, NameField v

instance (payload : Json) : Decidable (Identified payload) :=
  decidable_of_iff
    ((∀ source ∈ [payload, nestedPayload payload], ∀ key ∈ idKeys, ∀ v ∈ source.get? key, IdField v) ∧
      ∀ source ∈ [payload, nestedPayload payload], ∀ key ∈ nameKeys, ∀ v ∈ source.get? key, NameField v)
    ⟨fun h => ⟨h.1, h.2⟩, fun h => ⟨h.ids, h.names⟩⟩

theorem get?_messagePayload (m : InboundMessage) {key : String}
    (hkey : key ∉ ["channel", "source_id", "raw_event_id", "source_event_id", "text", "message_at"]) :
    (messagePayload m).get? key = m.payload.get? key := by
  simp only [List.mem_cons, List.not_mem_nil, or_false, not_or] at hkey
  obtain ⟨hchannel, hsource, hraw, hevent, htext, hat⟩ := hkey
  rw [messagePayload, Json.get?_set_of_ne hat, Json.get?_set_of_ne htext, Json.get?_set_of_ne hevent,
    Json.get?_set_of_ne hraw, Json.get?_set_of_ne hsource, Json.get?_set_of_ne hchannel]

theorem extract_nested (payload : Json) (key : String) :
    (payload.get? "payload").bind (fun value => extract value [key]) = (nestedPayload payload).get? key := by
  rw [nestedPayload]
  match hnested : payload.get? "payload" with
  | none => rfl
  | some value =>
    cases value with
    | obj fields =>
      rw [Option.bind_some, extract]
      cases (Json.obj fields).get? key <;> rfl
    | _ => rfl

/-- A text field with something in it. -/
def fieldText (source : Json) (key : String) : Option String :=
  match source.get? key with
  | some (.str s) => Text.orNone s
  | _ => none

theorem fieldText_plain {source : Json} {key name : String} (h : ∀ v ∈ source.get? key, NameField v)
    (hname : fieldText source key = some name) : Plain name ∧ name ≠ "" := by
  rw [fieldText] at hname
  split at hname
  · rename_i s hs
    obtain hnull | ⟨t, ht, hplain⟩ := (h _ hs).cases
    · cases hnull
    · cases ht
      rw [Text.orNone] at hname
      split at hname
      · cases hname
      · rename_i hne
        cases hname
        exact ⟨hplain, hne⟩
  · cases hname

theorem nonEmptyText_field {source : Json} {key : String} (h : ∀ v ∈ source.get? key, NameField v) :
    nonEmptyText ((source.get? key).getD .null) = fieldText source key := by
  rw [fieldText]
  match hv : source.get? key with
  | none => rfl
  | some v =>
    obtain rfl | ⟨s, rfl, hplain⟩ := (h v hv).cases
    · rfl
    · exact congrArg Text.orNone hplain

theorem nonEmptyText_eitherField {source : Json} {key other : String}
    (h : ∀ v ∈ source.get? key, NameField v) (h' : ∀ v ∈ source.get? other, NameField v) :
    nonEmptyText (eitherField source key other) = (fieldText source key).or (fieldText source other) := by
  rw [← nonEmptyText_field h', eitherField, fieldText]
  match hv : source.get? key with
  | none => rfl
  | some v =>
    obtain rfl | ⟨s, rfl, hplain⟩ := (h v hv).cases
    · rfl
    · by_cases hs : s = ""
      · subst hs
        rfl
      · have htext : Text.orNone s = some s := if_neg hs
        simp only [Json.truthy, hs, ne_eq, not_false_eq_true, decide_true, if_true, nonEmptyText, hplain.eq, htext,
          Option.some_or]

theorem trimmedText_field {document source : Json} {path : List String} {key : String}
    (hpath : extract document path = source.get? key) (h : ∀ v ∈ source.get? key, NameField v) :
    trimmedText document path = fieldText source key := by
  rw [trimmedText, fieldText, hpath]
  match hv : source.get? key with
  | none => rfl
  | some v =>
    obtain rfl | ⟨s, rfl, hplain⟩ := (h v hv).cases
    · rfl
    · exact congrArg Text.orNone hplain.edged.sqlTrim

theorem findSome?_cons_or {α β : Type} (f : α → Option β) (a : α) (l : List α) :
    (a :: l).findSome? f = (f a).or (l.findSome? f) := by
  rw [List.findSome?_cons]
  cases f a <;> rfl

theorem nestedPayload_messagePayload (m : InboundMessage) :
    nestedPayload (messagePayload m) = nestedPayload m.payload := by
  rw [nestedPayload, get?_messagePayload m (by decide), nestedPayload]

theorem extract_outer (m : InboundMessage) {key : String}
    (hkey : key ∉ ["channel", "source_id", "raw_event_id", "source_event_id", "text", "message_at"]) :
    extract (messagePayload m) [key] = m.payload.get? key := by
  rw [extract, get?_messagePayload m hkey]
  cases m.payload.get? key <;> rfl

theorem extract_inner (m : InboundMessage) (key : String) :
    extract (messagePayload m) ["payload", key] = (nestedPayload m.payload).get? key := by
  rw [extract, extract_nested, nestedPayload_messagePayload]

end Fields

section Identity

variable {m : InboundMessage}

/-- A name at the outer level of a stored message, as the migration reads it. -/
theorem Identified.outer (h : Identified m.payload) {key : String} (hkey : key ∈ nameKeys) :
    trimmedText (messagePayload m) [key] = fieldText m.payload key := by
  have hother : key ∉ ["channel", "source_id", "raw_event_id", "source_event_id", "text", "message_at"] := by
    intro hmem
    exact absurd (show key ∈ nameKeys.filter
      (· ∈ ["channel", "source_id", "raw_event_id", "source_event_id", "text", "message_at"]) from
        List.mem_filter.mpr ⟨hkey, by simpa using hmem⟩) (by decide +revert)
  exact trimmedText_field (extract_outer m hother) (h.names _ List.mem_cons_self key hkey)

theorem Identified.inner (h : Identified m.payload) {key : String} (hkey : key ∈ nameKeys) :
    trimmedText (messagePayload m) ["payload", key] = fieldText (nestedPayload m.payload) key :=
  trimmedText_field (extract_inner m key) (h.names _ (List.mem_cons_of_mem _ List.mem_cons_self) key hkey)

/-- The first user name that is not empty. -/
def firstUsername (payload : Json) : Option String :=
  [payload, nestedPayload payload].findSome? fun source =>
    (fieldText source "username").or (fieldText source "from_username")

theorem messageAuthorUsername_eq {payload : Json} (h : Identified payload) :
    messageAuthorUsername payload =
      (firstUsername payload).bind fun u => Text.orNone (Text.strip (Text.lstrip '@' u)) := by
  have hsource : ∀ source ∈ [payload, nestedPayload payload],
      nonEmptyText (eitherField source "username" "from_username") =
        (fieldText source "username").or (fieldText source "from_username") := fun source hs =>
    nonEmptyText_eitherField (h.names source hs _ (by decide)) (h.names source hs _ (by decide))
  rw [messageAuthorUsername, firstUsername, findSome?_cons_or, findSome?_cons_or, findSome?_cons_or,
    findSome?_cons_or, hsource _ List.mem_cons_self, hsource _ (List.mem_cons_of_mem _ List.mem_cons_self),
    List.findSome?_nil, List.findSome?_nil]

theorem backfillUsername_eq (h : Identified m.payload) :
    backfillUsername (messagePayload m) =
      (firstUsername m.payload).bind fun u => Text.orNone (Text.lstrip '@' (sqlTrim u)) := by
  simp only [backfillUsername, firstUsername, findSome?_cons_or, List.findSome?_nil, Option.or_none,
    h.outer (show "username" ∈ nameKeys by decide), h.outer (show "from_username" ∈ nameKeys by decide),
    h.inner (show "username" ∈ nameKeys by decide), h.inner (show "from_username" ∈ nameKeys by decide),
    Option.or_assoc]

/-- A name put together from its parts below one source. -/
def partsName (source : Json) : Option String :=
  let first := (fieldText source "first_name").or (fieldText source "from_first_name")
  let last := (fieldText source "last_name").or (fieldText source "from_last_name")
  Text.orNone (String.intercalate " " ([first, last].filterMap id))

def displayName (payload : Json) : Option String :=
  ([payload, nestedPayload payload].findSome? fun source =>
    ["display_name", "author_name", "sender_name"].findSome? (fieldText source)).or
    ([payload, nestedPayload payload].findSome? partsName)

theorem messageAuthorDisplayName_eq {payload : Json} (h : Identified payload) :
    messageAuthorDisplayName payload = displayName payload := by
  have hnamed : ∀ source ∈ [payload, nestedPayload payload],
      (["display_name", "author_name", "sender_name"].findSome? fun key =>
        nonEmptyText ((source.get? key).getD .null)) =
      ["display_name", "author_name", "sender_name"].findSome? (fieldText source) := by
    intro source hs
    simp only [findSome?_cons_or, List.findSome?_nil, nonEmptyText_field (h.names source hs "display_name" (by decide)),
      nonEmptyText_field (h.names source hs "author_name" (by decide)),
      nonEmptyText_field (h.names source hs "sender_name" (by decide))]
  have hparts : ∀ source ∈ [payload, nestedPayload payload],
      Text.orNone (String.intercalate " "
        ([nonEmptyText (eitherField source "first_name" "from_first_name"),
          nonEmptyText (eitherField source "last_name" "from_last_name")].filterMap id)) = partsName source := by
    intro source hs
    rw [nonEmptyText_eitherField (h.names source hs _ (by decide)) (h.names source hs _ (by decide)),
      nonEmptyText_eitherField (h.names source hs _ (by decide)) (h.names source hs _ (by decide))]
    rfl
  have hin : nestedPayload payload ∈ [payload, nestedPayload payload] :=
    List.mem_cons_of_mem _ List.mem_cons_self
  rw [messageAuthorDisplayName, displayName]
  simp only [findSome?_cons_or _ payload, findSome?_cons_or _ (nestedPayload payload),
    List.findSome?_nil, hnamed payload List.mem_cons_self, hnamed _ hin, hparts payload List.mem_cons_self,
    hparts _ hin]

theorem sqlTrim_append_space {name : String} (h : Edged name.toList) : sqlTrim (name ++ " ") = name := by
  have hchars : (name ++ " ").toList = name.toList ++ [' '] := by
    rw [String.toList_append, show " ".toList = [' '] from by decide]
  have hhead : ∀ c ∈ (name.toList ++ [' ']).head?, name.toList ≠ [] → (c == ' ') = false := by
    intro c hc hne
    rw [List.head?_append_of_ne_nil _ hne] at hc
    exact not_isSpace_ne (h.1 c hc)
  rw [sqlTrim, hchars, Text.trimBoth]
  by_cases hne : name.toList = []
  · rw [hne, show ((([] ++ [' '] : List Char).dropWhile (· == ' ')).reverse.dropWhile (· == ' ')).reverse = []
      from by decide, ← hne, String.ofList_toList]
  · rw [dropWhile_of_head fun c hc => hhead c hc hne, List.reverse_append, List.reverse_singleton,
      List.singleton_append, List.dropWhile_cons_of_pos (by decide), dropWhile_of_head, List.reverse_reverse,
      String.ofList_toList]
    intro c hc
    rw [List.head?_reverse] at hc
    exact not_isSpace_ne (h.2 c hc)

theorem sqlTrim_space_append {name : String} (h : Edged name.toList) : sqlTrim (" " ++ name) = name := by
  have hchars : (" " ++ name).toList = ' ' :: name.toList := by
    rw [String.toList_append, show " ".toList = [' '] from by decide, List.singleton_append]
  have hrest := h.sqlTrim
  rw [sqlTrim, Text.trimBoth, dropWhile_of_head fun c hc => not_isSpace_ne (h.1 c hc)] at hrest
  rw [sqlTrim, hchars, Text.trimBoth, List.dropWhile_cons_of_pos (by decide),
    dropWhile_of_head fun c hc => not_isSpace_ne (h.1 c hc), hrest]

/-- Two parts of a name: trimmed around a space, or joined by it when both are there. -/
theorem orNone_parts {first last : Option String} (hfirst : ∀ name, first = some name → Edged name.toList ∧ name ≠ "")
    (hlast : ∀ name, last = some name → Edged name.toList ∧ name ≠ "") :
    Text.orNone (sqlTrim (first.getD "" ++ " " ++ last.getD "")) =
        Text.orNone (String.intercalate " " ([first, last].filterMap id)) ∧
      Edged (String.intercalate " " ([first, last].filterMap id)).toList := by
  match first, last with
  | none, none => exact ⟨by decide, by simp [Edged]⟩
  | some f, none =>
    obtain ⟨hedged, -⟩ := hfirst f rfl
    refine ⟨?_, by simpa using hedged⟩
    rw [Option.getD_some, Option.getD_none, String.append_empty, sqlTrim_append_space hedged]
    simp
  | none, some l =>
    obtain ⟨hedged, -⟩ := hlast l rfl
    refine ⟨?_, by simpa using hedged⟩
    rw [Option.getD_some, Option.getD_none, String.empty_append, sqlTrim_space_append hedged]
    simp
  | some f, some l =>
    obtain ⟨hf, hfne⟩ := hfirst f rfl
    obtain ⟨hl, hlne⟩ := hlast l rfl
    have hjoined : String.intercalate " " ([some f, some l].filterMap id) = f ++ " " ++ l := by
      simp [String.intercalate_cons_cons]
    have hedged : Edged (f ++ " " ++ l).toList := by
      rw [String.toList_append, String.toList_append]
      exact hf.append hl (fun h => hfne (String.toList_eq_nil_iff.mp h))
        (fun h => hlne (String.toList_eq_nil_iff.mp h)) _
    rw [hjoined, Option.getD_some, Option.getD_some, hedged.sqlTrim]
    exact ⟨rfl, hedged⟩

theorem Identified.fieldText_edged {payload : Json} (h : Identified payload) {source : Json}
    (hs : source ∈ [payload, nestedPayload payload]) {key : String} (hkey : key ∈ nameKeys) {name : String}
    (hname : fieldText source key = some name) : Edged name.toList ∧ name ≠ "" :=
  let ⟨hplain, hne⟩ := fieldText_plain (h.names source hs key hkey) hname
  ⟨hplain.edged, hne⟩

theorem Identified.either_edged {payload : Json} (h : Identified payload) {source : Json}
    (hs : source ∈ [payload, nestedPayload payload]) {key other : String} (hkey : key ∈ nameKeys)
    (hother : other ∈ nameKeys) {name : String}
    (hname : (fieldText source key).or (fieldText source other) = some name) : Edged name.toList ∧ name ≠ "" := by
  obtain hname | ⟨-, hname⟩ := Option.or_eq_some_iff.mp hname
  · exact h.fieldText_edged hs hkey hname
  · exact h.fieldText_edged hs hother hname

/-- A name of parts is put together alike, and has no outer space. -/
theorem Identified.partsName (h : Identified m.payload) {source : Json}
    (hs : source ∈ [m.payload, nestedPayload m.payload]) (above : List String)
    (hfield : ∀ key ∈ nameKeys, trimmedText (messagePayload m) (above ++ [key]) = fieldText source key) :
    fullName (messagePayload m) above = partsName source ∧
      ∀ name, partsName source = some name → Edged name.toList ∧ name ≠ "" := by
  obtain ⟨hsame, hedged⟩ := orNone_parts
    (fun name => h.either_edged hs (show "first_name" ∈ nameKeys by decide)
      (show "from_first_name" ∈ nameKeys by decide))
    (fun name => h.either_edged hs (show "last_name" ∈ nameKeys by decide)
      (show "from_last_name" ∈ nameKeys by decide))
  refine ⟨?_, fun name hname => ?_⟩
  · simp only [fullName, findSome?_cons_or, List.findSome?_nil, Option.or_none,
      hfield "first_name" (by decide), hfield "from_first_name" (by decide), hfield "last_name" (by decide),
      hfield "from_last_name" (by decide)]
    exact hsame
  · rw [Batching.partsName, Text.orNone] at hname
    split at hname
    · cases hname
    · rename_i hne
      cases hname
      exact ⟨hedged, hne⟩

theorem backfillDisplayName_eq (h : Identified m.payload) :
    backfillDisplayName (messagePayload m) = displayName m.payload := by
  have hin : nestedPayload m.payload ∈ [m.payload, nestedPayload m.payload] :=
    List.mem_cons_of_mem _ List.mem_cons_self
  obtain ⟨houter, -⟩ := h.partsName List.mem_cons_self [] fun key hkey => h.outer hkey
  obtain ⟨hinner, -⟩ := h.partsName hin ["payload"] fun key hkey => h.inner hkey
  simp only [backfillDisplayName, displayName, houter, hinner, findSome?_cons_or, List.findSome?_nil, Option.or_none,
    h.outer (show "display_name" ∈ nameKeys by decide), h.outer (show "author_name" ∈ nameKeys by decide),
    h.outer (show "sender_name" ∈ nameKeys by decide), h.inner (show "display_name" ∈ nameKeys by decide),
    h.inner (show "author_name" ∈ nameKeys by decide), h.inner (show "sender_name" ∈ nameKeys by decide),
    Option.or_assoc]

/-- Recording a display name changes nothing more. -/
theorem normalize_displayName (h : Identified m.payload) :
    normalizeAuthorDisplayName (displayName m.payload) = displayName m.payload := by
  have hin : nestedPayload m.payload ∈ [m.payload, nestedPayload m.payload] :=
    List.mem_cons_of_mem _ List.mem_cons_self
  match hname : displayName m.payload with
  | none => rfl
  | some name =>
    have hedged : Edged name.toList ∧ name ≠ "" := by
      rw [displayName] at hname
      obtain hname | ⟨-, hname⟩ := Option.or_eq_some_iff.mp hname
      · obtain ⟨source, hs, hname⟩ := List.exists_of_findSome?_eq_some hname
        obtain ⟨key, hkey, hname⟩ := List.exists_of_findSome?_eq_some hname
        have hsub : ∀ k ∈ ["display_name", "author_name", "sender_name"], k ∈ nameKeys := by decide
        exact h.fieldText_edged hs (hsub key hkey) hname
      · obtain ⟨source, hs, hname⟩ := List.exists_of_findSome?_eq_some hname
        simp only [List.mem_cons, List.not_mem_nil, or_false] at hs
        obtain rfl | rfl := hs
        · exact (h.partsName List.mem_cons_self [] fun key hkey => h.outer hkey).2 name hname
        · exact (h.partsName hin ["payload"] fun key hkey => h.inner hkey).2 name hname
    rw [normalizeAuthorDisplayName, Option.bind_some, hedged.1.strip, Text.orNone, if_neg hedged.2]

theorem head?_dropWhile {p : Char → Bool} {l : List Char} {c : Char} (h : c ∈ (l.dropWhile p).head?) : p c = false := by
  induction l with
  | nil => cases h
  | cons d l ih =>
    by_cases hd : p d = true
    · rw [List.dropWhile_cons_of_pos hd] at h
      exact ih h
    · rw [List.dropWhile_cons_of_neg hd] at h
      cases h
      simpa using hd

theorem head?_strip (s : String) : ∀ c ∈ (Text.strip s).toList.head?, Text.isSpace c = false := by
  intro c hc
  rw [Text.strip, String.toList_ofList, Text.trimBoth] at hc
  have hprefix : ((s.toList.dropWhile Text.isSpace).reverse.dropWhile Text.isSpace).reverse <+:
      s.toList.dropWhile Text.isSpace := by
    rw [← List.reverse_suffix, List.reverse_reverse]
    exact List.dropWhile_suffix _
  obtain ⟨rest, hrest⟩ := hprefix
  refine head?_dropWhile (l := s.toList) ?_
  rw [← hrest]
  cases hl : ((s.toList.dropWhile Text.isSpace).reverse.dropWhile Text.isSpace).reverse with
  | nil => rw [hl] at hc; cases hc
  | cons d l => rw [hl] at hc; exact hc

/-- The user name that is recorded is the derived one unless a space follows the leading `@` signs. -/
theorem username_agrees {u : String} (h : Plain u) :
    Text.orNone (Text.lstrip '@' (sqlTrim u)) =
        normalizeAuthorUsername (Text.orNone (Text.strip (Text.lstrip '@' u))) ↔
      (Text.lstrip '@' u).toList.head? ≠ some ' ' := by
  rw [h.edged.sqlTrim]
  have hchars : (Text.lstrip '@' u).toList = u.toList.dropWhile (· == '@') := String.toList_ofList
  by_cases hempty : Text.lstrip '@' u = ""
  · rw [hempty]
    decide
  · have hsome : Text.orNone (Text.lstrip '@' u) = some (Text.lstrip '@' u) := if_neg hempty
    constructor
    · intro heq hspace
      rw [hsome, normalizeAuthorUsername] at heq
      obtain ⟨v, -, hv⟩ := Option.bind_eq_some_iff.mp heq.symm
      rw [Text.orNone] at hv
      split at hv
      · cases hv
      · have hhead := head?_strip (Text.lstrip '@' (Text.strip v)) ' ' (by rw [Option.some.inj hv]; exact hspace)
        exact absurd hhead (by decide)
    · intro hspace
      have hedged : Edged (Text.lstrip '@' u).toList := by
        refine ⟨fun c hc => ?_, fun c hc => ?_⟩
        · by_contra hblank
          have hmem : c ∈ u.toList := by
            rw [hchars] at hc
            exact (List.dropWhile_suffix _).subset (List.mem_of_mem_head? hc)
          have hc' : c = ' ' := h.space hmem (by simpa using hblank)
          exact hspace (hc' ▸ hc)
        · rw [hchars] at hc
          obtain ⟨front, hfront⟩ := List.dropWhile_suffix (p := (· == '@')) (l := u.toList)
          refine h.edged.2 c ?_
          rw [← hfront, List.getLast?_append, Option.mem_def.mp hc]
          rfl
      have hat : Text.lstrip '@' (Text.lstrip '@' u) = Text.lstrip '@' u := by
        have hdrop : ∀ c ∈ (Text.lstrip '@' u).toList.head?, (c == '@') = false := by
          intro c hc
          rw [hchars] at hc
          exact head?_dropWhile (p := fun d => d == '@') hc
        conv_lhs => rw [Text.lstrip, dropWhile_of_head hdrop, String.ofList_toList]
      rw [hedged.strip, hsome, normalizeAuthorUsername, Option.bind_some, hedged.strip, hat, hedged.strip, hsome]

end Identity

section Search

variable {α β γ : Type} (f g : α → Option β)

/-- The first key with a value, with its place. -/
def firstAt (keys : List α) (n : ℕ) : Option (ℕ × β) := (keys.zipIdx n).findSome? fun (k, i) => (f k).map (i, ·)

theorem firstAt_cons (k : α) (keys : List α) (n : ℕ) :
    firstAt f (k :: keys) n = ((f k).map (n, ·)).or (firstAt f keys (n + 1)) := by
  rw [firstAt, List.zipIdx_cons, findSome?_cons_or]
  rfl

theorem firstAt_spec {keys : List α} {n i : ℕ} {v : β} (h : firstAt f keys n = some (i, v)) :
    n ≤ i ∧ ∃ k ∈ keys, f k = some v := by
  induction keys generalizing n with
  | nil => cases h
  | cons k keys ih =>
    rw [firstAt_cons] at h
    obtain h | ⟨-, h⟩ := Option.or_eq_some_iff.mp h
    · obtain ⟨w, hw, hi⟩ := Option.map_eq_some_iff.mp h
      cases hi
      exact ⟨le_rfl, k, List.mem_cons_self, hw⟩
    · obtain ⟨hle, k', hk', hv⟩ := ih h
      exact ⟨by omega, k', List.mem_cons_of_mem _ hk', hv⟩

/-- The value at the earlier of two places; the first one at the same place. -/
def earlier : Option (ℕ × β) → Option (ℕ × β) → Option β
  | none, none => none
  | some (_, v), none => some v
  | none, some (_, u) => some u
  | some (i, v), some (j, u) => some (if i ≤ j then v else u)

/-- Looking at both levels for each key takes the earlier of the two first places. -/
theorem findSome?_or (keys : List α) (n : ℕ) :
    keys.findSome? (fun k => (f k).or (g k)) = earlier (firstAt f keys n) (firstAt g keys n) := by
  induction keys generalizing n with
  | nil => rfl
  | cons k keys ih =>
    rw [findSome?_cons_or, firstAt_cons, firstAt_cons]
    match hf : f k, hg : g k with
    | none, none => simpa using ih (n + 1)
    | some v, none =>
      match hrest : firstAt g keys (n + 1) with
      | none => rfl
      | some (j, u) =>
        have hle := (firstAt_spec g hrest).1
        simp [earlier, show n ≤ j by omega]
    | none, some u =>
      match hrest : firstAt f keys (n + 1) with
      | none => rfl
      | some (i, v) =>
        have hle := (firstAt_spec f hrest).1
        simp [earlier, show ¬ i ≤ n by omega]
    | some v, some u => simp [earlier]

/-- Looking at the values of the keys in order takes the first place, when every value gives something. -/
theorem findSome?_bind (h : β → Option γ) {keys : List α} (hsome : ∀ k ∈ keys, ∀ v, f k = some v → (h v).isSome)
    (n : ℕ) : keys.findSome? (fun k => (f k).bind h) = (firstAt f keys n).bind fun p => h p.2 := by
  induction keys generalizing n with
  | nil => rfl
  | cons k keys ih =>
    rw [findSome?_cons_or, firstAt_cons, ih (fun k' hk' => hsome k' (List.mem_cons_of_mem _ hk')) (n + 1)]
    match hf : f k with
    | none => rfl
    | some v =>
      obtain ⟨w, hw⟩ := Option.isSome_iff_exists.mp (hsome k List.mem_cons_self v hf)
      simp [hw]

end Search

section Ids

/-- The first id key that a source has a value for, with its place among the keys. -/
def firstId (source : Json) : Option (ℕ × Json) := firstAt (source.getSome? ·) idKeys 0

/-- An id that the database reads as the same text. -/
def IdFits : Json → Prop
  | .int n => Fits n
  | _ => True

instance : DecidablePred IdFits
  | .int n => inferInstanceAs (Decidable (Fits n))
  | .null | .bool _ | .float _ | .str _ | .arr _ | .obj _ => isTrue trivial

/-- Two first ids give the same text: the one in the nested object does not come before the outer one, unless it
has its text, and an integer fits the database. -/
def SameText (rendered : Json → String) : Option (ℕ × Json) → Option (ℕ × Json) → Prop
  | none, none => True
  | some (_, v), none => IdFits v
  | none, some (_, u) => IdFits u
  | some (i, v), some (j, u) => if i ≤ j then IdFits v else sqlText rendered v = some u.toStr

instance (rendered : Json → String) : DecidableRel (SameText rendered)
  | none, none => isTrue trivial
  | some (_, v), none => inferInstanceAs (Decidable (IdFits v))
  | none, some (_, u) => inferInstanceAs (Decidable (IdFits u))
  | some (i, v), some (j, u) =>
    inferInstanceAs (Decidable (if i ≤ j then IdFits v else sqlText rendered v = some u.toStr))

/-- The migration and the live path derive the same id. -/
def SameId (rendered : Json → String) (payload : Json) : Prop :=
  SameText rendered (firstId payload) (firstId (nestedPayload payload))

instance (rendered : Json → String) (payload : Json) : Decidable (SameId rendered payload) :=
  inferInstanceAs (Decidable (SameText _ _ _))

variable {m : InboundMessage} {rendered : Json → String}

/-- An id: a text or an integer. -/
def IdValue (v : Json) : Prop := (∃ s, v = .str s) ∨ ∃ n, v = .int n

theorem Identified.idValue {payload source : Json} (h : Identified payload)
    (hs : source ∈ [payload, nestedPayload payload]) {key : String} (hkey : key ∈ idKeys) {v : Json}
    (hv : source.getSome? key = some v) : IdValue v := by
  rw [Json.getSome?] at hv
  split at hv
  · cases hv
  · cases hv
  · rename_i w hnull hw
    cases hv
    have hid := h.ids source hs key hkey v hw
    cases v with
    | int n => exact .inr ⟨n, rfl⟩
    | str s => exact .inl ⟨s, rfl⟩
    | null => exact absurd rfl hnull
    | _ => cases hid

theorem sqlText_eq_toStr (hreal : ∀ n k : Int, rendered (.int n) ≠ toString k) {v : Json} (h : IdValue v) :
    sqlText rendered v = some v.toStr ↔ IdFits v := by
  obtain ⟨s, rfl⟩ | ⟨n, rfl⟩ := h
  · exact iff_of_true rfl trivial
  · rw [sqlText, IdFits]
    by_cases hn : Fits n
    · rw [if_pos hn]
      exact iff_of_true rfl hn
    · rw [if_neg hn]
      exact iff_of_false (fun heq => hreal n n (Option.some.inj heq)) hn

theorem messageAuthorId_eq (payload : Json) :
    messageAuthorId payload =
      (earlier (firstId payload) (firstId (nestedPayload payload))).map Json.toStr := by
  have hfirst := findSome?_or (payload.getSome? ·) ((nestedPayload payload).getSome? ·) idKeys 0
  have hmap : messageAuthorId payload = (idKeys.findSome? fun key =>
      (payload.getSome? key).or ((nestedPayload payload).getSome? key)).map Json.toStr := by
    rw [messageAuthorId, firstValue, List.map_findSome?, List.map_findSome?]
    refine congrArg (List.findSome? · _) (funext fun key => ?_)
    exact Option.map_map _ _ _
  rw [hmap, hfirst]
  rfl

theorem backfillAuthorId_eq (h : Identified m.payload) :
    backfillAuthorId rendered (messagePayload m) =
      ((firstId m.payload).bind fun p => sqlText rendered p.2).or
        ((firstId (nestedPayload m.payload)).bind fun p => sqlText rendered p.2) := by
  have hin : nestedPayload m.payload ∈ [m.payload, nestedPayload m.payload] :=
    List.mem_cons_of_mem _ List.mem_cons_self
  have hfield : ∀ source : Json, ∀ key : String,
      (source.get? key).bind (sqlText rendered) = (source.getSome? key).bind (sqlText rendered) := by
    intro source key
    rw [Json.getSome?]
    match source.get? key with
    | none => rfl
    | some .null => rfl
    | some (.bool _) | some (.int _) | some (.float _) | some (.str _) | some (.arr _) | some (.obj _) => rfl
  have hsome : ∀ source ∈ [m.payload, nestedPayload m.payload], ∀ key ∈ idKeys, ∀ v,
      source.getSome? key = some v → (sqlText rendered v).isSome := by
    intro source hs key hkey v hv
    obtain ⟨s, rfl⟩ | ⟨n, rfl⟩ := h.idValue hs hkey hv
    · rfl
    · rfl
  rw [firstId, firstId, ← findSome?_bind _ _ (hsome _ List.mem_cons_self) 0, ← findSome?_bind _ _ (hsome _ hin) 0]
  simp only [backfillAuthorId, idKeys, findSome?_cons_or, List.findSome?_nil, Option.or_none, Option.or_assoc,
    extract_inner, extract_outer m (show "user_id" ∉ _ by decide), extract_outer m (show "from_user_id" ∉ _ by decide),
    extract_outer m (show "sender_id" ∉ _ by decide), hfield]

/-- The same id is derived exactly when the payload's keys are in the migration's favour. -/
theorem authorId_agrees (hreal : ∀ n k : Int, rendered (.int n) ≠ toString k) (h : Identified m.payload) :
    backfillAuthorId rendered (messagePayload m) = messageAuthorId m.payload ↔ SameId rendered m.payload := by
  have hin : nestedPayload m.payload ∈ [m.payload, nestedPayload m.payload] :=
    List.mem_cons_of_mem _ List.mem_cons_self
  have hvalue : ∀ source ∈ [m.payload, nestedPayload m.payload], ∀ i v, firstId source = some (i, v) →
      IdValue v := by
    intro source hs i v hfirst
    obtain ⟨-, key, hkey, hv⟩ := firstAt_spec _ hfirst
    exact h.idValue hs hkey hv
  rw [backfillAuthorId_eq h, messageAuthorId_eq, SameId, SameText.eq_def, earlier.eq_def]
  match hf : firstId m.payload, hg : firstId (nestedPayload m.payload) with
  | none, none => simp
  | some (i, v), none => simpa using sqlText_eq_toStr hreal (hvalue _ List.mem_cons_self i v hf)
  | none, some (j, u) => simpa using sqlText_eq_toStr hreal (hvalue _ hin j u hg)
  | some (i, v), some (j, u) =>
    have hv := hvalue _ List.mem_cons_self i v hf
    have htext : ∃ text, sqlText rendered v = some text := by
      obtain ⟨s, rfl⟩ | ⟨n, rfl⟩ := hv
      · exact ⟨_, rfl⟩
      · exact ⟨_, rfl⟩
    obtain ⟨text, htext⟩ := htext
    have hfits := sqlText_eq_toStr hreal hv
    by_cases hle : i ≤ j
    · simp only [Option.bind_some, htext, Option.some_or, hle, if_true, Option.map_some] at hfits ⊢
      exact hfits
    · simp only [Option.bind_some, htext, Option.some_or, hle, if_false, Option.map_some]

end Ids

section Agreement

/-- Two history rows tell the same about their message. -/
structure Agrees (a b : ConversationMessageRow) : Prop where
  authorId : a.authorId = b.authorId
  authorUsername : a.authorUsername = b.authorUsername
  authorDisplayName : a.authorDisplayName = b.authorDisplayName
  text : a.text = b.text
  sourceMessageId : a.sourceMessageId = b.sourceMessageId
  sourceEventId : a.sourceEventId = b.sourceEventId
  occurredAt : a.occurredAt = b.occurredAt

/-- The payloads that both paths read alike: they pick the same id, and no space follows the leading `@` signs of
the user name. -/
structure ReadAlike (rendered : Json → String) (payload : Json) : Prop where
  id : SameId rendered payload
  username : ∀ u ∈ firstUsername payload, (Text.lstrip '@' u).toList.head? ≠ some ' '

/-- The user name that is recorded for the first one of a payload. -/
def recordedUsername (u : String) : Option String :=
  normalizeAuthorUsername (Text.orNone (Text.strip (Text.lstrip '@' u)))

/-- A message with no text that names nobody. -/
structure Anonymous (m : InboundMessage) : Prop where
  outerId : firstId m.payload = none
  innerId : firstId (nestedPayload m.payload) = none
  username : ∀ u ∈ firstUsername m.payload, recordedUsername u = none
  displayName : displayName m.payload = none
  text : m.text.truthy = false

/-- The messages that are backfilled as they were recorded. From a document that the database does not accept as
JSON the migration reads nothing. -/
def Backfills (rendered : Json → String) (m : InboundMessage) : Prop :=
  if jsonValid (messagePayload m) = true then ReadAlike rendered m.payload else Anonymous m

variable {m : InboundMessage} {rendered : Json → String}

theorem firstUsername_plain {payload : Json} (h : Identified payload) {u : String}
    (hu : firstUsername payload = some u) : Plain u := by
  obtain ⟨source, hs, hu⟩ := List.exists_of_findSome?_eq_some hu
  obtain hu | ⟨-, hu⟩ := Option.or_eq_some_iff.mp hu
  · exact (fieldText_plain (h.names source hs _ (by decide)) hu).1
  · exact (fieldText_plain (h.names source hs _ (by decide)) hu).1

theorem authorUsername_agrees (h : Identified m.payload) :
    backfillUsername (messagePayload m) = normalizeAuthorUsername (messageAuthorUsername m.payload) ↔
      ∀ u ∈ firstUsername m.payload, (Text.lstrip '@' u).toList.head? ≠ some ' ' := by
  rw [backfillUsername_eq h, messageAuthorUsername_eq h]
  match hu : firstUsername m.payload with
  | none => simp [normalizeAuthorUsername]
  | some u =>
    rw [Option.bind_some, Option.bind_some, username_agrees (firstUsername_plain h hu)]
    simp

theorem backfill_text {text : Option String} (htext : m.text = Json.ofString? text) :
    bindText m.text = .ok (((extract (messagePayload m) ["text"]).bind (sqlText rendered)).getD "") := by
  have hextract : extract (messagePayload m) ["text"] = some m.text := by
    rw [extract, messagePayload, Json.get?_set_of_ne (by decide), Json.get?_set]
    rfl
  rw [hextract, htext, Option.bind_some]
  match text with
  | none => rfl
  | some s =>
    by_cases hs : s = ""
    · subst hs
      rfl
    · simp [bindText, Json.ofString?, Json.truthy, hs, sqlText, Json.toStr]

/-- The row of a document that is JSON agrees with what is recorded when both paths read the payload alike. -/
theorem agrees_valid (hreal : ∀ n k : Int, rendered (.int n) ≠ toString k) {text : Option String}
    (htext : m.text = Json.ofString? text) (hm : Identified m.payload) (hvalid : jsonValid (messagePayload m) = true)
    {bound : String} (hbound : bindText m.text = .ok bound) (d : Drawn) (batchId : String) (now : Int) :
    Agrees (backfillRow rendered (m.messageRow d batchId now)) (m.recordArgs bound d.historyHex now).row ↔
      ReadAlike rendered m.payload := by
  have hread : ∀ {α : Type} (value : Option α), whenValid (messagePayload m) value = value := fun value =>
    if_pos hvalid
  constructor
  · intro hagrees
    have hid : whenValid (messagePayload m) (backfillAuthorId rendered (messagePayload m)) =
        messageAuthorId m.payload := hagrees.authorId
    have hname : whenValid (messagePayload m) (backfillUsername (messagePayload m)) =
        normalizeAuthorUsername (messageAuthorUsername m.payload) := hagrees.authorUsername
    rw [hread] at hid hname
    exact ⟨(authorId_agrees hreal hm).mp hid, (authorUsername_agrees hm).mp hname⟩
  · intro halike
    refine ⟨?_, ?_, ?_, ?_, rfl, rfl, rfl⟩
    · exact (hread _).trans ((authorId_agrees hreal hm).mpr halike.id)
    · exact (hread _).trans ((authorUsername_agrees hm).mpr halike.username)
    · change whenValid (messagePayload m) (backfillDisplayName (messagePayload m)) =
        normalizeAuthorDisplayName (messageAuthorDisplayName m.payload)
      rw [hread, backfillDisplayName_eq hm, messageAuthorDisplayName_eq hm, normalize_displayName hm]
    · change (whenValid (messagePayload m) ((extract (messagePayload m) ["text"]).bind (sqlText rendered))).getD "" =
        bound
      rw [hread]
      exact Except.ok.inj ((backfill_text htext).symm.trans hbound)

theorem messageAuthorId_eq_none {payload : Json} :
    messageAuthorId payload = none ↔ firstId payload = none ∧ firstId (nestedPayload payload) = none := by
  rw [messageAuthorId_eq]
  match firstId payload, firstId (nestedPayload payload) with
  | none, none => simp [earlier]
  | some (i, v), none => simp [earlier]
  | none, some (j, u) => simp [earlier]
  | some (i, v), some (j, u) => simp [earlier]

theorem recordedUsername_eq_none {payload : Json} (h : Identified payload) :
    normalizeAuthorUsername (messageAuthorUsername payload) = none ↔
      ∀ u ∈ firstUsername payload, recordedUsername u = none := by
  rw [messageAuthorUsername_eq h]
  match firstUsername payload with
  | none => simp [normalizeAuthorUsername]
  | some u => simp [recordedUsername]

theorem bindText_eq_empty {text : Option String} (htext : m.text = Json.ofString? text) {bound : String}
    (hbound : bindText m.text = .ok bound) : bound = "" ↔ m.text.truthy = false := by
  rw [htext] at hbound ⊢
  match text with
  | none =>
    obtain rfl := Except.ok.inj hbound
    exact iff_of_true rfl rfl
  | some s =>
    by_cases hs : s = ""
    · subst hs
      obtain rfl := Except.ok.inj hbound
      exact iff_of_true rfl rfl
    · have hfull : bindText (Json.ofString? (some s)) = .ok s := by
        simp [bindText, Json.ofString?, Json.truthy, hs, Json.toStr]
      obtain rfl := Except.ok.inj (hfull.symm.trans hbound)
      exact iff_of_false hs (by simp [Json.ofString?, Json.truthy, hs])

/-- From a document that is not JSON nothing is read. -/
theorem agrees_invalid {text : Option String} (htext : m.text = Json.ofString? text) (hm : Identified m.payload)
    (hvalid : ¬ jsonValid (messagePayload m) = true) {bound : String} (hbound : bindText m.text = .ok bound)
    (d : Drawn) (batchId : String) (now : Int) :
    Agrees (backfillRow rendered (m.messageRow d batchId now)) (m.recordArgs bound d.historyHex now).row ↔
      Anonymous m := by
  have hread : ∀ {α : Type} (value : Option α), whenValid (messagePayload m) value = none := fun value =>
    if_neg hvalid
  have hdisplay : (m.recordArgs bound d.historyHex now).row.authorDisplayName = displayName m.payload := by
    change normalizeAuthorDisplayName (messageAuthorDisplayName m.payload) = displayName m.payload
    rw [messageAuthorDisplayName_eq hm, normalize_displayName hm]
  constructor
  · intro hagrees
    have hid : none = messageAuthorId m.payload := (hread _).symm.trans hagrees.authorId
    have hname : none = normalizeAuthorUsername (messageAuthorUsername m.payload) :=
      (hread _).symm.trans hagrees.authorUsername
    have hshown : none = displayName m.payload := ((hread _).symm.trans hagrees.authorDisplayName).trans hdisplay
    have hempty : "" = bound := by
      have htexts : (whenValid (messagePayload m) ((extract (messagePayload m) ["text"]).bind
        (sqlText rendered))).getD "" = bound := hagrees.text
      rwa [hread] at htexts
    obtain ⟨houter, hinner⟩ := messageAuthorId_eq_none.mp hid.symm
    exact ⟨houter, hinner, (recordedUsername_eq_none hm).mp hname.symm, hshown.symm,
      (bindText_eq_empty htext hbound).mp hempty.symm⟩
  · intro hanonymous
    refine ⟨?_, ?_, ?_, ?_, rfl, rfl, rfl⟩
    · exact (hread _).trans (messageAuthorId_eq_none.mpr ⟨hanonymous.outerId, hanonymous.innerId⟩).symm
    · exact (hread _).trans ((recordedUsername_eq_none hm).mpr hanonymous.username).symm
    · exact (hread _).trans (hdisplay.trans hanonymous.displayName).symm
    · change (whenValid (messagePayload m) ((extract (messagePayload m) ["text"]).bind (sqlText rendered))).getD "" =
        bound
      rw [hread]
      exact ((bindText_eq_empty htext hbound).mpr hanonymous.text).symm

/-- For every received message: the row that the migration derives from the stored message agrees with the row
that was recorded exactly when both paths read the payload alike, or the payload is not JSON for the database and
the message is anonymous. -/
theorem backfill_agrees_iff (rendered : Json → String) (hreal : ∀ n k : Int, rendered (.int n) ≠ toString k)
    {db db' : Tables} {d : Drawn} {now : Int} {r text : Option String} (htext : m.text = Json.ofString? text)
    (hm : Identified m.payload) (hnew : existingMessage db m = none)
    (h : appendInboundMessage db m d now = .ok (db', r)) :
    ∃ row recorded, db'.messages = db.messages ++ [row] ∧ recorded ∈ db'.history ∧
      recorded.key = (m.tenantId, m.sourceId, .inbound, m.rawEventId) ∧
      (Agrees (backfillRow rendered row) recorded ↔ Backfills rendered m) := by
  simp only [appendInboundMessage, hnew] at h
  split at h
  · cases h
  obtain ⟨⟨batches, batchId⟩, -, h⟩ := bind_eq_ok h
  obtain ⟨messages, hmessages, h⟩ := bind_eq_ok h
  obtain ⟨bound, hbound, h⟩ := bind_eq_ok h
  obtain ⟨⟨history, id, created⟩, hhistory, h⟩ := bind_eq_ok h
  obtain ⟨rfl, -⟩ := Prod.mk.inj (Except.ok.inj h)
  obtain ⟨rfl, -⟩ := insertMessage_ok hmessages
  have hagrees : Agrees (backfillRow rendered (m.messageRow d batchId now))
      (m.recordArgs bound d.historyHex now).row ↔ Backfills rendered m := by
    rw [Backfills]
    split
    · rename_i hvalid
      exact agrees_valid hreal htext hm hvalid hbound d batchId now
    · rename_i hvalid
      exact agrees_invalid htext hm hvalid hbound d batchId now
  obtain ⟨rfl, -, -⟩ | ⟨rfl, existing, hexisting, hkey, hreplays⟩ := recordMessage_ok hhistory
  · exact ⟨_, _, rfl, List.mem_append_right _ List.mem_cons_self, rfl, hagrees⟩
  · simp only [RecordArgs.replays, Bool.and_eq_true, decide_eq_true_eq] at hreplays
    obtain ⟨⟨⟨⟨⟨⟨⟨-, hid⟩, hname⟩, hdisplay⟩, hrtext⟩, hevent⟩, -⟩, hat⟩ := hreplays
    have hsource : existing.sourceMessageId = m.rawEventId := (Prod.mk.inj (Prod.mk.inj (Prod.mk.inj hkey).2).2).2
    -- what is recorded is equal in the fields that are compared
    have hsame : Agrees (backfillRow rendered (m.messageRow d batchId now)) existing ↔
        Agrees (backfillRow rendered (m.messageRow d batchId now)) (m.recordArgs bound d.historyHex now).row := by
      constructor
      · rintro ⟨h1, h2, h3, h4, h5, h6, h7⟩
        exact ⟨h1.trans hid, h2.trans hname, h3.trans hdisplay, h4.trans hrtext, h5.trans hsource, h6.trans hevent,
          h7.trans hat⟩
      · rintro ⟨h1, h2, h3, h4, h5, h6, h7⟩
        exact ⟨h1.trans hid.symm, h2.trans hname.symm, h3.trans hdisplay.symm, h4.trans hrtext.symm,
          h5.trans hsource.symm, h6.trans hevent.symm, h7.trans hat.symm⟩
    exact ⟨_, existing, rfl, hexisting, hkey, hsame.trans hagrees⟩

/-- A message of a chat: the outer level names its sender, the nested one repeats the user id. -/
def chatMessage (payload : Json) : InboundMessage where
  tenantId := "t1"
  channel := "telegram"
  sourceId := "chat"
  rawEventId := "e1"
  text := .str "hi"
  payload := payload
  messageAt := 100
  sourceEventId := none

theorem backfill_agrees_chat : ∃ db' r row recorded,
    appendInboundMessage {} (chatMessage (.obj [("payload", .obj [("from_user_id", .int 7)]), ("user_id", .str "u7"),
      ("username", .str "@ada")])) { batchHex := "a", messageHex := "b", historyHex := "c" } 100 = .ok (db', r) ∧
    row ∈ db'.messages ∧ recorded ∈ db'.history ∧
    Agrees (backfillRow (fun _ => "9.22337203685478e+18") row) recorded := by
  have hreal : ∀ n k : Int, (fun _ : Json => "9.22337203685478e+18") (.int n) ≠ toString k := by
    intro n k h
    have hdot : '.' ∈ "9.22337203685478e+18".toList := by decide
    rw [show "9.22337203685478e+18" = toString k from h] at hdot
    exact Text.not_mem_toString (by decide) (by decide) k hdot
  have hok : (appendInboundMessage {} (chatMessage (.obj [("payload", .obj [("from_user_id", .int 7)]),
      ("user_id", .str "u7"), ("username", .str "@ada")]))
      { batchHex := "a", messageHex := "b", historyHex := "c" } 100).toOption.isSome = true := by decide +kernel
  match hrun : appendInboundMessage {} (chatMessage (.obj [("payload", .obj [("from_user_id", .int 7)]),
      ("user_id", .str "u7"), ("username", .str "@ada")]))
      { batchHex := "a", messageHex := "b", historyHex := "c" } 100 with
  | .ok (db', r) =>
    obtain ⟨row, recorded, hrow, hrecorded, -, hagrees⟩ := backfill_agrees_iff (fun _ => "9.22337203685478e+18") hreal
      (show _ = Json.ofString? (some "hi") from rfl) (by decide +kernel) rfl hrun
    exact ⟨db', r, row, recorded, rfl, hrow ▸ List.mem_append_right _ List.mem_cons_self, hrecorded,
      hagrees.mpr ((if_pos (by decide +kernel)).mpr ⟨by decide +kernel, by decide +kernel⟩)⟩
  | .error e =>
    rw [hrun] at hok
    cases hok

/-- The outer level names the sender by its second key, the nested one by the first. -/
theorem backfill_disagrees : ∃ (m : InboundMessage) (db' : Tables) (r : Option String) (row : BatchMessageRow)
    (recorded : ConversationMessageRow), Identified m.payload ∧
    appendInboundMessage {} m { batchHex := "a", messageHex := "b", historyHex := "c" } 100 = .ok (db', r) ∧
    db'.messages = [row] ∧ db'.history = [recorded] ∧
    ∀ rendered : Json → String, ¬ Agrees (backfillRow rendered row) recorded := by
  let m := chatMessage (.obj [("from_user_id", .str "outer"), ("payload", .obj [("user_id", .str "nested")])])
  let d : Drawn := { batchHex := "a", messageHex := "b", historyHex := "c" }
  have hrun : (appendInboundMessage {} m d 100).toOption.map (fun p => (p.1.messages, p.1.history)) =
      some ([m.messageRow d "ib_a" 100], [(m.recordArgs "hi" "c" 100).row]) := by decide +kernel
  match happend : appendInboundMessage {} m d 100 with
  | .error e =>
    rw [happend] at hrun
    cases hrun
  | .ok (db', r) =>
    rw [happend] at hrun
    obtain ⟨hmessages, hhistory⟩ := Prod.mk.inj (Option.some.inj hrun)
    refine ⟨m, db', r, _, _, by decide +kernel, happend, hmessages, hhistory, fun rendered hagrees => ?_⟩
    have hid : some "outer" = some "nested" := hagrees.authorId
    exact absurd hid (by decide)

end Agreement

end Soveren.Batching
