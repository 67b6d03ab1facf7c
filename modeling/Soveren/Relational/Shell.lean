import Mathlib.Tactic.Common

/-! Command lines as text: the words that `shlex` reads from a line, the quoting that writes words as a
line, and the lines of a text. -/
namespace Soveren.Shell

/-- Where the reader stands: between words, in a word, inside quotes, or after a backslash that is read in
a word or in the quotes it returns to. -/
inductive Mode
  | space
  | word
  | quotes (quote : Char)
  | escape (back : Option Char)
deriving Repr, DecidableEq

inductive Failure
  | noClosingQuotation
  | noEscapedCharacter
deriving Repr, DecidableEq

def isWhitespace (c : Char) : Bool := c == ' ' || c == '\t' || c == '\r' || c == '\n'

def isQuote (c : Char) : Bool := c == '\'' || c == '"'

/-- A word is given out when it has a character or had quotes. -/
def emit (token : List Char) (quoted : Bool) (rest : List (List Char)) : List (List Char) :=
  if token ≠ [] ∨ quoted then token :: rest else rest

/-- `shlex.read_token`, called until the end of the line. -/
def scan : Mode → List Char → Bool → List Char → Except Failure (List (List Char))
  | .space, token, quoted, [] => .ok (emit token quoted [])
  | .word, token, quoted, [] => .ok (emit token quoted [])
  | .quotes _, _, _, [] => .error .noClosingQuotation
  | .escape _, _, _, [] => .error .noEscapedCharacter
  | .space, token, quoted, c :: cs =>
    if isWhitespace c then (scan .space [] false cs).map (emit token quoted)
    else if c == '\\' then scan (.escape none) token quoted cs
    else if isQuote c then scan (.quotes c) token quoted cs
    else scan .word [c] quoted cs
  | .word, token, quoted, c :: cs =>
    if isWhitespace c then (scan .space [] false cs).map (emit token quoted)
    else if isQuote c then scan (.quotes c) token quoted cs
    else if c == '\\' then scan (.escape none) token quoted cs
    else scan .word (token ++ [c]) quoted cs
  | .quotes q, token, _, c :: cs =>
    if c == q then scan .word token true cs
    else if c == '\\' && q == '"' then scan (.escape (some q)) token true cs
    else scan (.quotes q) (token ++ [c]) true cs
  | .escape none, token, quoted, c :: cs => scan .word (token ++ [c]) quoted cs
  | .escape (some q), token, quoted, c :: cs =>
    -- inside quotes only the quote and the backslash can be escaped
    let token := if c != '\\' && c != q then token ++ ['\\'] else token
    scan (.quotes q) (token ++ [c]) quoted cs

/-- `shlex.split(line)`. -/
def split (line : String) : Except Failure (List String) :=
  (scan .space [] false line.toList).map (List.map String.ofList)

/-- A character that needs no quotes: an ASCII letter or digit, or one of the signs `quote` names. -/
def isSafe (c : Char) : Bool := c.isAlphanum || c ∈ "-_@%+=:,./".toList

/-- `shlex.quote` on code points. -/
def quoteChars (s : List Char) : List Char :=
  if s = [] then ['\'', '\'']
  else if s.all isSafe then s
  else '\'' :: s.flatMap (fun c => if c = '\'' then "'\"'\"'".toList else [c]) ++ ['\'']

/-- `shlex.quote(token)`. -/
def quote (token : String) : String := String.ofList (quoteChars token.toList)

/-- `shlex.join(tokens)`. -/
def join (tokens : List String) : String := " ".intercalate (tokens.map quote)

/-- The characters at which `str.splitlines` ends a line. -/
def isBreak (c : Char) : Bool :=
  let n := c.toNat
  (10 ≤ n && n ≤ 13) || (28 ≤ n && n ≤ 30) || n == 0x85 || n == 0x2028 || n == 0x2029

/-- `str.splitlines`, with the line that is being read and whether a `\r` ended the one before it. -/
def linesFrom : Bool → List Char → List Char → List (List Char)
  | _, line, [] => if line = [] then [] else [line]
  | afterReturn, line, c :: cs =>
    -- "\r\n" is one line end
    if afterReturn && c == '\n' then linesFrom false line cs
    else if isBreak c then line :: linesFrom (c == '\r') [] cs
    else linesFrom false (line ++ [c]) cs

/-- `text.splitlines()`. -/
def splitlines (text : String) : List String := (linesFrom false [] text.toList).map String.ofList

section RoundTrip

theorem isSafe_class {c : Char} (h : isSafe c = true) :
    isWhitespace c = false ∧ isQuote c = false ∧ (c == '\\') = false := by
  have hmem : c.isAlphanum = true ∨ c ∈ "-_@%+=:,./".toList := by simpa [isSafe] using h
  obtain hletter | hsign := hmem
  · refine ⟨?_, ?_, ?_⟩
    all_goals
      simp only [isWhitespace, isQuote, Bool.or_eq_false_iff, beq_eq_false_iff_ne, ne_eq]
    · refine ⟨⟨⟨?_, ?_⟩, ?_⟩, ?_⟩ <;> rintro rfl <;> exact absurd hletter (by decide)
    · refine ⟨?_, ?_⟩ <;> rintro rfl <;> exact absurd hletter (by decide)
    · rintro rfl
      exact absurd hletter (by decide)
  · have hall : ("-_@%+=:,./".toList.all fun d => !isWhitespace d && !isQuote d && !(d == '\\')) = true := by
      decide
    have hc := List.all_eq_true.mp hall c hsign
    simpa [and_assoc] using hc

theorem scan_word_safe {w : List Char} (h : w.all isSafe = true) (token : List Char) (quoted : Bool)
    (rest : List Char) : scan .word token quoted (w ++ rest) = scan .word (token ++ w) quoted rest := by
  induction w generalizing token with
  | nil => simp
  | cons c w ih =>
    have hc : isSafe c = true ∧ w.all isSafe = true := by simpa using h
    obtain ⟨hspace, hquote, hescape⟩ := isSafe_class hc.1
    rw [List.cons_append, scan, hspace, hquote, hescape]
    simp only [Bool.false_eq_true, if_false]
    rw [ih hc.2, List.append_assoc, List.singleton_append]

/-- Inside quotes, a quote of the text is closed, given between the other quotes, and opened again. -/
theorem scan_quotes_replaced (w token : List Char) (quoted : Bool) (rest : List Char) :
    scan (.quotes '\'') token quoted
        (w.flatMap (fun c => if c = '\'' then "'\"'\"'".toList else [c]) ++ '\'' :: rest) =
      scan .word (token ++ w) true rest := by
  have hquote : "'\"'\"'".toList = ['\'', '"', '\'', '"', '\''] := by decide
  induction w generalizing token quoted with
  | nil => simp [scan]
  | cons c w ih =>
    by_cases hc : c = '\''
    · subst hc
      rw [List.flatMap_cons, if_pos rfl]
      nth_rewrite 1 [hquote]
      have hword : isWhitespace '"' = false ∧ isQuote '"' = true ∧ isWhitespace '\'' = false ∧
        isQuote '\'' = true := by decide
      simp only [List.cons_append, List.nil_append, scan, beq_self_eq_true, if_true, hword.1, hword.2.1,
        hword.2.2.1, hword.2.2.2, Bool.false_eq_true, if_false, show ('\'' == '"') = false from by decide,
        show ('\'' == '\\') = false from by decide, Bool.false_and]
      rw [ih, List.append_assoc, List.singleton_append]
    · have hne : (c == '\'') = false := by simpa using hc
      rw [List.flatMap_cons, if_neg hc, List.cons_append, List.nil_append, List.cons_append, scan, hne]
      simp only [Bool.false_eq_true, if_false, show ('\'' == '"') = false from by decide, Bool.and_false]
      rw [ih, List.append_assoc, List.singleton_append]

/-- A quoted word is read as the word. -/
theorem scan_quoteChars (w rest : List Char) : ∃ quoted : Bool, (w ≠ [] ∨ quoted) ∧
    scan .space [] false (quoteChars w ++ rest) = scan .word w quoted rest := by
  have hsingle : isWhitespace '\'' = false ∧ ('\'' == '\\') = false ∧ isQuote '\'' = true := by decide
  by_cases hempty : w = []
  · refine ⟨true, .inr rfl, ?_⟩
    rw [hempty, quoteChars, if_pos rfl]
    simp [scan, hsingle]
  · by_cases hsafe : w.all isSafe = true
    · refine ⟨false, .inl hempty, ?_⟩
      rw [quoteChars, if_neg hempty, if_pos hsafe]
      match w, hempty, hsafe with
      | c :: w, _, hsafe =>
        have hc : isSafe c = true ∧ w.all isSafe = true := by simpa using hsafe
        obtain ⟨hspace, hquote, hescape⟩ := isSafe_class hc.1
        rw [List.cons_append, scan, hspace, hquote, hescape]
        simp only [Bool.false_eq_true, if_false]
        rw [scan_word_safe hc.2, List.singleton_append]
    · refine ⟨true, .inl hempty, ?_⟩
      rw [quoteChars, if_neg hempty, if_neg hsafe, List.cons_append, List.cons_append, List.append_assoc,
        List.singleton_append, scan, hsingle.1, hsingle.2.1, hsingle.2.2]
      simp only [Bool.false_eq_true, if_false, if_true]
      rw [scan_quotes_replaced, List.nil_append]

theorem scan_join (ws : List (List Char)) :
    scan .space [] false ([' '].intercalate (ws.map quoteChars)) = .ok ws := by
  induction ws with
  | nil => rfl
  | cons w ws ih =>
    cases ws with
    | nil =>
      obtain ⟨quoted, hword, hscan⟩ := scan_quoteChars w []
      rw [List.append_nil] at hscan
      simp [hscan, scan, emit, hword]
    | cons v ws =>
      obtain ⟨quoted, hword, hscan⟩ :=
        scan_quoteChars w (' ' :: [' '].intercalate ((v :: ws).map quoteChars))
      rw [List.map_cons, List.map_cons, List.intercalate_cons_cons, ← List.map_cons,
        List.append_assoc, List.singleton_append, hscan, scan,
        show isWhitespace ' ' = true from by decide, if_pos rfl, ih]
      exact congrArg Except.ok (if_pos hword)

/-- The words that are joined are read back. -/
theorem split_join (tokens : List String) : split (join tokens) = .ok tokens := by
  have hchars : (join tokens).toList = [' '].intercalate ((tokens.map String.toList).map quoteChars) := by
    rw [join, String.toList_intercalate, show " ".toList = [' '] from by decide, List.map_map, List.map_map]
    exact congrArg _ (List.map_congr_left fun t _ => String.toList_ofList)
  rw [split, hchars, scan_join]
  simp [Except.map, Function.comp_def]

end RoundTrip

section Lines

/-- A text without a line end. -/
def unbroken (s : String) : Bool := s.toList.all fun c => !isBreak c

theorem unbroken_iff {s : String} : unbroken s = true ↔ ∀ c ∈ s.toList, isBreak c = false := by
  rw [unbroken, List.all_eq_true]
  exact forall₂_congr fun c _ => by rw [Bool.not_eq_true']

theorem linesFrom_append {l : List Char} (h : ∀ c ∈ l, isBreak c = false) (line rest : List Char) :
    linesFrom false line (l ++ rest) = linesFrom false (line ++ l) rest := by
  induction l generalizing line with
  | nil => simp
  | cons c l ih =>
    have hc : isBreak c = false := h c List.mem_cons_self
    rw [List.cons_append, linesFrom, Bool.false_and, if_neg Bool.false_ne_true, hc,
      if_neg Bool.false_ne_true, ih fun d hd => h d (List.mem_cons_of_mem _ hd), List.append_assoc,
      List.singleton_append]

/-- Lines without a line end inside, each ended by `\n`, are the lines of the text. -/
theorem linesFrom_flatMap {ls : List (List Char)} (h : ∀ l ∈ ls, ∀ c ∈ l, isBreak c = false) :
    linesFrom false [] (ls.flatMap fun l => l ++ ['\n']) = ls := by
  induction ls with
  | nil => rfl
  | cons l ls ih =>
    rw [List.flatMap_cons, List.append_assoc, linesFrom_append (h l List.mem_cons_self), List.nil_append,
      List.singleton_append, linesFrom, Bool.false_and, if_neg Bool.false_ne_true, if_pos (by decide),
      show ('\n' == '\r') = false from by decide, ih fun m hm => h m (List.mem_cons_of_mem _ hm)]

/-- What is quoted has no line end when the word has none. -/
theorem quoteChars_unbroken {w : List Char} (h : ∀ c ∈ w, isBreak c = false) :
    ∀ c ∈ quoteChars w, isBreak c = false := by
  intro c hc
  rw [quoteChars] at hc
  split at hc
  · exact unbroken_iff.mp (show unbroken "''" = true by decide) c hc
  · split at hc
    · exact h c hc
    · have hquote : ∀ d ∈ "'\"'\"'".toList, isBreak d = false := unbroken_iff.mp (by decide)
      simp only [List.mem_cons, List.mem_append, List.mem_flatMap, List.cons_append, List.not_mem_nil,
        or_false] at hc
      obtain rfl | ⟨d, hd, hc⟩ | rfl := hc
      · decide
      · split at hc
        · exact hquote c hc
        · rw [List.mem_singleton.mp hc]
          exact h d hd
      · decide

theorem mem_intercalate {α : Type*} {sep : List α} {ls : List (List α)} {c : α}
    (h : c ∈ sep.intercalate ls) : c ∈ sep ∨ ∃ l ∈ ls, c ∈ l := by
  induction ls with
  | nil => simp at h
  | cons l ls ih =>
    cases ls with
    | nil => exact .inr ⟨l, List.mem_cons_self, by simpa using h⟩
    | cons m ls =>
      rw [List.intercalate_cons_cons, List.mem_append, List.mem_append] at h
      obtain (h | h) | h := h
      · exact .inr ⟨l, List.mem_cons_self, h⟩
      · exact .inl h
      · obtain h | ⟨k, hk, h⟩ := ih h
        · exact .inl h
        · exact .inr ⟨k, List.mem_cons_of_mem _ hk, h⟩

theorem mem_intercalate_of_mem {α : Type*} (sep : List α) {ls : List (List α)} {l : List α} (hl : l ∈ ls) {c : α}
    (h : c ∈ l) : c ∈ sep.intercalate ls := by
  induction ls with
  | nil => cases hl
  | cons m ls ih =>
    cases ls with
    | nil =>
      rw [List.mem_singleton.mp hl] at h
      simpa using h
    | cons k ls =>
      rw [List.intercalate_cons_cons, List.mem_append, List.mem_append]
      obtain rfl | hl := List.mem_cons.mp hl
      · exact .inl (.inl h)
      · exact .inr (ih hl)

theorem join_unbroken {tokens : List String} (h : ∀ t ∈ tokens, ∀ c ∈ t.toList, isBreak c = false) :
    ∀ c ∈ (join tokens).toList, isBreak c = false := by
  intro c hc
  rw [join, String.toList_intercalate, show " ".toList = [' '] from by decide] at hc
  obtain hc | ⟨l, hl, hc⟩ := mem_intercalate hc
  · rw [List.mem_singleton.mp hc]
    decide
  · obtain ⟨q, hq, rfl⟩ := List.mem_map.mp hl
    obtain ⟨t, ht, rfl⟩ := List.mem_map.mp hq
    rw [quote, String.toList_ofList] at hc
    exact quoteChars_unbroken (h t ht) c hc

/-- Lines that are joined by line ends are the lines that each have one at their end. -/
theorem intercalate_append_newline {ls : List (List Char)} (h : ls ≠ []) :
    ['\n'].intercalate ls ++ ['\n'] = ls.flatMap fun l => l ++ ['\n'] := by
  induction ls with
  | nil => exact absurd rfl h
  | cons l ls ih =>
    cases ls with
    | nil => simp
    | cons m ls =>
      rw [List.intercalate_cons_cons, List.append_assoc, ih (List.cons_ne_nil m ls)]
      rfl

end Lines

end Soveren.Shell
