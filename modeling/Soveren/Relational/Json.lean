import Mathlib.Algebra.Group.Nat.Defs
import Soveren.Relational.Text

/-! JSON values. An object lists its fields in the order of their keys, each key once, so
that equality of values is equality of dictionaries and of canonical texts. A float is kept
as its shortest decimal text, or as `inf`, `-inf` or `nan`. -/
namespace Soveren

inductive Json where
  | null
  | bool (b : Bool)
  | int (n : Int)
  | float (repr : String)
  | str (s : String)
  | arr (items : List Json)
  | obj (fields : List (String × Json))

namespace Json

mutual
/-- Equality of values is decided along their structure. -/
def decEq : (a b : Json) → Decidable (a = b)
  | .null, .null => isTrue rfl
  | .bool a, .bool b =>
    if h : a = b then isTrue (h ▸ rfl) else isFalse (fun e => h (Json.bool.inj e))
  | .int a, .int b =>
    if h : a = b then isTrue (h ▸ rfl) else isFalse (fun e => h (Json.int.inj e))
  | .float a, .float b =>
    if h : a = b then isTrue (h ▸ rfl) else isFalse (fun e => h (Json.float.inj e))
  | .str a, .str b =>
    if h : a = b then isTrue (h ▸ rfl) else isFalse (fun e => h (Json.str.inj e))
  | .arr a, .arr b => match decEqItems a b with
    | isTrue h => isTrue (h ▸ rfl)
    | isFalse h => isFalse (fun e => h (Json.arr.inj e))
  | .obj a, .obj b => match decEqFields a b with
    | isTrue h => isTrue (h ▸ rfl)
    | isFalse h => isFalse (fun e => h (Json.obj.inj e))
  | .null, .bool _ | .null, .int _ | .null, .float _ | .null, .str _ | .null, .arr _
  | .null, .obj _ | .bool _, .null | .bool _, .int _ | .bool _, .float _ | .bool _, .str _
  | .bool _, .arr _ | .bool _, .obj _ | .int _, .null | .int _, .bool _ | .int _, .float _
  | .int _, .str _ | .int _, .arr _ | .int _, .obj _ | .float _, .null | .float _, .bool _
  | .float _, .int _ | .float _, .str _ | .float _, .arr _ | .float _, .obj _ | .str _, .null
  | .str _, .bool _ | .str _, .int _ | .str _, .float _ | .str _, .arr _ | .str _, .obj _
  | .arr _, .null | .arr _, .bool _ | .arr _, .int _ | .arr _, .float _ | .arr _, .str _
  | .arr _, .obj _ | .obj _, .null | .obj _, .bool _ | .obj _, .int _ | .obj _, .float _
  | .obj _, .str _ | .obj _, .arr _ => isFalse (by intro h; cases h)

def decEqItems : (a b : List Json) → Decidable (a = b)
  | [], [] => isTrue rfl
  | x :: xs, y :: ys => match decEq x y, decEqItems xs ys with
    | isTrue h, isTrue h' => isTrue (h ▸ h' ▸ rfl)
    | isFalse h, _ => isFalse (fun e => h (List.cons.inj e).1)
    | _, isFalse h => isFalse (fun e => h (List.cons.inj e).2)
  | [], _ :: _ | _ :: _, [] => isFalse (by intro h; cases h)

def decEqFields : (a b : List (String × Json)) → Decidable (a = b)
  | [], [] => isTrue rfl
  | (k, x) :: xs, (l, y) :: ys =>
    if hk : k = l then
      match decEq x y, decEqFields xs ys with
      | isTrue h, isTrue h' => isTrue (hk ▸ h ▸ h' ▸ rfl)
      | isFalse h, _ => isFalse (fun e => h (Prod.mk.inj (List.cons.inj e).1).2)
      | _, isFalse h => isFalse (fun e => h (List.cons.inj e).2)
    else isFalse (fun e => hk (Prod.mk.inj (List.cons.inj e).1).1)
  | [], _ :: _ | _ :: _, [] => isFalse (by intro h; cases h)
end

instance : DecidableEq Json := decEq

/-- The fields of an object. -/
abbrev Object := List (String × Json)

/-- A nullable text column as a JSON value. -/
def ofString? : Option String → Json
  | none => .null
  | some s => .str s

def ofInt? : Option Int → Json
  | none => .null
  | some n => .int n

/-- `value.get(key)`; a value that is no object has no fields. -/
def get? (key : String) : Json → Option Json
  | .obj fields => (fields.find? (·.1 = key)).map (·.2)
  | _ => none

/-- `value.get(key)` with a stored null read as an absent field. -/
def getSome? (key : String) (value : Json) : Option Json :=
  match value.get? key with
  | some .null | none => none
  | some v => some v

/-- Set one field of a key-ordered field list. -/
def setField (key : String) (value : Json) : List (String × Json) → List (String × Json)
  | [] => [(key, value)]
  | (k, v) :: rest =>
    if k = key then (key, value) :: rest
    else if key < k then (key, value) :: (k, v) :: rest
    else (k, v) :: setField key value rest

/-- `{**value, key: item}`. -/
def set (value : Json) (key : String) (item : Json) : Json :=
  match value with
  | .obj fields => .obj (setField key item fields)
  | _ => .obj [(key, item)]

/-- The truth value of a JSON value. -/
def truthy : Json → Bool
  | .null => false
  | .bool b => b
  | .int n => n ≠ 0
  | .float r => !(["0.0", "-0.0"].contains r)
  | .str s => s ≠ ""
  | .arr items => !items.isEmpty
  | .obj fields => !fields.isEmpty

/-- A text as it is quoted inside a container. -/
def quote (s : String) : String :=
  if s.toList.contains '\'' && !s.toList.contains '"' then "\"" ++ s ++ "\""
  else "'" ++ String.join (s.toList.map fun c =>
    if c = '\\' then "\\\\" else if c = '\'' then "\\'" else if c = '\n' then "\\n"
    else if c = '\r' then "\\r" else if c = '\t' then "\\t" else c.toString) ++ "'"

mutual
/-- `repr(value)`. -/
def render : Json → String
  | .null => "None"
  | .bool b => if b then "True" else "False"
  | .int n => toString n
  | .float r => r
  | .str s => quote s
  | .arr items => "[" ++ String.intercalate ", " (renderItems items) ++ "]"
  | .obj fields => "\x7b" ++ String.intercalate ", " (renderFields fields) ++ "\x7d"

def renderItems : List Json → List String
  | [] => []
  | x :: xs => render x :: renderItems xs

def renderFields : List (String × Json) → List String
  | [] => []
  | (k, x) :: xs => (quote k ++ ": " ++ render x) :: renderFields xs
end

/-- `str(value)`. -/
def toStr : Json → String
  | .str s => s
  | v => v.render

/-- A text as JSON quotes it, with every control character escaped. -/
def quoteJson (s : String) : String :=
  "\"" ++ String.join (s.toList.map fun c =>
    if c = '"' then "\\\"" else if c = '\\' then "\\\\" else if c = '\n' then "\\n"
    else if c = '\r' then "\\r" else if c = '\t' then "\\t"
    else if c.toNat = 8 then "\\b" else if c.toNat = 12 then "\\f"
    else if c.toNat < 32 then "\\u00" ++ (if c.toNat < 16 then "0" else "1") ++
      String.singleton (Nat.digitChar (c.toNat % 16))
    else c.toString) ++ "\""

/-- A float as it is written in JSON. -/
def floatJson (r : String) : String :=
  if r = "nan" then "NaN" else if r = "inf" then "Infinity" else if r = "-inf" then "-Infinity" else r

mutual
/-- `json.dumps(value, ensure_ascii=False, separators=(",", ":"))`. -/
def dumps : Json → String
  | .null => "null"
  | .bool b => if b then "true" else "false"
  | .int n => toString n
  | .float r => floatJson r
  | .str s => quoteJson s
  | .arr items => "[" ++ String.intercalate "," (dumpsItems items) ++ "]"
  | .obj fields => "\x7b" ++ String.intercalate "," (dumpsFields fields) ++ "\x7d"

def dumpsItems : List Json → List String
  | [] => []
  | x :: xs => dumps x :: dumpsItems xs

def dumpsFields : List (String × Json) → List String
  | [] => []
  | (k, x) :: xs => (quoteJson k ++ ":" ++ dumps x) :: dumpsFields xs
end

/-- The nearest double of an integer of more than 53 bits, ties to even. -/
def nearestDouble (n : ℕ) : ℕ :=
  let shift := Nat.log2 n - 52
  let low := n % 2 ^ shift
  let kept := n / 2 ^ shift
  if 2 ^ shift < 2 * low || (2 * low = 2 ^ shift && kept % 2 = 1) then (kept + 1) * 2 ^ shift
  else kept * 2 ^ shift

def ofDigits (digits : List Char) : ℕ := digits.foldl (fun n c => 10 * n + (c.toNat - '0'.toNat)) 0

/-- The magnitude of a float without its sign, if it is an integer. The text has an exponent from `1e+16` on
and below `0.0001`; `inf` and `nan` have no digits. -/
def floatNat? (text : List Char) : Option ℕ :=
  let mantissa := text.takeWhile (· ≠ 'e')
  let whole := mantissa.takeWhile (· ≠ '.')
  let fraction := (mantissa.dropWhile (· ≠ '.')).drop 1
  if !(whole ++ fraction).all Char.isDigit then none
  else match text.dropWhile (· ≠ 'e') with
  | [] => if fraction.all (· = '0') then some (ofDigits whole) else none
  | _ :: '+' :: exponent =>
    some (nearestDouble (ofDigits (whole ++ fraction) * 10 ^ (ofDigits exponent - fraction.length)))
  | _ => none

/-- The integer that a float is equal to. -/
def floatInt? (r : String) : Option Int :=
  match r.toList with
  | '-' :: digits => (floatNat? digits).map fun n => -n
  | digits => (floatNat? digits).map fun n => n

/-- The integer that a number or a truth value is equal to. -/
def integer? : Json → Option Int
  | .bool b => some (if b then 1 else 0)
  | .int n => some n
  | .float r => floatInt? r
  | _ => none

section Floats

variable (p : String → Bool)

mutual
/-- A float that meets a condition is somewhere in the value. -/
def anyFloat : Json → Bool
  | .float r => p r
  | .arr items => itemsAnyFloat items
  | .obj fields => fieldsAnyFloat fields
  | .null | .bool _ | .int _ | .str _ => false

def itemsAnyFloat : List Json → Bool
  | [] => false
  | x :: xs => anyFloat x || itemsAnyFloat xs

def fieldsAnyFloat : List (String × Json) → Bool
  | [] => false
  | (_, x) :: xs => anyFloat x || fieldsAnyFloat xs
end

end Floats

mutual
/-- How deep arrays and objects are nested. -/
def depth : Json → ℕ
  | .arr items => depthItems items + 1
  | .obj fields => depthFields fields + 1
  | .null | .bool _ | .int _ | .float _ | .str _ => 0

def depthItems : List Json → ℕ
  | [] => 0
  | x :: xs => max (depth x) (depthItems xs)

def depthFields : List (String × Json) → ℕ
  | [] => 0
  | (_, x) :: xs => max (depth x) (depthFields xs)
end

section Equality

variable (ownNan : Bool)

mutual
/-- `a == b` for decoded values in `a`. Truth values and floats are equal to the integers that they stand for.
The decoder has one object for NaN, which a container finds in `b` by identity; a NaN that `b` holds as an
object of its own is equal to nothing. -/
def equals : Json → Json → Bool
  | .null, .null => true
  | .str s, .str t => s = t
  | .arr a, .arr b => equalItems a b
  | .obj a, .obj b => equalFields a b
  | .float r, .float s =>
    (r = s && !(ownNan && s = "nan")) || (integer? (.float r) = some 0 && integer? (.float s) = some 0)
  | a, b => (integer? a).isSome && integer? a = integer? b

def equalItems : List Json → List Json → Bool
  | [], [] => true
  | x :: xs, y :: ys => equals x y && equalItems xs ys
  | _, _ => false

def equalFields : List (String × Json) → List (String × Json) → Bool
  | [], [] => true
  | (k, x) :: xs, (l, y) :: ys => k = l && equals x y && equalFields xs ys
  | _, _ => false
end

/-- A NaN is somewhere in the value. -/
def hasNan : Json → Bool := anyFloat (· = "nan")

theorem integer?_nan : integer? (.float "nan") = none := by
  decide

mutual
/-- A value is equal to itself unless it has a NaN of its own. -/
theorem equals_self : (a : Json) → a.equals ownNan a = !(ownNan && a.hasNan)
  | .null => by simp [equals, hasNan, anyFloat]
  | .bool b => by simp [equals, integer?, hasNan, anyFloat]
  | .int n => by simp [equals, integer?, hasNan, anyFloat]
  | .float r => by
    by_cases hr : r = "nan"
    · subst hr
      simp [equals, hasNan, anyFloat, integer?_nan]
    · simp [equals, hasNan, anyFloat, hr]
  | .str s => by simp [equals, hasNan, anyFloat]
  | .arr items => by simpa only [equals, hasNan, anyFloat] using equalItems_self items
  | .obj fields => by simpa only [equals, hasNan, anyFloat] using equalFields_self fields

theorem equalItems_self : (items : List Json) →
    equalItems ownNan items items = !(ownNan && itemsAnyFloat (· = "nan") items)
  | [] => by simp [equalItems, itemsAnyFloat]
  | x :: xs => by
    rw [equalItems, itemsAnyFloat, equals_self x, equalItems_self xs, hasNan]
    cases ownNan <;> simp

theorem equalFields_self : (fields : List (String × Json)) →
    equalFields ownNan fields fields = !(ownNan && fieldsAnyFloat (· = "nan") fields)
  | [] => by simp [equalFields, fieldsAnyFloat]
  | (k, x) :: xs => by
    rw [equalFields, fieldsAnyFloat, equals_self x, equalFields_self xs, hasNan]
    cases ownNan <;> simp
end

end Equality

example : ["1.0", "-0.0", "0.5", "1e+16", "1e+23", "1e-05", "inf", "nan"].map floatInt? =
    [some 1, some 0, none, some 10000000000000000, some 99999999999999991611392, none, none, none] := by
  decide +kernel

theorem ofString?_inj {s t : Option String} (h : ofString? s = ofString? t) : s = t := by
  cases s with
  | none => cases t with
    | none => rfl
    | some t => simp [ofString?] at h
  | some s => cases t with
    | none => simp [ofString?] at h
    | some t => simpa [ofString?] using h

theorem ofInt?_inj {m n : Option Int} (h : ofInt? m = ofInt? n) : m = n := by
  cases m with
  | none => cases n with
    | none => rfl
    | some n => simp [ofInt?] at h
  | some m => cases n with
    | none => simp [ofInt?] at h
    | some n => simpa [ofInt?] using h

theorem setField_find (key : String) (value : Json) (fields : List (String × Json)) :
    (setField key value fields).find? (·.1 = key) = some (key, value) := by
  induction fields with
  | nil => simp [setField]
  | cons f fields ih =>
    obtain ⟨k, v⟩ := f
    simp only [setField]
    split
    · simp
    · split
      · simp
      · rename_i hk _
        simpa [List.find?_cons, hk] using ih

theorem setField_find_of_ne {key other : String} (h : other ≠ key) (value : Json)
    (fields : List (String × Json)) :
    (setField key value fields).find? (·.1 = other) = fields.find? (·.1 = other) := by
  induction fields with
  | nil => simp [setField, h.symm]
  | cons f fields ih =>
    obtain ⟨k, v⟩ := f
    simp only [setField]
    split
    · rename_i hk
      subst hk
      simp [h.symm]
    · split
      · simp [List.find?_cons, h.symm]
      · simp [List.find?_cons, ih]

@[simp] theorem get?_set (key : String) (item : Json) (value : Json) :
    (value.set key item).get? key = some item := by
  cases value <;> simp [set, get?, setField_find]

theorem get?_set_of_ne {key other : String} (h : other ≠ key) (item value : Json) :
    (value.set key item).get? other = value.get? other := by
  cases value with
  | obj fields => simp [set, get?, setField_find_of_ne h]
  | null | bool | int | float | str | arr => simp [set, get?, h.symm]

example : (Json.obj [("b", .int 1)]).set "a" (.str "x") = .obj [("a", .str "x"), ("b", .int 1)] := by
  decide

end Json
end Soveren
