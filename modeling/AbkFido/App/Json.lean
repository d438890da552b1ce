/-
What the companion uses of `org.json`: values, objects and their members.

What the library does with text is a parameter (`OrgJson`). For samples there
is a printer, and a reader of one text.
-/
import Mathlib.Data.List.Basic
import Mathlib.Algebra.Group.Int.Defs

namespace AbkFido

/-- A value of `org.json`. A number with a fraction is kept as its text. -/
inductive JsonValue
  | null
  | string (s : List Char)
  | boolean (b : Bool)
  | number (n : Int)
  | decimal (digits : List Char)
  | array (items : List JsonValue)
  | object (members : List (String × JsonValue))

abbrev JsonObject := List (String × JsonValue)

/-- What `org.json` does with text. -/
structure OrgJson where
  /-- `toString` and `String.valueOf` -/
  text : JsonValue → List Char
  /-- `JSONObject(text)` -/
  parse : List Char → Option JsonObject
  /-- `Double.parseDouble(text)` without its fraction -/
  parseNumber : List Char → Option Int
  /-- `"true"` and `"false"`, whatever the case -/
  parseBoolean : List Char → Option Bool

namespace JsonObject

def put (name : String) (value : JsonValue) (o : JsonObject) : JsonObject :=
  if o.any (·.1 = name) then o.map fun m => if m.1 = name then (name, value) else m else o ++ [(name, value)]

def opt (o : JsonObject) (name : String) : Option JsonValue := (o.find? (·.1 = name)).map (·.2)

def optString (J : OrgJson) (o : JsonObject) (name : String) : List Char :=
  match opt o name with
  | some (.string s) => s
  | some value => J.text value
  | none => []

def optBoolean (J : OrgJson) (o : JsonObject) (name : String) (fallback : Bool) : Bool :=
  match opt o name with
  | some (.boolean b) => b
  | some (.string s) => (J.parseBoolean s).getD fallback
  | _ => fallback

/-- `optInt` and `optLong`: a whole number is cut to `bits`, any other is as near as `bits` can hold. -/
def optSigned (bits : Nat) (J : OrgJson) (o : JsonObject) (name : String) (fallback : Int) : Int :=
  let nearest := fun n : Int => max (-2 ^ (bits - 1)) (min n (2 ^ (bits - 1) - 1))
  match opt o name with
  | some (.number n) => (BitVec.ofInt bits n).toInt
  | some (.decimal digits) => ((J.parseNumber digits).map nearest).getD fallback
  | some (.string s) => ((J.parseNumber s).map nearest).getD fallback
  | _ => fallback

abbrev optInt := optSigned 32

abbrev optLong := optSigned 64

def optJSONArray (o : JsonObject) (name : String) : Option (List JsonValue) :=
  match opt o name with
  | some (.array items) => some items
  | _ => none

end JsonObject

/-- `optJSONObject` of an item -/
def JsonValue.object? : JsonValue → Option JsonObject
  | .object members => some members
  | _ => none

/-! ## Members -/

namespace JsonObject

variable {o : JsonObject} {name m : String} {value : JsonValue}

theorem opt_put_self : opt (put name value o) name = some value := by
  unfold put opt
  by_cases hany : o.any (·.1 = name)
  · rw [if_pos hany, List.find?_map]
    obtain ⟨x, hx, hname⟩ := List.any_eq_true.mp hany
    have hname : x.1 = name := of_decide_eq_true hname
    cases hfind : o.find? ((fun m => decide (m.1 = name)) ∘ fun m => if m.1 = name then (name, value) else m) with
    | none =>
      have hnot := List.find?_eq_none.mp hfind x hx
      simp [hname] at hnot
    | some y =>
      have hy := List.find?_some hfind
      have hy : y.1 = name := by
        by_contra hne
        simp [hne] at hy
      simp [hy]
  · rw [if_neg hany, List.find?_append]
    have hnone : o.find? (·.1 = name) = none := by
      rw [List.find?_eq_none]
      intro x hx hname
      exact hany (List.any_eq_true.mpr ⟨x, hx, hname⟩)
    rw [hnone]
    simp

theorem opt_put_of_ne (h : m ≠ name) : opt (put name value o) m = opt o m := by
  unfold put opt
  split
  · rw [List.find?_map]
    have hsame : ((fun x : String × JsonValue => decide (x.1 = m)) ∘ fun x => if x.1 = name then (name, value) else x) =
        fun x => decide (x.1 = m) := by
      funext x
      by_cases hx : x.1 = name
      · simp [hx]
      · simp [hx]
    rw [hsame]
    cases hfind : o.find? (·.1 = m) with
    | none => rfl
    | some y =>
      have hy : y.1 = m := by simpa using List.find?_some hfind
      simp [hy, h]
  · rw [List.find?_append]
    cases o.find? (·.1 = m) with
    | none => simp [h.symm]
    | some y => rfl

end JsonObject

namespace OrgJson

/-- The object is read back from its text. -/
def Reads (J : OrgJson) (o : JsonObject) : Prop := J.parse (J.text (.object o)) = some o

/-! ## Samples -/

/-- A character of a JSON string, as `org.json` writes it. -/
def escaped (c : Char) : List Char :=
  if c = '"' ∨ c = '\\' ∨ c = '/' then ['\\', c]
  else if c = '\t' then ['\\', 't']
  else if c = '\n' then ['\\', 'n']
  else if c = '\r' then ['\\', 'r']
  else if c.toNat = 8 then ['\\', 'b']
  else if c.toNat = 12 then ['\\', 'f']
  else if c.toNat < 32 then ['\\', 'u', '0', '0', Nat.digitChar (c.toNat / 16), Nat.digitChar (c.toNat % 16)]
  else [c]

def quoted (s : List Char) : List Char := '"' :: s.flatMap escaped ++ ['"']

mutual

def compact : JsonValue → List Char
  | .null => "null".toList
  | .string s => quoted s
  | .boolean b => (toString b).toList
  | .number n => (toString n).toList
  | .decimal digits => digits
  | .array items => '[' :: compactItems items ++ [']']
  | .object members => '\x7b' :: compactMembers members ++ ['\x7d']

def compactItems : List JsonValue → List Char
  | [] => []
  | [item] => compact item
  | item :: items => compact item ++ ',' :: compactItems items

def compactMembers : List (String × JsonValue) → List Char
  | [] => []
  | [m] => quoted m.1.toList ++ ':' :: compact m.2
  | m :: members => quoted m.1.toList ++ ':' :: compact m.2 ++ ',' :: compactMembers members

end

/-- `org.json`, of which only one text is read. -/
def readerOf (o : JsonObject) : OrgJson where
  text v := match v with
    | .string s => s
    | v => compact v
  parse s := if s = compact (.object o) then some o else none
  parseNumber _ := none
  parseBoolean _ := none

theorem reads_readerOf (o : JsonObject) : Reads (readerOf o) o := if_pos rfl

end OrgJson

end AbkFido
