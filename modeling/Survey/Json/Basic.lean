/-
# JSON values and their text

The values that a survey hands on, and their text with one member or item a line, indented by two
blanks for every level.  Empty containers stay on one line.  In strings the quote, the backslash
and the control characters are escaped, and all other characters stand for themselves.
-/

namespace Survey

/-- A JSON value; numbers are counts. -/
inductive Json where
  /-- The null value. -/
  | null
  /-- A truth value. -/
  | bool (value : Bool)
  /-- A count. -/
  | number (value : Nat)
  /-- A string. -/
  | string (value : String)
  /-- A list of values. -/
  | array (items : List Json)
  /-- Members in order. -/
  | object (members : List (String × Json))

namespace Json

/-- The array of some strings. -/
def strings (values : List String) : Json := array (values.map string)

/-- A string, or null for none. -/
def optionalString : Option String → Json
  | some value => string value
  | none => null

/-! ### Text -/

/-- The hexadecimal digit of a number below sixteen. -/
def hexDigit (n : Nat) : Char := if n < 10 then Char.ofNat (48 + n) else Char.ofNat (87 + n)

/-- The characters that stand for a character in a string. -/
def escapeChar (c : Char) : List Char :=
  if c = '\x22' then ['\\', '\x22']
  else if c = '\\' then ['\\', '\\']
  else if c = '\x08' then ['\\', 'b']
  else if c = '\x0c' then ['\\', 'f']
  else if c = '\n' then ['\\', 'n']
  else if c = '\r' then ['\\', 'r']
  else if c = '\t' then ['\\', 't']
  else if c.toNat < 32 then
    ['\\', 'u', '0', '0', hexDigit (c.toNat / 16), hexDigit (c.toNat % 16)]
  else [c]

/-- The text of a string value, with its quotes. -/
def quote (value : String) : String :=
  String.ofList ('\x22' :: value.toList.flatMap escapeChar ++ ['\x22'])

/-- The start of a line at a level. -/
def lineBreak (level : Nat) : String := String.ofList ('\n' :: List.replicate (2 * level) ' ')

mutual

/-- The text of a value whose members stand one level deeper. -/
def render (level : Nat) : Json → String
  | null => "null"
  | bool value => if value then "true" else "false"
  | number value => value.repr
  | string value => quote value
  | array [] => "[]"
  | array (item :: items) =>
    "[" ++ lineBreak (level + 1) ++ render (level + 1) item ++ renderItems (level + 1) items ++
      lineBreak level ++ "]"
  | object [] => "\x7b\x7d"
  | object ((key, value) :: members) =>
    "\x7b" ++ lineBreak (level + 1) ++ quote key ++ ": " ++ render (level + 1) value ++
      renderMembers (level + 1) members ++ lineBreak level ++ "\x7d"

/-- The text of further items, a comma before each. -/
def renderItems (level : Nat) : List Json → String
  | [] => ""
  | item :: items => "," ++ lineBreak level ++ render level item ++ renderItems level items

/-- The text of further members, a comma before each. -/
def renderMembers (level : Nat) : List (String × Json) → String
  | [] => ""
  | (key, value) :: members =>
    "," ++ lineBreak level ++ quote key ++ ": " ++ render level value ++
      renderMembers level members

end

/-- The text of a value. -/
def pretty (value : Json) : String := value.render 0

end Json

end Survey
