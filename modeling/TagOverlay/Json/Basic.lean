import TagOverlay.Text.Digits

/-! JSON values and their compact written form. Objects keep their members in order, repeated keys
included. -/
namespace TagOverlay

inductive Json where
  | null
  | bool (value : Bool)
  | natural (value : Nat)
  /-- A number that is not written as a natural one, or has too many digits for a record. -/
  | numeral (literal : Text)
  | string (text : Text)
  | array (items : List Json)
  | object (members : List (Text × Json))
  /-- A string, or an object with a key, that holds half of a surrogate pair. It is written as JSON
  demands but is no text, so it can only be passed over. -/
  | unreadable

namespace Json

/-- How a character stands inside a written string. -/
def escape (c : Char) : Text :=
  if c = '"' then ['\\','"']
  else if c = '\\' then ['\\','\\']
  else if c = '\x08' then ['\\','b']
  else if c = '\x0c' then ['\\','f']
  else if c = '\n' then ['\\','n']
  else if c = '\r' then ['\\','r']
  else if c = '\t' then ['\\','t']
  else if c.toNat < 32 then ['\\','u'] ++ Text.padDigits 4 (Text.digitsOf 16 c.toNat)
  else [c]

def quote (text : Text) : Text :=
  ['"'] ++ text.flatMap escape ++ ['"']

mutual

/-- The compact written form. -/
def render : Json → Text
  | null => "null".toList
  | bool value => (if value then "true" else "false").toList
  | natural value => Text.digitsOf 10 value
  | numeral literal => literal
  | string text => quote text
  | array items => ['['] ++ [','].intercalate (renderItems items) ++ [']']
  | object members => ['\x7b'] ++ [','].intercalate (renderMembers members) ++ ['\x7d']
  | unreadable => ['"','\\','u','d','8','0','0','"']

def renderItems : List Json → List Text
  | [] => []
  | item :: items => item.render :: renderItems items

def renderMembers : List (Text × Json) → List Text
  | [] => []
  | (key,value) :: members => (quote key ++ [':'] ++ value.render) :: renderMembers members

end

end Json

end TagOverlay
