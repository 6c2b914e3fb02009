import TagOverlay.Json.Basic

/-! Reading JSON. The grammar is strict: no comments, no comma at the end, no leading zeros, no
control characters in strings, and nothing but blanks after the value. -/
namespace TagOverlay.Json

def isBlank (c : Char) : Bool :=
  c = ' ' || c = '\n' || c = '\t' || c = '\r'

def skipBlanks (text : Text) : Text :=
  text.dropWhile isBlank

/-- The character that a one-letter escape stands for. -/
def unescape? (letter : Char) : Option Char :=
  if letter = '"' ∨ letter = '\\' ∨ letter = '/' then some letter
  else if letter = 'b' then some '\x08'
  else if letter = 'f' then some '\x0c'
  else if letter = 'n' then some '\n'
  else if letter = 'r' then some '\r'
  else if letter = 't' then some '\t'
  else none

def isHighHalf (unit : Nat) : Bool :=
  0xD800 ≤ unit && unit < 0xDC00

def isLowHalf (unit : Nat) : Bool :=
  0xDC00 ≤ unit && unit < 0xE000

/-- Puts the two halves of each surrogate pair together, after the characters in `before`. -/
def joinPairs? (before : Text) : List Nat → Option Text
  | [] => some before.reverse
  | [unit] => (Text.scalar? unit).map fun c => (c :: before).reverse
  | unit :: next :: units =>
      if isHighHalf unit && isLowHalf next then
        (Text.scalar? (0x10000 + (unit - 0xD800) * 0x400 + (next - 0xDC00))).bind fun c =>
          joinPairs? (c :: before) units
      else
        (Text.scalar? unit).bind fun c => joinPairs? (c :: before) (next :: units)

/-- Reads the rest of a string up to its closing quote, as code points and halves of pairs. -/
def readUnits? (before : List Nat) : Text → Option (List Nat × Text)
  | [] => none
  | '"' :: rest => some (before.reverse,rest)
  | '\\' :: 'u' :: a :: b :: c :: d :: rest =>
      match Text.number? 16 [a,b,c,d] with
      | some unit => readUnits? (unit :: before) rest
      | none => none
  | '\\' :: letter :: rest =>
      match unescape? letter with
      | some c => readUnits? (c.toNat :: before) rest
      | none => none
  | c :: rest => if c.toNat < 32 ∨ c = '\\' then none else readUnits? (c.toNat :: before) rest

/-- Reads a string after its opening quote. The text is missing if it is none. -/
def readString? (input : Text) : Option (Option Text × Text) :=
  (readUnits? [] input).map fun (units,rest) => (joinPairs? [] units,rest)

/-- Takes off the longest row of decimal digits; there has to be one. -/
def readDigits? (input : Text) : Option (Text × Text) :=
  let digits := input.takeWhile (Text.isDigitOf 10)
  if digits.isEmpty then none else some (digits,input.dropWhile (Text.isDigitOf 10))

/-- Takes off the fraction of a number, if there is one. -/
def readFraction? (input : Text) : Option (Text × Text) :=
  match input with
  | '.' :: rest => (readDigits? rest).map fun (digits,rest) => ('.' :: digits,rest)
  | _ => some ([],input)

/-- Takes off the exponent of a number, if there is one. -/
def readExponent? (input : Text) : Option (Text × Text) :=
  match input with
  | c :: rest =>
      if c = 'e' ∨ c = 'E' then
        match rest with
        | sign :: rest' =>
            if sign = '+' ∨ sign = '-' then
              (readDigits? rest').map fun (digits,rest) => (c :: sign :: digits,rest)
            else (readDigits? rest).map fun (digits,rest) => (c :: digits,rest)
        | [] => none
      else some ([],input)
  | [] => some ([],[])

/-- Takes off the whole part of a number, which has no zero before other digits. -/
def readWhole? (input : Text) : Option (Text × Text) :=
  match input with
  | '0' :: rest => some (['0'],rest)
  | _ => readDigits? input

/-- Takes off a number without its sign. -/
def readUnsigned? (input : Text) : Option (Text × Text) := do
  let (whole,rest) ← readWhole? input
  let (fraction,rest) ← readFraction? rest
  let (exponent,rest) ← readExponent? rest
  return (whole ++ fraction ++ exponent,rest)

/-- The most digits of a number that is read as a natural one. Records hold numbers below two to the
power of 64, which have no more. -/
def maxDigits : Nat := 20

/-- The value of a number without a sign. -/
def ofUnsigned (literal : Text) : Json :=
  if literal.all (Text.isDigitOf 10) && literal.length ≤ maxDigits then
    natural (Text.numberOf 10 literal)
  else numeral literal

/-- Reads a number. One with a sign is never taken for a natural number. -/
def readNumber? (input : Text) : Option (Json × Text) :=
  match input with
  | '-' :: rest => (readUnsigned? rest).map fun (literal,rest) => (numeral ('-' :: literal),rest)
  | _ => (readUnsigned? input).map fun (literal,rest) => (ofUnsigned literal,rest)

/-- An object of the members, unless one of the keys is no text. -/
def ofMembers (members : List (Option Text × Json)) : Json :=
  match members.mapM fun (key?,value) => key?.map fun key => (key,value) with
  | some members => object members
  | none => unreadable

mutual

/-- Reads a value at the beginning of the input. -/
def readValue? : (fuel : Nat) → Text → Option (Json × Text)
  | 0,_ => none
  | fuel + 1,input =>
      match skipBlanks input with
      | 'n' :: 'u' :: 'l' :: 'l' :: rest => some (null,rest)
      | 't' :: 'r' :: 'u' :: 'e' :: rest => some (bool true,rest)
      | 'f' :: 'a' :: 'l' :: 's' :: 'e' :: rest => some (bool false,rest)
      | '"' :: rest =>
          (readString? rest).map fun (text?,rest) => (text?.elim unreadable string,rest)
      | '[' :: rest =>
          match skipBlanks rest with
          | ']' :: rest => some (array [],rest)
          | _ => (readItems? fuel [] rest).map fun (items,rest) => (array items,rest)
      | '\x7b' :: rest =>
          match skipBlanks rest with
          | '\x7d' :: rest => some (object [],rest)
          | _ => (readMembers? fuel [] rest).map fun (members,rest) => (ofMembers members,rest)
      | input => readNumber? input

/-- Reads the items of an array from one of them on, after the items in `before`. -/
def readItems? : (fuel : Nat) → (before : List Json) → Text → Option (List Json × Text)
  | 0,_,_ => none
  | fuel + 1,before,input =>
      match readValue? fuel input with
      | none => none
      | some (item,rest) =>
          match skipBlanks rest with
          | ',' :: rest => readItems? fuel (item :: before) rest
          | ']' :: rest => some ((item :: before).reverse,rest)
          | _ => none

/-- Reads the members of an object from one of them on, after the members in `before`. -/
def readMembers? : (fuel : Nat) → (before : List (Option Text × Json)) → Text →
    Option (List (Option Text × Json) × Text)
  | 0,_,_ => none
  | fuel + 1,before,input =>
      match skipBlanks input with
      | '"' :: rest =>
          match readString? rest with
          | none => none
          | some (key?,rest) =>
              match skipBlanks rest with
              | ':' :: rest =>
                  match readValue? fuel rest with
                  | none => none
                  | some (value,rest) =>
                      match skipBlanks rest with
                      | ',' :: rest => readMembers? fuel ((key?,value) :: before) rest
                      | '\x7d' :: rest => some (((key?,value) :: before).reverse,rest)
                      | _ => none
              | _ => none
      | _ => none

end

/-- The value that the whole text writes. At most two steps of the reader begin at the same place,
so twice the text's length bounds their number. -/
def parse? (text : Text) : Option Json :=
  match readValue? (2 * text.length + 1) text with
  | some (value,rest) => if (skipBlanks rest).isEmpty then some value else none
  | none => none

end TagOverlay.Json
