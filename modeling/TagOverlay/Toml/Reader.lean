import TagOverlay.Toml.Scalar

/-! Reading TOML documents. -/
namespace TagOverlay.Toml

def isBlank (c : Char) : Bool :=
  c = ' ' || c = '\t'

def skipBlanks (text : Text) : Text :=
  text.dropWhile isBlank

/-- Control characters, none of which but the tab may be written as it is. -/
def isControl (c : Char) : Bool :=
  (c.toNat < 32 && c ≠ '\t') || c.toNat = 127

def afterNewline? : Text → Option Text
  | '\n' :: rest => some rest
  | '\r' :: '\n' :: rest => some rest
  | _ => none

def afterComment? : Text → Option Text
  | [] => some []
  | c :: rest =>
      if (afterNewline? (c :: rest)).isSome then some (c :: rest)
      else if isControl c then none
      else afterComment? rest

/-- Skips blanks, newlines and comments, in one of which the text may begin. -/
def skipGapFrom? (comment : Bool) : Text → Option Text
  | [] => some []
  | '\n' :: rest => skipGapFrom? false rest
  | '\r' :: '\n' :: rest => skipGapFrom? false rest
  | c :: rest =>
      if comment then if isControl c then none else skipGapFrom? true rest
      else if isBlank c then skipGapFrom? false rest
      else if c = '#' then skipGapFrom? true rest
      else some (c :: rest)

def skipGap? (text : Text) : Option Text :=
  skipGapFrom? false text

/-- The rest of a line has to be blank or a comment. -/
def afterLine? (text : Text) : Option Text :=
  match skipBlanks text with
  | [] => some []
  | '#' :: rest => (afterComment? rest).map fun rest => (afterNewline? rest).getD []
  | rest => afterNewline? rest

/-- Skips blanks and newlines after a backslash at the end of a line. -/
def skipBlankLines : Text → Text
  | [] => []
  | '\r' :: '\n' :: rest => skipBlankLines rest
  | c :: rest => if isBlank c || c = '\n' then skipBlankLines rest else c :: rest

/-- The character of a row of hexadecimal digits at the beginning of a text. -/
def readCode? (length : Nat) (text : Text) : Option (Char × Text) := do
  let digits := text.take length
  if digits.length < length then none
  else
    let code ← Text.number? 16 digits
    let c ← Text.scalar? code
    some (c,text.drop length)

/-- The character that an escape stands for, after its backslash. -/
def readEscape? : Text → Option (Char × Text)
  | '"' :: rest => some ('"',rest)
  | '\\' :: rest => some ('\\',rest)
  | 'b' :: rest => some ('\x08',rest)
  | 't' :: rest => some ('\t',rest)
  | 'n' :: rest => some ('\n',rest)
  | 'f' :: rest => some ('\x0c',rest)
  | 'r' :: rest => some ('\r',rest)
  | 'e' :: rest => some ('\x1b',rest)
  | 'x' :: rest => readCode? 2 rest
  | 'u' :: rest => readCode? 4 rest
  | 'U' :: rest => readCode? 8 rest
  | _ => none

def readBasic? : (fuel : Nat) → (before : Text) → Text → Option (Text × Text)
  | 0,_,_ => none
  | fuel + 1,before,input =>
      match input with
      | [] => none
      | '"' :: rest => some (before.reverse,rest)
      | '\\' :: rest =>
          match readEscape? rest with
          | some (c,rest) => readBasic? fuel (c :: before) rest
          | none => none
      | c :: rest => if isControl c then none else readBasic? fuel (c :: before) rest

/-- Reads a string in three double quotes after them. Newlines stay as they are written, and up to
two more quotes may stand before the closing ones. -/
def readLongBasic? : (fuel : Nat) → (before : Text) → Text → Option (Text × Text)
  | 0,_,_ => none
  | fuel + 1,before,input =>
      match input with
      | [] => none
      | '"' :: '"' :: '"' :: '"' :: '"' :: rest => some (('"' :: '"' :: before).reverse,rest)
      | '"' :: '"' :: '"' :: '"' :: rest => some (('"' :: before).reverse,rest)
      | '"' :: '"' :: '"' :: rest => some (before.reverse,rest)
      | '\\' :: rest =>
          match afterNewline? (skipBlanks rest) with
          | some rest => readLongBasic? fuel before (skipBlankLines rest)
          | none =>
              match readEscape? rest with
              | some (c,rest) => readLongBasic? fuel (c :: before) rest
              | none => none
      | '\r' :: '\n' :: rest => readLongBasic? fuel ('\n' :: '\r' :: before) rest
      | c :: rest =>
          if isControl c && c ≠ '\n' then none else readLongBasic? fuel (c :: before) rest

def readLiteral? (before : Text) : Text → Option (Text × Text)
  | [] => none
  | '\'' :: rest => some (before.reverse,rest)
  | c :: rest => if isControl c then none else readLiteral? (c :: before) rest

def readLongLiteral? (before : Text) : Text → Option (Text × Text)
  | [] => none
  | '\'' :: '\'' :: '\'' :: '\'' :: '\'' :: rest => some (('\'' :: '\'' :: before).reverse,rest)
  | '\'' :: '\'' :: '\'' :: '\'' :: rest => some (('\'' :: before).reverse,rest)
  | '\'' :: '\'' :: '\'' :: rest => some (before.reverse,rest)
  | '\r' :: '\n' :: rest => readLongLiteral? ('\n' :: '\r' :: before) rest
  | c :: rest =>
      if isControl c && c ≠ '\n' then none else readLongLiteral? (c :: before) rest

/-- The text after the newline that may follow three opening quotes. -/
def afterOpening (text : Text) : Text :=
  (afterNewline? text).getD text

def readString? (fuel : Nat) (input : Text) : Option (Text × Text) :=
  match input with
  | '"' :: '"' :: '"' :: rest => readLongBasic? fuel [] (afterOpening rest)
  | '"' :: rest => readBasic? fuel [] rest
  | '\'' :: '\'' :: '\'' :: rest => readLongLiteral? [] (afterOpening rest)
  | '\'' :: rest => readLiteral? [] rest
  | _ => none

def isBareKey (c : Char) : Bool :=
  c.isAlphanum || c = '_' || c = '-'

/-- Reads one key, bare or in quotes, on one line. -/
def readKey? (fuel : Nat) (input : Text) : Option (Text × Text) :=
  match input with
  | '"' :: rest => readBasic? fuel [] rest
  | '\'' :: rest => readLiteral? [] rest
  | _ =>
      let key := input.takeWhile isBareKey
      if key.isEmpty then none else some (key,input.dropWhile isBareKey)

/-- Reads at most `room` keys with dots between them, and the blanks around them. -/
def readKeysUpTo? (fuel : Nat) : (room : Nat) → Text → Option (List Text × Text)
  | 0,_ => none
  | room + 1,input =>
      match readKey? fuel (skipBlanks input) with
      | none => none
      | some (key,rest) =>
          match skipBlanks rest with
          | '.' :: rest =>
              (readKeysUpTo? fuel room rest).map fun (keys,rest) => (key :: keys,rest)
          | rest => some ([key],rest)

/-- How many keys a dotted key may have, and how many arrays and tables may stand one inside the
other as values. -/
def maxDepth : Nat := 80

/-- Reads a key, which may be dotted, and the blanks around it. -/
def readKeys? (fuel : Nat) (input : Text) : Option (List Text × Text) :=
  readKeysUpTo? fuel maxDepth input

def isWordEnd (c : Char) : Bool :=
  c = ' ' || c = '\t' || c = '\n' || c = '\r' || c = ',' || c = ']' || c = '\x7d' || c = '#'

def readWord (input : Text) : Text × Text :=
  (input.takeWhile (!isWordEnd ·),input.dropWhile (!isWordEnd ·))

/-- Reads a value without quotes. A date goes on after one blank if a time follows. -/
def readScalar? (input : Text) : Option (Toml × Text) :=
  let (word,rest) := readWord input
  match rest with
  | ' ' :: c :: _ =>
      if isDate word && c.isDigit then
        let (time,rest) := readWord rest.tail
        (scalar? (word ++ [' '] ++ time)).map fun value => (value,rest)
      else (scalar? word).map fun value => (value,rest)
  | _ => (scalar? word).map fun value => (value,rest)

mutual

/-- Reads a value, in which at most `room` arrays and tables stand one inside the other. -/
def readValue? : (fuel room : Nat) → Text → Option (Toml × Text)
  | 0,_,_ => none
  | fuel + 1,room,input =>
      match input,room with
      | '[' :: _,0 | '\x7b' :: _,0 => none
      | '[' :: rest,room + 1 =>
          (readItems? fuel room [] rest).map fun (items,rest) => (array items,rest)
      | '\x7b' :: rest,room + 1 =>
          (readEntries? fuel room [] rest).map fun (entries,rest) => (table .inline entries,rest)
      | '"' :: _,_ | '\'' :: _,_ =>
          (readString? fuel input).map fun (text,rest) => (string text,rest)
      | _,_ => readScalar? input

/-- Reads the rest of an array, whose last item may have a comma after it. -/
def readItems? : (fuel room : Nat) → (before : List Toml) → Text → Option (List Toml × Text)
  | 0,_,_,_ => none
  | fuel + 1,room,before,input =>
      match skipGap? input with
      | none => none
      | some (']' :: rest) => some (before.reverse,rest)
      | some input =>
          match readValue? fuel room input with
          | none => none
          | some (item,rest) =>
              match skipGap? rest with
              | some (',' :: rest) => readItems? fuel room (item :: before) rest
              | some (']' :: rest) => some ((item :: before).reverse,rest)
              | _ => none

/-- Reads the rest of a table that is written out as a value, after the given entries. Newlines and
comments may stand anywhere in it but inside a dotted key. -/
def readEntries? : (fuel room : Nat) → (before : Entries) → Text → Option (Entries × Text)
  | 0,_,_,_ => none
  | fuel + 1,room,before,input =>
      match skipGap? input with
      | none => none
      | some ('\x7d' :: rest) => some (before,rest)
      | some input =>
          match readAssignment? fuel room input with
          | none => none
          | some (keys,value,rest) =>
              match assign keys value .inline before,skipGap? rest with
              | some entries,some (',' :: rest) => readEntries? fuel room entries rest
              | some entries,some ('\x7d' :: rest) => some (entries,rest)
              | _,_ => none

def readAssignment? : (fuel room : Nat) → Text → Option (List Text × Toml × Text)
  | 0,_,_ => none
  | fuel + 1,room,input =>
      match readKeys? fuel input with
      | none => none
      | some (keys,rest) =>
          match skipGap? rest with
          | some ('=' :: rest) =>
              match skipGap? rest with
              | none => none
              | some rest =>
                  (readValue? fuel room rest).map fun (value,rest) => (keys,value,rest)
          | _ => none

end

/-- Reads lines into the entries read so far; `section_` leads to the table that is open. -/
def readLines? : (fuel : Nat) → (section_ : List Text) → Entries → Text → Option Entries
  | 0,_,_,_ => none
  | fuel + 1,section_,entries,input =>
      match skipBlanks input with
      | [] => some entries
      | '[' :: '[' :: rest =>
          match readKeys? fuel rest with
          | some (keys,']' :: ']' :: rest) =>
              match afterLine? rest,keys.getLast? with
              | some rest,some key =>
                  match alter false (openNext key) keys.dropLast .header entries with
                  | some entries => readLines? fuel keys entries rest
                  | none => none
              | _,_ => none
          | _ => none
      | '[' :: rest =>
          match readKeys? fuel rest with
          | some (keys,']' :: rest) =>
              match afterLine? rest,keys.getLast? with
              | some rest,some key =>
                  match alter false (openTable key) keys.dropLast .header entries with
                  | some entries => readLines? fuel keys entries rest
                  | none => none
              | _,_ => none
          | _ => none
      | c :: rest =>
          if c = '#' || c = '\n' || c = '\r' then
            match afterLine? (c :: rest) with
            | some rest => readLines? fuel section_ entries rest
            | none => none
          else
            match readKeys? fuel (c :: rest) with
            | some (keys,'=' :: rest) =>
                match readValue? fuel maxDepth (skipBlanks rest) with
                | none => none
                | some (value,rest) =>
                    match alter false (assign keys value) section_ .header entries,
                      afterLine? rest with
                    | some entries,some rest => readLines? fuel section_ entries rest
                    | _,_ => none
            | _ => none

/-- The entries of a document, which may begin with a byte order mark. At most three steps of the
reader begin at the same place, so three times the text's length bounds their number. -/
def parse? (text : Text) : Option Entries :=
  let text := if text.head? = some '\ufeff' then text.tail else text
  readLines? (3 * text.length + 4) [] [] text

end TagOverlay.Toml
