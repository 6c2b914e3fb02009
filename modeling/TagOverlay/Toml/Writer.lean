import TagOverlay.Text.Digits

/-! Writing TOML strings. Of the forms that a string can have, the plainest one that needs no escape
is taken; a string with newlines keeps them, if it can, in a form of several lines. -/
namespace TagOverlay.Toml

/-- Characters that only an escape can write. -/
def needsEscape (c : Char) : Bool :=
  (c.toNat < 32 && c ≠ '\t' && c ≠ '\n') || c.toNat = 127

/-- The length of the longest row of one character. -/
def longestRun (wanted : Char) (text : Text) : Nat :=
  (text.foldl (fun (longest,run) c =>
    let run := if c = wanted then run + 1 else 0
    (max longest run,run)) (0,0)).1

/-- How a character other than a double quote is written inside double quotes. -/
def escape (c : Char) : Text :=
  if c = '\\' then ['\\','\\']
  else if c = '\x08' then ['\\','b']
  else if c = '\t' then ['\\','t']
  else if c = '\n' then ['\\','n']
  else if c = '\x0c' then ['\\','f']
  else if c = '\r' then ['\\','r']
  else if c.toNat < 32 ∨ c.toNat = 127 then
    ['\\','u'] ++ Text.padDigits 4 ((Text.digitsOf 16 c.toNat).map Char.toUpper)
  else [c]

/-- The inside of a string in double quotes, written after `before` (which is in reverse). Of `run`
quotes in a row the one after `quotes` is escaped; `newlines` tells whether newlines stay. -/
def writeBasic (quotes : Nat) (newlines : Bool) : (before : Text) → (run : Nat) → Text → Text
  | before,_,[] => before.reverse
  | before,run,c :: rest =>
      if c = '"' then
        if run = quotes then writeBasic quotes newlines ('"' :: '\\' :: before) 0 rest
        else writeBasic quotes newlines ('"' :: before) (run + 1) rest
      else if c = '\n' ∧ newlines then writeBasic quotes newlines ('\n' :: before) 0 rest
      else writeBasic quotes newlines ((escape c).reverse ++ before) 0 rest

def writeString (text : Text) : Text :=
  let escapes := text.any needsEscape
  let backslash := text.contains '\\'
  let newline := text.contains '\n'
  let double := longestRun '"' text
  let single := longestRun '\'' text
  let opening := if newline then ['\n'] else []
  let long (quotes body : Text) : Text := quotes ++ opening ++ body ++ quotes
  let longBasic := long ['"','"','"'] (writeBasic 2 true [] 0 text)
  let basic := ['"'] ++ writeBasic 0 false [] 0 text ++ ['"']
  if !escapes && !backslash && double = 0 && !newline then basic
  else if !escapes && single = 0 && !newline then ['\''] ++ text ++ ['\'']
  else if !escapes && !backslash && double ≤ 2 then longBasic
  else if !escapes && single ≤ 2 then long ['\'','\'','\''] text
  else if newline then longBasic
  else basic

def writeEntry (key value : Text) : Text :=
  key ++ [' ','=',' '] ++ value ++ ['\n']

end TagOverlay.Toml
