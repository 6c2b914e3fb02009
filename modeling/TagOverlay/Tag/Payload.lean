import TagOverlay.Text.Basic

/-! The text of a tag as it is handed on, reshaped between its open and its self-closing form. -/
namespace TagOverlay

/-- What a tag's text is to become. -/
inductive TagIntent where
  | keep
  | openTag
  | closeTag
deriving DecidableEq

instance : Inhabited TagIntent := ⟨.keep⟩

/-- The text of a tag, ready to be stored. -/
structure TagPayload where
  text : Text
deriving DecidableEq

/-- Makes a tag open or self-closing. Only a text that ends in `/>` is opened, and a text with a
slash anywhere is not closed, since it is closed already or is an end tag. -/
def TagIntent.reshape : TagIntent → Text → Text
  | keep,tag => tag
  | openTag,tag =>
      match Text.stripEnd? ['/','>'] tag with
      | some head => head ++ ['>']
      | none => tag
  | closeTag,tag =>
      match Text.stripEnd? ['>'] tag with
      | some head => if '/' ∈ tag then tag else head ++ ['/','>']
      | none => tag

def TagPayload.ofTag (tag : Text) (intent : TagIntent) : TagPayload :=
  ⟨intent.reshape tag⟩

end TagOverlay
