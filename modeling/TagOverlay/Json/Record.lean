import TagOverlay.Decoration.Surface
import TagOverlay.Json.Reader
import TagOverlay.Tag.Payload
import TagOverlay.Tag.Search

/-! The JSON forms of the library's records. A record is written as an object with its fields in
order; it is also read from an array of exactly its fields, and from an object that has each field
once, in any order and among others. A choice without content is its name, or an object with the
name as its only key and null as the value. -/
namespace TagOverlay

namespace Json

/-- The largest number that a record holds, one less than two to the power of 64. -/
def maxNumber : Nat := 0xFFFFFFFFFFFFFFFF

def number? : Json → Option Nat
  | natural value => if value ≤ maxNumber then some value else none
  | _ => none

def text? : Json → Option Text
  | string text => some text
  | _ => none

/-- The value of the only member with this key. -/
def member? (members : List (Text × Json)) (key : Text) : Option Json :=
  match members.filter fun member => member.1 = key with
  | [(_,value)] => some value
  | _ => none

/-- The values of a record's fields. -/
def fields? (keys : List Text) : Json → Option (List Json)
  | object members => keys.mapM (member? members)
  | array items => if items.length = keys.length then some items else none
  | _ => none

/-- The name of a choice without content. -/
def choice? : Json → Option Text
  | string name => some name
  | object [(name,null)] => some name
  | _ => none

end Json

open Json

def Position.keys : List Text := ["line".toList,"column".toList]

def Position.toJson (position : Position) : Json :=
  object (keys.zip [natural position.line,natural position.column])

def Position.ofJson? (json : Json) : Option Position := do
  match ← (← fields? keys json).mapM number? with
  | [line,column] => some ⟨line,column⟩
  | _ => none

def Span.keys : List Text :=
  ["start_line".toList,"start_column".toList,"end_line".toList,"end_column".toList]

def Span.toJson (span : Span) : Json :=
  object (keys.zip
    [natural span.start.line,natural span.start.column,
      natural span.stop.line,natural span.stop.column])

def Span.ofJson? (json : Json) : Option Span := do
  match ← (← fields? keys json).mapM number? with
  | [startLine,startColumn,stopLine,stopColumn] =>
      some ⟨⟨startLine,startColumn⟩,⟨stopLine,stopColumn⟩⟩
  | _ => none

def TagMatch.toJson (found : TagMatch) : Json :=
  object [("range".toList,found.span.toJson),("text".toList,string found.text)]

def DecorationId.toJson (id : DecorationId) : Json :=
  string id.name.toList

def DecorationId.ofJson? (json : Json) : Option DecorationId :=
  (text? json).map fun name => ⟨String.ofList name⟩

def ReviewStatus.choice : ReviewStatus → Text
  | done => "Done".toList
  | current => "Current".toList

def ReviewStatus.toJson (status : ReviewStatus) : Json :=
  string status.choice

def ReviewStatus.ofJson? (json : Json) : Option ReviewStatus := do
  let name ← choice? json
  all.find? fun status => status.choice = name

def TagIntent.all : List TagIntent := [keep,openTag,closeTag]

def TagIntent.choice : TagIntent → Text
  | keep => "DoNothing".toList
  | openTag => "OpenTag".toList
  | closeTag => "CloseTag".toList

def TagIntent.toJson (intent : TagIntent) : Json :=
  string intent.choice

def TagIntent.ofJson? (json : Json) : Option TagIntent := do
  let name ← choice? json
  all.find? fun intent => intent.choice = name

def TagPayload.keys : List Text := ["text".toList]

def TagPayload.toJson (payload : TagPayload) : Json :=
  object (keys.zip [string payload.text])

def TagPayload.ofJson? (json : Json) : Option TagPayload := do
  match ← (← fields? keys json).mapM text? with
  | [text] => some ⟨text⟩
  | _ => none

end TagOverlay
