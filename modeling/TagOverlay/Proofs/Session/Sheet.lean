import TagOverlay.Session.Basic

/-! A session as its user sees it: a sheet with one row for each marked tag, its span and the look it
is drawn in, if it is drawn. Ids, the registry and the surface do not occur in it. -/
namespace TagOverlay

inductive SessionCommand where
  | mark (name : Text)
  | clear
  | setStatus (index : Nat) (status : ReviewStatus)
  | unmark (index : Nat)
deriving DecidableEq

/-- What a command answers, but for the id of a decoration. -/
inductive SessionReply where
  | marked (count : Nat)
  | cleared
  | recolored
  | unmarked (wasDrawn : Bool)
deriving DecidableEq

namespace Session

variable {β σ : Type} [TextBuffer β] [RenderSurface σ]

def perform (session : Session β σ) : SessionCommand → Except SessionError SessionReply × Session β σ
  | .mark name => (session.mark name).map (Except.map .marked) id
  | .clear => session.clear.map (Except.map fun _ => .cleared) id
  | .setStatus index status => (session.setStatus index status).map (Except.map fun _ => .recolored) id
  | .unmark index => (session.unmark index).map (Except.map .unmarked) id

def run (session : Session β σ) :
    List SessionCommand → List (Except SessionError SessionReply) × Session β σ
  | [] => ([],session)
  | command :: commands =>
      let result := session.perform command
      (result.1 :: (result.2.run commands).1,(result.2.run commands).2)

end Session

abbrev Sheet := List (Span × Option Style)

namespace Sheet

variable {β : Type} [TextBuffer β]

/-- The start tags of a name, unless one of them is never ended. -/
def startTags (buffer : β) (limit : Nat) (name : Text) : Except TagError (List Span) :=
  (Tag.search buffer name limit).mapM fun found => Tag.expand buffer found.span

def perform (buffer : β) (limit : Nat) (sheet : Sheet) :
    SessionCommand → Except SessionError SessionReply × Sheet
  | .mark name =>
      match startTags buffer limit name with
      | .error error => (.error (.tag error),[])
      | .ok spans => (.ok (.marked spans.length),spans.map fun span => (span,some .fresh))
  | .clear => (.ok .cleared,[])
  | .setStatus index status =>
      match sheet[index]? with
      | none => (.error (.noSuchTag index),sheet)
      | some (span,_) => (.ok .recolored,sheet.set index (span,some status.style))
  | .unmark index =>
      match sheet[index]? with
      | none => (.error (.noSuchTag index),sheet)
      | some (span,style?) => (.ok (.unmarked style?.isSome),sheet.set index (span,none))

def run (buffer : β) (limit : Nat) (sheet : Sheet) :
    List SessionCommand → List (Except SessionError SessionReply) × Sheet
  | [] => ([],sheet)
  | command :: commands =>
      let result := sheet.perform buffer limit command
      (result.1 :: (run buffer limit result.2 commands).1,(run buffer limit result.2 commands).2)

end Sheet

end TagOverlay
