import TagOverlay.Decoration.Overlay
import TagOverlay.Tag.Extent
import TagOverlay.Tag.Payload

/-! A session: one document with the overlay over it. Marking a name finds its start tags and draws
all of them; afterwards single tags are recolored, unmarked or read by their index. -/
namespace TagOverlay

inductive SessionError where
  | tag (error : TagError)
  | surface (error : SurfaceError)
  | noSuchTag (index : Nat)
deriving DecidableEq

def SessionError.message : SessionError → String
  | tag error => error.message
  | surface error => error.message
  | noSuchTag index => s!"No marked tag at index {index}"

/-- A start tag and the decoration that was last drawn over it. -/
structure MarkedTag where
  id : DecorationId
  span : Span
deriving DecidableEq

structure Session (β σ : Type) where
  buffer : β
  overlay : Overlay σ
  /-- The name that the marked tags were found by. -/
  tagName : Option Text
  marked : List MarkedTag
  limit : Nat

namespace Session

variable {β σ : Type}

def new (buffer : β) (surface : σ) : Session β σ where
  buffer := buffer
  overlay := ⟨.empty,surface⟩
  tagName := none
  marked := []
  limit := Tag.defaultLimit

def withLimit (session : Session β σ) (limit : Nat) : Session β σ :=
  { session with limit }

def surface (session : Session β σ) : σ :=
  session.overlay.surface

def registry (session : Session β σ) : Registry :=
  session.overlay.registry

def markedTag (session : Session β σ) (index : Nat) : Except SessionError MarkedTag :=
  match session.marked[index]? with
  | some tag => .ok tag
  | none => .error (.noSuchTag index)

/-- The index of the marked tag under a caret. -/
def markedIndexAt? (session : Session β σ) (position : Position) : Option Nat := do
  let id ← session.registry.idAt? position
  session.marked.findIdx? fun tag => tag.id = id

section Surface

variable [RenderSurface σ]

/-- Removes every decoration and forgets the marked tags. -/
def clear (session : Session β σ) : Except SessionError Unit × Session β σ :=
  let (answer,overlay) := session.overlay.reset
  (answer.mapError .surface,{ session with overlay,tagName := none,marked := [] })

/-- Draws one marked tag in the look of a status and answers with its new decoration. -/
def setStatus (session : Session β σ) (index : Nat) (status : ReviewStatus) :
    Except SessionError DecorationId × Session β σ :=
  match session.markedTag index with
  | .error error => (.error error,session)
  | .ok tag =>
      match session.overlay.recolor (some tag.id) tag.span status with
      | (.error error,overlay) => (.error (.surface error),{ session with overlay })
      | (.ok id,overlay) =>
          (.ok id,{ session with overlay,marked := session.marked.set index { tag with id } })

/-- Takes the decoration off one marked tag, which keeps its index. -/
def unmark (session : Session β σ) (index : Nat) : Except SessionError Bool × Session β σ :=
  match session.markedTag index with
  | .error error => (.error error,session)
  | .ok tag =>
      let (answer,overlay) := session.overlay.remove tag.id
      (answer.mapError .surface,{ session with overlay })

/-- Clears the overlay, then marks the start tags of a name and answers with their number. A tag
that is never ended leaves the overlay empty. -/
def mark [TextBuffer β] (session : Session β σ) (name : Text) :
    Except SessionError Nat × Session β σ :=
  match session.clear with
  | (.error error,session) => (.error error,session)
  | (.ok (),session) =>
      let beginnings := (Tag.search session.buffer name session.limit).map (·.span)
      match (Tag.expandEach session.buffer beginnings).mapM id with
      | .error error => (.error (.tag error),session)
      | .ok spans =>
          match session.overlay.addBatch spans .fresh with
          | (.error error,overlay) => (.error (.surface error),{ session with overlay })
          | (.ok ids,overlay) =>
              let marked := ids.zipWith MarkedTag.mk spans
              (.ok marked.length,{ session with overlay,tagName := some name,marked })

end Surface

section Buffer

variable [TextBuffer β]

/-- The text of a marked start tag, across lines if it is wrapped. -/
def tagText (session : Session β σ) (index : Nat) : Except SessionError Text :=
  match session.markedTag index with
  | .error error => .error error
  | .ok tag =>
      match TextBuffer.textIn? session.buffer tag.span with
      | some text => .ok text
      | none => .error (.tag (.malformed tag.span.start))

/-- The span of the whole element: a self-closing tag alone, any other up to the end of the first
closing tag of the session's name. -/
def elementSpan (session : Session β σ) (index : Nat) : Except SessionError Span :=
  match session.markedTag index,session.tagText index with
  | .error error,_ => .error error
  | _,.error error => .error error
  | .ok tag,.ok text =>
      if Tag.isSelfClosing text then .ok tag.span
      else
        match Tag.closingEnd session.buffer (session.tagName.getD []) tag.span with
        | .ok stop => .ok (tag.span.withStop stop)
        | .error error => .error (.tag error)

/-- The text of a marked tag, reshaped. -/
def payload (session : Session β σ) (index : Nat) (intent : TagIntent) :
    Except SessionError TagPayload :=
  (session.tagText index).map fun text => .ofTag text intent

end Buffer

end Session

end TagOverlay
