import TagOverlay.Files.Documents
import TagOverlay.Highlight
import TagOverlay.Json.Record
import TagOverlay.Session.Review

/-! The viewer: a list of documents, one of which is open, and a walk through its marked tags. What
the viewer does with the documents it reads from a file system that it is given. -/
namespace TagOverlay

structure Viewer where
  folder : Text
  tagName : Text
  limit : Nat
  files : List Text
  selected : Option Nat
  /-- The first file that the list shows. -/
  listOffset : Nat
  review : Option (Review Document MemorySurface)
  /-- The line that is kept in the middle of the content. -/
  focusLine : Nat
  status : String

namespace Viewer

def relativePath? (folder path : Text) : Option Text :=
  (Path.under? folder path).map Path.ofComponents

/-- The tag that is current. Session and current tag could be two fields, both of which are reset whenever a file is
opened; `review` holds the two together, so without a session no tag is current. -/
def currentTag (viewer : Viewer) : Option Nat :=
  viewer.review.bind (·.current)

def close (viewer : Viewer) : Viewer :=
  { viewer with review := none,focusLine := 1 }

def openDocument (viewer : Viewer) (relative : Text) (document : Document) : Viewer :=
  let session := (Session.new document MemorySurface.empty).withLimit viewer.limit
  let (answer,session) := session.mark viewer.tagName
  let status :=
    match answer with
    | .ok count =>
        s!"{count} <{String.ofList viewer.tagName}> tags in {String.ofList relative}"
    | .error error => s!"Error marking tags: {error.message}"
  { viewer with
    review := some (.start session)
    focusLine := session.surface.revealed.getD 1
    status }

def openSelected (fs : FileSystem) (viewer : Viewer) : Viewer :=
  let viewer := viewer.close
  match viewer.selected.bind fun index => viewer.files[index]? with
  | none => viewer
  | some path =>
      match relativePath? viewer.folder path with
      | none => { viewer with status := s!"Cannot open {String.ofList path}" }
      | some relative =>
          match Documents.load fs viewer.folder relative with
          | .ok loaded => viewer.openDocument relative loaded.document
          | .error error => { viewer with status := s!"Error reading file: {error.message}" }

def select (fs : FileSystem) (viewer : Viewer) (index : Nat) : Viewer :=
  openSelected fs { viewer with selected := some index }

/-- A viewer over the documents below a folder, the first of which is open. -/
def new (fs : FileSystem) (folder tagName : Text) (limit : Nat) : Except DocumentError Viewer :=
  (Documents.scan fs folder).map fun files =>
    let viewer : Viewer :=
      { folder,tagName,limit,files,selected := none,listOffset := 0,review := none,
        focusLine := 1,status := "" }
    if files.isEmpty then viewer else viewer.select fs 0

/-- Goes to the next file, after the last one to the first. -/
def nextFile (fs : FileSystem) (viewer : Viewer) : Viewer :=
  if viewer.files.isEmpty then viewer
  else
    match viewer.selected with
    | none => viewer.select fs 0
    | some index => viewer.select fs ((index + 1) % viewer.files.length)

/-- Goes to the file before, from the first one to the last. -/
def previousFile (fs : FileSystem) (viewer : Viewer) : Viewer :=
  if viewer.files.isEmpty then viewer
  else
    match viewer.selected with
    | none | some 0 => viewer.select fs (viewer.files.length - 1)
    | some (index + 1) => viewer.select fs index

def goTo (viewer : Viewer) (review : Review Document MemorySurface) (next : Nat) : Viewer :=
  let (answer,review) := review.advance next
  let viewer := { viewer with review := some review }
  match answer with
  | .ok () =>
      let count := review.session.marked.length
      let line := (review.session.marked[next]?).elim viewer.focusLine (·.span.start.line)
      { viewer with focusLine := line,status := s!"Tag {next + 1} of {count}" }
  | .error error => { viewer with status := s!"Error: {error.message}" }

/-- Goes to the next tag or to the one before, and stops at either end. -/
def stepTag (viewer : Viewer) (forward : Bool) : Viewer :=
  match viewer.review with
  | none => viewer
  | some review =>
      let count := review.session.marked.length
      if count = 0 then viewer
      else
        let next :=
          match review.current with
          | none => 0
          | some index => if forward then min (index + 1) (count - 1) else index - 1
        if review.current = some next then viewer else viewer.goTo review next

def showElement (viewer : Viewer) : Viewer :=
  match viewer.review with
  | some ⟨session,some index⟩ =>
      let status :=
        match session.elementSpan index with
        | .ok ⟨start,stop⟩ =>
            s!"Element spans {start.line}:{start.column} to {stop.line}:{stop.column}"
        | .error error => s!"Error: {error.message}"
      { viewer with status }
  | _ => viewer

def showPayload (viewer : Viewer) (intent : TagIntent) : Viewer :=
  match viewer.review with
  | some ⟨session,some index⟩ =>
      let status :=
        match session.payload index intent with
        | .ok payload => String.ofList payload.toJson.render
        | .error error => s!"Error: {error.message}"
      { viewer with status }
  | _ => viewer

/-- The lines of the document that a panel of this height shows. -/
def visibleLines (viewer : Viewer) (height : Nat) : List (List StyledText) :=
  match viewer.review with
  | none => [[Highlight.plain "Select a file to view its content".toList]]
  | some review =>
      let session := review.session
      let top := max (viewer.focusLine - height / 2) 1
      let bottom := min (top + height) (TextBuffer.lineCount session.buffer + 1)
      let drawn := session.surface.decorations.map (·.2)
      (List.range' top (bottom - top)).filterMap fun number =>
        (TextBuffer.line? session.buffer number).map fun line =>
          Highlight.line number line (Decoration.onLine number drawn)

end Viewer

inductive ViewerCommand where
  | quit
  | nextFile
  | previousFile
  | nextTag
  | previousTag
  | showElement
  | showPayload (intent : TagIntent)
deriving DecidableEq

namespace ViewerCommand

def ofKey? (key : Char) : Option ViewerCommand :=
  if key = 'q' then some quit
  else if key = 'j' then some nextFile
  else if key = 'k' then some previousFile
  else if key = 'n' then some nextTag
  else if key = 'p' then some previousTag
  else if key = ' ' then some showElement
  else if key = 'o' then some (showPayload .openTag)
  else if key = 'c' then some (showPayload .closeTag)
  else none

/-- The viewer after a command; there is none after quitting. -/
def run (fs : FileSystem) (viewer : Viewer) : ViewerCommand → Option Viewer
  | quit => none
  | nextFile => some (viewer.nextFile fs)
  | previousFile => some (viewer.previousFile fs)
  | nextTag => some (viewer.stepTag true)
  | previousTag => some (viewer.stepTag false)
  | showElement => some viewer.showElement
  | showPayload intent => some (viewer.showPayload intent)

end ViewerCommand

end TagOverlay
