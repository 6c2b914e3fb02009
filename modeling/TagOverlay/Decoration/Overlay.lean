import TagOverlay.Decoration.Registry

/-! The overlay: a registry kept in step with the surface it describes. Every operation gives its
answer and the overlay that it leaves, also when it fails. -/
namespace TagOverlay

structure Overlay (σ : Type) where
  registry : Registry
  surface : σ

namespace Overlay

variable {σ : Type} [RenderSurface σ]

/-- Detaches everything that is registered and forgets it, even if the surface refuses. -/
def reset (overlay : Overlay σ) : Except SurfaceError Unit × Overlay σ :=
  if overlay.registry.isEmpty then (.ok (),overlay)
  else
    match RenderSurface.update overlay.surface overlay.registry.ids [] with
    | (.error error,surface) => (.error error,⟨.empty,surface⟩)
    | (.ok _,surface) => (.ok (),⟨.empty,surface⟩)

/-- Attaches one decoration for each span and registers the ids that the surface gives back, each
with its span. Ids beyond the spans are detached again; too few or too many are an error, and what
was registered stays. The line of the first span is revealed. -/
def addBatch (overlay : Overlay σ) (spans : List Span) (style : Style) :
    Except SurfaceError (List DecorationId) × Overlay σ :=
  match spans with
  | [] => (.ok [],overlay)
  | first :: _ =>
      match RenderSurface.update overlay.surface [] (spans.map fun span => ⟨span,style⟩) with
      | (.error error,surface) => (.error error,{ overlay with surface })
      | (.ok ids,surface) =>
          let registry := overlay.registry.insertAll (ids.zip spans)
          if spans.length < ids.length then
            match RenderSurface.update surface (ids.drop spans.length) [] with
            | (.error error,surface) => (.error error,⟨registry,surface⟩)
            | (.ok _,surface) =>
                (.error (.idCount spans.length ids.length),⟨registry,surface⟩)
          else if ids.length < spans.length then
            (.error (.idCount spans.length ids.length),⟨registry,surface⟩)
          else (.ok ids,⟨registry,RenderSurface.reveal surface first.start.line⟩)

/-- Detaches one decoration. Nothing happens, and the answer is false, if it is not registered. -/
def remove (overlay : Overlay σ) (id : DecorationId) : Except SurfaceError Bool × Overlay σ :=
  if overlay.registry.contains id then
    match RenderSurface.update overlay.surface [id] [] with
    | (.error error,surface) => (.error error,{ overlay with surface })
    | (.ok _,surface) => (.ok true,⟨overlay.registry.erase id,surface⟩)
  else (.ok false,overlay)

/-- Draws a span in the look of a status. A registered id is exchanged for a new decoration in one
update; without one the span is added as a batch of its own. -/
def recolor (overlay : Overlay σ) (id? : Option DecorationId) (span : Span)
    (status : ReviewStatus) : Except SurfaceError DecorationId × Overlay σ :=
  match id?.filter overlay.registry.contains with
  | none =>
      match overlay.addBatch [span] status.style with
      | (.error error,overlay) => (.error error,overlay)
      | (.ok ids,overlay) =>
          match ids.getLast? with
          | some id => (.ok id,overlay)
          | none => (.error (.idCount 1 0),overlay)
  | some old =>
      match RenderSurface.update overlay.surface [old] [⟨span,status.style⟩] with
      | (.error error,surface) => (.error error,{ overlay with surface })
      | (.ok ids,surface) =>
          let registry := overlay.registry.erase old
          match ids with
          | [id] => (.ok id,⟨registry.insert id span,surface⟩)
          | _ => (.error (.idCount 1 ids.length),⟨registry,surface⟩)

end Overlay

end TagOverlay
