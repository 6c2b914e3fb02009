import TagOverlay.Decoration.Style
import TagOverlay.Position

/-! Rendering surfaces. A surface attaches decorations under ids that it chooses and detaches them
by id; it may refuse an update. The one defined here keeps its decorations in memory, never refuses
and never gives out an id twice. -/
namespace TagOverlay

structure DecorationId where
  name : String
deriving DecidableEq

/-- A span and the look it is drawn with. -/
structure Decoration where
  span : Span
  style : Style
deriving DecidableEq

/-- Those of the decorations that have a part on the line. -/
def Decoration.onLine (line : Nat) (decorations : List Decoration) : List Decoration :=
  decorations.filter fun decoration => decoration.span.meetsLine line

inductive SurfaceError where
  | rejected (reason : String)
  /-- The surface gave back a number of ids that is not the number of decorations. -/
  | idCount (expected actual : Nat)
deriving DecidableEq

def SurfaceError.message : SurfaceError → String
  | rejected reason => s!"Rendering surface rejected the update: {reason}"
  | idCount expected actual =>
      s!"Rendering surface returned {actual} ids for {expected} decorations"

class RenderSurface (σ : Type) where
  /-- Detaches the decorations with the given ids, attaches the given decorations and answers with
  their ids in the same order. Ids of nothing are passed over. -/
  update : σ → List DecorationId → List Decoration → Except SurfaceError (List DecorationId) × σ
  /-- Brings a line into view. -/
  reveal : σ → Nat → σ

/-- Decorations kept in memory, in the order in which they were attached. -/
structure MemorySurface where
  attached : List (DecorationId × Decoration)
  /-- The number of ids given out so far. -/
  issued : Nat
  revealed : Option Nat

namespace MemorySurface

def empty : MemorySurface := ⟨[],0,none⟩

/-- The id that is given out as the `serial`-th one. -/
def idOf (serial : Nat) : DecorationId :=
  ⟨s!"d{serial}"⟩

def size (surface : MemorySurface) : Nat :=
  surface.attached.length

def isEmpty (surface : MemorySurface) : Bool :=
  surface.attached.isEmpty

def get? (surface : MemorySurface) (id : DecorationId) : Option Decoration :=
  (surface.attached.find? fun entry => entry.1 = id).map (·.2)

def detach (surface : MemorySurface) (ids : List DecorationId) : MemorySurface :=
  { surface with
    attached := ids.foldl (fun kept id => kept.eraseP fun entry => entry.1 = id) surface.attached }

def attach (surface : MemorySurface) (decorations : List Decoration) :
    List DecorationId × MemorySurface :=
  let entries := (decorations.zipIdx (surface.issued + 1)).map fun (decoration,serial) =>
    (idOf serial,decoration)
  (entries.map (·.1),
    { surface with
      attached := surface.attached ++ entries
      issued := surface.issued + decorations.length })

instance : RenderSurface MemorySurface where
  update surface remove add :=
    let (ids,next) := (surface.detach remove).attach add
    (.ok ids,next)
  reveal surface line := { surface with revealed := some line }

/-- The attached decorations in the order of their spans. -/
def decorations (surface : MemorySurface) : List (DecorationId × Decoration) :=
  surface.attached.mergeSort fun left right => left.2.span.precedes right.2.span

/-- The decorations that have a part on the line, in the order of their spans. -/
def decorationsOn (surface : MemorySurface) (line : Nat) : List Decoration :=
  Decoration.onLine line (surface.decorations.map (·.2))

end MemorySurface

end TagOverlay
