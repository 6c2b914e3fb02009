import TagOverlay.Decoration.Surface

/-! A surface that can be told to misbehave, and that keeps a record of the calls it got. It draws
in memory, but may refuse updates, attach more than it was asked to, or give back wrong ids. -/
namespace TagOverlay

/-- Which updates are refused. -/
inductive Refusal where
  | never
  | always
  /-- Updates that attach nothing. -/
  | removals
  /-- Updates that attach something. -/
  | additions
  /-- Updates that draw a tag as the current one. -/
  | current
deriving DecidableEq

namespace Refusal

def reason : Refusal → String
  | never => "never"
  | always => "always"
  | removals => "remove_only"
  | additions => "adds"
  | current => "current"

def applies (refusal : Refusal) (add : List Decoration) : Bool :=
  match refusal with
  | never => false
  | always => true
  | removals => add.isEmpty
  | additions => !add.isEmpty
  | current => add.any fun decoration => decoration.style = Style.current

end Refusal

structure Misconduct where
  refusal : Refusal
  /-- How many ids are left out at the end of an answer. -/
  dropped : Nat
  /-- How often the first decoration of an update is attached once more. -/
  extra : Nat
  /-- Whether all ids of an answer are the first one. -/
  sameId : Bool

namespace Misconduct

def none : Misconduct := ⟨.never,0,0,false⟩

/-- The ids that are told instead of the ones given out. -/
def answer (misconduct : Misconduct) (ids : List DecorationId) : List DecorationId :=
  let told :=
    match misconduct.sameId,ids with
    | true,first :: _ => ids.map fun _ => first
    | _,_ => ids
  told.take (told.length - misconduct.dropped)

end Misconduct

/-- A call that a surface got. -/
inductive SurfaceCall where
  /-- An update, with the number of ids that had been given out before it. -/
  | update (issued : Nat) (remove : List DecorationId) (add : List Decoration)
      (answer : Except SurfaceError (List DecorationId))
  | reveal (line : Nat)

structure FaultySurface where
  drawn : MemorySurface
  misconduct : Misconduct
  /-- The latest call comes first. -/
  calls : List SurfaceCall

namespace FaultySurface

def empty : FaultySurface := ⟨.empty,.none,[]⟩

/-- The calls since the record was last cleared, the earliest first. -/
def record (surface : FaultySurface) : List SurfaceCall :=
  surface.calls.reverse

def clearRecord (surface : FaultySurface) : FaultySurface :=
  { surface with calls := [] }

/-- Draws an update in memory, with the extra copies. -/
def draw (surface : FaultySurface) (remove : List DecorationId) (add : List Decoration) :
    List DecorationId × MemorySurface :=
  let copies := add.head?.elim [] fun first => List.replicate surface.misconduct.extra first
  (surface.drawn.detach remove).attach (add ++ copies)

instance : RenderSurface FaultySurface where
  update surface remove add :=
    let called answer := SurfaceCall.update surface.drawn.issued remove add answer :: surface.calls
    if surface.misconduct.refusal.applies add then
      let answer := .error (.rejected surface.misconduct.refusal.reason)
      (answer,{ surface with calls := called answer })
    else
      let (ids,drawn) := surface.draw remove add
      let answer := .ok (surface.misconduct.answer ids)
      (answer,{ surface with drawn,calls := called answer })
  reveal surface line :=
    { surface with
      drawn := RenderSurface.reveal surface.drawn line
      calls := .reveal line :: surface.calls }

end FaultySurface

end TagOverlay
