import TagOverlay.Session.Basic

/-! A review walks through the marked tags of a session. At most one of them is the current one. -/
namespace TagOverlay

structure Review (β σ : Type) where
  session : Session β σ
  current : Option Nat

namespace Review

variable {β σ : Type}

def start (session : Session β σ) : Review β σ :=
  ⟨session,none⟩

/-- Draws the current tag, if there is one, as done. -/
def finish [RenderSurface σ] (review : Review β σ) : Except SessionError Unit × Session β σ :=
  match review.current with
  | none => (.ok (),review.session)
  | some index =>
      match review.session.setStatus index .done with
      | (.error error,session) => (.error error,session)
      | (.ok _,session) => (.ok (),session)

/-- Draws the current tag as done and the tag at `next` as current. If either is refused, no tag is
current any more. -/
def advance [RenderSurface σ] (review : Review β σ) (next : Nat) :
    Except SessionError Unit × Review β σ :=
  match review.finish with
  | (.error error,session) => (.error error,⟨session,none⟩)
  | (.ok (),session) =>
      match session.setStatus next .current with
      | (.error error,session) => (.error error,⟨session,none⟩)
      | (.ok _,session) => (.ok (),⟨session,some next⟩)

end Review

end TagOverlay
