import TagOverlay.Proofs.Buffer.Reading

/-! The next end of a literal is the end of its nearest place: no other place of it, at the caret or after
it, comes before that one. So the next ends of two carets are in the order of the carets. -/
namespace TagOverlay.TextBuffer
open Text (FirstPlace)

variable {β : Type} [TextBuffer β] {buffer : β} {literal : Text} {caret further place other : Position}

/-- The literal stands at the place, within its line. -/
def StandsAt (buffer : β) (literal : Text) (place : Position) : Prop :=
  ∃ before after, Cuts buffer place before (literal ++ after)

structure Nearest (buffer : β) (literal : Text) (caret place : Position) : Prop where
  stands : StandsAt buffer literal place
  le : caret ≤ place
  first : ∀ other, StandsAt buffer literal other → caret ≤ other → place ≤ other

namespace Nearest

theorem mono (near : Nearest buffer literal caret place) (next : Nearest buffer literal further other)
    (le : caret ≤ further) : place ≤ other :=
  near.first other next.stands (Position.le_trans le next.le)

/-- A caret that moves on, but not over the nearest place, still has the same one. -/
theorem eq_of_le (near : Nearest buffer literal caret place)
    (next : Nearest buffer literal further other) (le : caret ≤ further) (notOver : further ≤ place) :
    place = other :=
  Position.le_antisymm (near.mono next le) (next.first place near.stands notOver)

theorem unique (near : Nearest buffer literal caret place) (again : Nearest buffer literal caret other) :
    place = other :=
  near.eq_of_le again (Position.le_refl _) near.le

end Nearest

/-- What stands before the end of a literal is the literal. -/
theorem StandsAt.cuts_stop (stands : StandsAt buffer literal place) :
    ∃ before after, Cuts buffer ⟨place.line,place.column + literal.width⟩ (before ++ literal) after := by
  obtain ⟨before,after,cut⟩ := stands
  exact ⟨before,after,cut.move⟩

theorem nearest_of_firstPlace {before between after : Text}
    (cut : Cuts buffer caret before (between ++ literal ++ after))
    (first : FirstPlace literal (between ++ literal ++ after) between after) :
    Nearest buffer literal caret ⟨caret.line,caret.column + between.width⟩ := by
  have moved : Cuts buffer ⟨caret.line,caret.column + between.width⟩ (before ++ between)
      (literal ++ after) := Cuts.move (by simpa using cut)
  refine ⟨⟨_,_,moved⟩,.inr ⟨rfl,Nat.le_add_right _ _⟩,?_⟩
  intro other ⟨before',after',there⟩ le
  rcases Position.le_def.mp le with below | ⟨sameLine,later⟩
  · exact .inl below
  · obtain ⟨part,rfl,split⟩ := cut.later there sameLine.symm later
    have widths := first.first part after' (by rw [split,List.append_assoc])
    have start := cut.column
    have stop := there.column
    rw [Text.width_append] at stop
    exact .inr ⟨sameLine,by simp only; omega⟩

theorem NextEnd.nearest {needle : Needle} {stop? : Option Position} {stop : Position}
    (next : NextEnd buffer needle caret stop?) (found : stop? = some stop) :
    ∃ place, Nearest buffer needle.text caret place ∧
      stop = ⟨place.line,place.column + needle.text.width⟩ := by
  induction next with
  | here cut first =>
    obtain rfl := Option.some.inj found
    exact ⟨_,nearest_of_firstPlace cut first,rfl⟩
  | @later caret before rest stop? cut absent below ih =>
    obtain ⟨place,near,ends⟩ := ih found
    have onward : caret ≤ ⟨caret.line + 1,1⟩ := .inl (Nat.lt_succ_self _)
    refine ⟨place,⟨near.stands,Position.le_trans onward near.le,?_⟩,ends⟩
    intro other stands le
    obtain ⟨before',after,there⟩ := stands
    exact near.first other ⟨before',after,there⟩ (cut.below absent there le)
  | last cut absent finished => contradiction

theorem nearest_of_endOfNext? {before rest : Text} (cut : Cuts buffer caret before rest) {stop : Position}
    (found : endOfNext? buffer literal caret = some stop) :
    ∃ place, Nearest buffer literal caret place ∧ stop = ⟨place.line,place.column + literal.width⟩ := by
  have next : NextEnd buffer (.ofText literal) caret (endOfNext? buffer literal caret) :=
    nextEnd_endFrom? cut
  exact next.nearest found

theorem Nearest.standsFrom (near : Nearest buffer literal caret place) : StandsFrom buffer literal caret := by
  obtain ⟨before,after,cut⟩ := near.stands
  exact ⟨place,before,after,cut,near.le⟩

/-- From a place of its own the buffer is read up to the nearest place of a literal, or has none. -/
theorem endOfNext?_cases {before rest : Text} (literal : Text) (cut : Cuts buffer caret before rest) :
    (∃ place body, Nearest buffer literal caret place ∧
        endOfNext? buffer literal caret = some ⟨place.line,place.column + literal.width⟩ ∧
        Reads buffer caret (body ++ literal) ⟨place.line,place.column + literal.width⟩ ∧
        ('\n' ∉ literal → FirstPlace literal (body ++ literal) body [])) ∨
      ¬ StandsFrom buffer literal caret ∧ endOfNext? buffer literal caret = none := by
  rw [← endOfNext?_isSome_iff cut]
  cases next : endOfNext? buffer literal caret with
  | none => exact .inr ⟨Bool.false_ne_true,rfl⟩
  | some stop =>
    obtain ⟨place,near,rfl⟩ := nearest_of_endOfNext? cut next
    obtain ⟨body,reads,first⟩ := reads_of_endOfNext? cut next
    exact .inl ⟨place,body,near,rfl,reads,first⟩

theorem endOfNext?_eq_some_iff {before rest : Text} {stop : Position} (cut : Cuts buffer caret before rest) :
    endOfNext? buffer literal caret = some stop ↔
      ∃ place, Nearest buffer literal caret place ∧ stop = ⟨place.line,place.column + literal.width⟩ := by
  constructor
  · exact nearest_of_endOfNext? cut
  · rintro ⟨place,near,rfl⟩
    rcases endOfNext?_cases literal cut with ⟨found,_,alsoNear,next,_⟩ | ⟨nowhere,_⟩
    · rw [near.unique alsoNear]
      exact next
    · exact absurd near.standsFrom nowhere

theorem endOfNext?_eq_none_iff {before rest : Text} (cut : Cuts buffer caret before rest) :
    endOfNext? buffer literal caret = none ↔ ¬ StandsFrom buffer literal caret := by
  rw [← endOfNext?_isSome_iff cut,Option.not_isSome_iff_eq_none]

end TagOverlay.TextBuffer
