import Mathlib.Data.Finset.Insert
import TagOverlay.Proofs.Session.Refinement
import TagOverlay.Proofs.Session.StartTags
import TagOverlay.Session.Review

/-! Reviews in memory. The current tag is drawn as current, the other tags that have been current as
done and the rest as fresh, and going to a tag of the session never fails. -/
namespace TagOverlay

namespace Review

def look (current : Option Nat) (seen : Finset Nat) (index : Nat) : Style :=
  if current = some index then .current
  else if index ∈ seen then .done
  else .fresh

def rows (spans : List Span) (current : Option Nat) (seen : Finset Nat) : Sheet :=
  spans.mapIdx fun index span => (span,some (look current seen index))

theorem rows_none (spans : List Span) : rows spans none ∅ = spans.map fun span => (span,some .fresh) := by
  apply List.ext_getElem?
  intro i
  rw [rows,List.getElem?_mapIdx,List.getElem?_map]
  rfl

theorem set_rows {spans : List Span} {index : Nat} {span : Span} {current other : Option Nat}
    {seen further : Finset Nat} {style : Style} (here : spans[index]? = some span)
    (looks : ∀ i, look other further i = if i = index then style else look current seen i) :
    (rows spans current seen).set index (span,some style) = rows spans other further := by
  obtain ⟨bound,rfl⟩ := List.getElem?_eq_some_iff.mp here
  apply List.ext_getElem?
  intro i
  rw [rows,rows,List.getElem?_set,List.length_mapIdx,List.getElem?_mapIdx,List.getElem?_mapIdx]
  by_cases same : index = i
  · subst same
    simp [bound,looks]
  · simp [same,Ne.symm same,looks]

theorem decorations_rows (marked : List MarkedTag) (current : Option Nat) (seen : Finset Nat) :
    (rows (marked.map (·.span)) current seen).decorations (marked.map (·.id)) =
      marked.mapIdx fun index tag => (tag.id,⟨tag.span,look current seen index⟩) := by
  have ids : marked.map (·.id) = marked.zipIdx.map fun entry => entry.1.id := by
    conv => lhs; rw [← List.zipIdx_map_fst 0 marked,List.map_map]
    rfl
  rw [Sheet.decorations,rows,List.mapIdx_eq_zipIdx_map,List.mapIdx_eq_zipIdx_map,ids,
    List.zipIdx_map,List.map_map,List.zip_map',List.filterMap_map]
  exact congrFun List.filterMap_eq_map' _

end Review

theorem Session.setStatus_of_shows {β : Type} {session : Session β MemorySurface} {sheet : Sheet}
    (shows : session.Shows sheet) {index : Nat} {tag : MarkedTag}
    (here : session.marked[index]? = some tag) (status : ReviewStatus) :
    ∃ id after, session.setStatus index status = (.ok id,after) ∧
      after.Shows (sheet.set index (tag.span,some status.style)) ∧
      after.marked.map (·.span) = session.marked.map (·.span) := by
  obtain ⟨id,after,_,_,recolored,exchange,marks,rows⟩ := setStatus_memory shows.marks here status
  rw [shows.rows] at rows
  exact ⟨id,_,recolored,⟨marks,exchange.covers shows.covers,rows⟩,map_span_set here id⟩

namespace Review

variable {β : Type} {review : Review β MemorySurface} {seen : Finset Nat}

/-- The looks of the tags follow from the current one and those that have been current. -/
structure Follows (review : Review β MemorySurface) (seen : Finset Nat) : Prop where
  shows : review.session.Shows (rows (review.session.marked.map (·.span)) review.current seen)
  inside : ∀ index ∈ review.current, index < review.session.marked.length
  known : ∀ index ∈ review.current, index ∈ seen

theorem Follows.finish (follows : review.Follows seen) :
    ∃ after, review.finish = (.ok (),after) ∧
      after.Shows (rows (review.session.marked.map (·.span)) none seen) ∧
      after.marked.map (·.span) = review.session.marked.map (·.span) := by
  obtain ⟨shows,inside,known⟩ := follows
  unfold Review.finish
  cases current : review.current with
  | none =>
    rw [current] at shows
    exact ⟨_,rfl,shows,rfl⟩
  | some index =>
    rw [current] at shows inside known
    obtain ⟨tag,here⟩ : ∃ tag, review.session.marked[index]? = some tag :=
      ⟨_,List.getElem?_eq_getElem (inside index rfl)⟩
    obtain ⟨id,after,recolored,drawn,spans⟩ := Session.setStatus_of_shows shows here .done
    have onSpans : (review.session.marked.map (·.span))[index]? = some tag.span := by simp [here]
    have looks : ∀ i, look none seen i = if i = index then .done else look (some index) seen i := by
      intro i
      by_cases same : i = index
      · simp [look,same,known index rfl]
      · simp [look,same,Ne.symm same]
    dsimp only
    rw [recolored]
    refine ⟨after,rfl,?_,spans⟩
    rw [← set_rows onSpans looks]
    exact drawn

theorem Follows.advance (follows : review.Follows seen) {next : Nat}
    (inside : next < review.session.marked.length) :
    ∃ after, review.advance next = (.ok (),⟨after,some next⟩) ∧
      Follows ⟨after,some next⟩ (insert next seen) ∧
      after.marked.map (·.span) = review.session.marked.map (·.span) := by
  obtain ⟨after,finished,shows,spans⟩ := follows.finish
  have count : review.session.marked.length = after.marked.length := by
    simpa using congrArg List.length spans.symm
  obtain ⟨tag,here⟩ : ∃ tag, after.marked[next]? = some tag :=
    ⟨_,List.getElem?_eq_getElem (Nat.lt_of_lt_of_eq inside count)⟩
  obtain ⟨id,last,recolored,drawn,lastSpans⟩ := Session.setStatus_of_shows shows here .current
  have lastCount : after.marked.length = last.marked.length := by
    simpa using congrArg List.length lastSpans.symm
  have onSpans : (review.session.marked.map (·.span))[next]? = some tag.span := by
    rw [← spans]
    simp [here]
  have looks : ∀ i, look (some next) (insert next seen) i =
      if i = next then .current else look none seen i := by
    intro i
    by_cases same : i = next
    · simp [look,same]
    · simp [look,same,Ne.symm same]
  refine ⟨last,by simp only [Review.advance,finished,recolored],⟨?_,?_,?_⟩,lastSpans.trans spans⟩
  · rw [lastSpans,spans,← set_rows onSpans looks]
    exact drawn
  · intro index isCurrent
    obtain rfl : next = index := Option.some_inj.mp isCurrent
    exact Nat.lt_of_lt_of_eq inside (count.trans lastCount)
  · intro index isCurrent
    obtain rfl : next = index := Option.some_inj.mp isCurrent
    exact Finset.mem_insert_self ..

theorem Follows.attached_perm (follows : review.Follows seen) :
    review.session.surface.attached.Perm (review.session.marked.mapIdx fun index tag =>
      (tag.id,⟨tag.span,look review.current seen index⟩)) := by
  have drawn := follows.shows.attached_perm
  rw [decorations_rows] at drawn
  exact drawn

end Review

end TagOverlay
