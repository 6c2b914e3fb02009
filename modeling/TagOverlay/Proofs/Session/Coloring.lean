import TagOverlay.Buffer.LineList
import TagOverlay.Proofs.Highlight.Placed
import TagOverlay.Proofs.Session.Element
import TagOverlay.Proofs.Session.Marking
import TagOverlay.Proofs.Session.TagLayout

/-! How a line of a session's document is drawn. If no tag crosses another, the background of a byte shows
whether a decorated tag is over it, and its color is that of the first one that is. The order in which
the surface keeps its decorations does not matter. -/
namespace TagOverlay

namespace Span

variable {left middle right : Span}

theorem precedes_iff : left.precedes right ↔
    left.start < right.start ∨ left.start = right.start ∧ left.stop ≤ right.stop := by
  rw [precedes,decide_eq_true_eq]

theorem precedes_trans (first : left.precedes middle) (second : middle.precedes right) :
    left.precedes right := by
  rw [precedes_iff] at first second ⊢
  rcases first with less | ⟨same,le⟩
  · rcases second with more | ⟨same,_⟩
    · exact .inl (by rw [Position.lt_def] at less more ⊢; omega)
    · exact .inl (same ▸ less)
  · rw [same]
    exact second.imp_right fun ⟨same,further⟩ => ⟨same,Position.le_trans le further⟩

theorem precedes_total (left right : Span) : left.precedes right || right.precedes left := by
  rw [Bool.or_eq_true,precedes_iff,precedes_iff]
  by_cases le : left.start ≤ right.start
  · rcases Position.lt_or_eq_of_le le with less | same
    · exact .inl (.inl less)
    · by_cases ends : left.stop ≤ right.stop
      · exact .inl (.inr ⟨same,ends⟩)
      · exact .inr (.inr ⟨same.symm,Position.le_of_not_le ends⟩)
  · rcases Position.lt_or_eq_of_le (Position.le_of_not_le le) with more | same
    · exact .inr (.inl more)
    · exact absurd (same ▸ Position.le_refl _) le

theorem start_eq_of_precedes (first : left.precedes right) (second : right.precedes left) :
    left.start = right.start := by
  rw [precedes_iff] at first second
  rcases first with less | ⟨same,_⟩
  · rcases second with more | ⟨same,_⟩
    · rw [Position.lt_def] at less more
      omega
    · exact same.symm
  · exact same

end Span

namespace MemorySurface

/-- Decorations that begin at different places have one order only. -/
theorem mergeSort_eq_of_perm {order entries : List (DecorationId × Decoration)} (perm : order.Perm entries)
    (ascending : entries.Pairwise fun first second => first.2.span.start < second.2.span.start) :
    order.mergeSort (fun left right => left.2.span.precedes right.2.span) = entries := by
  have distinct : (entries.map fun entry => entry.2.span.start).Nodup := by
    apply List.pairwise_map.mpr
    apply ascending.imp
    intro first second less same
    rw [same,Position.lt_def] at less
    omega
  have sorted : (order.mergeSort fun left right => left.2.span.precedes right.2.span).Pairwise
      fun left right => left.2.span.precedes right.2.span := by
    apply List.pairwise_mergeSort
    · exact fun _ _ _ => Span.precedes_trans
    · exact fun _ _ => Span.precedes_total _ _
  have arranged := (List.mergeSort_perm order fun left right => left.2.span.precedes right.2.span).trans perm
  refine List.Perm.eq_of_pairwise ?_ sorted (ascending.imp fun less => ?_) arranged
  · intro first second isFirst isSecond before after
    apply List.inj_on_of_nodup_map distinct (arranged.mem_iff.mp isFirst) isSecond
    exact Span.start_eq_of_precedes before after
  · exact Span.precedes_iff.mpr (.inl less)

end MemorySurface

/-- All others that are fit are further on than the first one. -/
theorem before_of_find? {α : Type} {before : α → α → Prop} {items : List α} {fit : α → Bool} {first other : α}
    (ordered : items.Pairwise before) (found : items.find? fit = some first) (member : other ∈ items)
    (alsoFit : fit other) : other = first ∨ before first other := by
  obtain ⟨_,earlier,later,rfl,unfit⟩ := List.find?_eq_some_iff_append.mp found
  rcases List.mem_append.mp member with isEarlier | same | ⟨_,isLater⟩
  · have := unfit other isEarlier
    simp [alsoFit] at this
  · exact .inl rfl
  · exact .inr ((List.pairwise_cons.mp (List.pairwise_append.mp ordered).2.1).1 other isLater)

namespace Session
open TextBuffer (line?)

section Decorated

variable {β : Type} {session : Session β MemorySurface} {sheet : Sheet} {position : Position}
    {tag : MarkedTag} {style : Style}

/-- The marked tags that are decorated, with the style that each is drawn in. -/
def decorated (session : Session β MemorySurface) : List (MarkedTag × Style) :=
  session.marked.filterMap fun tag => (session.surface.get? tag.id).map fun drawn => (tag,drawn.style)

/-- The tag is over the position and drawn over all of its span in a style. -/
structure DrawnOver (session : Session β MemorySurface) (position : Position) (tag : MarkedTag)
    (style : Style) : Prop where
  marked : tag ∈ session.marked
  drawn : session.surface.get? tag.id = some ⟨tag.span,style⟩
  covers : tag.span.contains position

theorem mem_decorated_iff (shows : session.Shows sheet) : (tag,style) ∈ session.decorated ↔
    tag ∈ session.marked ∧ session.surface.get? tag.id = some ⟨tag.span,style⟩ := by
  rw [decorated,List.mem_filterMap]
  constructor
  · intro ⟨other,marked,drawn⟩
    obtain ⟨decoration,here,same⟩ := Option.map_eq_some_iff.mp drawn
    obtain ⟨rfl,rfl⟩ := Prod.mk.inj same
    obtain ⟨style?,shown⟩ := shows.marks.shows other marked
    obtain ⟨style,_,rfl⟩ := Option.map_eq_some_iff.mp (shown.2.symm.trans here)
    exact ⟨marked,here⟩
  · intro ⟨marked,drawn⟩
    exact ⟨tag,marked,by rw [drawn]; rfl⟩

theorem drawnOver_iff (shows : session.Shows sheet) : session.DrawnOver position tag style ↔
    (tag,style) ∈ session.decorated ∧ tag.span.contains position := by
  rw [mem_decorated_iff shows,and_assoc]
  exact ⟨fun ⟨marked,drawn,covers⟩ => ⟨marked,drawn,covers⟩,fun ⟨marked,drawn,covers⟩ => ⟨marked,drawn,covers⟩⟩

theorem Shows.attached_perm_decorated (shows : session.Shows sheet) :
    session.surface.attached.Perm
      (session.decorated.map fun entry => (entry.1.id,⟨entry.1.span,entry.2⟩)) := by
  have drawn := shows.attached_perm
  rw [shows.decorations_eq] at drawn
  have listed : (session.decorated.map fun entry => (entry.1.id,Decoration.mk entry.1.span entry.2)) =
      session.marked.filterMap fun tag => (session.surface.get? tag.id).map (tag.id,·) := by
    rw [decorated,List.map_filterMap]
    apply List.filterMap_congr
    intro tag marked
    obtain ⟨style?,shown⟩ := shows.marks.shows tag marked
    change Option.map _ ((session.overlay.surface.get? tag.id).map _) =
      (session.overlay.surface.get? tag.id).map _
    rw [shown.2,Option.map_map,Option.map_map,Option.map_map]
    rfl
  rw [listed]
  exact drawn

end Decorated

variable {β : Type} [TextBuffer β] {session : Session β MemorySurface} {buffer : β} {sheet : Sheet}

theorem Reachable.uncrossed (reachable : session.Reachable buffer .empty)
    (plain : ∀ name ∈ session.tagName, '>' ∉ name) :
    session.marked.Pairwise fun first second => first.span.Uncrossed second.span := by
  rcases reachable.inOrder with nothing | ⟨name,named,ordered⟩
  · rw [nothing]
    exact .nil
  · apply ordered.imp
    intro first second pair
    exact ⟨pair.start,pair.stop,pair.apart (plain name named)⟩

theorem Reachable.placed (reachable : session.Reachable buffer .empty) {tag : MarkedTag}
    (marked : tag ∈ session.marked) : Highlight.Placed buffer tag.span := by
  obtain ⟨index,here⟩ := List.getElem?_of_mem marked
  obtain ⟨_,name,text,_,reads⟩ := reachable.reads here
  exact ⟨reads.cuts_start,reads.cuts_stop⟩

theorem Reachable.uncrossed_decorated (reachable : session.Reachable buffer .empty)
    (plain : ∀ name ∈ session.tagName, '>' ∉ name) :
    session.decorated.Pairwise fun first second => first.1.span.Uncrossed second.1.span := by
  apply (reachable.uncrossed plain).filterMap
  intro first second uncrossed entry found entry' found'
  obtain ⟨_,_,rfl⟩ := Option.map_eq_some_iff.mp found
  obtain ⟨_,_,rfl⟩ := Option.map_eq_some_iff.mp found'
  exact uncrossed

/-- The tags over a byte in the order in which they begin, of which the first gives its color. -/
theorem Reachable.backgroundAt?_eq (reachable : session.Reachable buffer .empty) (shows : session.Shows sheet)
    (plain : ∀ name ∈ session.tagName, '>' ∉ name) {order : List (DecorationId × Decoration)}
    (perm : order.Perm session.surface.attached) {number byte : Nat} {text : Text}
    (here : line? buffer number = some text) (inside : byte < text.width) :
    Highlight.backgroundAt? (Highlight.line number text
        (MemorySurface.decorationsOn { session.surface with attached := order } number)) byte =
      (session.decorated.find? fun entry => entry.1.span.contains ⟨number,byte + 1⟩).map
        fun entry => Highlight.colorOf entry.2 := by
  have isMarked : ∀ entry ∈ session.decorated, entry.1 ∈ session.marked :=
    fun entry member => ((mem_decorated_iff shows).mp member).1
  have uncrossed := reachable.uncrossed_decorated plain
  have sorted := MemorySurface.mergeSort_eq_of_perm (perm.trans shows.attached_perm_decorated)
    (List.pairwise_map.mpr (uncrossed.imp fun pair => pair.start))
  rw [MemorySurface.decorationsOn,MemorySurface.decorations,sorted,List.map_map]
  rw [Highlight.backgroundAt?_line here inside ?placed (List.pairwise_map.mpr uncrossed),List.find?_map,
    Option.map_map]
  · rfl
  case placed =>
    intro decoration member
    obtain ⟨entry,isDecorated,rfl⟩ := List.mem_map.mp member
    exact reachable.placed (isMarked entry isDecorated)

theorem byte_colored_iff_decorated (reachable : session.Reachable buffer .empty)
    (plain : ∀ name ∈ session.tagName, '>' ∉ name) {order : List (DecorationId × Decoration)}
    (anyOrder : order.Perm session.surface.attached) {number : Nat} {text : Text}
    (here : line? buffer number = some text) :
    let surface := { session.surface with attached := order }
    let drawn := Highlight.line number text (surface.decorationsOn number)
    drawn.flatMap (·.text) = text ∧
      ∀ byte < text.width,
        ((∃ color, Highlight.backgroundAt? drawn byte = some color) ↔
          ∃ tag style, session.DrawnOver ⟨number,byte + 1⟩ tag style) ∧
        ∀ color, Highlight.backgroundAt? drawn byte = some color →
          ∃ tag style, session.DrawnOver ⟨number,byte + 1⟩ tag style ∧ color = Highlight.colorOf style ∧
            ∀ other style', session.DrawnOver ⟨number,byte + 1⟩ other style' →
              other = tag ∨ tag.span.start < other.span.start := by
  intro surface drawn
  obtain ⟨sheet,shows⟩ := reachable.exists_shows
  refine ⟨Highlight.text_line number text _,fun byte inside => ?_⟩
  have background := reachable.backgroundAt?_eq shows plain anyOrder here inside
  have ordered := reachable.uncrossed_decorated plain
  simp only [drawnOver_iff shows]
  cases first : session.decorated.find? fun entry => entry.1.span.contains ⟨number,byte + 1⟩ with
  | none =>
    rw [first] at background
    have bare : Highlight.backgroundAt? drawn byte = none := background
    have missing := List.find?_eq_none.mp first
    rw [bare]
    refine ⟨iff_of_false (by simp) ?_,fun color colored => by contradiction⟩
    intro ⟨tag,style,isDecorated,covers⟩
    exact missing _ isDecorated covers
  | some entry =>
    rw [first] at background
    have colored : Highlight.backgroundAt? drawn byte = some (Highlight.colorOf entry.2) := background
    have isDecorated := List.mem_of_find?_eq_some first
    have covers := List.find?_some first
    rw [colored]
    refine ⟨iff_of_true ⟨_,rfl⟩ ⟨entry.1,entry.2,isDecorated,covers⟩,?_⟩
    intro color same
    refine ⟨entry.1,entry.2,⟨isDecorated,covers⟩,(Option.some_inj.mp same).symm,?_⟩
    intro other style ⟨otherDecorated,alsoCovers⟩
    rcases before_of_find? ordered first otherDecorated alsoCovers with same | earlier
    · exact .inl (congrArg Prod.fst same)
    · exact .inr earlier.start

/-- Of three tags the second lies in the first, which is wrapped, and the third has lost its decoration. The
surface lists the others in another order than it drew them in. -/
theorem inner_tag_in_color_of_outer :
    let buffer := LineList.ofList [['<','n'],['é','<','n','>','<','n','>']]
    let session := ((Session.new buffer MemorySurface.empty).run
      [.mark ['n'],.setStatus 0 .current,.unmark 2]).2
    let surface := { session.surface with attached := session.surface.attached.reverse }
    let drawn := Highlight.line 2 ['é','<','n','>','<','n','>'] (surface.decorationsOn 2)
    session.marked.map (·.span) = [⟨⟨1,1⟩,⟨2,6⟩⟩,⟨⟨2,3⟩,⟨2,6⟩⟩,⟨⟨2,6⟩,⟨2,9⟩⟩] ∧
      surface.attached.map (·.2.span.start) = [⟨1,1⟩,⟨2,3⟩] ∧
      (∃ style, session.DrawnOver ⟨2,4⟩ ⟨MemorySurface.idOf 4,⟨⟨1,1⟩,⟨2,6⟩⟩⟩ style ∧
        Highlight.backgroundAt? drawn 3 = some (Highlight.colorOf style)) ∧
      ¬ ∃ color, Highlight.backgroundAt? drawn 6 = some color := by
  intro buffer session surface drawn
  have reachable : session.Reachable buffer MemorySurface.empty := Reachable.new.run _
  have plain : ∀ name ∈ session.tagName, '>' ∉ name := by decide
  have here : line? buffer 2 = some ['é','<','n','>','<','n','>'] := by decide
  obtain ⟨_,bytes⟩ := byte_colored_iff_decorated reachable plain (List.reverse_perm _) here
  refine ⟨by decide,by decide,?_,?_⟩
  · obtain ⟨colored,first⟩ := bytes 3 (by decide)
    have outer : session.DrawnOver ⟨2,4⟩ ⟨MemorySurface.idOf 4,⟨⟨1,1⟩,⟨2,6⟩⟩⟩ .current :=
      ⟨by decide,by decide,by decide⟩
    obtain ⟨color,background⟩ := colored.mpr ⟨_,_,outer⟩
    obtain ⟨tag,style,isOver,rfl,earliest⟩ := first color background
    rcases earliest _ _ outer with rfl | earlier
    · exact ⟨style,isOver,background⟩
    · have none : ∀ tag ∈ session.marked, ¬ tag.span.start < ⟨1,1⟩ := by decide
      exact absurd earlier (none tag isOver.marked)
  · have bare : ∀ tag ∈ session.marked, tag.span.contains ⟨2,7⟩ → session.surface.get? tag.id = none := by
      decide
    obtain ⟨colored,_⟩ := bytes 6 (by decide)
    refine mt colored.mp fun ⟨tag,style,isOver⟩ => ?_
    exact Option.some_ne_none _ (isOver.drawn.symm.trans (bare tag isOver.marked isOver.covers))

end Session

end TagOverlay
