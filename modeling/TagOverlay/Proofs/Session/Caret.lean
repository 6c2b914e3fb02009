import TagOverlay.Buffer.LineList
import TagOverlay.Proofs.Decoration.Innermost
import TagOverlay.Proofs.Session.Coloring

/-! The marked tag under a caret. Of the decorated tags over a position it is the one with the largest index,
whatever the order of the registry, since the tags begin in the order of their indices. If no tag crosses
another, it lies inside all others that are over the position. -/
namespace TagOverlay.Session

variable {β : Type} {session : Session β MemorySurface} {sheet : Sheet} {position : Position}
    {tag : MarkedTag}

/-- What is registered is a marked tag's. -/
theorem Shows.exists_tag (shows : session.Shows sheet) {id : DecorationId} {span : Span}
    (registered : session.registry.spanOf? id = some span) :
    ∃ tag style, tag ∈ session.marked ∧ tag.id = id ∧ tag.span = span ∧
      session.surface.get? tag.id = some ⟨tag.span,style⟩ := by
  have known := shows.marks.registered id (Registry.contains_iff_exists.mpr ⟨span,registered⟩)
  obtain ⟨tag,marked,rfl⟩ := List.mem_map.mp known
  obtain ⟨style?,registeredToo,drawn⟩ := shows.marks.shows tag marked
  obtain ⟨style,rfl,rfl⟩ := Option.map_eq_some_iff.mp (registeredToo.symm.trans registered)
  exact ⟨tag,style,marked,rfl,rfl,drawn⟩

theorem Shows.registered_of_drawn (shows : session.Shows sheet) (marked : tag ∈ session.marked) {style : Style}
    (drawn : session.surface.get? tag.id = some ⟨tag.span,style⟩) :
    session.registry.spanOf? tag.id = some tag.span := by
  obtain ⟨style?,registered,shown⟩ := shows.marks.shows tag marked
  obtain ⟨style,rfl,_⟩ := Option.map_eq_some_iff.mp (shown.symm.trans drawn)
  exact registered

/-- The session with its registry in another order. -/
def withRegistry (session : Session β MemorySurface) (registry : Registry) : Session β MemorySurface :=
  { session with overlay := ⟨registry,session.surface⟩ }

/-- No tag is over the position, or the tag that is found begins last of those that are. -/
theorem markedIndexAt?_cases (shows : session.Shows sheet) {order : Registry}
    (perm : order.entries.Perm session.registry.entries) (position : Position) :
    (session.withRegistry order).markedIndexAt? position = none ∧
        (∀ tag style, ¬ session.DrawnOver position tag style) ∨
      ∃ index tag style, (session.withRegistry order).markedIndexAt? position = some index ∧
        session.marked[index]? = some tag ∧ session.DrawnOver position tag style ∧
        ∀ other style', session.DrawnOver position other style' → other.span.start ≤ tag.span.start := by
  rcases order.idAt?_cases position with ⟨nothing,_⟩ | ⟨id,span,chosen,last⟩
  · refine .inl ⟨?_,?_⟩
    · rw [markedIndexAt?]
      exact congrArg (Option.bind · _) nothing
    · intro tag style isOver
      have registered := shows.registered_of_drawn isOver.marked isOver.drawn
      exact (Registry.idAt?_eq_none_iff perm).mp nothing tag.id tag.span registered isOver.covers
  · obtain ⟨registered,covers,latest⟩ := last.of_perm perm
    obtain ⟨tag,style,marked,rfl,rfl,drawn⟩ := shows.exists_tag registered
    obtain ⟨index,here⟩ := List.getElem?_of_mem marked
    refine .inr ⟨index,tag,style,?_,here,⟨marked,drawn,covers⟩,?_⟩
    · have found : session.marked.findIdx? (fun other => other.id = tag.id) = some index := by
        obtain ⟨bound,value⟩ := List.getElem?_eq_some_iff.mp here
        refine List.findIdx?_eq_some_iff_getElem.mpr ⟨bound,by rw [value]; exact decide_eq_true rfl,?_⟩
        intro earlier before sameId
        have there : session.marked[earlier]? = some session.marked[earlier] := List.getElem?_eq_getElem _
        have := shows.marks.index_eq there here (of_decide_eq_true sameId)
        omega
      rw [markedIndexAt?]
      exact (congrArg (Option.bind · _) chosen).trans found
    · intro other style' isOver
      have alsoRegistered := shows.registered_of_drawn isOver.marked isOver.drawn
      exact latest other.id other.span alsoRegistered isOver.covers

variable [TextBuffer β] {buffer : β}

theorem Reachable.index_le_of_start_le (reachable : session.Reachable buffer .empty) {i j : Nat}
    {other : MarkedTag} (here : session.marked[i]? = some tag) (there : session.marked[j]? = some other)
    (le : other.span.start ≤ tag.span.start) : j ≤ i := by
  obtain ⟨first,rfl⟩ := List.getElem?_eq_some_iff.mp here
  obtain ⟨second,rfl⟩ := List.getElem?_eq_some_iff.mp there
  refine Nat.le_of_not_lt fun later => ?_
  rcases reachable.inOrder with nothing | ⟨name,_,ordered⟩
  · simp [nothing] at first
  · have less := (List.pairwise_iff_getElem.mp ordered i j first second later).start
    rw [Position.lt_def] at less
    rw [Position.le_def] at le
    omega

/-- Of two tags over one position the later one lies inside the other, unless they cross. -/
theorem Reachable.inside_of_index_le (reachable : session.Reachable buffer .empty)
    (plain : ∀ name ∈ session.tagName, '>' ∉ name) {i j : Nat} {other : MarkedTag}
    (here : session.marked[i]? = some tag) (there : session.marked[j]? = some other) (le : j ≤ i)
    (isOver : tag.span.contains position) (alsoOver : other.span.contains position) :
    other.span.start ≤ tag.span.start ∧ tag.span.stop ≤ other.span.stop := by
  obtain ⟨first,rfl⟩ := List.getElem?_eq_some_iff.mp here
  obtain ⟨second,rfl⟩ := List.getElem?_eq_some_iff.mp there
  rcases Nat.lt_or_eq_of_le le with earlier | rfl
  · have uncrossed := List.pairwise_iff_getElem.mp (reachable.uncrossed plain) j i second first earlier
    have begins := (Span.contains_iff.mp isOver).1
    have ends := (Span.contains_iff.mp alsoOver).2
    have start := uncrossed.start
    refine ⟨?_,?_⟩
    · rw [Position.lt_def] at start
      rw [Position.le_def]
      omega
    · rcases uncrossed.apart with apart | same
      · rw [Position.le_def] at apart begins
        rw [Position.lt_def] at ends
        omega
      · rw [same]
        exact Position.le_refl _
  · exact ⟨Position.le_refl _,Position.le_refl _⟩

theorem index_under_caret (reachable : session.Reachable buffer .empty) {order : Registry}
    (anyOrder : order.entries.Perm session.registry.entries) (position : Position) :
    let found? := (session.withRegistry order).markedIndexAt? position
    (found? = none ↔ ∀ tag style, ¬ session.DrawnOver position tag style) ∧
    ∀ index, found? = some index → ∃ tag style, session.marked[index]? = some tag ∧
      session.DrawnOver position tag style ∧
      (∀ (later : Nat) other style', session.marked[later]? = some other →
        session.DrawnOver position other style' → later ≤ index) ∧
      ((∀ name ∈ session.tagName, '>' ∉ name) → ∀ other style',
        session.DrawnOver position other style' →
          other.span.start ≤ tag.span.start ∧ tag.span.stop ≤ other.span.stop) := by
  intro found?
  obtain ⟨sheet,shows⟩ := reachable.exists_shows
  rcases markedIndexAt?_cases shows anyOrder position with ⟨nothing,bare⟩ | ⟨index,tag,style,found,here,isOver,latest⟩
  · refine ⟨iff_of_true nothing bare,fun index found => ?_⟩
    exact absurd (nothing.symm.trans found) nofun
  · refine ⟨iff_of_false (fun nothing => ?_) fun bare => bare tag style isOver,?_⟩
    · exact absurd (nothing.symm.trans found) nofun
    · intro other same
      obtain rfl := Option.some_inj.mp (found.symm.trans same)
      have largest {later : Nat} {other : MarkedTag} {style' : Style} (there : session.marked[later]? = some other)
          (alsoOver : session.DrawnOver position other style') : later ≤ index :=
        reachable.index_le_of_start_le here there (latest other style' alsoOver)
      refine ⟨tag,style,here,isOver,fun later other style' => largest,?_⟩
      intro plain other style' alsoOver
      obtain ⟨j,there⟩ := List.getElem?_of_mem alsoOver.marked
      exact reachable.inside_of_index_le plain here there (largest there alsoOver) isOver.covers alsoOver.covers

/-- The caret is in two tags, of which the outer one was drawn anew, and then in one that was unmarked. -/
theorem inner_tag_under_caret :
    let buffer := LineList.ofList [['<','n'],['é','<','n','>','<','n','>']]
    let session := ((Session.new buffer MemorySurface.empty).run
      [.mark ['n'],.setStatus 0 .current,.unmark 2]).2
    let order : Registry :=
      ⟨[(MemorySurface.idOf 2,⟨⟨2,3⟩,⟨2,6⟩⟩),(MemorySurface.idOf 4,⟨⟨1,1⟩,⟨2,6⟩⟩)],by decide⟩
    session.Reachable buffer .empty ∧ order.entries.Perm session.registry.entries ∧
      (∀ name ∈ session.tagName, '>' ∉ name) ∧
      (session.withRegistry order).markedIndexAt? ⟨2,4⟩ = some 1 ∧
      (∃ tag style, session.marked[1]? = some tag ∧ session.DrawnOver ⟨2,4⟩ tag style ∧
        tag.span = ⟨⟨2,3⟩,⟨2,6⟩⟩ ∧ ∀ other style', session.DrawnOver ⟨2,4⟩ other style' →
          other.span.start ≤ tag.span.start ∧ tag.span.stop ≤ other.span.stop) ∧
      ∀ tag style, ¬ session.DrawnOver ⟨2,7⟩ tag style := by
  intro buffer session order
  have reachable : session.Reachable buffer .empty := Reachable.new.run _
  have anyOrder : order.entries.Perm session.registry.entries := by decide
  have plain : ∀ name ∈ session.tagName, '>' ∉ name := by decide
  have inner : (session.withRegistry order).markedIndexAt? ⟨2,4⟩ = some 1 := by decide
  have nothing : (session.withRegistry order).markedIndexAt? ⟨2,7⟩ = none := by decide
  have span : session.marked[1]?.map (·.span) = some ⟨⟨2,3⟩,⟨2,6⟩⟩ := by decide
  obtain ⟨tag,style,here,isOver,_,inside⟩ := (index_under_caret reachable anyOrder ⟨2,4⟩).2 1 inner
  rw [here,Option.map_some,Option.some_inj] at span
  exact ⟨reachable,anyOrder,plain,inner,⟨tag,style,here,isOver,span,inside plain⟩,
    (index_under_caret reachable anyOrder ⟨2,7⟩).1.mp nothing⟩

end TagOverlay.Session
