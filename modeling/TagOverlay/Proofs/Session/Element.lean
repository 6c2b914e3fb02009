import TagOverlay.Buffer.LineList
import TagOverlay.Proofs.Buffer.Nearest
import TagOverlay.Proofs.Session.StartTags

/-! The elements of the marked tags. In a session that can be reached every marked tag can be read, and
its element, unless it closes itself, reads on from it to the first closing tag of the session's name. -/
namespace TagOverlay.Session
open Text (FirstPlace)
open TextBuffer (Reads StandsFrom endOfNext? textIn? endOfNext?_cases)

variable {β σ : Type} [TextBuffer β] {session : Session β σ} {index : Nat} {tag : MarkedTag}

theorem tagText_of_reads {text : Text} (here : session.marked[index]? = some tag)
    (reads : Reads session.buffer tag.span.start text tag.span.stop) :
    session.tagText index = .ok text := by
  have read : textIn? session.buffer tag.span = some text := reads.textIn?_eq
  simp only [tagText,markedTag,here,read]

theorem elementSpan_of_selfClosing {text : Text} (here : session.marked[index]? = some tag)
    (read : session.tagText index = .ok text) (closes : ['/','>'] <:+: text) :
    session.elementSpan index = .ok tag.span := by
  simp only [elementSpan,markedTag,here,read]
  exact if_pos (Text.hasPart_iff.mpr closes)

theorem elementSpan_of_open {name text : Text} (here : session.marked[index]? = some tag)
    (named : session.tagName = some name) (read : session.tagText index = .ok text)
    (isOpen : ¬ ['/','>'] <:+: text) :
    session.elementSpan index =
      match endOfNext? session.buffer (Tag.closing name) tag.span.stop with
      | some stop => .ok (tag.span.withStop stop)
      | none => .error (.tag (.unclosed name tag.span.stop.line)) := by
  have continues : Tag.isSelfClosing text = false := Bool.eq_false_iff.mpr (mt Text.hasPart_iff.mp isOpen)
  simp only [elementSpan,markedTag,here,read,continues,named,Option.getD_some,Tag.closingEnd]
  cases endOfNext? session.buffer (Tag.closing name) tag.span.stop <;> rfl

variable [RenderSurface σ] {buffer : β} {surface : σ}

/-- A marked tag reads as the opening of the session's name, and ends in the first `>` that follows. -/
theorem Reachable.reads_tag (reachable : Reachable buffer surface session)
    (here : session.marked[index]? = some tag) :
    session.buffer = buffer ∧ ∃ name body, session.tagName = some name ∧ '>' ∉ body ∧
      Reads buffer tag.span.start (Tag.opening name ++ (body ++ ['>'])) tag.span.stop := by
  obtain ⟨sameBuffer,spans⟩ := reachable.marksStartTags
  refine ⟨sameBuffer,?_⟩
  rcases spans with nothing | ⟨name,limit,named,found⟩
  · rw [nothing] at here
    contradiction
  · have member : tag.span ∈ session.marked.map (·.span) := List.mem_map_of_mem (List.mem_of_getElem? here)
    obtain ⟨beginning,isMatch,expanded⟩ := Sheet.exists_match_of_startTags found member
    obtain ⟨body,noEnd,reads⟩ := Tag.reads_of_expand isMatch expanded
    exact ⟨name,body,named,noEnd,reads⟩

theorem Reachable.reads (reachable : Reachable buffer surface session)
    (here : session.marked[index]? = some tag) :
    session.buffer = buffer ∧ ∃ name text, session.tagName = some name ∧
      Reads buffer tag.span.start text tag.span.stop := by
  obtain ⟨sameBuffer,name,body,named,_,reads⟩ := reachable.reads_tag here
  exact ⟨sameBuffer,name,_,named,reads⟩

omit [RenderSurface σ] in
/-- After an open tag a body is read and the first closing tag, if there is one on any line. -/
theorem elementSpan_cases {name text : Text} (here : session.marked[index]? = some tag)
    (named : session.tagName = some name) (reads : Reads session.buffer tag.span.start text tag.span.stop)
    (isOpen : ¬ ['/','>'] <:+: text) :
    StandsFrom session.buffer (Tag.closing name) tag.span.stop ∧
        (∃ stop body, session.elementSpan index = .ok (tag.span.withStop stop) ∧
          textIn? session.buffer (tag.span.withStop stop) = some (text ++ body ++ Tag.closing name) ∧
          ('\n' ∉ name → FirstPlace (Tag.closing name) (body ++ Tag.closing name) body [])) ∨
      ¬ StandsFrom session.buffer (Tag.closing name) tag.span.stop ∧
        session.elementSpan index = .error (.tag (.unclosed name tag.span.stop.line)) := by
  obtain ⟨_,_,ends⟩ := reads.cuts_stop
  rw [elementSpan_of_open here named (tagText_of_reads here reads) isOpen]
  rcases endOfNext?_cases (Tag.closing name) ends with ⟨place,body,near,next,further,first⟩ | ⟨missing,next⟩
  · rw [next]
    refine .inl ⟨near.standsFrom,_,body,rfl,?_,fun noBreak => first (by simp [Tag.closing,noBreak])⟩
    rw [List.append_assoc]
    exact (reads.append further).textIn?_eq
  · rw [next]
    exact .inr ⟨missing,rfl⟩

theorem element_of_marked_tag (reachable : Reachable buffer surface session)
    (here : session.marked[index]? = some tag) :
    ∃ name text, session.tagName = some name ∧ session.tagText index = .ok text ∧
      textIn? buffer tag.span = some text ∧
      (['/','>'] <:+: text → session.elementSpan index = .ok tag.span) ∧
      (¬ ['/','>'] <:+: text →
        ((∃ span, session.elementSpan index = .ok span) ↔
          StandsFrom buffer (Tag.closing name) tag.span.stop) ∧
        ∀ span, session.elementSpan index = .ok span → span.start = tag.span.start ∧
          ∃ body, textIn? buffer span = some (text ++ body ++ Tag.closing name) ∧
            ('\n' ∉ name → FirstPlace (Tag.closing name) (body ++ Tag.closing name) body [])) ∧
      ∀ error, session.elementSpan index = .error error →
        error = .tag (.unclosed name tag.span.stop.line) := by
  obtain ⟨rfl,name,text,named,reads⟩ := reachable.reads here
  have read := tagText_of_reads here reads
  refine ⟨name,text,named,read,reads.textIn?_eq,elementSpan_of_selfClosing here read,?_⟩
  by_cases closes : ['/','>'] <:+: text
  · rw [elementSpan_of_selfClosing here read closes]
    exact ⟨fun isOpen => absurd closes isOpen,fun error fails => by contradiction⟩
  · rcases elementSpan_cases here named reads closes with ⟨stands,stop,body,found,whole,first⟩ | ⟨missing,fails⟩
    · rw [found]
      refine ⟨fun _ => ⟨iff_of_true ⟨_,rfl⟩ stands,?_⟩,fun error fails => by contradiction⟩
      intro span same
      obtain rfl := Except.ok.inj same
      exact ⟨rfl,body,whole,first⟩
    · rw [fails]
      refine ⟨fun _ => ⟨iff_of_false (by simp) missing,fun span found => by contradiction⟩,?_⟩
      intro error same
      exact (Except.error.inj same).symm

/-- The tag is wrapped, was recolored and has lost its decoration; a closed element follows. -/
theorem unmarked_tag_has_element :
    let buffer := LineList.ofList [['<','n'],['é','>','b',' '],['<','/','n','>','<','n','/','>']]
    let session := ((Session.new buffer MemorySurface.empty).run
      [.mark ['n'],.setStatus 0 .current,.unmark 0]).2
    session.marked.map (·.span) = [⟨⟨1,1⟩,⟨2,4⟩⟩,⟨⟨3,5⟩,⟨3,9⟩⟩] ∧
      session.elementSpan 0 = .ok ⟨⟨1,1⟩,⟨3,5⟩⟩ ∧
      ∃ body, textIn? buffer ⟨⟨1,1⟩,⟨3,5⟩⟩ =
          some (['<','n','\n','é','>'] ++ body ++ ['<','/','n','>']) ∧
        FirstPlace ['<','/','n','>'] (body ++ ['<','/','n','>']) body [] := by
  intro buffer session
  have reachable : Reachable buffer MemorySurface.empty session := Reachable.new.run _
  have here : session.marked[0]? = some ⟨MemorySurface.idOf 3,⟨⟨1,1⟩,⟨2,4⟩⟩⟩ := by decide
  have found : session.elementSpan 0 = .ok ⟨⟨1,1⟩,⟨3,5⟩⟩ := by decide
  obtain ⟨name,text,named,read,_,_,continues,_⟩ := element_of_marked_tag reachable here
  have hasName : session.tagName = some ['n'] := by decide
  obtain rfl := Option.some_inj.mp (hasName.symm.trans named)
  have hasText : session.tagText 0 = .ok ['<','n','\n','é','>'] := by decide
  obtain rfl := Except.ok.inj (hasText.symm.trans read)
  obtain ⟨_,body,whole,first⟩ := (continues (by decide)).2 _ found
  exact ⟨by decide,found,body,whole,first (by decide)⟩

end TagOverlay.Session
