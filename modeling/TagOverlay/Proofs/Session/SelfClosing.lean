import TagOverlay.Proofs.Session.Element
import TagOverlay.Proofs.Tag.Reshaping

/-! Whether a marked tag closes itself. Its element, its opened and its closed form each look for the slash in
another way; after a name without a `>` the only `>` of the tag is the one at its end, so that they agree. -/
namespace TagOverlay.Session

variable {β σ : Type} [TextBuffer β] {session : Session β σ} {index : Nat} {text : Text}

theorem payload_of_tagText (read : session.tagText index = .ok text) (intent : TagIntent) :
    session.payload index intent = .ok (.ofTag text intent) := by
  rw [payload,read]
  rfl

theorem self_closing_tests_agree [RenderSurface σ] {buffer : β} {surface : σ}
    (reachable : Reachable buffer surface session) (noEnd : ∀ name ∈ session.tagName, '>' ∉ name)
    (inside : index < session.marked.length) :
    ∃ text kept opened closed, session.tagText index = .ok text ∧
      session.payload index .keep = .ok kept ∧ session.payload index .openTag = .ok opened ∧
      session.payload index .closeTag = .ok closed ∧ kept.text = text ∧
      (Tag.isSelfClosing text ↔ ['/','>'] <:+ text) ∧
      (Tag.isSelfClosing text ↔ opened ≠ kept) ∧
      (Tag.isSelfClosing closed.text ↔ Tag.isSelfClosing text ∨ '/' ∉ text) := by
  have here : session.marked[index]? = some session.marked[index] := List.getElem?_eq_getElem inside
  obtain ⟨rfl,name,body,named,noneInBody,reads⟩ := reachable.reads_tag here
  have read := tagText_of_reads here reads
  rw [← List.append_assoc] at read
  have noneBefore : '>' ∉ Tag.opening name ++ body := by
    simp [Tag.opening,noEnd name named,noneInBody]
  have ends := Tag.isSelfClosing_iff_suffix noneBefore
  exact ⟨_,_,_,_,read,payload_of_tagText read .keep,payload_of_tagText read .openTag,
    payload_of_tagText read .closeTag,rfl,ends,ends.trans TagPayload.opened_ne_kept_iff.symm,
    TagIntent.isSelfClosing_closeTag_iff (List.suffix_append ..)⟩

/-- The name ends in a slash. The second tag ends with it, whereas the first one goes on in another line and has
its slash in front, so that closing it changes nothing. -/
theorem slash_of_name_closes_tag :
    let buffer := LineList.ofList [['<','n','/',' '],['é','>','<','n','/','>']]
    let session := ((Session.new buffer MemorySurface.empty).run
      [.mark ['n','/'],.setStatus 0 .current,.unmark 1]).2
    session.tagName = some ['n','/'] ∧ session.marked.length = 2 ∧
      (∃ text kept opened closed, session.tagText 0 = .ok text ∧ session.payload 0 .keep = .ok kept ∧
        session.payload 0 .openTag = .ok opened ∧ session.payload 0 .closeTag = .ok closed ∧
        opened = kept ∧ ¬ ['/','>'] <:+ text ∧ ¬ Tag.isSelfClosing closed.text) ∧
      ∃ text kept opened, session.tagText 1 = .ok text ∧ session.payload 1 .keep = .ok kept ∧
        session.payload 1 .openTag = .ok opened ∧ opened ≠ kept ∧ ['/','>'] <:+ text := by
  intro buffer session
  have reachable : Reachable buffer MemorySurface.empty session := Reachable.new.run _
  have named : session.tagName = some ['n','/'] := by decide
  have count : session.marked.length = 2 := by decide
  have noEnd : ∀ name ∈ session.tagName, '>' ∉ name := by
    rw [named]
    decide
  have firstText : session.tagText 0 = .ok ['<','n','/',' ','\n','é','>'] := by decide
  have secondText : session.tagText 1 = .ok ['<','n','/','>'] := by decide
  obtain ⟨text,kept,opened,closed,read,keeps,opens,closes,_,ends,same,closing⟩ :=
    self_closing_tests_agree reachable noEnd (show 0 < session.marked.length by omega)
  obtain ⟨other,otherKept,otherOpened,_,otherRead,otherKeeps,otherOpens,_,_,otherEnds,otherSame,_⟩ :=
    self_closing_tests_agree reachable noEnd (show 1 < session.marked.length by omega)
  obtain rfl := Except.ok.inj (firstText.symm.trans read)
  obtain rfl := Except.ok.inj (secondText.symm.trans otherRead)
  have isOpen : ¬ Tag.isSelfClosing ['<','n','/',' ','\n','é','>'] := mt ends.mp (by decide)
  have isClosed : ['/','>'] <:+ ['<','n','/','>'] := by decide
  refine ⟨named,count,⟨_,kept,opened,closed,read,keeps,opens,closes,?_,by decide,?_⟩,
    _,otherKept,otherOpened,otherRead,otherKeeps,otherOpens,otherSame.mp (otherEnds.mpr isClosed),isClosed⟩
  · exact not_not.mp (mt same.mpr isOpen)
  · exact mt closing.mp (by simp [isOpen])

end TagOverlay.Session
