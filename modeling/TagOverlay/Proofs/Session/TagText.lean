import TagOverlay.Buffer.Document
import TagOverlay.Proofs.Session.Element

/-! The texts of the marked tags. In every session that can be reached, over whatever buffer and surface, a
marked tag can be read and begins with the name that the session was told to mark. -/
namespace TagOverlay.Session

variable {β σ : Type} [TextBuffer β] [RenderSurface σ] {buffer : β} {surface : σ} {session : Session β σ}
    {index : Nat}

theorem text_of_marked_tag (reachable : Reachable buffer surface session)
    (inside : index < session.marked.length) :
    ∃ name body, session.tagName = some name ∧
      session.tagText index = .ok ('<' :: name ++ body ++ ['>']) ∧ '>' ∉ body := by
  have here : session.marked[index]? = some session.marked[index] := List.getElem?_eq_getElem inside
  obtain ⟨rfl,name,body,named,noEnd,reads⟩ := reachable.reads_tag here
  refine ⟨name,body,named,?_,noEnd⟩
  rw [tagText_of_reads here reads,List.append_assoc]
  rfl

/-- The name holds a `>` and a character of two bytes, and the second tag is wrapped. -/
theorem wrapped_tag_text :
    let buffer := Document.ofText "x <é>> y<é> \r\n1='2'>>".toList
    let session := ((Session.new buffer MemorySurface.empty).run
      [.mark ['é','>'],.setStatus 1 .done,.unmark 0]).2
    session.marked.length = 2 ∧ session.tagName = some ['é','>'] ∧
      session.tagText 1 = .ok "<é> \n1='2'>".toList ∧
      ∃ body, session.tagText 0 = .ok (['<','é','>'] ++ body ++ ['>']) ∧ '>' ∉ body := by
  intro buffer session
  have reachable : Reachable buffer MemorySurface.empty session := Reachable.new.run _
  have count : session.marked.length = 2 := by decide
  obtain ⟨name,body,named,read,noEnd⟩ := text_of_marked_tag reachable (show 0 < session.marked.length by omega)
  have hasName : session.tagName = some ['é','>'] := by decide
  obtain rfl := Option.some_inj.mp (hasName.symm.trans named)
  exact ⟨count,hasName,by decide,body,read,noEnd⟩

end TagOverlay.Session
