import TagOverlay.Tag.Extent
import TagOverlay.Tag.Payload

/-! Reshaping a tag and reshaping it back. Closing twice is closing once. A tag that was opened is closed to
what it was if the slash at its end was its only one, and a text that cannot be opened stays the same if it
cannot be closed either. -/
namespace TagOverlay

namespace Tag

theorem isSelfClosing_append (head : Text) : isSelfClosing (head ++ ['/','>']) :=
  Text.hasPart_iff.mpr (List.suffix_append ..).isInfix

theorem not_isSelfClosing {tag : Text} (noSlash : '/' ∉ tag) : ¬ isSelfClosing tag := by
  intro closes
  exact noSlash ((Text.hasPart_iff.mp closes).subset List.mem_cons_self)

/-- If a text has no `>` before its last one, there is no other place for `/>` than its end. -/
theorem isSelfClosing_iff_suffix {head : Text} (noEnd : '>' ∉ head) :
    isSelfClosing (head ++ ['>']) ↔ ['/','>'] <:+ head ++ ['>'] := by
  constructor
  · intro closes
    obtain ⟨before,after,whole⟩ := Text.hasPart_iff.mp closes
    rcases List.eq_nil_or_concat after with rfl | ⟨between,last,rfl⟩
    · exact ⟨before,by simpa using whole⟩
    · have inside : before ++ ['/','>'] ++ between = head := by
        rw [List.concat_eq_append,← List.append_assoc] at whole
        exact (List.append_inj' whole rfl).1
      exact absurd (by simp [← inside]) noEnd
  · intro ends
    exact Text.hasPart_iff.mpr ends.isInfix

end Tag

namespace TagIntent

variable {head tag : Text}

theorem openTag_append (head : Text) : openTag.reshape (head ++ ['/','>']) = head ++ ['>'] := by
  rw [reshape,Text.stripEnd?_eq_some_iff.mpr rfl]

theorem openTag_of_not_suffix (other : ¬ ['/','>'] <:+ tag) : openTag.reshape tag = tag := by
  rw [reshape,Text.stripEnd?_eq_none_iff.mpr other]

theorem closeTag_append (noSlash : '/' ∉ head) :
    closeTag.reshape (head ++ ['>']) = head ++ ['/','>'] := by
  rw [reshape,Text.stripEnd?_eq_some_iff.mpr rfl]
  exact if_neg (by simp [noSlash])

theorem closeTag_of_mem (slash : '/' ∈ tag) : closeTag.reshape tag = tag := by
  rw [reshape]
  split
  next => exact if_pos slash
  next => rfl

theorem closeTag_of_not_suffix (other : ¬ ['>'] <:+ tag) : closeTag.reshape tag = tag := by
  rw [reshape,Text.stripEnd?_eq_none_iff.mpr other]

/-- A text that ends in `>` and has no slash is closed; every other one stays what it is. -/
theorem closeTag_cases (tag : Text) :
    (∃ head, tag = head ++ ['>'] ∧ '/' ∉ head ∧ closeTag.reshape tag = head ++ ['/','>']) ∨
      ('/' ∈ tag ∨ ¬ ['>'] <:+ tag) ∧ closeTag.reshape tag = tag := by
  by_cases slash : '/' ∈ tag
  · exact .inr ⟨.inl slash,closeTag_of_mem slash⟩
  · by_cases ends : ['>'] <:+ tag
    · obtain ⟨head,rfl⟩ := ends
      have noSlash : '/' ∉ head := mt (List.mem_append_left _) slash
      exact .inl ⟨head,rfl,noSlash,closeTag_append noSlash⟩
    · exact .inr ⟨.inr ends,closeTag_of_not_suffix ends⟩

theorem closeTag_closeTag (tag : Text) : closeTag.reshape (closeTag.reshape tag) = closeTag.reshape tag := by
  rcases closeTag_cases tag with ⟨head,_,_,closed⟩ | ⟨_,same⟩
  · rw [closed]
    exact closeTag_of_mem (by simp)
  · rw [same,same]

theorem closeTag_eq_self_iff : closeTag.reshape tag = tag ↔ '/' ∈ tag ∨ ¬ ['>'] <:+ tag := by
  rcases closeTag_cases tag with ⟨head,rfl,noSlash,closed⟩ | ⟨stays,same⟩
  · rw [closed]
    simp [noSlash]
  · exact iff_of_true same stays

theorem isSelfClosing_closeTag_iff (ends : ['>'] <:+ tag) :
    Tag.isSelfClosing (closeTag.reshape tag) ↔ Tag.isSelfClosing tag ∨ '/' ∉ tag := by
  rcases closeTag_cases tag with ⟨head,rfl,noSlash,closed⟩ | ⟨stays,same⟩
  · rw [closed]
    exact iff_of_true (Tag.isSelfClosing_append head) (.inr (by simp [noSlash]))
  · have slash : '/' ∈ tag := stays.resolve_right fun other => other ends
    rw [same]
    exact (or_iff_left (not_not_intro slash)).symm

theorem count_slash_eq_one_iff : (head ++ ['/','>']).count '/' = 1 ↔ '/' ∉ head := by
  rw [List.count_append,← List.count_eq_zero]
  exact Nat.add_eq_right

theorem closeTag_openTag_iff : closeTag.reshape (openTag.reshape tag) = tag ↔
    (['/','>'] <:+ tag ∧ tag.count '/' = 1) ∨
      (¬ ['/','>'] <:+ tag ∧ ('/' ∈ tag ∨ ¬ ['>'] <:+ tag)) := by
  by_cases ends : ['/','>'] <:+ tag
  · simp only [ends,true_and,not_true_eq_false,false_and,or_false]
    obtain ⟨head,rfl⟩ := ends
    rw [openTag_append,count_slash_eq_one_iff]
    constructor
    · intro back slash
      rw [closeTag_of_mem (List.mem_append_left _ slash)] at back
      simp at back
    · exact closeTag_append
  · rw [openTag_of_not_suffix ends,closeTag_eq_self_iff]
    simp [ends]

theorem reshaped_and_back (tag : Text) :
    closeTag.reshape (closeTag.reshape tag) = closeTag.reshape tag ∧
    (['>'] <:+ tag → '/' ∉ tag →
      Tag.isSelfClosing (closeTag.reshape tag) ∧ openTag.reshape (closeTag.reshape tag) = tag) ∧
    (['/','>'] <:+ tag → tag.count '/' = 1 →
      ¬ Tag.isSelfClosing (openTag.reshape tag) ∧ closeTag.reshape (openTag.reshape tag) = tag) ∧
    (closeTag.reshape (openTag.reshape tag) = tag ↔
      (['/','>'] <:+ tag ∧ tag.count '/' = 1) ∨
        (¬ ['/','>'] <:+ tag ∧ ('/' ∈ tag ∨ ¬ ['>'] <:+ tag))) := by
  refine ⟨closeTag_closeTag tag,?_,?_,closeTag_openTag_iff⟩
  · rintro ⟨head,rfl⟩ noSlash
    rw [closeTag_append (mt (List.mem_append_left _) noSlash)]
    exact ⟨Tag.isSelfClosing_append head,openTag_append head⟩
  · intro ends once
    refine ⟨?_,closeTag_openTag_iff.mpr (.inl ⟨ends,once⟩)⟩
    obtain ⟨head,rfl⟩ := ends
    rw [openTag_append]
    exact Tag.not_isSelfClosing (by simpa using count_slash_eq_one_iff.mp once)

/-- A wrapped tag is closed and opened again, and so is its closed form the other way round. With a slash in an
attribute the closed form can be opened, but not closed again. -/
theorem slash_in_attribute_stays_open :
    let tag : Text := ['<','n','\n','é','>']
    let closed : Text := ['<','n','\n','é','/','>']
    let slashed : Text := ['<','n','\'','/','\'','/','>']
    ['>'] <:+ tag ∧ '/' ∉ tag ∧ closeTag.reshape tag = closed ∧ Tag.isSelfClosing closed ∧
      ['/','>'] <:+ closed ∧ closed.count '/' = 1 ∧ openTag.reshape closed = tag ∧
      ¬ Tag.isSelfClosing tag ∧ closeTag.reshape (openTag.reshape slashed) ≠ slashed := by
  intro tag closed slashed
  have ends : ['>'] <:+ tag := by decide
  have closedEnds : ['/','>'] <:+ closed := by decide
  have closes : closeTag.reshape tag = closed := by decide
  obtain ⟨selfClosing,opens⟩ := (reshaped_and_back tag).2.1 ends (by decide)
  obtain ⟨isOpen,_⟩ := (reshaped_and_back closed).2.2.1 closedEnds (by decide)
  rw [closes] at selfClosing opens
  rw [opens] at isOpen
  exact ⟨ends,by decide,closes,selfClosing,closedEnds,by decide,opens,isOpen,
    mt (reshaped_and_back slashed).2.2.2.mp (by decide)⟩

end TagIntent

theorem TagPayload.opened_ne_kept_iff {tag : Text} :
    TagPayload.ofTag tag .openTag ≠ .ofTag tag .keep ↔ ['/','>'] <:+ tag := by
  by_cases ends : ['/','>'] <:+ tag
  · refine iff_of_true ?_ ends
    obtain ⟨head,rfl⟩ := ends
    rw [ofTag,TagIntent.openTag_append]
    simp [ofTag,TagIntent.reshape]
  · refine iff_of_false (not_not_intro ?_) ends
    rw [ofTag,TagIntent.openTag_of_not_suffix ends]
    rfl

end TagOverlay
