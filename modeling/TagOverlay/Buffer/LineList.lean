import TagOverlay.Buffer.Basic

/-! A buffer given by its lines, as an editor hands them over. -/
namespace TagOverlay

structure LineList where
  toArray : Array Text

namespace LineList

def ofList (lines : List Text) : LineList :=
  ⟨lines.toArray⟩

instance : TextBuffer LineList where
  lines buffer := buffer.toArray.toList
  lineCount buffer := buffer.toArray.size
  line? buffer number := if number = 0 then none else buffer.toArray[number - 1]?
  length_lines _ := rfl
  line?_zero _ := rfl
  line?_succ buffer index := by simp

end LineList

end TagOverlay
