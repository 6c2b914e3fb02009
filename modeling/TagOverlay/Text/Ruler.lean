import TagOverlay.Text.Basic

/-! Rulers: texts with the rest that begins at each of their bytes. Places and parts are then found
without reading the text from its beginning again. Main statement: a ruler gives the same parts as
the text itself (`Ruler.slice?_eq`). -/
namespace TagOverlay

namespace Text

theorem dropBytes?_cons {bytes : Nat} (positive : 0 < bytes) (c : Char) (rest : Text) :
    dropBytes? bytes (c :: rest)
      = if c.utf8Size ≤ bytes then dropBytes? (bytes - c.utf8Size) rest else none := by
  apply Option.ext
  intro part
  rw [dropBytes?_eq_some_iff,Option.ite_none_right_eq_some,dropBytes?_eq_some_iff]
  constructor
  · intro given
    obtain ⟨head,whole,filled⟩ := given
    cases head with
    | nil => rw [width_nil] at filled; omega
    | cons d head =>
      obtain ⟨rfl,rfl⟩ := List.cons.inj whole
      rw [width_cons] at filled
      exact ⟨by omega,head,rfl,by omega⟩
  · intro given
    obtain ⟨fits,head,rfl,filled⟩ := given
    exact ⟨c :: head,rfl,by rw [width_cons]; omega⟩

/-- The rest of the text from each byte on; there is none from a byte inside a character. -/
def rests : Text → List (Option Text)
  | [] => [some []]
  | c :: rest => some (c :: rest) :: (List.replicate (c.utf8Size - 1) none ++ rests rest)

theorem rests_getElem? (text : Text) (offset : Nat) :
    text.rests[offset]?.join = text.dropBytes? offset := by
  induction text generalizing offset with
  | nil =>
    cases offset with
    | zero => rfl
    | succ offset =>
      rw [rests,List.getElem?_cons_succ,List.getElem?_nil]
      rfl
  | cons c rest step =>
    have positive := c.utf8Size_pos
    cases offset with
    | zero => rw [dropBytes?_zero]; rfl
    | succ offset =>
      rw [rests,List.getElem?_cons_succ,dropBytes?_cons (Nat.succ_pos _)]
      split
      next fits =>
        rw [List.getElem?_append_right (by simp; omega),List.length_replicate,step]
        congr 1
        omega
      next inside =>
        rw [List.getElem?_append_left (by simp; omega),List.getElem?_replicate,
          if_pos (by omega)]
        rfl

/-- Collects into `found` the rest of the text from each byte on. -/
def rulerMarks (found : Array (Option Text)) : Text → Array (Option Text)
  | [] => found.push (some [])
  | c :: rest =>
      rulerMarks (found.push (some (c :: rest)) ++ Array.replicate (c.utf8Size - 1) none) rest

theorem toList_rulerMarks (found : Array (Option Text)) (text : Text) :
    (rulerMarks found text).toList = found.toList ++ text.rests := by
  induction text generalizing found with
  | nil => simp [rulerMarks,rests]
  | cons c rest step => simp [rulerMarks,rests,step]

theorem length_rests (text : Text) : text.rests.length = text.width + 1 := by
  induction text with
  | nil => rfl
  | cons c rest step =>
    have positive := c.utf8Size_pos
    rw [rests,List.length_cons,List.length_append,List.length_replicate,step,width_cons]
    omega

theorem size_rulerMarks (text : Text) : (rulerMarks #[] text).size = text.width + 1 := by
  rw [← Array.length_toList,toList_rulerMarks,← length_rests text]
  rfl

theorem rulerMarks_getElem? (text : Text) (offset : Nat) :
    (rulerMarks #[] text)[offset]?.join = text.dropBytes? offset := by
  rw [← Array.getElem?_toList,toList_rulerMarks]
  simpa using rests_getElem? text offset

end Text

/-- A text with the rest that begins at each of its bytes. -/
structure Ruler where
  text : Text
  marks : Array (Option Text)
  size_marks : marks.size = text.width + 1
  marks_eq : ∀ offset, marks[offset]?.join = text.dropBytes? offset

namespace Ruler

def ofText (text : Text) : Ruler where
  text := text
  marks := Text.rulerMarks #[] text
  size_marks := Text.size_rulerMarks text
  marks_eq := Text.rulerMarks_getElem? text

@[simp] theorem text_ofText (text : Text) : (ofText text).text = text := rfl

/-- The bytes of the text; one mark more is kept, for its end. -/
def width (ruler : Ruler) : Nat :=
  ruler.marks.size - 1

theorem width_eq (ruler : Ruler) : ruler.width = ruler.text.width := by
  rw [width,ruler.size_marks,Nat.add_sub_cancel]

/-- The rest of the text from a byte on. -/
def rest? (ruler : Ruler) (offset : Nat) : Option Text :=
  ruler.marks[offset]?.join

theorem rest?_eq (ruler : Ruler) (offset : Nat) :
    ruler.rest? offset = ruler.text.dropBytes? offset :=
  ruler.marks_eq offset

/-- Whether a character begins or the text ends at this byte. -/
def isBoundary (ruler : Ruler) (offset : Nat) : Bool :=
  (ruler.rest? offset).isSome

theorem isBoundary_eq (ruler : Ruler) (offset : Nat) :
    ruler.isBoundary offset = ruler.text.isBoundary offset := by
  rw [isBoundary,rest?_eq,Text.dropBytes?,Option.isSome_map,Text.isBoundary]

/-- The text from byte `start` to byte `stop`. -/
def slice? (ruler : Ruler) (start stop : Nat) : Option Text :=
  if start ≤ stop then
    (ruler.rest? start).bind fun rest => (Text.charsIn? (stop - start) rest).map rest.take
  else none

theorem slice?_eq (ruler : Ruler) (start stop : Nat) :
    ruler.slice? start stop = ruler.text.slice? start stop := by
  apply Option.ext
  intro part
  rw [Text.slice?_eq_some_iff,slice?,Option.ite_none_right_eq_some,Option.bind_eq_some_iff]
  simp only [rest?_eq,Option.map_eq_some_iff]
  constructor
  · intro given
    obtain ⟨ordered,rest,dropped,count,counted,rfl⟩ := given
    obtain ⟨before,whole,rfl⟩ := Text.dropBytes?_eq_some_iff.1 dropped
    obtain ⟨part,after,rfl,filled,rfl⟩ := Text.charsIn?_eq_some_iff.1 counted
    refine ⟨before,after,by simp [whole],rfl,?_⟩
    rw [Text.width_append,List.take_left]
    omega
  · intro given
    obtain ⟨before,after,whole,rfl,rfl⟩ := given
    refine ⟨by simp,part ++ after,
      Text.dropBytes?_eq_some_iff.2 ⟨before,by simp [whole],rfl⟩,part.length,?_,by simp⟩
    rw [Text.width_append,Nat.add_sub_cancel_left,Text.charsIn?_append]

end Ruler

end TagOverlay
