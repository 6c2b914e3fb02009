import TagOverlay.Text.Basic

/-! Needles: literals made ready to be looked for. A scan reads a text once, from left to right, and
keeps how many characters at the end of what it has read begin the needle; it never goes back in the
text. Main statements: reading one more character keeps that number right (`overlap_next`), and a
scan stops at the first place where the whole needle has been read (`scan?_eq_some_iff`). -/
namespace TagOverlay

/-- The needle's first `count` characters end the text, and no larger number of them does. -/
structure Text.Overlap (needle text : Text) (count : Nat) : Prop where
  le_length : count ≤ needle.length
  ends : needle.take count <:+ text
  greatest : ∀ more ≤ needle.length, needle.take more <:+ text → more ≤ count

/-- The needle's first `count` characters end the text, and no larger number of them does that could
go on with `c`. -/
structure Text.Reach (needle text : Text) (c : Char) (count : Nat) : Prop where
  le_length : count ≤ needle.length
  ends : needle.take count <:+ text
  greatest : ∀ more < needle.length, needle.take more <:+ text → needle[more]? = some c →
    more ≤ count

namespace Text

theorem overlap_nil (needle : Text) : Overlap needle [] 0 where
  le_length := Nat.zero_le _
  ends := by simp
  greatest more le ends := by
    have := ends.length_le
    rwa [List.length_take_of_le le] at this

/-- The whole needle ends a text exactly if it overlaps with it as a whole. -/
theorem Overlap.eq_length_iff {needle text : Text} {count : Nat}
    (overlap : Overlap needle text count) : count = needle.length ↔ needle <:+ text := by
  constructor
  · intro whole
    simpa [whole] using overlap.ends
  · intro ends
    exact Nat.le_antisymm overlap.le_length
      (overlap.greatest _ (Nat.le_refl _) (by simpa using ends))

theorem Overlap.reach {needle text : Text} {count : Nat} (overlap : Overlap needle text count)
    (c : Char) : Reach needle text c count where
  le_length := overlap.le_length
  ends := overlap.ends
  greatest more lt ends _ := overlap.greatest more (Nat.le_of_lt lt) ends

private theorem take_succ_suffix_iff {needle text : Text} {c : Char} {more : Nat}
    (lt : more < needle.length) :
    needle.take (more + 1) <:+ text ++ [c]
      ↔ needle.take more <:+ text ∧ needle[more]? = some c := by
  rw [List.take_succ_eq_append_getElem lt,← List.reverse_prefix,List.reverse_append,
    List.reverse_append,List.reverse_singleton,List.reverse_singleton,List.singleton_append,
    List.singleton_append,List.cons_prefix_cons,List.reverse_prefix,
    List.getElem?_eq_getElem lt,Option.some.injEq,and_comm]

/-- Every beginning of the needle that ends a longer text is within reach of the one before. -/
private theorem Reach.le_succ {needle text : Text} {c : Char} {count more : Nat}
    (reach : Reach needle text c count) (le : more ≤ needle.length)
    (ends : needle.take more <:+ text ++ [c]) : more ≤ count + 1 := by
  cases more with
  | zero => exact Nat.zero_le _
  | succ more =>
    obtain ⟨shorter,next⟩ := (take_succ_suffix_iff le).1 ends
    exact Nat.succ_le_succ (reach.greatest more le shorter next)

theorem Reach.overlap_succ {needle text : Text} {c : Char} {count : Nat}
    (reach : Reach needle text c count) (here : needle[count]? = some c) :
    Overlap needle (text ++ [c]) (count + 1) where
  le_length := (List.getElem?_eq_some_iff.1 here).1
  ends := (take_succ_suffix_iff (List.getElem?_eq_some_iff.1 here).1).2 ⟨reach.ends,here⟩
  greatest _ le ends := reach.le_succ le ends

theorem Reach.overlap_zero {needle text : Text} {c : Char} (reach : Reach needle text c 0)
    (notHere : needle[0]? ≠ some c) : Overlap needle (text ++ [c]) 0 where
  le_length := Nat.zero_le _
  ends := by simp
  greatest more le ends := by
    cases more with
    | zero => exact Nat.le_refl _
    | succ more =>
      obtain ⟨shorter,next⟩ := (take_succ_suffix_iff le).1 ends
      obtain rfl := Nat.le_zero.1 (reach.greatest more le shorter next)
      exact absurd next notHere

/-- A shorter end of a text also ends what is left without the first character. -/
private theorem suffix_tail_of_length_lt {ending text : Text} (ends : ending <:+ text)
    (lt : ending.length < text.length) : ending <:+ text.tail := by
  cases text with
  | nil => exact ends
  | cons c rest =>
    rcases List.suffix_cons_iff.1 ends with rfl | ends
    · exact absurd lt (Nat.lt_irrefl _)
    · exact ends

theorem Overlap.lt_of_tail {needle : Text} {count border : Nat} (positive : 0 < count)
    (le : count ≤ needle.length) (overlap : Overlap needle (needle.take count).tail border) :
    border < count := by
  have := overlap.ends.length_le
  rw [List.length_take_of_le overlap.le_length,List.length_tail,
    List.length_take_of_le le] at this
  omega

/-- When the needle goes on otherwise, what is left of it is how far it overlaps with its own first
characters but the very first. -/
theorem Reach.of_tail {needle text : Text} {c : Char} {count border : Nat}
    (reach : Reach needle text c count) (notHere : needle[count]? ≠ some c)
    (overlap : Overlap needle (needle.take count).tail border) :
    Reach needle text c border where
  le_length := overlap.le_length
  ends := overlap.ends.trans ((List.tail_suffix _).trans reach.ends)
  greatest more lt ends next := by
    have le := reach.greatest more lt ends next
    have ne : more ≠ count := fun same => notHere (same ▸ next)
    have lengths : (needle.take more).length = more ∧ (needle.take count).length = count :=
      ⟨List.length_take_of_le (Nat.le_of_lt lt),List.length_take_of_le reach.le_length⟩
    exact overlap.greatest more (Nat.le_of_lt lt) (suffix_tail_of_length_lt
      (List.suffix_of_suffix_length_le ends reach.ends (by omega)) (by omega))

end Text

open Text (Overlap Reach)

namespace Needle

/-- How many characters of the needle have been read after one more: the given number and the new
one, or as many as are left when the needle goes on otherwise. -/
def step (chars : Array Char) (borders : Array Nat) (c : Char) : (fuel count : Nat) → Nat
  | 0,count => if chars[count]? = some c then count + 1 else 0
  | fuel + 1,count =>
      if chars[count]? = some c then count + 1
      else if count = 0 then 0
      else step chars borders c fuel (borders.getD count 0)

/-- For each number up to a bound, `borders` tells how far the needle overlaps with so many of its
own first characters but the very first. -/
def Borders (needle : Text) (borders : Array Nat) (bound : Nat) : Prop :=
  ∀ count, 0 < count → count ≤ bound →
    Overlap needle (needle.take count).tail (borders.getD count 0)

theorem overlap_step {needle text : Text} {borders : Array Nat} {bound : Nat} {c : Char}
    (valid : Borders needle borders bound) {fuel count : Nat} (enough : count ≤ fuel)
    (le : count ≤ bound) (reach : Reach needle text c count) :
    Overlap needle (text ++ [c]) (step needle.toArray borders c fuel count) := by
  induction fuel generalizing count with
  | zero =>
    obtain rfl := Nat.le_zero.1 enough
    rw [step,List.getElem?_toArray]
    split
    next here => exact reach.overlap_succ here
    next notHere => exact reach.overlap_zero notHere
  | succ fuel ih =>
    rw [step,List.getElem?_toArray]
    split
    next here => exact reach.overlap_succ here
    next notHere =>
      split
      next zero => subst zero; exact reach.overlap_zero notHere
      next positive =>
        have border := valid count (by omega) le
        have shorter := border.lt_of_tail (by omega) reach.le_length
        exact ih (by omega) (by omega) (reach.of_tail notHere border)

/-- Extends `borders` over the rest of the needle, `count` characters of which have been read. -/
def bordersOf.go (chars : Array Char) : (borders : Array Nat) → (count : Nat) → Text → Array Nat
  | borders,_,[] => borders
  | borders,count,c :: rest =>
      let next := step chars borders c count count
      go chars (borders.push next) next rest

/-- The borders of a needle, which are found by looking for the needle in itself. -/
def bordersOf (needle : Text) : Array Nat :=
  bordersOf.go needle.toArray #[0,0] 0 needle.tail

private theorem borders_push {needle : Text} {borders : Array Nat} {bound next : Nat}
    (valid : Borders needle borders bound) (size : borders.size = bound + 1)
    (overlap : Overlap needle (needle.take (bound + 1)).tail next) :
    Borders needle (borders.push next) (bound + 1) := by
  intro count positive le
  by_cases last : count = bound + 1
  · subst last
    have : (borders.push next).getD (bound + 1) 0 = next := by simp [← size]
    rwa [this]
  · have : (borders.push next).getD count 0 = borders.getD count 0 := by
      rw [Array.getD_eq_getD_getElem?,Array.getD_eq_getD_getElem?,
        Array.getElem?_push_lt (by omega),Array.getElem?_eq_getElem (by omega)]
    rw [this]
    exact valid count positive (by omega)

private theorem borders_go {done : Text} {borders : Array Nat} {count : Nat} (rest : Text)
    (nonempty : done ≠ []) (size : borders.size = done.length + 1)
    (valid : Borders (done ++ rest) borders done.length)
    (overlap : Overlap (done ++ rest) done.tail count) :
    Borders (done ++ rest) (bordersOf.go (done ++ rest).toArray borders count rest)
      (done ++ rest).length := by
  induction rest generalizing done borders count with
  | nil => simpa [bordersOf.go] using valid
  | cons c rest ih =>
    have positive := List.length_pos_iff.2 nonempty
    have shorter : count ≤ done.length := by
      have := overlap.ends.length_le
      rw [List.length_take_of_le overlap.le_length,List.length_tail] at this
      omega
    have next := overlap_step valid (Nat.le_refl _) shorter (overlap.reach c)
    have whole : done ++ c :: rest = (done ++ [c]) ++ rest := by simp
    have tail : done.tail ++ [c] = (done ++ [c]).tail := (List.tail_append_of_ne_nil nonempty).symm
    rw [bordersOf.go]
    rw [tail] at next
    rw [whole] at valid next ⊢
    apply ih (by simp) (by simp [size]) _ next
    rw [List.length_append]
    apply borders_push valid size
    have : ((done ++ [c]) ++ rest).take (done.length + 1) = done ++ [c] :=
      List.take_left' (by simp)
    rwa [this]

theorem borders_bordersOf (needle : Text) : Borders needle (bordersOf needle) needle.length := by
  cases needle with
  | nil => intro count positive le; exact absurd positive (by simpa using le)
  | cons c rest =>
    rw [← List.singleton_append]
    apply borders_go rest (by simp) rfl
    · intro count positive le
      obtain rfl : count = 1 := by simp at le; omega
      exact Text.overlap_nil _
    · exact Text.overlap_nil _

end Needle

/-- A literal with what a scan for it has to know. -/
structure Needle where
  text : Text
  width : Nat
  chars : Array Char
  borders : Array Nat
  width_eq : width = text.width
  chars_eq : chars = text.toArray
  borders_valid : Needle.Borders text borders text.length

namespace Needle

def ofText (text : Text) : Needle where
  text := text
  width := text.width
  chars := text.toArray
  borders := bordersOf text
  width_eq := rfl
  chars_eq := rfl
  borders_valid := borders_bordersOf text

@[simp] theorem text_ofText (text : Text) : (ofText text).text = text := rfl

/-- How many characters of the needle have been read after `count` of them and another one. -/
def next (needle : Needle) (count : Nat) (c : Char) : Nat :=
  step needle.chars needle.borders c count count

theorem overlap_next {needle : Needle} {text : Text} {count : Nat}
    (overlap : Overlap needle.text text count) (c : Char) :
    Overlap needle.text (text ++ [c]) (needle.next count c) := by
  rw [next,needle.chars_eq]
  exact overlap_step needle.borders_valid (Nat.le_refl _) overlap.le_length (overlap.reach c)

/-- Reads on, from byte `offset`, until the whole needle has been read; `count` characters of it
have been read already. Gives the offset just after the needle and the rest of the text. -/
def scan? (needle : Needle) : (count offset : Nat) → Text → Option (Nat × Text)
  | count,offset,[] => if count = needle.chars.size then some (offset,[]) else none
  | count,offset,c :: rest =>
      if count = needle.chars.size then some (offset,c :: rest)
      else scan? needle (needle.next count c) (offset + c.utf8Size) rest

/-- The whole needle has been read exactly if it ends what has been read. -/
theorem eq_size_iff {needle : Needle} {before : Text} {count : Nat}
    (overlap : Overlap needle.text before count) :
    count = needle.chars.size ↔ needle.text <:+ before := by
  rw [needle.chars_eq,List.size_toArray,overlap.eq_length_iff]

/-- The needle ends what has been read, and for the first time, once `more` has been read too. -/
def FirstEnds (needle : Needle) (before more : Text) : Prop :=
  needle.text <:+ before ++ more ∧
    ∀ fewer, fewer <+: more → needle.text <:+ before ++ fewer → fewer = more

theorem firstEnds_nil {needle : Needle} {before more : Text} (ends : needle.text <:+ before) :
    needle.FirstEnds before more ↔ more = [] := by
  constructor
  · intro ⟨_,first⟩
    exact (first [] List.nil_prefix (by simpa using ends)).symm
  · rintro rfl
    exact ⟨by simpa using ends,fun _ short _ => List.prefix_nil.1 short⟩

theorem firstEnds_cons {needle : Needle} {before more : Text} {c : Char}
    (notYet : ¬ needle.text <:+ before) :
    needle.FirstEnds before (c :: more) ↔ needle.FirstEnds (before ++ [c]) more := by
  constructor
  · intro ⟨ends,first⟩
    refine ⟨by simpa using ends,fun fewer short ends => ?_⟩
    exact (List.cons.inj (first (c :: fewer) (List.cons_prefix_cons.2 ⟨rfl,short⟩)
      (by simpa using ends))).2
  · intro ⟨ends,first⟩
    refine ⟨by simpa using ends,fun fewer short sooner => ?_⟩
    cases fewer with
    | nil => exact absurd (by simpa using sooner) notYet
    | cons d fewer =>
      obtain ⟨rfl,shorter⟩ := List.cons_prefix_cons.1 short
      rw [first fewer shorter (by simpa using sooner)]

/-- A scan stops at the first place where the needle ends what has been read. -/
theorem scan?_eq_some_iff {needle : Needle} {before text rest : Text} {count offset stop : Nat}
    (overlap : Overlap needle.text before count) :
    needle.scan? count offset text = some (stop,rest) ↔
      ∃ more, text = more ++ rest ∧ stop = offset + more.width ∧ needle.FirstEnds before more := by
  induction text generalizing before count offset with
  | nil =>
    rw [scan?]
    split
    next whole =>
      simp only [firstEnds_nil ((eq_size_iff overlap).1 whole)]
      grind [Text.width_nil]
    next partly =>
      refine ⟨nofun,?_⟩
      intro given
      obtain ⟨more,none,_,ends,_⟩ := given
      obtain ⟨rfl,_⟩ := List.nil_eq_append_iff.1 none
      exact absurd ((eq_size_iff overlap).2 (by simpa using ends)) partly
  | cons c text ih =>
    rw [scan?]
    split
    next whole =>
      simp only [firstEnds_nil ((eq_size_iff overlap).1 whole)]
      grind [Text.width_nil]
    next partly =>
      have notYet := mt (eq_size_iff overlap).2 partly
      rw [ih (overlap_next overlap c)]
      constructor
      · intro given
        obtain ⟨more,rfl,rfl,first⟩ := given
        exact ⟨c :: more,rfl,by rw [Text.width_cons]; omega,(firstEnds_cons notYet).2 first⟩
      · intro given
        obtain ⟨more,whole,rfl,first⟩ := given
        cases more with
        | nil => exact absurd (by simpa using first.1) notYet
        | cons d more =>
          obtain ⟨rfl,rfl⟩ := List.cons.inj whole
          exact ⟨more,rfl,by rw [Text.width_cons]; omega,(firstEnds_cons notYet).1 first⟩

/-- A scan finds nothing exactly if the needle never ends what has been read. -/
theorem scan?_eq_none_iff {needle : Needle} {before text : Text} {count offset : Nat}
    (overlap : Overlap needle.text before count) :
    needle.scan? count offset text = none ↔
      ∀ more, more <+: text → ¬ needle.text <:+ before ++ more := by
  induction text generalizing before count offset with
  | nil =>
    rw [scan?]
    split
    next whole =>
      have ends := (eq_size_iff overlap).1 whole
      simp [ends]
    next partly =>
      have notYet := mt (eq_size_iff overlap).2 partly
      simp [notYet]
  | cons c text ih =>
    rw [scan?]
    split
    next whole =>
      have ends := (eq_size_iff overlap).1 whole
      exact ⟨nofun,fun never => absurd (by simpa using ends) (never [] List.nil_prefix)⟩
    next partly =>
      have notYet := mt (eq_size_iff overlap).2 partly
      rw [ih (overlap_next overlap c)]
      constructor
      · intro never more short
        cases more with
        | nil => simpa using notYet
        | cons d more =>
          obtain ⟨rfl,shorter⟩ := List.cons_prefix_cons.1 short
          simpa using never more shorter
      · intro never more short
        simpa using never (c :: more) (List.cons_prefix_cons.2 ⟨rfl,short⟩)

end Needle

end TagOverlay
