/-! Texts are lists of characters, addressed by the bytes of their UTF-8 form. A byte offset names
a place in a text only where a character ends, so every cut here may fail. -/
namespace TagOverlay

abbrev Text := List Char

namespace Text

/-- The number of bytes of the UTF-8 form. -/
def width (text : Text) : Nat :=
  text.foldl (fun bytes c => bytes + c.utf8Size) 0

private theorem foldl_width (text : Text) (start : Nat) :
    text.foldl (fun bytes c => bytes + c.utf8Size) start = start + width text := by
  induction text generalizing start with
  | nil => simp [width]
  | cons c rest step =>
    rw [width,List.foldl_cons,List.foldl_cons,step,step (0 + c.utf8Size)]
    omega

@[simp] theorem width_nil : width [] = 0 := rfl

@[simp] theorem width_cons (c : Char) (rest : Text) :
    width (c :: rest) = c.utf8Size + width rest := by
  rw [width,List.foldl_cons,foldl_width,Nat.zero_add]

@[simp] theorem width_append (left right : Text) :
    width (left ++ right) = width left + width right := by
  induction left with
  | nil => simp
  | cons c rest step => simp [step,Nat.add_assoc]

theorem width_pos {text : Text} (nonempty : text ≠ []) : 0 < width text := by
  cases text with
  | nil => exact absurd rfl nonempty
  | cons c rest => simpa using Nat.add_pos_left c.utf8Size_pos _

theorem width_eq_zero {text : Text} : width text = 0 ↔ text = [] := by
  constructor
  · intro zero
    by_cases nonempty : text = []
    · exact nonempty
    · have := width_pos nonempty; omega
  · rintro rfl; rfl

/-- Adds to `count` the characters that fill exactly `bytes` bytes. -/
def charsIn?.go : (bytes count : Nat) → Text → Option Nat
  | 0,count,_ => some count
  | _ + 1,_,[] => none
  | bytes + 1,count,c :: rest =>
      if c.utf8Size ≤ bytes + 1 then go (bytes + 1 - c.utf8Size) (count + 1) rest else none

/-- The number of characters that fill exactly the first `bytes` bytes. There is none when the text
is shorter or a character lies across that point. -/
def charsIn? (bytes : Nat) (text : Text) : Option Nat :=
  charsIn?.go bytes 0 text

/-- The text after its first `bytes` bytes. -/
def dropBytes? (bytes : Nat) (text : Text) : Option Text :=
  (charsIn? bytes text).map text.drop

/-- The text from byte offset `start` to byte offset `stop`. -/
def slice? (start stop : Nat) (text : Text) : Option Text :=
  if start ≤ stop then
    match charsIn? start text,charsIn? stop text with
    | some before,some through => some ((text.drop before).take (through - before))
    | _,_ => none
  else none

/-- Whether a character begins or the text ends at this byte offset. -/
def isBoundary (bytes : Nat) (text : Text) : Bool :=
  (charsIn? bytes text).isSome

private theorem charsIn_go_iff (text : Text) (bytes start count : Nat) :
    charsIn?.go bytes start text = some count ↔
      ∃ head rest, text = head ++ rest ∧ head.width = bytes ∧ count = start + head.length := by
  induction text generalizing bytes start with
  | nil =>
    cases bytes with
    | zero =>
      simp only [charsIn?.go,Option.some.injEq]
      constructor
      · rintro rfl; exact ⟨[],[],rfl,rfl,rfl⟩
      · intro given
        obtain ⟨head,rest,whole,_,rfl⟩ := given
        obtain ⟨rfl,rfl⟩ := List.append_eq_nil_iff.1 whole.symm
        rfl
    | succ bytes =>
      simp only [charsIn?.go,reduceCtorEq,false_iff]
      intro given
      obtain ⟨head,rest,whole,filled,_⟩ := given
      obtain ⟨rfl,rfl⟩ := List.append_eq_nil_iff.1 whole.symm
      simp at filled
  | cons c text step =>
    cases bytes with
    | zero =>
      simp only [charsIn?.go,Option.some.injEq]
      constructor
      · rintro rfl; exact ⟨[],c :: text,rfl,rfl,rfl⟩
      · intro given
        obtain ⟨head,rest,_,filled,rfl⟩ := given
        rw [width_eq_zero.1 filled]
        rfl
    | succ bytes =>
      rw [charsIn?.go]
      split
      next fits =>
        rw [step]
        constructor
        · intro given
          obtain ⟨head,rest,rfl,filled,rfl⟩ := given
          exact ⟨c :: head,rest,rfl,by rw [width_cons]; omega,by rw [List.length_cons]; omega⟩
        · intro given
          obtain ⟨head,rest,whole,filled,rfl⟩ := given
          cases head with
          | nil => simp at filled
          | cons d head =>
            obtain ⟨rfl,rfl⟩ := List.cons.inj whole
            rw [width_cons] at filled
            exact ⟨head,rest,rfl,by omega,by rw [List.length_cons]; omega⟩
      next tooWide =>
        simp only [reduceCtorEq,false_iff]
        intro given
        obtain ⟨head,rest,whole,filled,_⟩ := given
        cases head with
        | nil => simp at filled
        | cons d head =>
          obtain ⟨rfl,rfl⟩ := List.cons.inj whole
          rw [width_cons] at filled
          omega

theorem charsIn?_eq_some_iff {bytes count : Nat} {text : Text} :
    charsIn? bytes text = some count ↔
      ∃ head rest, text = head ++ rest ∧ head.width = bytes ∧ head.length = count := by
  rw [charsIn?,charsIn_go_iff]
  simp only [Nat.zero_add,eq_comm]

theorem charsIn?_append (head rest : Text) :
    charsIn? head.width (head ++ rest) = some head.length :=
  charsIn?_eq_some_iff.2 ⟨head,rest,rfl,rfl,rfl⟩

theorem dropBytes?_eq_some_iff {bytes : Nat} {text rest : Text} :
    dropBytes? bytes text = some rest ↔ ∃ head, text = head ++ rest ∧ head.width = bytes := by
  rw [dropBytes?,Option.map_eq_some_iff]
  constructor
  · intro given
    obtain ⟨count,counted,rfl⟩ := given
    obtain ⟨head,rest,rfl,filled,rfl⟩ := charsIn?_eq_some_iff.1 counted
    exact ⟨head,by simp,filled⟩
  · intro given
    obtain ⟨head,rfl,rfl⟩ := given
    exact ⟨head.length,charsIn?_append head rest,by simp⟩

theorem dropBytes?_zero (text : Text) : dropBytes? 0 text = some text :=
  dropBytes?_eq_some_iff.2 ⟨[],rfl,rfl⟩

/-- Of two beginnings of a text the narrower one begins the other. -/
theorem prefix_of_width_le {text head rest longer after : Text} (whole : text = head ++ rest)
    (same : text = longer ++ after) (le : head.width ≤ longer.width) :
    ∃ part, longer = head ++ part ∧ rest = part ++ after := by
  rcases List.append_eq_append_iff.1 (whole.symm.trans same) with
    ⟨part,rfl,rfl⟩ | ⟨part,rfl,rfl⟩
  · exact ⟨part,rfl,rfl⟩
  · rw [width_append] at le
    obtain rfl : part = [] := width_eq_zero.1 (by omega)
    exact ⟨[],by simp,by simp⟩

/-- Bytes may be dropped in two goes. -/
theorem dropBytes?_add {bytes : Nat} {text rest : Text}
    (dropped : dropBytes? bytes text = some rest) (more : Nat) :
    dropBytes? (bytes + more) text = dropBytes? more rest := by
  obtain ⟨head,whole,rfl⟩ := dropBytes?_eq_some_iff.1 dropped
  apply Option.ext
  intro after
  rw [dropBytes?_eq_some_iff,dropBytes?_eq_some_iff]
  constructor
  · intro given
    obtain ⟨longer,same,filled⟩ := given
    obtain ⟨part,rfl,rfl⟩ := prefix_of_width_le whole same (by omega)
    rw [width_append] at filled
    exact ⟨part,rfl,by omega⟩
  · intro given
    obtain ⟨part,rfl,rfl⟩ := given
    exact ⟨head ++ part,by simpa using whole,by rw [width_append]⟩

theorem slice?_eq_some_iff {start stop : Nat} {text part : Text} :
    slice? start stop text = some part ↔
      ∃ before after, text = before ++ part ++ after ∧
        before.width = start ∧ (before ++ part).width = stop := by
  constructor
  · intro sliced
    rw [slice?] at sliced
    split at sliced
    next ordered =>
      split at sliced
      next before through atStart atStop =>
        obtain ⟨head,rest,rfl,atHead,rfl⟩ := charsIn?_eq_some_iff.1 atStart
        obtain ⟨longer,after,same,atLonger,rfl⟩ := charsIn?_eq_some_iff.1 atStop
        obtain rfl := Option.some.inj sliced
        rcases List.append_eq_append_iff.1 same with ⟨part,rfl,rfl⟩ | ⟨extra,rfl,rfl⟩
        · exact ⟨head,after,by simp,atHead,by simpa using atLonger⟩
        · have : extra = [] := width_eq_zero.1 (by rw [width_append] at atHead; omega)
          subst this
          exact ⟨longer,rest,by simp,by simpa using atHead,by simpa using atLonger⟩
      next => simp at sliced
    next => simp at sliced
  · intro given
    obtain ⟨before,after,rfl,rfl,rfl⟩ := given
    rw [slice?,if_pos (by simp),charsIn?_append (before ++ part) after,List.append_assoc,
      charsIn?_append]
    simp

theorem isBoundary_iff {bytes : Nat} {text : Text} :
    isBoundary bytes text ↔ ∃ head rest, text = head ++ rest ∧ head.width = bytes := by
  rw [isBoundary,Option.isSome_iff_exists]
  constructor
  · intro given
    obtain ⟨count,counted⟩ := given
    obtain ⟨head,rest,whole,filled,_⟩ := charsIn?_eq_some_iff.1 counted
    exact ⟨head,rest,whole,filled⟩
  · intro given
    obtain ⟨head,rest,rfl,rfl⟩ := given
    exact ⟨_,charsIn?_append head rest⟩

/-- The text before `ending`, if the text ends so. -/
def stripEnd? (ending text : Text) : Option Text :=
  if ending.isSuffixOf text then some (text.take (text.length - ending.length)) else none

theorem stripEnd?_eq_some_iff {ending text head : Text} :
    stripEnd? ending text = some head ↔ text = head ++ ending := by
  rw [stripEnd?]
  constructor
  · intro stripped
    split at stripped
    next isEnd =>
      obtain ⟨before,rfl⟩ := List.isSuffixOf_iff_suffix.1 isEnd
      simpa using stripped
    next => simp at stripped
  · rintro rfl
    rw [if_pos (List.isSuffixOf_iff_suffix.2 ⟨head,rfl⟩)]
    simp

theorem stripEnd?_eq_none_iff {ending text : Text} : stripEnd? ending text = none ↔ ¬ ending <:+ text := by
  rw [stripEnd?,← List.isSuffixOf_iff_suffix]
  split
  next isEnd => simp [isEnd]
  next other => simp [other]

end Text

end TagOverlay
