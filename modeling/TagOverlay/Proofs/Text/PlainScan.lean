import TagOverlay.Text.Find

/-! Plain scans of a flat text. They try a literal at one character after the other and know of no
lines; the scans with prepared needles give the same places. -/
namespace TagOverlay.Text

/-- The byte offsets of a literal from `offset` on, once `skip` more characters have been passed. -/
def scanAll (needle : Text) : (skip offset : Nat) → Text → List Nat
  | _,_,[] => []
  | skip + 1,offset,c :: rest => scanAll needle skip (offset + c.utf8Size) rest
  | 0,offset,c :: rest =>
      if needle <+: c :: rest then
        offset :: scanAll needle (needle.length - 1) (offset + c.utf8Size) rest
      else scanAll needle 0 (offset + c.utf8Size) rest

/-- The places of a literal, from left to right, each after the end of the one before. -/
def occurrences (needle text : Text) : List Nat :=
  scanAll needle 0 0 text

/-- The offset just after the first place of a literal at byte `start` or later, where the text
begins at byte `offset`. -/
def scanFrom? (needle : Text) (start : Nat) : (offset : Nat) → Text → Option Nat
  | _,[] => none
  | offset,c :: rest =>
      if start ≤ offset ∧ needle <+: c :: rest then some (offset + needle.width)
      else scanFrom? needle start (offset + c.utf8Size) rest

/-- The offset just after the first place of a literal at byte `start` or later. -/
def endAfter? (needle : Text) (start : Nat) (text : Text) : Option Nat :=
  scanFrom? needle start 0 text

theorem prefix_append_cons_iff {needle : Text} {c : Char} (absent : c ∉ needle) (line rest : Text) :
    needle <+: line ++ c :: rest ↔ needle <+: line := by
  constructor
  · intro ⟨tail,whole⟩
    rcases List.append_eq_append_iff.mp whole with ⟨part,same,_⟩ | ⟨part,same,after⟩
    · exact ⟨part,same.symm⟩
    · cases part with
      | nil => exact ⟨[],by simpa using same⟩
      | cons d part =>
        obtain ⟨equal,_⟩ := List.cons.inj after
        exact absurd (by simp [same,equal]) absent
  · intro short
    exact short.trans (List.prefix_append _ _)

/-- A character that is not in the literal cuts a scan in two. -/
theorem scanAll_append_cons {needle : Text} {c : Char} (nonempty : needle ≠ [])
    (absent : c ∉ needle) (line rest : Text) (skip offset : Nat) (inside : skip ≤ line.length) :
    scanAll needle skip offset (line ++ c :: rest) =
      scanAll needle skip offset line ++ scanAll needle 0 (offset + line.width + c.utf8Size) rest := by
  induction line generalizing skip offset with
  | nil =>
    obtain rfl : skip = 0 := by simpa using inside
    have notHere : ¬ needle <+: c :: rest := by
      have := prefix_append_cons_iff absent [] rest
      simpa [nonempty] using this
    simp [scanAll,notHere]
  | cons d line ih =>
    have widths : offset + d.utf8Size + width line = offset + width (d :: line) := by
      rw [width_cons,Nat.add_assoc]
    cases skip with
    | succ skip =>
      have fewer : skip ≤ line.length := by simpa using inside
      rw [List.cons_append,scanAll,scanAll,ih _ _ fewer,widths]
    | zero =>
      rw [List.cons_append,scanAll,scanAll,← List.cons_append]
      by_cases here : needle <+: d :: line
      · have fits : needle.length - 1 ≤ line.length := by
          have := here.length_le
          rw [List.length_cons] at this
          omega
        rw [if_pos ((prefix_append_cons_iff absent _ _).mpr here),if_pos here,ih _ _ fits,widths,
          List.cons_append]
      · rw [if_neg (mt (prefix_append_cons_iff absent _ _).mp here),if_neg here,
          ih _ _ (Nat.zero_le _),widths]

theorem scanAll_offset (needle text : Text) (skip offset : Nat) :
    scanAll needle skip offset text = (scanAll needle skip 0 text).map (offset + ·) := by
  induction text generalizing skip offset with
  | nil => rfl
  | cons c rest ih =>
    cases skip with
    | succ skip =>
      rw [scanAll,scanAll,ih skip (offset + c.utf8Size),ih skip (0 + c.utf8Size)]
      simp [Nat.add_assoc]
    | zero =>
      rw [scanAll,scanAll]
      split
      next =>
        rw [ih _ (offset + c.utf8Size),ih _ (0 + c.utf8Size)]
        simp [Nat.add_assoc]
      next =>
        rw [ih _ (offset + c.utf8Size),ih _ (0 + c.utf8Size)]
        simp [Nat.add_assoc]

theorem occurrences_append_cons {needle : Text} {c : Char} (nonempty : needle ≠ [])
    (absent : c ∉ needle) (line rest : Text) :
    occurrences needle (line ++ c :: rest) =
      occurrences needle line ++ (occurrences needle rest).map (line.width + c.utf8Size + ·) := by
  rw [occurrences,scanAll_append_cons nonempty absent _ _ _ _ (Nat.zero_le _),
    scanAll_offset needle rest,Nat.zero_add]
  rfl

theorem FirstPlace.length_rest_lt {needle text before after : Text} (nonempty : needle ≠ [])
    (place : FirstPlace needle text before after) : after.length < text.length := by
  have positive := List.length_pos_iff.mpr nonempty
  rw [place.whole,List.length_append,List.length_append]
  omega

theorem FirstPlace.cons {needle text before after : Text} {c : Char}
    (place : FirstPlace needle text (c :: before) after) :
    ∃ rest, text = c :: rest ∧ ¬ needle <+: text ∧ FirstPlace needle rest before after := by
  have whole : text = c :: (before ++ needle ++ after) := by simpa using place.whole
  refine ⟨before ++ needle ++ after,whole,?_,rfl,?_⟩
  · intro ⟨later,begins⟩
    have le := place.first [] later (by simpa using begins.symm)
    have positive := c.utf8Size_pos
    rw [width_cons,width_nil] at le
    omega
  · intro earlier later split
    have le := place.first (c :: earlier) later (by rw [whole,split]; simp)
    simpa using le

theorem scanAll_skip (needle head rest : Text) (offset : Nat) :
    scanAll needle head.length offset (head ++ rest) = scanAll needle 0 (offset + head.width) rest := by
  induction head generalizing offset with
  | nil => rfl
  | cons c head ih => rw [List.length_cons,List.cons_append,scanAll,ih,width_cons,Nat.add_assoc]

theorem scanAll_of_firstPlace {needle text before after : Text} (nonempty : needle ≠ [])
    (place : FirstPlace needle text before after) (offset : Nat) :
    scanAll needle 0 offset text = (offset + before.width) ::
      scanAll needle 0 (offset + (before ++ needle).width) after := by
  induction before generalizing text offset with
  | nil =>
    obtain ⟨c,head,rfl⟩ := List.exists_cons_of_ne_nil nonempty
    have whole : text = c :: (head ++ after) := by simpa using place.whole
    rw [whole,scanAll,if_pos ⟨after,by simp⟩,List.length_cons,Nat.add_sub_cancel,scanAll_skip]
    simp [Nat.add_assoc]
  | cons c before ih =>
    obtain ⟨rest,rfl,notHere,later⟩ := place.cons
    rw [scanAll,if_neg notHere,ih later]
    simp [Nat.add_assoc]

theorem occurrences_of_firstPlace {needle text before after : Text} (nonempty : needle ≠ [])
    (place : FirstPlace needle text before after) :
    occurrences needle text =
      before.width :: (occurrences needle after).map ((before ++ needle).width + ·) := by
  rw [occurrences,scanAll_of_firstPlace nonempty place,scanAll_offset needle after]
  simp only [Nat.zero_add,occurrences]

theorem scanAll_of_not_infix {needle text : Text} (nowhere : ¬ needle <:+: text) (offset : Nat) :
    scanAll needle 0 offset text = [] := by
  induction text generalizing offset with
  | nil => rfl
  | cons c rest ih =>
    have notHere : ¬ needle <+: c :: rest := fun here => nowhere here.isInfix
    have notLater : ¬ needle <:+: rest := fun later => nowhere (later.trans (List.suffix_cons _ _).isInfix)
    rw [scanAll,if_neg notHere,ih notLater]

theorem scanFrom?_of_le {needle before suffix : Text} {start offset : Nat}
    (reaches : offset + before.width = start) :
    scanFrom? needle start offset (before ++ suffix) = scanFrom? needle start start suffix := by
  induction before generalizing offset with
  | nil =>
    obtain rfl : offset = start := by simpa using reaches
    rfl
  | cons c before ih =>
    have positive := c.utf8Size_pos
    rw [width_cons] at reaches
    have early : ¬ (start ≤ offset ∧ needle <+: c :: (before ++ suffix)) := fun both => by
      have := both.1
      omega
    rw [List.cons_append,scanFrom?,if_neg early,ih (by omega)]

theorem scanFrom?_of_firstPlace {needle text before after : Text} {start offset : Nat}
    (nonempty : needle ≠ []) (later : start ≤ offset) (place : FirstPlace needle text before after) :
    scanFrom? needle start offset text = some (offset + (before ++ needle).width) := by
  induction before generalizing text offset with
  | nil =>
    obtain ⟨c,head,rfl⟩ := List.exists_cons_of_ne_nil nonempty
    have whole : text = c :: (head ++ after) := by simpa using place.whole
    rw [whole,scanFrom?,if_pos ⟨later,after,by simp⟩,List.nil_append]
  | cons c before ih =>
    obtain ⟨rest,rfl,notHere,further⟩ := place.cons
    rw [scanFrom?,if_neg fun both => notHere both.2,ih (by omega) further]
    simp [Nat.add_assoc]

theorem scanFrom?_of_not_infix {needle text : Text} (nowhere : ¬ needle <:+: text)
    (start offset : Nat) : scanFrom? needle start offset text = none := by
  induction text generalizing offset with
  | nil => rfl
  | cons c rest ih =>
    have notHere : ¬ needle <+: c :: rest := fun here => nowhere here.isInfix
    have notLater : ¬ needle <:+: rest := fun later => nowhere (later.trans (List.suffix_cons _ _).isInfix)
    rw [scanFrom?,if_neg fun both => notHere both.2,ih notLater]

end TagOverlay.Text

namespace TagOverlay.Needle
open Text (FirstPlace occurrences occurrences_of_firstPlace)

theorem exists_firstPlace (needle : Needle) (text : Text) :
    ¬ needle.text <:+: text ∨ ∃ before after, FirstPlace needle.text text before after := by
  cases found : needle.find? text with
  | none => exact .inl (find?_eq_none_iff.mp found)
  | some offset =>
    obtain ⟨before,after,_,place⟩ := find?_eq_some_iff.mp found
    exact .inr ⟨before,after,place⟩

theorem places_eq_occurrences {needle : Needle} (nonempty : needle.text ≠ []) (text : Text) :
    needle.places text = occurrences needle.text text := by
  induction size : text.length using Nat.strongRecOn generalizing text with
  | _ size shorter =>
    subst size
    rcases needle.exists_firstPlace text with nowhere | ⟨before,after,place⟩
    · rw [places_eq_nil nowhere,occurrences,Text.scanAll_of_not_infix nowhere]
    · rw [places_of_firstPlace nonempty place,shorter _ (place.length_rest_lt nonempty) after rfl,
        occurrences_of_firstPlace nonempty place]

theorem exists_of_mem_places {needle : Needle} (nonempty : needle.text ≠ []) {text : Text}
    {offset : Nat} (member : offset ∈ needle.places text) :
    ∃ before after, text = before ++ needle.text ++ after ∧ before.width = offset := by
  induction size : text.length using Nat.strongRecOn generalizing text offset with
  | _ size shorter =>
    subst size
    rcases needle.exists_firstPlace text with nowhere | ⟨before,after,place⟩
    · rw [places_eq_nil nowhere] at member
      simp at member
    · rw [places_of_firstPlace nonempty place] at member
      rcases List.mem_cons.mp member with rfl | later
      · exact ⟨before,after,place.whole,rfl⟩
      · obtain ⟨further,inside,rfl⟩ := List.mem_map.mp later
        obtain ⟨between,rest,rfl,rfl⟩ := shorter _ (place.length_rest_lt nonempty) inside rfl
        exact ⟨before ++ needle.text ++ between,rest,by simp [place.whole],by simp [Nat.add_assoc]⟩

theorem find?_eq_head? {needle : Needle} (nonempty : needle.text ≠ []) (text : Text) :
    needle.find? text = (occurrences needle.text text).head? := by
  rcases needle.exists_firstPlace text with nowhere | ⟨before,after,place⟩
  · rw [find?_eq_none_iff.mpr nowhere,occurrences,Text.scanAll_of_not_infix nowhere,List.head?_nil]
  · rw [find?_eq_some_iff.mpr ⟨before,after,rfl,place⟩,occurrences_of_firstPlace nonempty place,
      List.head?_cons]

/-- What follows a character that is not in the literal is only looked at if nothing is before it. -/
theorem find?_append_cons {needle : Needle} {c : Char} (nonempty : needle.text ≠ [])
    (absent : c ∉ needle.text) (line rest : Text) :
    needle.find? (line ++ c :: rest) =
      (needle.find? line).or ((needle.find? rest).map (line.width + c.utf8Size + ·)) := by
  rw [find?_eq_head? nonempty,find?_eq_head? nonempty,find?_eq_head? nonempty,
    Text.occurrences_append_cons nonempty absent,List.head?_append,List.head?_map]

theorem find?_nil {needle : Needle} (nonempty : needle.text ≠ []) : needle.find? [] = none := by
  rw [find?_eq_head? nonempty]
  rfl

theorem endAfter?_append {needle : Needle} (nonempty : needle.text ≠ []) (head suffix : Text) :
    Text.endAfter? needle.text head.width (head ++ suffix) =
      (needle.find? suffix).map (head.width + · + needle.width) := by
  rw [Text.endAfter?,Text.scanFrom?_of_le (Nat.zero_add _)]
  rcases needle.exists_firstPlace suffix with nowhere | ⟨before,after,place⟩
  · rw [find?_eq_none_iff.mpr nowhere,Text.scanFrom?_of_not_infix nowhere,Option.map_none]
  · rw [find?_eq_some_iff.mpr ⟨before,after,rfl,place⟩,Option.map_some,needle.width_eq,
      Text.scanFrom?_of_firstPlace nonempty (Nat.le_refl _) place]
    simp [Nat.add_assoc]

end TagOverlay.Needle
