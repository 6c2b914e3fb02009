import TagOverlay.Text.Needle

/-! Literal search. Places are byte offsets; the scan goes from left to right and, when it looks for
all places, starts again after each one, so the places never overlap. -/
namespace TagOverlay

namespace Needle

/-- The byte offset of the first place of the needle. -/
def find? (needle : Needle) (text : Text) : Option Nat :=
  (needle.scan? 0 0 text).map fun (stop,_) => stop - needle.width

/-- Collects into `found` the places of the needle, where the text begins at byte `offset`. -/
def places.go (needle : Needle) :
    (fuel offset : Nat) → (found : Array Nat) → Text → Array Nat
  | 0,_,found,_ => found
  | fuel + 1,offset,found,text =>
      match needle.scan? 0 offset text with
      | none => found
      | some (stop,rest) => go needle fuel stop (found.push (stop - needle.width)) rest

/-- The byte offsets of the places of a needle that is not empty, each after the end of the one
before. Every place takes a character at least, so the text's length bounds their number. -/
def places (needle : Needle) (text : Text) : List Nat :=
  (places.go needle text.length 0 #[] text).toList

end Needle

namespace Text

/-- The needle stands between `before` and `after`, and nowhere further left. -/
structure FirstPlace (needle text before after : Text) : Prop where
  whole : text = before ++ needle ++ after
  first : ∀ earlier later, text = earlier ++ needle ++ later → before.width ≤ earlier.width

end Text

open Text (FirstPlace)

namespace Needle

theorem scan?_start_eq_some_iff {needle : Needle} {text rest : Text} {offset stop : Nat} :
    needle.scan? 0 offset text = some (stop,rest) ↔
      ∃ before, stop = offset + before.width + needle.width ∧
        FirstPlace needle.text text before rest := by
  rw [scan?_eq_some_iff (Text.overlap_nil _),needle.width_eq]
  constructor
  · intro given
    obtain ⟨more,rfl,rfl,ends,first⟩ := given
    obtain ⟨before,rfl⟩ : needle.text <:+ more := by simpa using ends
    refine ⟨before,by rw [Text.width_append]; omega,rfl,fun earlier later whole => ?_⟩
    have longer : earlier ++ needle.text <+: before ++ needle.text ∨
        before ++ needle.text <+: earlier ++ needle.text :=
      List.prefix_or_prefix_of_prefix ⟨later,whole.symm⟩ (List.prefix_append _ _)
    rcases longer with short | ⟨tail,long⟩
    · obtain rfl := List.append_cancel_right (first _ short (by simp))
      exact Nat.le_refl _
    · have := congrArg Text.width long
      simp only [Text.width_append] at this
      omega
  · intro given
    obtain ⟨before,rfl,rfl,first⟩ := given
    refine ⟨before ++ needle.text,rfl,by rw [Text.width_append]; omega,by simp,?_⟩
    rintro fewer ⟨tail,long⟩ ends
    obtain ⟨earlier,rfl⟩ : needle.text <:+ fewer := by simpa using ends
    have le := first earlier (tail ++ rest) (by rw [← long]; simp)
    have widths := congrArg Text.width long
    simp only [Text.width_append] at widths
    obtain rfl : tail = [] := Text.width_eq_zero.1 (by omega)
    simpa using long

theorem scan?_start_of_firstPlace {needle : Needle} {text before rest : Text}
    (place : FirstPlace needle.text text before rest) (offset : Nat) :
    needle.scan? 0 offset text = some (offset + before.width + needle.width,rest) :=
  scan?_start_eq_some_iff.2 ⟨before,rfl,place⟩

theorem scan?_start_eq_none_iff {needle : Needle} {text : Text} {offset : Nat} :
    needle.scan? 0 offset text = none ↔ ¬ needle.text <:+: text := by
  rw [scan?_eq_none_iff (Text.overlap_nil _)]
  constructor
  · rintro never ⟨before,after,rfl⟩
    exact never (before ++ needle.text) (List.prefix_append _ _) (by simp)
  · intro nowhere more short ends
    exact nowhere ((show needle.text <:+ more by simpa using ends).isInfix.trans short.isInfix)

theorem find?_eq_some_iff {needle : Needle} {text : Text} {found : Nat} :
    needle.find? text = some found ↔
      ∃ before after, before.width = found ∧ FirstPlace needle.text text before after := by
  simp only [find?,Option.map_eq_some_iff,Prod.exists,scan?_start_eq_some_iff]
  constructor
  · intro given
    obtain ⟨_,after,⟨before,rfl,place⟩,rfl⟩ := given
    exact ⟨before,after,by omega,place⟩
  · intro given
    obtain ⟨before,after,rfl,place⟩ := given
    exact ⟨_,after,⟨before,rfl,place⟩,by omega⟩

theorem find?_eq_none_iff {needle : Needle} {text : Text} :
    needle.find? text = none ↔ ¬ needle.text <:+: text := by
  rw [find?,Option.map_eq_none_iff,scan?_start_eq_none_iff]

/-- A place of the needle is still its first one in a rest of the text that has it. -/
theorem find?_of_dropBytes? {needle : Needle} {text rest : Text} {bytes found : Nat}
    (dropped : text.dropBytes? bytes = some rest) (hit : needle.find? text = some found)
    (le : bytes ≤ found) : needle.find? rest = some (found - bytes) := by
  obtain ⟨head,whole,rfl⟩ := Text.dropBytes?_eq_some_iff.1 dropped
  obtain ⟨before,after,rfl,place⟩ := find?_eq_some_iff.1 hit
  obtain ⟨part,rfl,rest_eq⟩ :=
    Text.prefix_of_width_le whole (place.whole.trans (List.append_assoc ..)) le
  refine find?_eq_some_iff.2 ⟨part,after,by simp,by simpa using rest_eq,?_⟩
  intro earlier later again
  have := place.first (head ++ earlier) later (by rw [whole,again]; simp)
  simp only [Text.width_append] at this
  omega

theorem find?_eq_none_of_dropBytes? {needle : Needle} {text rest : Text} {bytes : Nat}
    (dropped : text.dropBytes? bytes = some rest) (miss : needle.find? text = none) :
    needle.find? rest = none := by
  obtain ⟨head,rfl,rfl⟩ := Text.dropBytes?_eq_some_iff.1 dropped
  rw [find?_eq_none_iff] at miss ⊢
  exact fun inside => miss (inside.trans (List.suffix_append head rest).isInfix)

theorem places_eq_nil {needle : Needle} {text : Text} (nowhere : ¬ needle.text <:+: text) :
    needle.places text = [] := by
  rw [places]
  cases text with
  | nil => rfl
  | cons c text => rw [List.length_cons,places.go,scan?_start_eq_none_iff.2 nowhere]

private theorem length_rest_lt {needle text before rest : Text} (nonempty : needle ≠ [])
    (place : FirstPlace needle text before rest) : rest.length < text.length := by
  have := List.length_pos_iff.2 nonempty
  rw [place.whole,List.length_append,List.length_append]
  omega

private theorem places_go {needle : Needle} (nonempty : needle.text ≠ []) {fuel offset : Nat}
    {found : Array Nat} {text : Text} (enough : text.length ≤ fuel) :
    (places.go needle fuel offset found text).toList
      = found.toList ++ (needle.places text).map (offset + ·) := by
  induction length : text.length using Nat.strongRecOn generalizing fuel offset found text with
  | _ size ih =>
    subst length
    match scanned : needle.scan? 0 offset text with
    | none =>
      have nowhere := scan?_start_eq_none_iff.1 scanned
      rw [places_eq_nil nowhere]
      cases fuel with
      | zero => simp [places.go]
      | succ fuel => simp [places.go,scanned]
    | some (stop,rest) =>
      obtain ⟨before,rfl,place⟩ := scan?_start_eq_some_iff.1 scanned
      have shorter := length_rest_lt nonempty place
      obtain ⟨fuel,rfl⟩ : ∃ less, fuel = less + 1 := ⟨fuel - 1,by omega⟩
      obtain ⟨least,atLeast⟩ : ∃ less, text.length = less + 1 := ⟨text.length - 1,by omega⟩
      have fromStart : needle.places text
          = [before.width] ++ (needle.places rest).map (before.width + needle.width + ·) := by
        rw [places,atLeast,places.go,scan?_start_of_firstPlace place]
        simp only []
        rw [ih _ shorter (by omega) rfl]
        simp
      rw [places.go,scanned]
      simp only []
      rw [ih _ shorter (by omega) rfl,fromStart,Nat.add_sub_cancel]
      simp [Nat.add_assoc]

/-- The places of a needle are its first one and those in the rest of the text. -/
theorem places_of_firstPlace {needle : Needle} (nonempty : needle.text ≠ [])
    {text before after : Text} (place : FirstPlace needle.text text before after) :
    needle.places text
      = before.width :: (needle.places after).map ((before ++ needle.text).width + ·) := by
  have shorter := length_rest_lt nonempty place
  obtain ⟨least,length⟩ : ∃ less, text.length = less + 1 := ⟨text.length - 1,by omega⟩
  rw [places,length,places.go,scan?_start_of_firstPlace place]
  simp only []
  rw [places_go nonempty (by omega)]
  simp [needle.width_eq]

end Needle

namespace Text

/-- The byte offset of the first place of `needle`. -/
def find? (needle text : Text) : Option Nat :=
  (Needle.ofText needle).find? text

/-- Whether `needle` stands somewhere in the text. -/
def hasPart (needle text : Text) : Bool :=
  (find? needle text).isSome

theorem hasPart_iff {needle text : Text} : hasPart needle text ↔ needle <:+: text := by
  rw [hasPart,← Option.ne_none_iff_isSome,Ne,find?,Needle.find?_eq_none_iff,
    Decidable.not_not,Needle.text_ofText]

end Text

end TagOverlay
