import TagOverlay.Highlight
import TagOverlay.Proofs.Text.Digits

/-! The colors that styles name. A `#` and six hexadecimal digits spell a color, two digits for each channel; so
does a text in which a plus sign stands for the first digit of a channel, and nothing else does. -/
namespace TagOverlay.Highlight
open Text (IsHexDigit number? number?_one number?_two isHexDigit_lt)

/-- Two hexadecimal digits and the number that they write. -/
inductive Paired : Text → UInt8 → Prop where
  | digits {high low : Char} {upper lower : Nat} {channel : UInt8} (first : IsHexDigit high upper)
      (second : IsHexDigit low lower) (number : channel.toNat = 16 * upper + lower) : Paired [high,low] channel

/-- A plus sign and the number that the one digit after it writes. -/
inductive Signed : Text → UInt8 → Prop where
  | digit {low : Char} {channel : UInt8} (second : IsHexDigit low channel.toNat) : Signed ['+',low] channel

def IsChannel (pair : Text) (channel : UInt8) : Prop :=
  Paired pair channel ∨ Signed pair channel

/-- A `#` and three channels, each in characters of its own. -/
def Spells (writes : Text → UInt8 → Prop) (text : Text) (red green blue : UInt8) : Prop :=
  ∃ first second third, text = '#' :: (first ++ second ++ third) ∧
    writes first red ∧ writes second green ∧ writes third blue

variable {pair text : Text} {channel red green blue : UInt8}

theorem Paired.noSign (paired : Paired pair channel) : '+' ∉ pair := by
  have noDigit (value : Nat) : ¬ IsHexDigit '+' value := nofun
  cases paired with
  | digits first second number =>
    intro member
    rcases List.mem_cons.mp member with rfl | member
    · exact noDigit _ first
    · obtain rfl := List.mem_singleton.mp member
      exact noDigit _ second

theorem Signed.sign_mem (signed : Signed pair channel) : '+' ∈ pair := by
  cases signed
  exact List.mem_cons_self

theorem IsChannel.exists_eq (writes : IsChannel pair channel) : ∃ high low, pair = [high,low] := by
  rcases writes with paired | signed
  · cases paired
    exact ⟨_,_,rfl⟩
  · cases signed
    exact ⟨_,_,rfl⟩

theorem channel?_of_digits {high low : Char} (noSign : high ≠ '+') :
    channel? [high,low] = (number? 16 [high,low]).map UInt8.ofNat := by
  rw [channel?]
  rintro rfl
  exact noSign rfl

theorem channel?_eq_some_iff : channel? pair = some channel ↔ IsChannel pair channel := by
  constructor
  · intro read
    rw [channel?.eq_def] at read
    split at read
    next low =>
      obtain ⟨number,written,rfl⟩ := Option.map_eq_some_iff.mp read
      have second := number?_one.mp written
      have small := isHexDigit_lt second
      have whole : (UInt8.ofNat number).toNat = number := UInt8.toNat_ofNat_of_lt' (show number < 256 by omega)
      exact .inr (.digit (whole.symm ▸ second))
    next high low _ =>
      obtain ⟨number,written,rfl⟩ := Option.map_eq_some_iff.mp read
      obtain ⟨upper,lower,first,second,rfl⟩ := number?_two.mp written
      have small := isHexDigit_lt first
      have alsoSmall := isHexDigit_lt second
      exact .inl ⟨first,second,UInt8.toNat_ofNat_of_lt' (show 16 * upper + lower < 256 by omega)⟩
    next => contradiction
  · rintro (paired | signed)
    · cases paired with
      | @digits high low upper lower _ first second number =>
        have noSign := List.ne_of_not_mem_cons (Paired.digits first second number).noSign
        have written := number?_two.mpr ⟨upper,lower,first,second,number.symm⟩
        rw [channel?_of_digits noSign.symm,written,Option.map_some,UInt8.ofNat_toNat]
    · cases signed with
      | digit second => rw [channel?,number?_one.mpr second,Option.map_some,UInt8.ofNat_toNat]

theorem parseColor?_eq_some_iff {color : Color} :
    parseColor? text = some color ↔ ∃ red green blue, color = .rgb red green blue ∧
      Spells IsChannel text red green blue := by
  constructor
  · intro read
    rw [parseColor?.eq_def] at read
    split at read
    next a b c d e f =>
      split at read
      next red green blue first second third =>
        obtain rfl := Option.some_inj.mp read
        exact ⟨red,green,blue,rfl,[a,b],[c,d],[e,f],rfl,channel?_eq_some_iff.mp first,
          channel?_eq_some_iff.mp second,channel?_eq_some_iff.mp third⟩
      next => contradiction
    next => contradiction
  · rintro ⟨red,green,blue,rfl,first,second,third,rfl,isRed,isGreen,isBlue⟩
    obtain ⟨a,b,rfl⟩ := isRed.exists_eq
    obtain ⟨c,d,rfl⟩ := isGreen.exists_eq
    obtain ⟨e,f,rfl⟩ := isBlue.exists_eq
    rw [← channel?_eq_some_iff] at isRed isGreen isBlue
    simp only [parseColor?,List.cons_append,List.nil_append,isRed,isGreen,isBlue]

/-- The texts of six digits are those that spell a color without a sign. -/
theorem spells_paired_iff : Spells Paired text red green blue ↔ Spells IsChannel text red green blue ∧ '+' ∉ text := by
  constructor
  · rintro ⟨first,second,third,rfl,isRed,isGreen,isBlue⟩
    refine ⟨⟨first,second,third,rfl,.inl isRed,.inl isGreen,.inl isBlue⟩,?_⟩
    simp [isRed.noSign,isGreen.noSign,isBlue.noSign]
  · rintro ⟨⟨first,second,third,rfl,isRed,isGreen,isBlue⟩,noSign⟩
    simp only [List.mem_cons,List.mem_append,not_or] at noSign
    obtain ⟨_,⟨noFirst,noSecond⟩,noThird⟩ := noSign
    exact ⟨first,second,third,rfl,isRed.resolve_right fun signed => noFirst signed.sign_mem,
      isGreen.resolve_right fun signed => noSecond signed.sign_mem,
      isBlue.resolve_right fun signed => noThird signed.sign_mem⟩

theorem colorOf_eq_rgb_iff {style : Style} :
    colorOf style = .rgb red green blue ↔ Spells IsChannel style.color.toList red green blue := by
  rw [colorOf]
  constructor
  · intro isRgb
    cases parsed : parseColor? style.color.toList with
    | none =>
      rw [parsed] at isRgb
      contradiction
    | some color =>
      rw [parsed] at isRgb
      obtain rfl : color = .rgb red green blue := isRgb
      obtain ⟨_,_,_,same,spells⟩ := parseColor?_eq_some_iff.mp parsed
      obtain ⟨rfl,rfl,rfl⟩ := Color.rgb.inj same
      exact spells
  · intro spells
    rw [parseColor?_eq_some_iff.mpr ⟨red,green,blue,rfl,spells⟩]
    rfl

theorem colorOf_eq_yellow_iff {style : Style} :
    colorOf style = .yellow ↔ ¬ ∃ red green blue, Spells IsChannel style.color.toList red green blue := by
  constructor
  · intro isYellow ⟨red,green,blue,spells⟩
    have isRgb := colorOf_eq_rgb_iff.mpr spells
    rw [isYellow] at isRgb
    contradiction
  · intro spellsNone
    rw [colorOf]
    cases parsed : parseColor? style.color.toList with
    | none => rfl
    | some color =>
      obtain ⟨red,green,blue,_,spells⟩ := parseColor?_eq_some_iff.mp parsed
      exact absurd ⟨red,green,blue,spells⟩ spellsNone

/-- The styles that decorations are given spell their colors by digits. -/
theorem spells_of_given {style : Style} (isGiven : style = .fresh ∨ ∃ status : ReviewStatus, style = status.style) :
    ∃ red green blue, Spells Paired style.color.toList red green blue := by
  have byDigits {style : Style} {red green blue : UInt8} (isRgb : colorOf style = .rgb red green blue)
      (noSign : '+' ∉ style.color.toList) : ∃ red green blue, Spells Paired style.color.toList red green blue :=
    ⟨red,green,blue,spells_paired_iff.mpr ⟨colorOf_eq_rgb_iff.mp isRgb,noSign⟩⟩
  rcases isGiven with rfl | ⟨status,rfl⟩
  · exact byDigits (show colorOf .fresh = .rgb 0xFF 0xFF 0 by decide) (by decide)
  · cases status with
    | done => exact byDigits (show colorOf .done = .rgb 0x90 0xEE 0x90 by decide) (by decide)
    | current => exact byDigits (show colorOf .current = .rgb 0xBB 0xFA 0xF9 by decide) (by decide)

theorem color_is_spelled_by_digits_or_signs (style : Style) :
    let text := style.color.toList
    (∀ red green blue, colorOf style = .rgb red green blue ↔ Spells IsChannel text red green blue) ∧
    (colorOf style = .yellow ↔ ¬ ∃ red green blue, Spells IsChannel text red green blue) ∧
    ∀ red green blue, Spells Paired text red green blue ↔ colorOf style = .rgb red green blue ∧ '+' ∉ text := by
  intro text
  refine ⟨fun _ _ _ => colorOf_eq_rgb_iff,colorOf_eq_yellow_iff,fun red green blue => ?_⟩
  rw [spells_paired_iff,colorOf_eq_rgb_iff]

/-- Three signs and three digits spell a color, although six digits are what a color is written in. -/
theorem signs_spell_color :
    colorOf ⟨"","","#+1+2+3"⟩ = .rgb 1 2 3 ∧ ¬ ∃ red green blue, Spells Paired "#+1+2+3".toList red green blue := by
  have sign : '+' ∈ "#+1+2+3".toList := by decide
  exact ⟨by decide,fun ⟨_,_,_,spells⟩ => (spells_paired_iff.mp spells).2 sign⟩

end TagOverlay.Highlight
