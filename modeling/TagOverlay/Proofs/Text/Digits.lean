import Mathlib.Data.List.Basic
import Mathlib.Data.List.Forall2
import TagOverlay.Text.Digits

/-! Decimal digits as numbers are written with them: none but zero begins with a zero, and they are read as
the number that they were written for. A character is read from its code point. Hexadecimal digits have their
values by their places in the row of all. -/
namespace TagOverlay.Text

theorem digitValue?_of_isDigit {c : Char} (digit : c.isDigit) : digitValue? c = some (c.toNat - '0'.toNat) := by
  have inside : '0' ≤ c ∧ c ≤ '9' := by simpa [Char.isDigit,Char.le_def] using digit
  rw [digitValue?,if_pos inside]

theorem isDigitOf_ten {c : Char} (digit : c.isDigit) : isDigitOf 10 c := by
  have upper : c.toNat ≤ '9'.toNat := by
    have inside : '0' ≤ c ∧ c ≤ '9' := by simpa [Char.isDigit,Char.le_def] using digit
    exact inside.2
  have nine : '9'.toNat = 57 := rfl
  have zero : '0'.toNat = 48 := rfl
  rw [isDigitOf,digitValue?_of_isDigit digit,Option.any_some,decide_eq_true_eq]
  omega

theorem scalar?_toNat (c : Char) : scalar? c.toNat = some c := by
  have valid : c.toNat.isValidChar := c.valid
  rw [scalar?,if_pos valid,Char.ofNat_toNat]

theorem digitsOf_ne_nil (number : Nat) : digitsOf 10 number ≠ [] :=
  Nat.toDigits_ne_nil

theorem isDigit_of_mem_digitsOf {number : Nat} {c : Char} (member : c ∈ digitsOf 10 number) : c.isDigit :=
  Nat.isDigit_of_mem_toDigits (by decide) (by decide) member

theorem isDigitOf_of_mem_digitsOf {number : Nat} {c : Char} (member : c ∈ digitsOf 10 number) : isDigitOf 10 c :=
  isDigitOf_ten (isDigit_of_mem_digitsOf member)

theorem numberOf_digitsOf (number : Nat) : numberOf 10 (digitsOf 10 number) = number := by
  have values : numberOf 10 (digitsOf 10 number) = Nat.ofDigitChars 10 (digitsOf 10 number) 0 := by
    rw [Nat.ofDigitChars_eq_foldl,numberOf]
    apply List.foldl_ext
    intro before c member
    rw [digitValue?_of_isDigit (isDigit_of_mem_digitsOf member),Option.getD_some]
  rw [values,digitsOf,Nat.ofDigitChars_ten_toDigits]

theorem head?_digitsOf {number : Nat} (positive : 0 < number) : (digitsOf 10 number).head? ≠ some '0' := by
  induction number using Nat.strongRecOn with
  | ind number smaller =>
    rw [digitsOf]
    by_cases single : number < 10
    · have first : ∀ digit < 10, 0 < digit → [digit.digitChar].head? ≠ some '0' := by decide
      rw [Nat.toDigits_of_lt_base single]
      exact first number single positive
    · have upper := smaller (number / 10) (by omega) (by omega)
      have nonempty := digitsOf_ne_nil (number / 10)
      rw [Nat.toDigits_of_base_le (by decide) (by omega)]
      rw [digitsOf] at upper nonempty
      rwa [List.head?_append_of_ne_nil _ nonempty]

/-- The hexadecimal digits, each at the place of its value. -/
def hexDigits : Text :=
  ['0','1','2','3','4','5','6','7','8','9','a','b','c','d','e','f']

/-- The character is the digit of this value, where a letter may be of either case. -/
def IsHexDigit (c : Char) (value : Nat) : Prop :=
  hexDigits.idxOf? c.toLower = some value

theorem digitValue?_eq (c : Char) : digitValue? c = hexDigits.idxOf? c.toLower := by
  have low : ∀ code < 103, digitValue? (Char.ofNat code) = hexDigits.idxOf? (Char.ofNat code).toLower := by decide
  by_cases inside : c.toNat < 103
  · rw [← Char.ofNat_toNat c]
    exact low c.toNat inside
  · have above {d : Char} (small : d.toNat < 103) : ¬ c ≤ d := fun le =>
      inside (Nat.lt_of_le_of_lt (show c.toNat ≤ d.toNat from le) small)
    have same : c.toLower = c := dif_neg fun upper => above (by decide) upper.2
    have small : hexDigits.all fun d => d.toNat < 103 := by decide
    have noDigit : c ∉ hexDigits := fun member =>
      inside (of_decide_eq_true (List.all_eq_true.mp small c member))
    rw [digitValue?,if_neg fun digit => above (by decide) digit.2,if_neg fun digit => above (by decide) digit.2,
      if_neg fun digit => above (by decide) digit.2,same]
    exact (List.idxOf?_eq_none_iff.mpr noDigit).symm

theorem isHexDigit_lt {c : Char} {value : Nat} (digit : IsHexDigit c value) : value < 16 := by
  obtain ⟨inside,_⟩ := List.idxOf?_eq_some_iff.mp digit
  exact inside

theorem isDigitOf_sixteen_iff {c : Char} : isDigitOf 16 c ↔ ∃ value, IsHexDigit c value := by
  rw [isDigitOf,digitValue?_eq,Option.any_eq_true]
  constructor
  · exact fun ⟨value,digit,_⟩ => ⟨value,digit⟩
  · exact fun ⟨value,digit⟩ => ⟨value,digit,decide_eq_true (isHexDigit_lt digit)⟩

theorem numberOf_eq {digits : Text} {values : List Nat} (each : List.Forall₂ IsHexDigit digits values) :
    numberOf 16 digits = values.foldl (fun number value => 16 * number + value) 0 := by
  have onFrom (start : Nat) : digits.foldl (fun number c => 16 * number + (digitValue? c).getD 0) start =
      values.foldl (fun number value => 16 * number + value) start := by
    induction each generalizing start with
    | nil => rfl
    | cons digit _ ih =>
      have value := (digitValue?_eq _).trans digit
      rw [List.foldl_cons,List.foldl_cons,value,Option.getD_some,ih]
  exact onFrom 0

theorem forall_isDigitOf_iff {digits : Text} :
    (∀ c ∈ digits, isDigitOf 16 c) ↔ ∃ values, List.Forall₂ IsHexDigit digits values := by
  induction digits with
  | nil => exact ⟨fun _ => ⟨[],.nil⟩,fun _ => nofun⟩
  | cons c digits ih =>
    rw [List.forall_mem_cons,ih,isDigitOf_sixteen_iff]
    constructor
    · rintro ⟨⟨value,digit⟩,values,each⟩
      exact ⟨value :: values,.cons digit each⟩
    · rintro ⟨_,each⟩
      obtain ⟨value,values,digit,others,_⟩ := List.forall₂_cons_left_iff.mp each
      exact ⟨⟨value,digit⟩,values,others⟩

theorem number?_eq_some_iff {digits : Text} {number : Nat} :
    number? 16 digits = some number ↔ digits ≠ [] ∧ ∃ values, List.Forall₂ IsHexDigit digits values ∧
      values.foldl (fun number value => 16 * number + value) 0 = number := by
  have read : number? 16 digits = some number ↔
      digits ≠ [] ∧ (∀ c ∈ digits, isDigitOf 16 c) ∧ numberOf 16 digits = number := by
    simp only [← List.all_eq_true,number?]
    cases digits with
    | nil => simp
    | cons first rest => cases (first :: rest).all (isDigitOf 16) <;> simp
  rw [read,forall_isDigitOf_iff]
  constructor
  · rintro ⟨nonempty,⟨values,each⟩,rfl⟩
    exact ⟨nonempty,values,each,(numberOf_eq each).symm⟩
  · rintro ⟨nonempty,values,each,rfl⟩
    exact ⟨nonempty,⟨values,each⟩,numberOf_eq each⟩

theorem number?_one {low : Char} {number : Nat} : number? 16 [low] = some number ↔ IsHexDigit low number := by
  rw [number?_eq_some_iff]
  constructor
  · rintro ⟨_,_,each,rfl⟩
    cases each with
    | cons second none =>
      cases none
      simpa only [List.foldl_cons,List.foldl_nil,Nat.mul_zero,Nat.zero_add] using second
  · intro second
    refine ⟨List.cons_ne_nil _ _,[number],.cons second .nil,?_⟩
    simp only [List.foldl_cons,List.foldl_nil,Nat.mul_zero,Nat.zero_add]

theorem number?_two {high low : Char} {number : Nat} :
    number? 16 [high,low] = some number ↔
      ∃ upper lower, IsHexDigit high upper ∧ IsHexDigit low lower ∧ 16 * upper + lower = number := by
  rw [number?_eq_some_iff]
  constructor
  · rintro ⟨_,_,each,rfl⟩
    obtain ⟨upper,_,first,others,rfl⟩ := List.forall₂_cons_left_iff.mp each
    obtain ⟨lower,_,second,none,rfl⟩ := List.forall₂_cons_left_iff.mp others
    obtain rfl := List.forall₂_nil_left_iff.mp none
    refine ⟨upper,lower,first,second,?_⟩
    simp only [List.foldl_cons,List.foldl_nil,Nat.mul_zero,Nat.zero_add]
  · rintro ⟨upper,lower,first,second,rfl⟩
    refine ⟨List.cons_ne_nil _ _,[upper,lower],.cons first (.cons second .nil),?_⟩
    simp only [List.foldl_cons,List.foldl_nil,Nat.mul_zero,Nat.zero_add]

end TagOverlay.Text
