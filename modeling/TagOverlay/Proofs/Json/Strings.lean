import TagOverlay.Json.Reader
import TagOverlay.Proofs.Text.Digits

/-! Written strings are read as the texts that they were written for. A character is read from its escape, or
as it stands; none is half of a surrogate pair, so no two of them are taken together. -/
namespace TagOverlay.Json

theorem not_isHighHalf (c : Char) : isHighHalf c.toNat = false := by
  have valid : c.toNat.isValidChar := c.valid
  simp only [Nat.isValidChar] at valid
  simp only [isHighHalf,Bool.and_eq_false_iff,decide_eq_false_iff_not]
  omega

theorem joinPairs?_map_toNat (before text : Text) :
    joinPairs? before (text.map Char.toNat) = some (before.reverse ++ text) := by
  induction text generalizing before with
  | nil => simp [joinPairs?]
  | cons c text ih =>
    cases text with
    | nil => simp [joinPairs?,Text.scalar?_toNat]
    | cons d text =>
      have further := ih (c :: before)
      rw [List.map_cons] at further
      rw [List.map_cons,List.map_cons,joinPairs?,not_isHighHalf,Bool.false_and,if_neg Bool.false_ne_true,
        Text.scalar?_toNat,Option.bind_some,further]
      simp

theorem readUnits?_code {digits : Text} {code : Nat} (four : digits.length = 4)
    (value : Text.number? 16 digits = some code) (before : List Nat) (rest : Text) :
    readUnits? before ('\\' :: 'u' :: digits ++ rest) = readUnits? (code :: before) rest := by
  match digits,four with
  | [a,b,c,d],_ => simp [readUnits?,value]

theorem readUnits?_plain {c : Char} (quote : c ≠ '"') (backslash : c ≠ '\\') (printed : ¬ c.toNat < 32)
    (before : List Nat) (rest : Text) : readUnits? before (c :: rest) = readUnits? (c.toNat :: before) rest := by
  simp [readUnits?,backslash,printed]

theorem readUnits?_escape (c : Char) (before : List Nat) (rest : Text) :
    readUnits? before (escape c ++ rest) = readUnits? (c.toNat :: before) rest := by
  unfold escape
  repeat' split
  -- seven characters have a letter of their own
  iterate 7 next same => subst same; rfl
  next control =>
    have codes : ∀ code < 32, (Text.padDigits 4 (Text.digitsOf 16 code)).length = 4 ∧
        Text.number? 16 (Text.padDigits 4 (Text.digitsOf 16 code)) = some code := by decide
    obtain ⟨four,value⟩ := codes c.toNat control
    exact readUnits?_code four value before rest
  next quote backslash _ _ _ _ _ printed => exact readUnits?_plain quote backslash printed before rest

theorem readUnits?_flatMap_escape (text : Text) (before : List Nat) (rest : Text) :
    readUnits? before (text.flatMap escape ++ '"' :: rest) =
      some (before.reverse ++ text.map Char.toNat,rest) := by
  induction text generalizing before with
  | nil => simp [readUnits?]
  | cons c text ih => rw [List.flatMap_cons,List.append_assoc,readUnits?_escape,ih]; simp

/-- What follows the opening quote of a written string. -/
theorem readString?_quote (text rest : Text) :
    readString? (text.flatMap escape ++ '"' :: rest) = some (some text,rest) := by
  rw [readString?,readUnits?_flatMap_escape]
  exact congrArg (fun read => some (read,rest)) (joinPairs?_map_toNat [] text)

end TagOverlay.Json
