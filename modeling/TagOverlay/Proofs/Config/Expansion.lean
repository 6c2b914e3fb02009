import Mathlib.Data.List.TakeWhile
import TagOverlay.Config.Expansion

/-! A path is read as characters and references to variables before any variable is looked up. Expanding it puts
the values one after another and fails where a variable without default is not set. -/
namespace TagOverlay.Expansion

variable {environment : Environment} {mark : Char} {text inside rest path : Text}

theorem splitAt?_eq_some (found : splitAt? mark text = some (inside,rest)) : text = inside ++ mark :: rest := by
  rw [splitAt?] at found
  split at found
  next => contradiction
  next first later here =>
    obtain ⟨rfl,rfl⟩ := Prod.mk.inj (Option.some_inj.mp found)
    have isMark : first = mark := by
      have stopped := List.head?_dropWhile_not (· ≠ mark) text
      rw [here] at stopped
      simpa using stopped
    rw [← isMark,← here,isMark,List.takeWhile_append_dropWhile]

theorem splitAt?_eq_none (none : splitAt? mark text = none) : mark ∉ text := by
  rw [splitAt?] at none
  split at none
  next here =>
    intro member
    exact absurd rfl (of_decide_eq_true (List.dropWhile_eq_nil_iff.mp here mark member))
  next => contradiction

/-- A part of a path: a character, or a reference to a variable, perhaps with a default. -/
inductive Piece where
  | letter (c : Char)
  | reference (name : Text) (default : Option Text)

def Piece.value? (environment : Environment) : Piece → Option Text
  | letter c => some [c]
  | reference name default => (environment.get? name).or default

/-- The parts of a path. A dollar that begins no reference stands for itself, and so do braces without end. -/
def pieces : Text → List Piece
  | '$' :: '\x7b' :: inner =>
      match _found : splitAt? '\x7d' inner with
      | none => .letter '$' :: .letter '\x7b' :: pieces inner
      | some (inside,rest) =>
          .reference (nameAndDefault inside).1 (nameAndDefault inside).2 :: pieces rest
  | '$' :: '$' :: rest => .letter '$' :: pieces rest
  | '$' :: c :: rest =>
      if _named : isNameChar c then
        .reference ((c :: rest).takeWhile isNameChar) none :: pieces ((c :: rest).dropWhile isNameChar)
      else .letter '$' :: pieces (c :: rest)
  | c :: rest => .letter c :: pieces rest
  | [] => []
termination_by text => text.length
decreasing_by
  · simp only [List.length_cons]
    omega
  · have := congrArg List.length (splitAt?_eq_some _found)
    simp only [List.length_append,List.length_cons] at this ⊢
    omega
  · simp only [List.length_cons]
    omega
  · rw [List.dropWhile_cons_of_pos _named]
    have := (List.dropWhile_suffix isNameChar (l := rest)).length_le
    simp only [List.length_cons]
    omega
  · simp only [List.length_cons]
    omega
  · simp only [List.length_cons]
    omega

/-- The values of the parts, one after another. -/
def spell? (environment : Environment) (pieces : List Piece) : Option Text :=
  (pieces.mapM (Piece.value? environment)).map List.flatten

theorem spell?_cons (piece : Piece) (pieces : List Piece) :
    spell? environment (piece :: pieces) =
      (piece.value? environment).bind fun value => (spell? environment pieces).map (value ++ ·) := by
  rw [spell?,List.mapM_cons]
  cases piece.value? environment with
  | none => rfl
  | some value =>
    rw [spell?]
    cases pieces.mapM (Piece.value? environment) <;> rfl

theorem map_spell?_cons (piece : Piece) (pieces : List Piece) (before : Text) :
    (spell? environment (piece :: pieces)).map (before.reverse ++ ·) =
      (piece.value? environment).bind fun value =>
        (spell? environment pieces).map ((value.reverse ++ before).reverse ++ ·) := by
  rw [spell?_cons]
  cases piece.value? environment with
  | none => rfl
  | some value => cases spell? environment pieces <;> simp

/-- A closing brace that was missing once is missing from all that follows, so none is looked for again. -/
theorem expandFrom?_eq {fuel : Nat} {closable : Bool} (enough : text.length < fuel)
    (closed : closable = false → '\x7d' ∉ text) (before : Text) :
    expandFrom? environment fuel closable before text =
      (spell? environment (pieces text)).map (before.reverse ++ ·) := by
  fun_induction pieces text generalizing fuel closable before with
  | case1 inner found ih =>
    -- braces without end
    obtain ⟨fuel,rfl⟩ := Nat.exists_eq_add_one.mpr (Nat.zero_lt_of_lt enough)
    have unclosed : (if closable = true then splitAt? '\x7d' inner else none) = none := by
      split
      next => exact found
      next => rfl
    rw [expandFrom?.eq_3,unclosed,map_spell?_cons]
    refine Eq.trans ?_ (map_spell?_cons (.letter '\x7b') (pieces inner) ('$' :: before)).symm
    exact ih (by simp at enough; omega) (fun _ => splitAt?_eq_none found) _
  | case2 inner inside rest found ih =>
    -- a reference in braces
    obtain ⟨fuel,rfl⟩ := Nat.exists_eq_add_one.mpr (Nat.zero_lt_of_lt enough)
    have whole := splitAt?_eq_some found
    have isClosable : closable = true := by
      by_contra unclosable
      exact closed (by simpa using unclosable) (by simp [whole])
    rw [expandFrom?.eq_3,if_pos isClosable,found,map_spell?_cons]
    dsimp only [Piece.value?]
    cases (environment.get? (nameAndDefault inside).1).or (nameAndDefault inside).2 with
    | none => rfl
    | some value =>
      refine ih ?_ (fun unclosable => absurd isClosable (by simp [unclosable])) _
      simp [whole] at enough
      omega
  | case3 rest ih =>
    -- two dollars, which stand for one
    obtain ⟨fuel,rfl⟩ := Nat.exists_eq_add_one.mpr (Nat.zero_lt_of_lt enough)
    rw [expandFrom?.eq_4,map_spell?_cons]
    exact ih (by simp at enough; omega) (fun unclosable => by simpa using closed unclosable) _
  | case4 c rest noBrace noDollar named ih =>
    -- a reference without braces
    obtain ⟨fuel,rfl⟩ := Nat.exists_eq_add_one.mpr (Nat.zero_lt_of_lt enough)
    rw [expandFrom?.eq_5 _ _ _ _ _ _ noBrace noDollar,if_pos named,map_spell?_cons]
    dsimp only [Piece.value?]
    rw [Option.or_none]
    have later := List.dropWhile_suffix isNameChar (l := c :: rest)
    cases environment.get? ((c :: rest).takeWhile isNameChar) with
    | none => rfl
    | some value =>
      refine ih ?_ (fun unclosable member => closed unclosable (List.mem_cons_of_mem _ (later.mem member))) _
      have := later.length_le
      simp at enough this
      omega
  | case5 c rest noBrace noDollar unnamed ih =>
    -- a dollar before something that is no name
    obtain ⟨fuel,rfl⟩ := Nat.exists_eq_add_one.mpr (Nat.zero_lt_of_lt enough)
    rw [expandFrom?.eq_5 _ _ _ _ _ _ noBrace noDollar,if_neg unnamed,map_spell?_cons]
    exact ih (Nat.lt_of_succ_lt_succ enough)
      (fun unclosable member => closed unclosable (List.mem_cons_of_mem _ member)) _
  | case6 c rest _ _ alone ih =>
    -- another character, or a dollar at the end
    obtain ⟨fuel,rfl⟩ := Nat.exists_eq_add_one.mpr (Nat.zero_lt_of_lt enough)
    have letter : expandFrom? environment (fuel + 1) closable before (c :: rest) =
        expandFrom? environment fuel closable (c :: before) rest := by
      by_cases dollar : c = '$'
      · subst dollar
        cases rest with
        | nil => exact expandFrom?.eq_6 environment closable before fuel
        | cons next rest => exact (alone next rest rfl rfl).elim
      · exact expandFrom?.eq_7 environment closable before fuel c rest dollar
    rw [letter,map_spell?_cons]
    exact ih (Nat.lt_of_succ_lt_succ enough)
      (fun unclosable member => closed unclosable (List.mem_cons_of_mem _ member)) _
  | case7 =>
    obtain ⟨fuel,rfl⟩ := Nat.exists_eq_add_one.mpr (Nat.zero_lt_of_lt enough)
    rw [expandFrom?.eq_2]
    simp [spell?]

theorem expandVariables?_eq (environment : Environment) (path : Text) :
    expandVariables? environment path = spell? environment (pieces path) := by
  rw [expandVariables?,expandFrom?_eq (Nat.lt_succ_self _) fun unclosable => Bool.noConfusion unclosable]
  exact Option.map_id'

/-- The path refers to a variable that has neither a value nor a default. -/
def Unset (environment : Environment) (path : Text) : Prop :=
  ∃ name, .reference name none ∈ pieces path ∧ environment.get? name = none

theorem value?_eq_none_iff (piece : Piece) :
    piece.value? environment = none ↔ ∃ name, piece = .reference name none ∧ environment.get? name = none := by
  cases piece with
  | letter c => simp [Piece.value?]
  | reference name default => cases default <;> simp [Piece.value?]

theorem spell?_eq_none_iff (pieces : List Piece) :
    spell? environment pieces = none ↔ ∃ piece ∈ pieces, piece.value? environment = none := by
  induction pieces with
  | nil => simp [spell?]
  | cons piece pieces ih =>
    simp only [List.mem_cons,exists_eq_or_imp]
    rw [spell?_cons,← ih]
    cases piece.value? environment <;> simp

/-- A path is left unexpanded if and only if it refers to a variable that is not set. -/
theorem expand?_eq_none_iff : expand? environment path = none ↔ Unset environment path := by
  rw [expand?,Option.map_eq_none_iff,expandVariables?_eq,spell?_eq_none_iff]
  constructor
  · rintro ⟨piece,member,valueless⟩
    obtain ⟨name,rfl,unset⟩ := (value?_eq_none_iff piece).mp valueless
    exact ⟨name,member,unset⟩
  · rintro ⟨name,member,unset⟩
    exact ⟨_,member,(value?_eq_none_iff _).mpr ⟨name,rfl,unset⟩⟩

theorem pieces_of_plain (plain : '$' ∉ path) : pieces path = path.map .letter := by
  induction path with
  | nil => rw [pieces,List.map_nil]
  | cons c path ih =>
    obtain ⟨noDollar,plain⟩ := not_or.mp (List.mem_cons.not.mp plain)
    rw [pieces.eq_4,ih plain,List.map_cons]
    · exact fun _ isDollar => absurd isDollar (Ne.symm noDollar)
    · exact fun _ isDollar => absurd isDollar (Ne.symm noDollar)
    · exact fun _ _ isDollar => absurd isDollar (Ne.symm noDollar)

theorem spell?_letters (environment : Environment) (text : Text) : spell? environment (text.map .letter) = some text := by
  induction text with
  | nil => rfl
  | cons c text ih =>
    rw [List.map_cons,spell?_cons,ih]
    rfl

/-- A path without references and tilde is its own expansion. -/
theorem expand?_of_plain (environment : Environment) (plain : '$' ∉ path) (noTilde : path.head? ≠ some '~') :
    expand? environment path = some path := by
  have untouched : expandTilde environment path = path := by
    rw [expandTilde]
    rintro rest rfl
    exact noTilde rfl
  rw [expand?,expandVariables?_eq,pieces_of_plain plain,spell?_letters,Option.map_some,if_neg fun tilde => noTilde tilde.2,
    untouched]

end TagOverlay.Expansion
