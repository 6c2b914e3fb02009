import TagOverlay.Proofs.Text.Digits
import TagOverlay.Toml.Reader
import TagOverlay.Toml.Writer

/-! TOML strings are read back, in whichever form they are written. What stands between the quotes is a row of
characters, escapes and quotes, of which no more follow one another than the form allows; a reader takes it piece
by piece and stops at the quotes that close it. -/
namespace TagOverlay.Toml

variable {mark c : Char} {most run fuel : Nat} {newlines : Bool} {code written text rest : Text}

/-- A backslash and the code stand for the character, whatever follows. -/
def Escapes (code : Text) (c : Char) : Prop :=
  ∀ rest, afterNewline? (skipBlanks (code ++ rest)) = none ∧ readEscape? (code ++ rest) = some (c,rest)

/-- Between quotes, `run` of which stand just before, the first text stands for the second. At most `most` quotes
follow one another, and newlines stand as they are where `newlines` allows them. -/
inductive Inside (mark : Char) (most : Nat) (newlines : Bool) : Nat → Text → Text → Prop where
  | nil {run : Nat} : Inside mark most newlines run [] []
  | quote {run : Nat} {written text : Text} (few : run < most)
      (further : Inside mark most newlines (run + 1) written text) :
      Inside mark most newlines run (mark :: written) (mark :: text)
  | plain {run : Nat} {c : Char} {written text : Text} (noQuote : c ≠ mark) (noBackslash : mark = '"' → c ≠ '\\')
      (shown : isControl c = false ∨ c = '\n' ∧ newlines = true)
      (further : Inside mark most newlines 0 written text) : Inside mark most newlines run (c :: written) (c :: text)
  | escape {run : Nat} {code : Text} {c : Char} {written text : Text} (double : mark = '"')
      (escapes : Escapes code c) (further : Inside mark most newlines 0 written text) :
      Inside mark most newlines run ('\\' :: code ++ written) (c :: text)

section Writing

theorem escapes_code {digits : Text} (four : digits.length = 4)
    (value : Text.number? 16 digits = some c.toNat) : Escapes ('u' :: digits) c := by
  intro rest
  refine ⟨rfl,?_⟩
  have first : (digits ++ rest).take 4 = digits := by rw [← four,List.take_left]
  have last : (digits ++ rest).drop 4 = rest := by rw [← four,List.drop_left]
  change readCode? 4 (digits ++ rest) = some (c,rest)
  simp [readCode?,first,last,four,value,Text.scalar?_toNat]

/-- A character other than a double quote is written as it is or as an escape. -/
theorem escape_cases (noQuote : c ≠ '"') :
    (escape c = [c] ∧ c ≠ '\\' ∧ isControl c = false) ∨ ∃ code, escape c = '\\' :: code ∧ Escapes code c := by
  unfold escape
  repeat' split
  -- six characters have a letter of their own
  iterate 6 next same => subst same; exact .inr ⟨_,rfl,fun _ => ⟨rfl,rfl⟩⟩
  next control =>
    have codes : ∀ code < 128, code < 32 ∨ code = 127 →
        let digits := Text.padDigits 4 ((Text.digitsOf 16 code).map Char.toUpper)
        digits.length = 4 ∧ Text.number? 16 digits = some code := by decide
    obtain ⟨four,value⟩ := codes c.toNat (by omega) control
    exact .inr ⟨_,rfl,escapes_code four value⟩
  next backslash _ _ _ _ _ printed =>
    refine .inl ⟨rfl,backslash,?_⟩
    obtain ⟨low,high⟩ := not_or.mp printed
    simp [isControl,low,high]

theorem exists_inside_writeBasic (few : run ≤ most) (before text : Text) :
    ∃ written, writeBasic most newlines before run text = before.reverse ++ written ∧
      Inside '"' most newlines run written text := by
  induction text generalizing before run with
  | nil => exact ⟨[],(List.append_nil _).symm,.nil⟩
  | cons c text ih =>
    rw [writeBasic]
    split
    next isQuote =>
      subst isQuote
      split
      next full =>
        obtain ⟨written,same,inside⟩ := ih (Nat.zero_le most) ('"' :: '\\' :: before)
        exact ⟨'\\' :: ['"'] ++ written,by simp [same],.escape rfl (fun _ => ⟨rfl,rfl⟩) inside⟩
      next room =>
        have less : run < most := Nat.lt_of_le_of_ne few room
        obtain ⟨written,same,inside⟩ := ih less ('"' :: before)
        exact ⟨'"' :: written,by simp [same],.quote less inside⟩
    next noQuote =>
      split
      next isNewline =>
        obtain ⟨rfl,allowed⟩ := isNewline
        obtain ⟨written,same,inside⟩ := ih (Nat.zero_le most) ('\n' :: before)
        exact ⟨'\n' :: written,by simp [same],.plain noQuote (fun _ => by decide) (.inr ⟨rfl,allowed⟩) inside⟩
      next =>
        obtain ⟨written,same,inside⟩ := ih (Nat.zero_le most) ((escape c).reverse ++ before)
        rw [List.reverse_append,List.reverse_reverse,List.append_assoc] at same
        refine ⟨escape c ++ written,same,?_⟩
        obtain ⟨plain,noBackslash,shown⟩ | ⟨code,escaped,escapes⟩ := escape_cases noQuote
        · rw [plain]
          exact .plain noQuote (fun _ => noBackslash) (.inl shown) inside
        · rw [escaped]
          exact .escape rfl escapes inside

/-- The longest row so far and the row that the text ends in, after one more character. -/
def countRun (wanted : Char) (state : Nat × Nat) (c : Char) : Nat × Nat :=
  let run := if c = wanted then state.2 + 1 else 0
  (max state.1 run,run)

theorem longestRun_eq (wanted : Char) (text : Text) :
    longestRun wanted text = (text.foldl (countRun wanted) (0,0)).1 := rfl

theorem le_foldl_countRun (wanted : Char) (text : Text) (state : Nat × Nat) :
    state.1 ≤ (text.foldl (countRun wanted) state).1 := by
  induction text generalizing state with
  | nil => exact Nat.le_refl _
  | cons c text ih => exact Nat.le_trans (Nat.le_max_left _ _) (ih (countRun wanted state c))

theorem isControl_of_not_needsEscape (plain : needsEscape c = false) (noNewline : c ≠ '\n') : isControl c = false := by
  simpa [isControl,needsEscape,noNewline] using plain

/-- A text without escapes stands for itself between single quotes, if few enough of them follow one another. -/
theorem inside_of_foldl (plain : ∀ c ∈ text, needsEscape c = false) (flat : '\n' ∈ text → newlines = true)
    {longest : Nat} (few : (text.foldl (countRun '\'') (longest,run)).1 ≤ most) :
    Inside '\'' most newlines run text text := by
  induction text generalizing longest run with
  | nil => exact .nil
  | cons c text ih =>
    obtain ⟨plainHere,plain⟩ := List.forall_mem_cons.mp plain
    have inner : Inside '\'' most newlines (countRun '\'' (longest,run) c).2 text text :=
      ih plain (fun later => flat (List.mem_cons_of_mem _ later)) few
    by_cases isQuote : c = '\''
    · subst isQuote
      have less : run + 1 ≤ most := calc
        run + 1 ≤ (countRun '\'' (longest,run) '\'').1 := Nat.le_max_right _ _
        _ ≤ most := Nat.le_trans (le_foldl_countRun _ text _) few
      exact .quote less inner
    · rw [countRun,if_neg isQuote] at inner
      refine .plain isQuote (fun double => absurd double (by decide)) ?_ inner
      by_cases isNewline : c = '\n'
      · exact .inr ⟨isNewline,flat (isNewline ▸ List.mem_cons_self)⟩
      · exact .inl (isControl_of_not_needsEscape plainHere isNewline)

end Writing

section Reading

theorem readBasic?_plain (noQuote : c ≠ '"') (noBackslash : c ≠ '\\') (shown : isControl c = false)
    (before rest : Text) : readBasic? (fuel + 1) before (c :: rest) = readBasic? fuel (c :: before) rest := by
  rw [readBasic?.eq_5 before fuel c rest noQuote noBackslash,shown,if_neg Bool.false_ne_true]

theorem readBasic?_escape (escapes : Escapes code c) (before rest : Text) :
    readBasic? (fuel + 1) before ('\\' :: code ++ rest) = readBasic? fuel (c :: before) rest := by
  simp [readBasic?,(escapes rest).2]

theorem readBasic?_inside (inside : Inside '"' 0 false run written text) (enough : written.length < fuel)
    (before rest : Text) :
    readBasic? fuel before (written ++ '"' :: rest) = some (before.reverse ++ text,rest) := by
  induction inside generalizing fuel before with
  | nil =>
    obtain ⟨fuel,rfl⟩ := Nat.exists_eq_add_one.mpr enough
    simp [readBasic?]
  | quote few => exact absurd few (Nat.not_lt_zero _)
  | plain noQuote noBackslash shown _ ih =>
    obtain ⟨fuel,rfl⟩ := Nat.exists_eq_add_one.mpr (Nat.zero_lt_of_lt enough)
    rw [List.cons_append,readBasic?_plain noQuote (noBackslash rfl) (by simpa using shown),
      ih (Nat.lt_of_succ_lt_succ enough)]
    simp
  | escape _ escapes _ ih =>
    obtain ⟨fuel,rfl⟩ := Nat.exists_eq_add_one.mpr (Nat.zero_lt_of_lt enough)
    rw [List.append_assoc,readBasic?_escape escapes,ih (by simp at enough; omega)]
    simp

theorem readLiteral?_inside (inside : Inside '\'' 0 false run written text) (before rest : Text) :
    readLiteral? before (written ++ '\'' :: rest) = some (before.reverse ++ text,rest) := by
  induction inside generalizing before with
  | nil => simp [readLiteral?]
  | quote few => exact absurd few (Nat.not_lt_zero _)
  | @plain _ c _ _ noQuote _ shown _ ih =>
    have printed : isControl c = false := by simpa using shown
    rw [List.cons_append,readLiteral?.eq_3 before c _ noQuote,printed,if_neg Bool.false_ne_true,ih]
    simp
  | escape double => exact absurd double (by decide)

/-- After a quote at most one more follows before something else stands, unless the text ends there. -/
theorem Inside.quotes_cases (inside : Inside mark 2 newlines (run + 1) written text) :
    (written = [] ∧ text = []) ∨ (written = [mark] ∧ text = [mark]) ∨ ∀ rest, ¬ [mark,mark] <+: written ++ rest := by
  cases inside with
  | nil => exact .inl ⟨rfl,rfl⟩
  | quote few further =>
    cases further with
    | nil => exact .inr (.inl ⟨rfl,rfl⟩)
    | quote fewer => omega
    | plain noQuote => exact .inr (.inr fun rest => by simp [List.cons_prefix_cons,Ne.symm noQuote])
    | escape double => exact .inr (.inr fun rest => by simp [List.cons_prefix_cons,double])
  | plain noQuote => exact .inr (.inr fun rest => by simp [List.cons_prefix_cons,Ne.symm noQuote])
  | escape double => exact .inr (.inr fun rest => by simp [List.cons_prefix_cons,double])

theorem readLongBasic?_alone (alone : c = '"' → ¬ ['"','"'] <+: rest) (noBackslash : c ≠ '\\')
    (shown : isControl c = false ∨ c = '\n') (before : Text) :
    readLongBasic? (fuel + 1) before (c :: rest) = readLongBasic? fuel (c :: before) rest := by
  rw [readLongBasic?.eq_8 before fuel c rest]
  · rw [if_neg (by simpa [or_iff_not_imp_left] using shown)]
  -- no two quotes follow a quote that stands alone, let alone three or four
  iterate 3
    · rintro more isQuote rfl
      exact alone isQuote ⟨_,rfl⟩
  · exact noBackslash
  · rintro more rfl _
    exact absurd shown (by decide)

theorem readLongBasic?_escape (escapes : Escapes code c) (before rest : Text) :
    readLongBasic? (fuel + 1) before ('\\' :: code ++ rest) = readLongBasic? fuel (c :: before) rest := by
  obtain ⟨sameLine,read⟩ := escapes rest
  simp [readLongBasic?,sameLine,read]

theorem not_quote_of_head? (stops : rest.head? ≠ some mark) (more : Text) : rest ≠ mark :: more := by
  rintro rfl
  exact stops rfl

theorem readLongBasic?_inside (inside : Inside '"' 2 newlines run written text) (enough : written.length < fuel)
    (stops : rest.head? ≠ some '"') (before : Text) :
    readLongBasic? fuel before (written ++ '"' :: '"' :: '"' :: rest) = some (before.reverse ++ text,rest) := by
  induction inside generalizing fuel before with
  | nil =>
    obtain ⟨fuel,rfl⟩ := Nat.exists_eq_add_one.mpr enough
    rw [List.nil_append,readLongBasic?.eq_5 before fuel rest (fun _ => not_quote_of_head? stops _)
      (fun _ => not_quote_of_head? stops _),List.append_nil]
  | quote few further ih =>
    obtain ⟨fuel,rfl⟩ := Nat.exists_eq_add_one.mpr (Nat.zero_lt_of_lt enough)
    -- The reader takes the quotes that a text ends in together with those that close it.
    obtain ⟨rfl,rfl⟩ | ⟨rfl,rfl⟩ | alone := further.quotes_cases
    · exact (readLongBasic?.eq_4 before fuel rest fun _ => not_quote_of_head? stops _).trans (by simp)
    · exact (readLongBasic?.eq_3 before fuel rest).trans (by simp)
    · rw [List.cons_append,readLongBasic?_alone (fun _ => alone _) (by decide) (.inl rfl),
        ih (Nat.lt_of_succ_lt_succ enough)]
      simp
  | plain noQuote noBackslash shown _ ih =>
    obtain ⟨fuel,rfl⟩ := Nat.exists_eq_add_one.mpr (Nat.zero_lt_of_lt enough)
    rw [List.cons_append,readLongBasic?_alone (fun isQuote => absurd isQuote noQuote) (noBackslash rfl)
      (shown.imp_right And.left),ih (Nat.lt_of_succ_lt_succ enough)]
    simp
  | escape _ escapes _ ih =>
    obtain ⟨fuel,rfl⟩ := Nat.exists_eq_add_one.mpr (Nat.zero_lt_of_lt enough)
    rw [List.append_assoc,readLongBasic?_escape escapes,ih (by simp at enough; omega)]
    simp

theorem readLongLiteral?_alone (alone : c = '\'' → ¬ ['\'','\''] <+: rest)
    (shown : isControl c = false ∨ c = '\n') (before : Text) :
    readLongLiteral? before (c :: rest) = readLongLiteral? (c :: before) rest := by
  rw [readLongLiteral?.eq_6 before c rest]
  · rw [if_neg (by simpa [or_iff_not_imp_left] using shown)]
  iterate 3
    · rintro more isQuote rfl
      exact alone isQuote ⟨_,rfl⟩
  · rintro more rfl _
    exact absurd shown (by decide)

theorem readLongLiteral?_inside (inside : Inside '\'' 2 newlines run written text) (stops : rest.head? ≠ some '\'')
    (before : Text) :
    readLongLiteral? before (written ++ '\'' :: '\'' :: '\'' :: rest) = some (before.reverse ++ text,rest) := by
  induction inside generalizing before with
  | nil =>
    rw [List.nil_append,readLongLiteral?.eq_4 before rest (fun _ => not_quote_of_head? stops _)
      (fun _ => not_quote_of_head? stops _),List.append_nil]
  | quote few further ih =>
    obtain ⟨rfl,rfl⟩ | ⟨rfl,rfl⟩ | alone := further.quotes_cases
    · exact (readLongLiteral?.eq_3 before rest fun _ => not_quote_of_head? stops _).trans (by simp)
    · exact (readLongLiteral?.eq_2 before rest).trans (by simp)
    · rw [List.cons_append,readLongLiteral?_alone (fun _ => alone _) (.inl rfl),ih]
      simp
  | plain noQuote _ shown _ ih =>
    rw [List.cons_append,readLongLiteral?_alone (fun isQuote => absurd isQuote noQuote) (shown.imp_right And.left),ih]
    simp
  | escape double => exact absurd double (by decide)

theorem afterOpening_cons (printed : isControl c = false) (rest : Text) : afterOpening (c :: rest) = c :: rest := by
  have noNewline : c ≠ '\n' := by
    rintro rfl
    exact absurd printed (by decide)
  have noReturn : c ≠ '\r' := by
    rintro rfl
    exact absurd printed (by decide)
  simp [afterOpening,afterNewline?,noNewline,noReturn]

/-- What a reader leaves out after the opening quotes is the newline that was written there. -/
theorem afterOpening_inside (inside : Inside mark most newlines run written text) (printed : isControl mark = false)
    (rest : Text) :
    afterOpening ((if text.contains '\n' then ['\n'] else []) ++ (written ++ mark :: rest)) =
      written ++ mark :: rest := by
  split
  next => rfl
  next flat =>
    rw [List.contains_iff_mem] at flat
    cases inside with
    | nil => exact afterOpening_cons printed _
    | quote => exact afterOpening_cons printed _
    | plain _ _ shown =>
      obtain printed | ⟨rfl,_⟩ := shown
      · exact afterOpening_cons printed _
      · exact absurd List.mem_cons_self flat
    | escape => exact afterOpening_cons rfl _

theorem Inside.not_opening (inside : Inside mark 0 newlines 0 written text) (stops : rest.head? ≠ some mark)
    (more : Text) : written ++ mark :: rest ≠ mark :: mark :: more := by
  cases inside with
  | nil =>
    intro same
    exact not_quote_of_head? stops more (List.cons.inj same).2
  | quote few => exact absurd few (Nat.not_lt_zero _)
  | plain noQuote =>
    intro same
    exact noQuote (List.cons.inj same).1
  | escape double =>
    subst double
    exact fun same => absurd (List.cons.inj same).1 (by decide)

theorem readString?_basic (enough : (writeBasic 0 false [] 0 text).length < fuel) (stops : rest.head? ≠ some '"') :
    readString? fuel ('"' :: (writeBasic 0 false [] 0 text ++ '"' :: rest)) = some (text,rest) := by
  obtain ⟨written,same,inside⟩ := exists_inside_writeBasic (Nat.zero_le 0) [] text
  rw [List.reverse_nil,List.nil_append] at same
  rw [same] at enough ⊢
  rw [readString?.eq_2 fuel _ fun more => inside.not_opening stops more]
  exact readBasic?_inside inside enough [] rest

theorem readString?_longBasic (enough : (writeBasic 2 true [] 0 text).length < fuel) (stops : rest.head? ≠ some '"') :
    readString? fuel ('"' :: '"' :: '"' :: ((if text.contains '\n' then ['\n'] else []) ++
      (writeBasic 2 true [] 0 text ++ '"' :: '"' :: '"' :: rest))) = some (text,rest) := by
  obtain ⟨written,same,inside⟩ := exists_inside_writeBasic (Nat.zero_le 2) [] text
  rw [List.reverse_nil,List.nil_append] at same
  rw [same] at enough ⊢
  rw [readString?.eq_1,afterOpening_inside inside rfl]
  exact readLongBasic?_inside inside enough stops []

theorem readString?_literal (plain : ∀ c ∈ text, needsEscape c = false) (flat : '\n' ∉ text)
    (absent : longestRun '\'' text = 0) (stops : rest.head? ≠ some '\'') (fuel : Nat) :
    readString? fuel ('\'' :: (text ++ '\'' :: rest)) = some (text,rest) := by
  rw [longestRun_eq] at absent
  have inside : Inside '\'' 0 false 0 text text :=
    inside_of_foldl plain (fun member => absurd member flat) (Nat.le_of_eq absent)
  rw [readString?.eq_4 fuel _ fun more => inside.not_opening stops more]
  exact readLiteral?_inside inside [] rest

theorem readString?_longLiteral (plain : ∀ c ∈ text, needsEscape c = false) (few : longestRun '\'' text ≤ 2)
    (stops : rest.head? ≠ some '\'') (fuel : Nat) :
    readString? fuel ('\'' :: '\'' :: '\'' :: ((if text.contains '\n' then ['\n'] else []) ++
      (text ++ '\'' :: '\'' :: '\'' :: rest))) = some (text,rest) := by
  rw [longestRun_eq] at few
  have inside : Inside '\'' 2 true 0 text text := inside_of_foldl plain (fun _ => rfl) few
  rw [readString?.eq_3,afterOpening_inside inside rfl]
  exact readLongLiteral?_inside inside stops []

/-- The forms that a text is written in. -/
theorem writeString_cases (text : Text) :
    writeString text = '"' :: (writeBasic 0 false [] 0 text ++ ['"']) ∨
      writeString text = '"' :: '"' :: '"' :: ((if text.contains '\n' then ['\n'] else []) ++
        (writeBasic 2 true [] 0 text ++ ['"','"','"'])) ∨
      (∀ c ∈ text, needsEscape c = false) ∧
        (('\n' ∉ text ∧ longestRun '\'' text = 0 ∧ writeString text = '\'' :: (text ++ ['\''])) ∨
          longestRun '\'' text ≤ 2 ∧ writeString text = '\'' :: '\'' :: '\'' ::
            ((if text.contains '\n' then ['\n'] else []) ++ (text ++ ['\'','\'','\'']))) := by
  rw [writeString]
  dsimp only
  split
  next => exact .inl rfl
  next =>
    split
    next literal =>
      have conditions : ((∀ c ∈ text, needsEscape c = false) ∧ longestRun '\'' text = 0) ∧ '\n' ∉ text := by
        simpa using literal
      obtain ⟨⟨plain,absent⟩,flat⟩ := conditions
      exact .inr (.inr ⟨plain,.inl ⟨flat,absent,rfl⟩⟩)
    next =>
      split
      next => exact .inr (.inl (by simp))
      next =>
        split
        next longLiteral =>
          have conditions : (∀ c ∈ text, needsEscape c = false) ∧ longestRun '\'' text ≤ 2 := by
            simpa using longLiteral
          obtain ⟨plain,few⟩ := conditions
          exact .inr (.inr ⟨plain,.inr ⟨few,by simp⟩⟩)
        next =>
          split
          next => exact .inr (.inl (by simp))
          next => exact .inl rfl

/-- A written text is read back, whatever follows but another quote. -/
theorem readString?_writeString (enough : (writeString text).length ≤ fuel) (noDouble : rest.head? ≠ some '"')
    (noSingle : rest.head? ≠ some '\'') : readString? fuel (writeString text ++ rest) = some (text,rest) := by
  obtain basic | longBasic | ⟨plain,⟨flat,absent,literal⟩ | ⟨few,longLiteral⟩⟩ := writeString_cases text
  · rw [basic] at enough ⊢
    simpa using readString?_basic (by simp at enough; omega) noDouble
  · rw [longBasic] at enough ⊢
    simpa using readString?_longBasic (by simp at enough; omega) noDouble
  · rw [literal]
    simpa using readString?_literal plain flat absent noSingle fuel
  · rw [longLiteral]
    simpa using readString?_longLiteral plain few noSingle fuel

end Reading

end TagOverlay.Toml
