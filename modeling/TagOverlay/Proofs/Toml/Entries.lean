import TagOverlay.Proofs.Toml.Strings

/-! Lines of TOML are read back: the keys bare, the values strings and natural numbers. A line is read in one step
of the reader, so a document needs as many as it has lines. -/
namespace TagOverlay.Toml

section Number

variable {digits : Text} {number : Nat}

theorem digits?_digitsOf (number : Nat) : digits? 10 (Text.digitsOf 10 number) = some (Text.digitsOf 10 number) := by
  have whole : (Text.digitsOf 10 number).splitOn '_' = [Text.digitsOf 10 number] :=
    List.splitOn_eq_singleton fun member => absurd (Text.isDigit_of_mem_digitsOf member) (by decide)
  have row : (Text.digitsOf 10 number).all (Text.isDigitOf 10) :=
    List.all_eq_true.mpr fun _ => Text.isDigitOf_of_mem_digitsOf
  rw [digits?,whole]
  simp [row,Text.digitsOf_ne_nil]

theorem whole?_digitsOf (number : Nat) : whole? (Text.digitsOf 10 number) = some (Text.digitsOf 10 number) := by
  rw [whole?,digits?_digitsOf]
  by_cases positive : 0 < number
  · simp [Text.head?_digitsOf positive]
  · obtain rfl : number = 0 := by omega
    rfl

theorem bounded?_digitsOf (small : number < Nat.pow 10 128) : bounded? 10 (Text.digitsOf 10 number) = some number := by
  by_cases positive : 0 < number
  · have short : (Text.digitsOf 10 number).length ≤ 128 :=
      (Nat.length_toDigits_le_iff (by decide) (by decide)).mpr small
    have significant : (Text.digitsOf 10 number).dropWhile (· = '0') = Text.digitsOf 10 number := by
      have noZero := Text.head?_digitsOf positive
      cases written : Text.digitsOf 10 number with
      | nil => rfl
      | cons c rest =>
        rw [written] at noZero
        exact List.dropWhile_cons_of_neg (by simpa using noZero)
    rw [bounded?,significant,if_pos short,Text.numberOf_digitsOf]
  · obtain rfl : number = 0 := by omega
    rfl

/-- Only a zero with a letter after it would begin a number to another base. -/
theorem natural?_of_row (row : ∀ c ∈ digits, c.isDigit) : natural? digits = (whole? digits).bind (bounded? 10) := by
  have digit {c : Char} {rest : Text} (same : digits = '0' :: c :: rest) : c.isDigit :=
    row c (same ▸ List.mem_cons_of_mem _ List.mem_cons_self)
  rw [natural?.eq_4]
  · exact fun rest same => absurd (digit same) (by decide)
  · exact fun rest same => absurd (digit same) (by decide)
  · exact fun rest same => absurd (digit same) (by decide)

theorem integer?_digitsOf (small : number < Nat.pow 2 128) : integer? (Text.digitsOf 10 number) = some (number : Int) := by
  have row : ∀ c ∈ Text.digitsOf 10 number, c.isDigit := fun _ => Text.isDigit_of_mem_digitsOf
  have unsigned : splitSign (Text.digitsOf 10 number) = (false,Text.digitsOf 10 number) := by
    rw [splitSign.eq_3]
    · intro rest same
      exact absurd (row '+' (same ▸ List.mem_cons_self)) (by decide)
    · intro rest same
      exact absurd (row '-' (same ▸ List.mem_cons_self)) (by decide)
  have value : natural? (Text.digitsOf 10 number) = some number := by
    rw [natural?_of_row row,whole?_digitsOf,Option.bind_some]
    exact bounded?_digitsOf (Nat.lt_of_lt_of_le small (by decide))
  rw [integer?,unsigned]
  dsimp only
  rw [if_pos rfl,value,Option.bind_some,if_neg Bool.false_ne_true]
  exact if_pos small

theorem scalar?_digitsOf (small : number < Nat.pow 2 128) : scalar? (Text.digitsOf 10 number) = some (.integer number) := by
  have row : ∀ c ∈ Text.digitsOf 10 number, c.isDigit := fun _ => Text.isDigit_of_mem_digitsOf
  have notTrue : Text.digitsOf 10 number ≠ "true".toList := fun same => absurd (row 't' (same ▸ by decide)) (by decide)
  have notFalse : Text.digitsOf 10 number ≠ "false".toList := fun same => absurd (row 'f' (same ▸ by decide)) (by decide)
  rw [scalar?,if_neg notTrue,if_neg notFalse,integer?_digitsOf small]

theorem isWordEnd_of_isDigit {c : Char} (digit : c.isDigit) : isWordEnd c = false := by
  rw [Bool.eq_false_iff]
  intro ends
  simp only [isWordEnd,Bool.or_eq_true,decide_eq_true_eq] at ends
  rcases ends with ((((((rfl | rfl) | rfl) | rfl) | rfl) | rfl) | rfl) | rfl <;> exact absurd digit (by decide)

theorem readScalar?_digitsOf (small : number < Nat.pow 2 128) (rest : Text) :
    readScalar? (Text.digitsOf 10 number ++ '\n' :: rest) = some (.integer number,'\n' :: rest) := by
  have row : ∀ c ∈ Text.digitsOf 10 number, !isWordEnd c := fun c member => by
    rw [isWordEnd_of_isDigit (Text.isDigit_of_mem_digitsOf member)]
    rfl
  have word : readWord (Text.digitsOf 10 number ++ '\n' :: rest) = (Text.digitsOf 10 number,'\n' :: rest) := by
    rw [readWord,List.takeWhile_append_of_pos row,List.dropWhile_append_of_pos row]
    simp [isWordEnd]
  rw [readScalar?,word]
  simp [scalar?_digitsOf small]

end Number

/-- The value is read from what is written for it, if a line ends there. -/
structure ReadsBack (written : Text) (value : Toml) : Prop where
  begins : ∀ c ∈ written.head?, isBlank c = false
  reads : ∀ fuel rest, written.length < fuel →
    readValue? fuel maxDepth (written ++ '\n' :: rest) = some (value,'\n' :: rest)

theorem readsBack_string (text : Text) : ReadsBack (writeString text) (.string text) := by
  have opens : ∃ quote row, writeString text = quote :: row ∧ (quote = '"' ∨ quote = '\'') := by
    obtain same | same | ⟨_,⟨_,_,same⟩ | ⟨_,same⟩⟩ := writeString_cases text
    · exact ⟨_,_,same,.inl rfl⟩
    · exact ⟨_,_,same,.inl rfl⟩
    · exact ⟨_,_,same,.inr rfl⟩
    · exact ⟨_,_,same,.inr rfl⟩
  obtain ⟨quote,row,written,isQuote⟩ := opens
  refine ⟨?_,?_⟩
  · rw [written]
    rintro c ⟨⟩
    obtain rfl | rfl := isQuote <;> rfl
  · intro fuel rest enough
    obtain ⟨fuel,rfl⟩ := Nat.exists_eq_add_one.mpr (Nat.zero_lt_of_lt enough)
    have back : readString? fuel (writeString text ++ '\n' :: rest) = some (text,'\n' :: rest) :=
      readString?_writeString (Nat.le_of_lt_succ enough) (by simp) (by simp)
    rw [written,List.cons_append] at back ⊢
    obtain rfl | rfl := isQuote
    · rw [readValue?.eq_6,back,Option.map_some]
    · rw [readValue?.eq_7,back,Option.map_some]

theorem readsBack_natural {number : Nat} (small : number < Nat.pow 2 128) :
    ReadsBack (Text.digitsOf 10 number) (.integer number) := by
  have digits : ∀ c ∈ Text.digitsOf 10 number, c.isDigit := fun _ => Text.isDigit_of_mem_digitsOf
  refine ⟨?_,?_⟩
  · intro c first
    rw [Bool.eq_false_iff]
    intro blank
    have digit := digits c (List.mem_of_head? first)
    simp only [isBlank,Bool.or_eq_true,decide_eq_true_eq] at blank
    rcases blank with rfl | rfl <;> exact absurd digit (by decide)
  · intro fuel rest enough
    obtain ⟨fuel,rfl⟩ := Nat.exists_eq_add_one.mpr (Nat.zero_lt_of_lt enough)
    have scalar := readScalar?_digitsOf small rest
    obtain ⟨c,row,written⟩ := List.exists_cons_of_ne_nil (Text.digitsOf_ne_nil number)
    rw [written] at digits
    rw [written,List.cons_append] at scalar ⊢
    have digit := digits c List.mem_cons_self
    have other {d : Char} {tail : Text} (noDigit : d.isDigit = false) : c :: (row ++ '\n' :: rest) ≠ d :: tail := by
      intro same
      rw [← (List.cons.inj same).1,digit] at noDigit
      exact Bool.noConfusion noDigit
    rw [readValue?.eq_8 _ _ _ (fun _ => other rfl) (fun _ => other rfl) (fun _ same => absurd same (other rfl))
      (fun _ same => absurd same (other rfl)) (fun _ _ same => absurd same (other rfl))
      (fun _ _ same => absurd same (other rfl)),scalar]

/-- A key that is written as it is. -/
structure Bare (key : Text) : Prop where
  nonempty : key ≠ []
  row : ∀ c ∈ key, isBareKey c

instance (key : Text) : Decidable (Bare key) :=
  decidable_of_iff (key ≠ [] ∧ key.all isBareKey = true)
    ⟨fun ⟨nonempty,row⟩ => ⟨nonempty,List.all_eq_true.mp row⟩,fun ⟨nonempty,row⟩ => ⟨nonempty,List.all_eq_true.mpr row⟩⟩

section Lines

variable {key written rest : Text} {value : Toml} {entries : Entries} {fuel : Nat}

theorem ne_of_isBareKey {c d : Char} (bare : isBareKey c) (other : isBareKey d = false) : c ≠ d := by
  rintro rfl
  rw [bare] at other
  exact Bool.noConfusion other

theorem skipBlanks_cons {c : Char} (printed : isBlank c = false) (rest : Text) : skipBlanks (c :: rest) = c :: rest :=
  List.dropWhile_cons_of_neg (by simp [printed])

theorem isBlank_of_isBareKey {c : Char} (bare : isBareKey c) : isBlank c = false := by
  have noSpace : c ≠ ' ' := ne_of_isBareKey bare rfl
  have noTab : c ≠ '\t' := ne_of_isBareKey bare rfl
  simp [isBlank,noSpace,noTab]

theorem readKeys?_bare (bare : Bare key) (fuel : Nat) (rest : Text) :
    readKeys? fuel (key ++ ' ' :: '=' :: rest) = some ([key],'=' :: rest) := by
  have taken : (key ++ ' ' :: '=' :: rest).takeWhile isBareKey = key := by
    rw [List.takeWhile_append_of_pos bare.row,List.takeWhile_cons_of_neg (by decide),List.append_nil]
  have left : (key ++ ' ' :: '=' :: rest).dropWhile isBareKey = ' ' :: '=' :: rest := by
    rw [List.dropWhile_append_of_pos bare.row,List.dropWhile_cons_of_neg (by decide)]
  have read : readKey? fuel (skipBlanks (key ++ ' ' :: '=' :: rest)) = some (key,' ' :: '=' :: rest) := by
    obtain ⟨c,tail,rfl⟩ := List.exists_cons_of_ne_nil bare.nonempty
    have first := bare.row c List.mem_cons_self
    rw [List.cons_append,skipBlanks_cons (isBlank_of_isBareKey first),readKey?.eq_3,← List.cons_append,taken,left]
    · rfl
    · intro more same
      exact ne_of_isBareKey first rfl (List.cons.inj same).1
    · intro more same
      exact ne_of_isBareKey first rfl (List.cons.inj same).1
  rw [readKeys?,maxDepth,readKeysUpTo?.eq_2,read]
  rfl

theorem assign_new (new : lookup? key entries = none) (value : Toml) :
    alter false (assign [key] value) [] .header entries = some (entries ++ [(key,value)]) := by
  change add false key value .header entries = _
  simp [add,new]

theorem readLines?_assignment {c : Char} (first : isBareKey c) {tail after further : Text}
    (keys : readKeys? fuel (c :: tail) = some ([key],'=' :: after))
    (read : readValue? fuel maxDepth (skipBlanks after) = some (value,'\n' :: further))
    (new : lookup? key entries = none) :
    readLines? (fuel + 1) [] entries (c :: tail) = readLines? fuel [] (entries ++ [(key,value)]) further := by
  have noComment : c ≠ '#' := ne_of_isBareKey first rfl
  have noNewline : c ≠ '\n' := ne_of_isBareKey first rfl
  have noReturn : c ≠ '\r' := ne_of_isBareKey first rfl
  rw [readLines?.eq_2,skipBlanks_cons (isBlank_of_isBareKey first)]
  split
  next same => contradiction
  next same => exact absurd (List.cons.inj same).1 (ne_of_isBareKey first rfl)
  next same => exact absurd (List.cons.inj same).1 (ne_of_isBareKey first rfl)
  next same =>
    obtain ⟨rfl,rfl⟩ := List.cons.inj same
    rw [if_neg (by simp [noComment,noNewline,noReturn]),keys]
    simp only [read,assign_new new]
    rfl

/-- A line is read in one step and adds its entry to those read so far. -/
theorem readLines?_writeEntry (bare : Bare key) (back : ReadsBack written value) (new : lookup? key entries = none)
    (enough : written.length < fuel) (rest : Text) :
    readLines? (fuel + 1) [] entries (writeEntry key written ++ rest) =
      readLines? fuel [] (entries ++ [(key,value)]) rest := by
  have line : writeEntry key written ++ rest = key ++ ' ' :: '=' :: (' ' :: (written ++ '\n' :: rest)) := by
    simp [writeEntry]
  have begins : skipBlanks (' ' :: (written ++ '\n' :: rest)) = written ++ '\n' :: rest := by
    change skipBlanks (written ++ '\n' :: rest) = _
    cases here : written with
    | nil => rfl
    | cons c row => exact skipBlanks_cons (back.begins c (by rw [here]; rfl)) _
  have keys := readKeys?_bare bare fuel (' ' :: (written ++ '\n' :: rest))
  have read := back.reads fuel rest enough
  rw [← begins] at read
  rw [line]
  obtain ⟨c,tail,rfl⟩ := List.exists_cons_of_ne_nil bare.nonempty
  exact readLines?_assignment (bare.row c List.mem_cons_self) keys read new

/-- A line as it is written and what it is read as. -/
structure Line where
  key : Text
  written : Text
  value : Toml

namespace Line

def text (line : Line) : Text :=
  writeEntry line.key line.written

def entry (line : Line) : Text × Toml :=
  (line.key,line.value)

/-- The line is read back. -/
structure Sound (line : Line) : Prop where
  bare : Bare line.key
  back : ReadsBack line.written line.value

end Line

theorem lookup?_eq_none (absent : key ∉ entries.map (·.1)) : lookup? key entries = none := by
  rw [lookup?,Option.map_eq_none_iff,List.find?_eq_none]
  intro entry member same
  exact absent (List.mem_map.mpr ⟨entry,member,of_decide_eq_true same⟩)

variable {lines : List Line}

theorem readLines?_lines (sound : ∀ line ∈ lines, line.Sound)
    (distinct : ((entries ++ lines.map Line.entry).map (·.1)).Nodup) (enough : (lines.flatMap Line.text).length < fuel) :
    readLines? fuel [] entries (lines.flatMap Line.text) = some (entries ++ lines.map Line.entry) := by
  induction lines generalizing entries fuel with
  | nil =>
    obtain ⟨fuel,rfl⟩ := Nat.exists_eq_add_one.mpr (Nat.zero_lt_of_lt enough)
    rw [List.map_nil,List.append_nil]
    rfl
  | cons line lines ih =>
    obtain ⟨fuel,rfl⟩ := Nat.exists_eq_add_one.mpr (Nat.zero_lt_of_lt enough)
    obtain ⟨here,later⟩ := List.forall_mem_cons.mp sound
    have new : lookup? line.key entries = none := by
      apply lookup?_eq_none
      rw [List.map_append,List.nodup_append] at distinct
      exact fun known => distinct.2.2 line.key known line.key List.mem_cons_self rfl
    have length : (writeEntry line.key line.written).length = line.key.length + line.written.length + 4 := by
      simp [writeEntry]
      omega
    rw [List.flatMap_cons,List.length_append,Line.text,length] at enough
    rw [List.map_cons,List.append_cons] at distinct
    have fits : line.written.length < fuel := by omega
    have fitsLater : (lines.flatMap Line.text).length < fuel := by omega
    rw [List.flatMap_cons,Line.text,readLines?_writeEntry here.bare here.back new fits,List.map_cons,
      List.append_cons entries line.entry]
    exact ih later distinct fitsLater

/-- A document of such lines is read as their entries. -/
theorem parse?_lines (sound : ∀ line ∈ lines, line.Sound) (distinct : (lines.map Line.key).Nodup) :
    parse? (lines.flatMap Line.text) = some (lines.map Line.entry) := by
  have noMark : (lines.flatMap Line.text).head? ≠ some '\ufeff' := by
    cases lines with
    | nil => exact nofun
    | cons line lines =>
      have bare := (sound line List.mem_cons_self).bare
      obtain ⟨c,tail,whole⟩ := List.exists_cons_of_ne_nil bare.nonempty
      have first : isBareKey c := bare.row c (whole ▸ List.mem_cons_self)
      rw [List.flatMap_cons,Line.text,writeEntry,whole]
      exact fun same => ne_of_isBareKey first rfl (Option.some_inj.mp same)
  have keys : (lines.map Line.entry).map (·.1) = lines.map Line.key := by
    rw [List.map_map]
    rfl
  rw [parse?,if_neg noMark]
  exact readLines?_lines sound (keys ▸ distinct) (by omega)

end Lines

end TagOverlay.Toml
