import TagOverlay.Proofs.Json.Strings
import TagOverlay.Proofs.Text.Digits

/-! Written values are read as the values that they were written for, whatever stands after them, as long as it
does not carry on a number. Each level of nesting costs the reader two steps and the writer two characters, so the
length of what is written bounds the steps. -/
namespace TagOverlay.Json

/-- A number ends before this text. -/
def Stops (rest : Text) : Prop :=
  ∀ c ∈ rest.head?, ¬ Text.isDigitOf 10 c ∧ c ≠ '.' ∧ c ≠ 'e' ∧ c ≠ 'E'

/-- The value is read from its written form. -/
def ReadsBack (json : Json) : Prop :=
  ∀ fuel rest, 2 * json.render.length ≤ fuel → Stops rest →
    readValue? fuel (json.render ++ rest) = some (json,rest)

section Number

variable {digits rest : Text}

theorem readDigits?_append (nonempty : digits ≠ []) (row : ∀ c ∈ digits, Text.isDigitOf 10 c) (stops : Stops rest) :
    readDigits? (digits ++ rest) = some (digits,rest) := by
  have taken : (digits ++ rest).takeWhile (Text.isDigitOf 10) = digits := by
    rw [List.takeWhile_append_of_pos row]
    cases rest with
    | nil => simp
    | cons c rest => simp [(stops c rfl).1]
  have left : (digits ++ rest).dropWhile (Text.isDigitOf 10) = rest := by
    rw [List.dropWhile_append_of_pos row]
    cases rest with
    | nil => rfl
    | cons c rest => simp [(stops c rfl).1]
  simp [readDigits?,taken,left,nonempty]

theorem readFraction?_of_stops (stops : Stops rest) : readFraction? rest = some ([],rest) := by
  rw [readFraction?]
  rintro after rfl
  exact (stops '.' rfl).2.1 rfl

theorem readExponent?_of_stops (stops : Stops rest) : readExponent? rest = some ([],rest) := by
  cases rest with
  | nil => rfl
  | cons c rest =>
    have other : ¬ (c = 'e' ∨ c = 'E') := not_or.mpr (stops c rfl).2.2
    simp only [readExponent?,if_neg other]

theorem readWhole?_digitsOf (number : Nat) (stops : Stops rest) :
    readWhole? (Text.digitsOf 10 number ++ rest) = some (Text.digitsOf 10 number,rest) := by
  by_cases positive : 0 < number
  · have row : ∀ c ∈ Text.digitsOf 10 number, Text.isDigitOf 10 c := fun _ => Text.isDigitOf_of_mem_digitsOf
    have nonempty := Text.digitsOf_ne_nil number
    have noZero := Text.head?_digitsOf positive
    rw [readWhole?,readDigits?_append nonempty row stops]
    intro after same
    rw [← List.head?_append_of_ne_nil _ nonempty,same] at noZero
    exact noZero rfl
  · obtain rfl : number = 0 := by omega
    rfl

theorem readUnsigned?_digitsOf (number : Nat) (stops : Stops rest) :
    readUnsigned? (Text.digitsOf 10 number ++ rest) = some (Text.digitsOf 10 number,rest) := by
  simp [readUnsigned?,readWhole?_digitsOf number stops,readFraction?_of_stops stops,
    readExponent?_of_stops stops]

theorem ofUnsigned_digitsOf {number : Nat} (short : (Text.digitsOf 10 number).length ≤ maxDigits) :
    ofUnsigned (Text.digitsOf 10 number) = natural number := by
  have row : (Text.digitsOf 10 number).all (Text.isDigitOf 10) :=
    List.all_eq_true.mpr fun _ => Text.isDigitOf_of_mem_digitsOf
  rw [ofUnsigned,row,decide_eq_true short,Bool.and_self,if_pos rfl,Text.numberOf_digitsOf]

theorem readNumber?_of_isDigit {c : Char} (digit : c.isDigit) (input : Text) :
    readNumber? (c :: input) = (readUnsigned? (c :: input)).map fun read => (ofUnsigned read.1,read.2) := by
  rw [readNumber?]
  rintro after ⟨⟩
  exact absurd digit (by decide)

theorem skipBlanks_cons {c : Char} (printed : isBlank c = false) (rest : Text) :
    skipBlanks (c :: rest) = c :: rest := by
  rw [skipBlanks,List.dropWhile_cons_of_neg (by simp [printed])]

theorem isBlank_of_isDigit {c : Char} (digit : c.isDigit) : isBlank c = false := by
  rw [Bool.eq_false_iff]
  intro blank
  simp only [isBlank,Bool.or_eq_true,decide_eq_true_eq] at blank
  rcases blank with ((rfl | rfl) | rfl) | rfl <;> exact absurd digit (by decide)

theorem readValue?_of_isDigit {c : Char} (digit : c.isDigit) (fuel : Nat) (input : Text) :
    readValue? (fuel + 1) (c :: input) = readNumber? (c :: input) := by
  rw [readValue?,skipBlanks_cons (isBlank_of_isDigit digit)]
  split
  all_goals try next same => exact absurd ((List.cons.inj same).1 ▸ digit) (by decide)
  rfl

theorem readsBack_natural {number : Nat} (short : (Text.digitsOf 10 number).length ≤ maxDigits) :
    ReadsBack (natural number) := by
  intro fuel rest enough stops
  change 2 * (Text.digitsOf 10 number).length ≤ fuel at enough
  change readValue? fuel (Text.digitsOf 10 number ++ rest) = _
  have unsigned := readUnsigned?_digitsOf number stops
  have value := ofUnsigned_digitsOf short
  have digits : ∀ c ∈ Text.digitsOf 10 number, c.isDigit := fun _ => Text.isDigit_of_mem_digitsOf
  obtain ⟨c,row,written⟩ := List.exists_cons_of_ne_nil (Text.digitsOf_ne_nil number)
  rw [written] at enough unsigned value digits ⊢
  have digit := digits c List.mem_cons_self
  obtain ⟨fuel,rfl⟩ := Nat.exists_eq_add_one.mpr (by rw [List.length_cons] at enough; omega : 0 < fuel)
  rw [List.cons_append] at unsigned ⊢
  rw [readValue?_of_isDigit digit,readNumber?_of_isDigit digit,unsigned,Option.map_some,value]

end Number

theorem stops_cons {c : Char} (stop : ¬ Text.isDigitOf 10 c ∧ c ≠ '.' ∧ c ≠ 'e' ∧ c ≠ 'E') (rest : Text) :
    Stops (c :: rest) := by
  intro d same
  obtain rfl := Option.some_inj.mp same
  exact stop

theorem quote_append (text rest : Text) : quote text ++ rest = '"' :: (text.flatMap escape ++ '"' :: rest) := by
  simp [quote]

theorem readValue?_quote (fuel : Nat) (rest : Text) : readValue? (fuel + 1) ('"' :: rest) =
    (readString? rest).map fun read => (read.1.elim unreadable string,read.2) := rfl

theorem readsBack_string (text : Text) : ReadsBack (string text) := by
  intro fuel rest enough _
  change 2 * (quote text).length ≤ fuel at enough
  have quotes : 2 ≤ (quote text).length := by simp [quote]
  obtain ⟨fuel,rfl⟩ := Nat.exists_eq_add_one.mpr (by omega : 0 < fuel)
  rw [render,quote_append,readValue?_quote,readString?_quote]
  rfl

theorem commas_cons (first next : Text) (rest : List Text) :
    [','].intercalate (first :: next :: rest) = first ++ ',' :: [','].intercalate (next :: rest) := by
  rw [List.intercalate_cons_cons,List.append_assoc,List.singleton_append]

theorem commas_begin (c : Char) (first : Text) (rest : List Text) :
    ∃ more, [','].intercalate ((c :: first) :: rest) = c :: more := by
  cases rest with
  | nil => exact ⟨first,List.intercalate_singleton⟩
  | cons next rest => exact ⟨first ++ ',' :: [','].intercalate (next :: rest),commas_cons (c :: first) next rest⟩

section Array

variable {fuel : Nat} {before : List Json} {item : Json} {input rest : Text}

theorem readItems?_comma (read : readValue? fuel input = some (item,',' :: rest)) :
    readItems? (fuel + 1) before input = readItems? fuel (item :: before) rest := by
  rw [readItems?,read]
  rfl

theorem readItems?_bracket (read : readValue? fuel input = some (item,']' :: rest)) :
    readItems? (fuel + 1) before input = some ((item :: before).reverse,rest) := by
  rw [readItems?,read]
  rfl

theorem readItems?_render {items : List Json} (nonempty : items ≠ []) (back : ∀ item ∈ items, item.ReadsBack)
    (enough : 2 * ([','].intercalate (renderItems items)).length + 2 ≤ fuel) :
    readItems? fuel before ([','].intercalate (renderItems items) ++ ']' :: rest) =
      some (before.reverse ++ items,rest) := by
  induction items generalizing fuel before with
  | nil => contradiction
  | cons item items ih =>
    obtain ⟨fuel,rfl⟩ := Nat.exists_eq_add_one.mpr (by omega : 0 < fuel)
    obtain ⟨first,later⟩ := List.forall_mem_cons.mp back
    cases items with
    | nil =>
      simp only [renderItems,List.intercalate_singleton] at enough ⊢
      rw [readItems?_bracket (first fuel _ (by omega) (stops_cons (by decide) rest)),List.reverse_cons]
    | cons next items =>
      simp only [renderItems] at enough ih ⊢
      rw [commas_cons,List.length_append,List.length_cons] at enough
      rw [commas_cons,List.append_assoc,List.cons_append,
        readItems?_comma (first fuel _ (by omega) (stops_cons (by decide) _)),
        ih (List.cons_ne_nil _ _) later (by omega),List.reverse_cons,List.append_assoc]
      rfl

theorem readValue?_bracket {c : Char} (printed : isBlank c = false) (more : c ≠ ']') (rest : Text) :
    readValue? (fuel + 1) ('[' :: c :: rest) =
      (readItems? fuel [] (c :: rest)).map fun read => (array read.1,read.2) := by
  have opening : isBlank '[' = false := rfl
  simp only [readValue?,skipBlanks_cons opening,skipBlanks_cons printed]
  split
  next same => exact absurd (List.cons.inj same).1 more
  next => rfl

end Array

section Object

variable {fuel : Nat} {before : List (Option Text × Json)} {key : Text} {value : Json} {input rest : Text}

theorem readMembers?_comma (read : readValue? fuel input = some (value,',' :: rest)) :
    readMembers? (fuel + 1) before (quote key ++ ':' :: input) =
      readMembers? fuel ((some key,value) :: before) rest := by
  have opening : isBlank '"' = false := rfl
  have colon : isBlank ':' = false := rfl
  have comma : isBlank ',' = false := rfl
  rw [quote_append]
  simp only [readMembers?,skipBlanks_cons opening,readString?_quote,skipBlanks_cons colon,read,skipBlanks_cons comma]

theorem readMembers?_brace (read : readValue? fuel input = some (value,'\x7d' :: rest)) :
    readMembers? (fuel + 1) before (quote key ++ ':' :: input) =
      some (((some key,value) :: before).reverse,rest) := by
  have opening : isBlank '"' = false := rfl
  have colon : isBlank ':' = false := rfl
  have brace : isBlank '\x7d' = false := rfl
  rw [quote_append]
  simp only [readMembers?,skipBlanks_cons opening,readString?_quote,skipBlanks_cons colon,read,skipBlanks_cons brace]

theorem renderMembers_cons (member : Text × Json) (members : List (Text × Json)) :
    renderMembers (member :: members) = (quote member.1 ++ ':' :: member.2.render) :: renderMembers members := by
  rw [renderMembers,List.append_assoc,List.singleton_append]

theorem readMembers?_render {members : List (Text × Json)} (nonempty : members ≠ [])
    (back : ∀ member ∈ members, member.2.ReadsBack)
    (enough : 2 * ([','].intercalate (renderMembers members)).length + 2 ≤ fuel) :
    readMembers? fuel before ([','].intercalate (renderMembers members) ++ '\x7d' :: rest) =
      some (before.reverse ++ members.map (fun member => (some member.1,member.2)),rest) := by
  induction members generalizing fuel before with
  | nil => contradiction
  | cons member members ih =>
    obtain ⟨fuel,rfl⟩ := Nat.exists_eq_add_one.mpr (by omega : 0 < fuel)
    obtain ⟨first,later⟩ := List.forall_mem_cons.mp back
    cases members with
    | nil =>
      rw [renderMembers_cons,renderMembers,List.intercalate_singleton] at enough ⊢
      rw [List.length_append,List.length_cons] at enough
      rw [List.append_assoc,List.cons_append,
        readMembers?_brace (first fuel _ (by omega) (stops_cons (by decide) rest))]
      simp
    | cons next members =>
      rw [renderMembers_cons,renderMembers_cons,commas_cons,← renderMembers_cons] at enough ⊢
      simp only [List.length_append,List.length_cons] at enough
      rw [List.append_assoc,List.append_assoc,List.cons_append,List.cons_append,
        readMembers?_comma (first fuel _ (by omega) (stops_cons (by decide) _)),
        ih (List.cons_ne_nil _ _) later (by omega)]
      simp

theorem readValue?_brace (rest : Text) :
    readValue? (fuel + 1) ('\x7b' :: '"' :: rest) =
      (readMembers? fuel [] ('"' :: rest)).map fun read => (ofMembers read.1,read.2) := rfl

theorem ofMembers_some (members : List (Text × Json)) :
    ofMembers (members.map fun member => (some member.1,member.2)) = object members := by
  have texts : (members.map fun member => (some member.1,member.2)).mapM
      (fun (member : Option Text × Json) => member.1.map fun key => (key,member.2)) = some members := by
    induction members with
    | nil => rfl
    | cons member members ih => rw [List.map_cons,List.mapM_cons,ih]; rfl
  rw [ofMembers,texts]

end Object

/-- Values without half of a surrogate pair, and whose numbers are natural ones of no more digits than are read. -/
inductive Plain : Json → Prop
  | null : Plain null
  | bool (value : Bool) : Plain (bool value)
  | natural {number : Nat} (short : (Text.digitsOf 10 number).length ≤ maxDigits) : Plain (natural number)
  | string (text : Text) : Plain (string text)
  | array {items : List Json} (plain : ∀ item ∈ items, Plain item) : Plain (array items)
  | object {members : List (Text × Json)} (plain : ∀ member ∈ members, Plain member.2) : Plain (object members)

/-- A written value begins like no end of an array. -/
theorem Plain.begins {json : Json} (plain : json.Plain) :
    ∃ c rest, json.render = c :: rest ∧ isBlank c = false ∧ c ≠ ']' := by
  cases plain with
  | null => exact ⟨_,_,rfl,rfl,by decide⟩
  | bool value => cases value <;> exact ⟨_,_,rfl,rfl,by decide⟩
  | @natural number short =>
    obtain ⟨c,rest,written⟩ := List.exists_cons_of_ne_nil (Text.digitsOf_ne_nil number)
    have digit := Text.isDigit_of_mem_digitsOf (written ▸ List.mem_cons_self : c ∈ Text.digitsOf 10 number)
    refine ⟨c,rest,written,isBlank_of_isDigit digit,?_⟩
    rintro rfl
    exact absurd digit (by decide)
  | string text => exact ⟨_,_,rfl,rfl,by decide⟩
  | array plain => exact ⟨_,_,rfl,rfl,by decide⟩
  | object plain => exact ⟨_,_,rfl,rfl,by decide⟩

theorem readsBack_array {items : List Json} (plain : ∀ item ∈ items, item.Plain)
    (back : ∀ item ∈ items, item.ReadsBack) : ReadsBack (array items) := by
  intro fuel rest enough _
  have written : (array items).render ++ rest = '[' :: ([','].intercalate (renderItems items) ++ ']' :: rest) := by
    simp [render]
  have length : (array items).render.length = ([','].intercalate (renderItems items)).length + 2 := by
    simp [render]
  obtain ⟨fuel,rfl⟩ := Nat.exists_eq_add_one.mpr (by omega : 0 < fuel)
  rw [written]
  cases items with
  | nil => rfl
  | cons item items =>
    have enclosed : readItems? fuel [] ([','].intercalate (renderItems (item :: items)) ++ ']' :: rest) =
        some (item :: items,rest) := readItems?_render (List.cons_ne_nil item items) back (by omega)
    obtain ⟨c,later,first,printed,further⟩ := (plain item List.mem_cons_self).begins
    obtain ⟨more,begins⟩ := commas_begin c later (renderItems items)
    rw [renderItems,first,begins,List.cons_append] at enclosed ⊢
    rw [readValue?_bracket printed further,enclosed]
    rfl

theorem readsBack_object {members : List (Text × Json)} (back : ∀ member ∈ members, member.2.ReadsBack) :
    ReadsBack (object members) := by
  intro fuel rest enough _
  have written : (object members).render ++ rest =
      '\x7b' :: ([','].intercalate (renderMembers members) ++ '\x7d' :: rest) := by simp [render]
  have length : (object members).render.length = ([','].intercalate (renderMembers members)).length + 2 := by
    simp [render]
  obtain ⟨fuel,rfl⟩ := Nat.exists_eq_add_one.mpr (by omega : 0 < fuel)
  rw [written]
  cases members with
  | nil => rfl
  | cons member members =>
    have enclosed : readMembers? fuel [] ([','].intercalate (renderMembers (member :: members)) ++ '\x7d' :: rest) =
        some ((member :: members).map (fun member => (some member.1,member.2)),rest) :=
      readMembers?_render (List.cons_ne_nil member members) back (by omega)
    obtain ⟨more,begins⟩ := commas_begin '"' _ (renderMembers members)
    rw [renderMembers_cons,quote_append,begins,List.cons_append] at enclosed ⊢
    rw [readValue?_brace,enclosed]
    exact congrArg (fun read => some (read,rest)) (ofMembers_some (member :: members))

theorem Plain.readsBack {json : Json} (plain : json.Plain) : json.ReadsBack := by
  induction plain with
  | null =>
    rintro (_ | fuel) rest enough _
    · exact absurd enough (by decide)
    · rfl
  | bool value =>
    rintro (_ | fuel) rest enough _
    · cases value <;> exact absurd enough (by decide)
    · cases value <;> rfl
  | natural short => exact readsBack_natural short
  | string text => exact readsBack_string text
  | array plain back => exact readsBack_array plain back
  | object plain back => exact readsBack_object back

theorem Plain.parse?_render {json : Json} (plain : json.Plain) : parse? json.render = some json := by
  have read := plain.readsBack (2 * json.render.length + 1) [] (by omega) (fun _ member => nomatch member)
  rw [List.append_nil] at read
  rw [parse?,read]
  rfl

end TagOverlay.Json
