import OpenUltraSast.Library.JsonReader

/-!
# Writing JSON

A writer of JSON texts without blanks, which escapes quotes, backslashes and control characters and
leaves every other character as it is.
-/

namespace JsonWriter

open Values JsonReader List

def escape (c : Char) : List Char :=
  if c = '"' then ['\\', '"']
  else if c = '\\' then ['\\', '\\']
  else if c = '\x08' then ['\\', 'b']
  else if c = '\x0c' then ['\\', 'f']
  else if c = '\n' then ['\\', 'n']
  else if c = '\r' then ['\\', 'r']
  else if c = '\t' then ['\\', 't']
  else if c.toNat < 32 then
    ['\\', 'u', '0', '0', Nat.digitChar (c.toNat / 16), Nat.digitChar (c.toNat % 16)]
  else [c]

def shorthands : List (Char × Char) :=
  [('"', '"'), ('\\', '\\'), ('\x08', 'b'), ('\x0c', 'f'), ('\n', 'n'), ('\r', 'r'), ('\t', 't')]

theorem escape_forms (c : Char) :
    (∃ e, (c, e) ∈ shorthands ∧ escape c = ['\\', e]) ∨
    (c.toNat < 32 ∧ escape c =
      ['\\', 'u', '0', '0', Nat.digitChar (c.toNat / 16), Nat.digitChar (c.toNat % 16)]) ∨
    (c ≠ '"' ∧ c ≠ '\\' ∧ 32 ≤ c.toNat ∧ escape c = [c]) := by
  have letter {d e : Char} (is : c = d) (among : (d, e) ∈ shorthands)
      (form : escape d = ['\\', e]) : ∃ e, (c, e) ∈ shorthands ∧ escape c = ['\\', e] := by
    rw [is]
    exact ⟨e, among, form⟩
  by_cases quote : c = '"'
  · exact .inl (letter quote (by decide) rfl)
  by_cases backslash : c = '\\'
  · exact .inl (letter backslash (by decide) rfl)
  by_cases backspace : c = '\x08'
  · exact .inl (letter backspace (by decide) rfl)
  by_cases feed : c = '\x0c'
  · exact .inl (letter feed (by decide) rfl)
  by_cases newline : c = '\n'
  · exact .inl (letter newline (by decide) rfl)
  by_cases carriage : c = '\r'
  · exact .inl (letter carriage (by decide) rfl)
  by_cases tab : c = '\t'
  · exact .inl (letter tab (by decide) rfl)
  rw [escape, if_neg quote, if_neg backslash, if_neg backspace, if_neg feed, if_neg newline,
    if_neg carriage, if_neg tab]
  by_cases control : c.toNat < 32
  · exact .inr (.inl ⟨control, if_pos control⟩)
  · exact .inr (.inr ⟨quote, backslash, by omega, if_neg control⟩)

def escapeChars : List Char := "\\\"bfnrtu0123456789abcdef".toList

theorem all_escape {p : Char → Bool} (plain : escapeChars.all p = true)
    (c : Char) : escape c = [c] ∧ 32 ≤ c.toNat ∨
      escape c ≠ [] ∧ (∀ e ∈ escape c, p e = true) ∧ (c.toNat < 32 ∨ p c = true) := by
  have holds {e : Char} (among : e ∈ escapeChars) : p e = true :=
    all_eq_true.mp plain e among
  rcases escape_forms c with ⟨e, among, form⟩ | ⟨control, form⟩ | ⟨_, _, visible, form⟩
  · have own : ∀ pair ∈ shorthands,
        (pair.1.toNat < 32 ∨ pair.1 ∈ escapeChars) ∧
          pair.2 ∈ escapeChars := by decide
    have letter := own (c, e) among
    rw [form, forall_mem_cons, forall_mem_singleton]
    exact .inr ⟨cons_ne_nil _ _, ⟨holds (by decide), holds letter.2⟩, letter.1.imp_right holds⟩
  · have hex : ∀ n < 16, Nat.digitChar n ∈ escapeChars := by decide
    rw [form]
    rw [forall_mem_cons, forall_mem_cons, forall_mem_cons, forall_mem_cons,
      forall_mem_cons, forall_mem_singleton]
    exact .inr ⟨cons_ne_nil _ _, ⟨holds (by decide), holds (by decide), holds (by decide),
      holds (by decide), holds (hex _ (by omega)), holds (hex _ (by omega))⟩, .inl control⟩
  · exact .inl ⟨form, visible⟩

def body (text : String) : List Char := text.toList.flatMap escape

def writeString (text : String) : List Char := '"' :: (body text ++ ['"'])

variable (decimal : ℚ → List Char)

mutual
def write : Json → List Char
  | .null => "null".toList
  | .bool true => "true".toList
  | .bool false => "false".toList
  | .int value => (toString value).toList
  | .float value => decimal value
  | .str text => writeString text
  | .arr items => '[' :: (writeItems items ++ [']'])
  | .obj fields => '\x7b' :: (writeFields fields ++ ['\x7d'])

def writeItems : List Json → List Char
  | [] => []
  | item :: items => write item ++ if items.isEmpty then [] else ',' :: writeItems items

def writeFields : List (String × Json) → List Char
  | [] => []
  | (key, item) :: fields =>
    writeString key ++ ':' ::
      (write item ++ if fields.isEmpty then [] else ',' :: writeFields fields)
end

variable (float : List Char → ℚ)

mutual
/-- A value whose numbers are written so that they are read back, and whose objects have no key
twice. -/
def Plain : Json → Prop
  | .float value =>
    numberOf float (decimal value) = some (.float value) ∧
      (decimal value).all isNumberChar = true
  | .arr items => PlainItems items
  | .obj fields => (Dicts.keys fields).Nodup ∧ PlainFields fields
  | _ => True

def PlainItems : List Json → Prop
  | [] => True
  | item :: items => Plain item ∧ PlainItems items

def PlainFields : List (String × Json) → Prop
  | [] => True
  | (_, item) :: fields => Plain item ∧ PlainFields fields
end

variable {decimal float}

theorem hexUnit_escape :
    ∀ n < 32, hexUnit '0' '0' (Nat.digitChar (n / 16)) (Nat.digitChar (n % 16)) = some n := by
  decide

theorem readUnits_escaped (c : Char) (rest : List Char) :
    readUnits (escape c ++ rest) = (readUnits rest).map (behind c.toNat) := by
  rcases escape_forms c with ⟨e, among, form⟩ | ⟨control, form⟩ | ⟨quote, backslash, visible, form⟩
  · have stands : ∀ pair ∈ shorthands, unescape pair.2 = some pair.1 := by decide
    rw [form]
    exact readUnits_escape (stands (c, e) among) rest
  · rw [form]
    simp only [cons_append, nil_append]
    rw [readUnits_unit, hexUnit_escape _ control]
    rfl
  · rw [form]
    exact readUnits_plain quote backslash visible rest

theorem readUnits_body (text : List Char) (rest : List Char) :
    readUnits (text.flatMap escape ++ '"' :: rest) = some (text.map Char.toNat, rest) := by
  induction text with
  | nil => exact readUnits_quote rest
  | cons c text ih =>
    rw [flatMap_cons, append_assoc, readUnits_escaped, ih]
    rfl

theorem not_half (c : Char) :
    JsonText.isHigh c.toNat = false ∧ JsonText.isLow c.toNat = false := by
  have valid : c.toNat < 0xD800 ∨ 0xDFFF < c.toNat ∧ c.toNat < 0x110000 := c.valid
  simp only [JsonText.isHigh, JsonText.isLow, Bool.and_eq_false_iff, decide_eq_false_iff_not]
  omega

theorem single_toNat (c : Char) : single c.toNat = c := by
  rw [single, (not_half c).1, (not_half c).2]
  exact Char.ofNat_toNat c

theorem characters_toNat (text : List Char) : characters (text.map Char.toNat) = text := by
  induction text with
  | nil => rfl
  | cons c text ih =>
    cases text with
    | nil => simp [characters, single_toNat]
    | cons d text =>
      have apart : ¬ (JsonText.isHigh c.toNat && JsonText.isLow d.toNat) = true := by
        simp [(not_half c).1]
      rw [map_cons, map_cons, characters, if_neg apart, single_toNat]
      exact congrArg (c :: ·) ih

theorem readString_body (text : String) (rest : List Char) :
    readString (body text ++ '"' :: rest) = some (text, rest) := by
  rw [readString, body, readUnits_body]
  simp [characters_toNat]

/-- What comes behind a number does not go on with it. -/
def Ends (rest : List Char) : Prop := ∀ c ∈ rest.head?, isNumberChar c = false

variable {c : Char}

theorem Ends.cons (other : isNumberChar c = false) (rest : List Char) :
    Ends (c :: rest) := by
  intro d head
  cases head
  exact other

variable {value : Json}

variable {rest token : List Char}

theorem readNumber_token (is : numberOf float token = some value)
    (whole : token.all isNumberChar = true) (ends : Ends rest) :
    readNumber float (token ++ rest) = some (value, rest) := by
  have all := all_eq_true.mp whole
  have stop : rest.takeWhile isNumberChar = [] ∧ rest.dropWhile isNumberChar = rest := by
    cases rest with
    | nil => exact ⟨rfl, rfl⟩
    | cons c rest => simp [ends c rfl]
  rw [readNumber, takeWhile_append_of_pos all, dropWhile_append_of_pos all, stop.1,
    stop.2, append_nil, is]
  rfl

variable {n : Nat}

theorem isDigit_toDigits (member : c ∈ Nat.toDigits 10 n) :
    c.isDigit = true :=
  Nat.isDigit_of_mem_toDigits (by decide) (by decide) member

theorem digitChar_ne_zero : ∀ n < 10, 0 < n → Nat.digitChar n ≠ '0' := by decide

theorem head_toDigits (n : Nat) :
    (Nat.toDigits 10 n).head? ≠ some '0' ∨ (Nat.toDigits 10 n).length = 1 := by
  induction n using Nat.strongRecOn with
  | ind n ih =>
    by_cases small : n < 10
    · right
      rw [Nat.toDigits_of_lt_base small]
      rfl
    · left
      rw [Nat.toDigits_of_base_le (by decide) (by omega),
        List.head?_append_of_ne_nil _ Nat.toDigits_ne_nil]
      rcases ih (n / 10) (by omega) with other | short
      · exact other
      · -- a single digit, which is not zero
        have tens : n / 10 < 10 ^ 1 :=
          (Nat.length_toDigits_le_iff (by decide) (by decide)).mp short.le
        rw [Nat.toDigits_of_lt_base (by omega)]
        have other := digitChar_ne_zero (n / 10) (by omega) (by omega)
        simpa using other

theorem isWhole_toDigits (n : Nat) : isWhole (Nat.toDigits 10 n) = true := by
  have digits : isDigits (Nat.toDigits 10 n) = true := by
    rw [isDigits, Bool.and_eq_true, all_eq_true]
    exact ⟨by simp [Nat.toDigits_ne_nil], fun c member => isDigit_toDigits member⟩
  rw [isWhole, digits, Bool.true_and]
  simpa using head_toDigits n

theorem takeWhile_toDigits (n : Nat) :
    (Nat.toDigits 10 n).takeWhile Char.isDigit = Nat.toDigits 10 n ∧
      (Nat.toDigits 10 n).dropWhile Char.isDigit = [] := by
  have all : ∀ c ∈ Nat.toDigits 10 n, c.isDigit = true := fun _ member => isDigit_toDigits member
  constructor
  · have taken := @takeWhile_append_of_pos _ Char.isDigit _ [] all
    simpa using taken
  · have dropped := @dropWhile_append_of_pos _ Char.isDigit _ [] all
    simpa using dropped

theorem toList_toString (value : Int) :
    (toString value).toList =
      if 0 ≤ value then Nat.toDigits 10 value.toNat
      else '-' :: Nat.toDigits 10 (-value).toNat := by
  rw [Int.toString_eq_repr, Int.repr_eq_if]
  split
  next => exact Nat.toList_repr
  next =>
    rw [String.toList_append, Nat.toList_repr]
    rfl

theorem numberOf_digits (n : Nat) :
    numberOf float (Nat.toDigits 10 n) = some (.int n) := by
  obtain ⟨taken, dropped⟩ := takeWhile_toDigits n
  have unsigned : (Nat.toDigits 10 n).head? ≠ some '-' := by
    intro head
    have digit := isDigit_toDigits (mem_of_head? head)
    cases digit
  simp [numberOf, unsigned, taken, dropped, isWhole_toDigits]

theorem numberOf_negative (n : Nat) :
    numberOf float ('-' :: Nat.toDigits 10 n) = some (.int (-n)) := by
  obtain ⟨taken, dropped⟩ := takeWhile_toDigits n
  simp [numberOf, taken, dropped, isWhole_toDigits]

theorem numberOf_toString (value : Int) :
    numberOf float (toString value).toList = some (.int value) := by
  rw [toList_toString]
  split
  next positive => rw [numberOf_digits, Int.toNat_of_nonneg positive]
  next negative => rw [numberOf_negative, Int.toNat_of_nonneg (by omega), Int.neg_neg]

theorem isNumberChar_of_isDigit (digit : c.isDigit = true) : isNumberChar c = true := by
  simp [isNumberChar, digit]

theorem all_toString (value : Int) : (toString value).toList.all isNumberChar = true := by
  rw [all_eq_true, toList_toString]
  intro c member
  split at member
  next => exact isNumberChar_of_isDigit (isDigit_toDigits member)
  next =>
    rcases mem_cons.mp member with rfl | digit
    · rfl
    · exact isNumberChar_of_isDigit (isDigit_toDigits digit)

theorem head_of_numberOf (is : numberOf float token = some value) :
    ∃ c more, token = c :: more ∧ (c = '-' ∨ c.isDigit = true) := by
  cases token with
  | nil => cases is
  | cons c more =>
    refine ⟨c, more, rfl, ?_⟩
    by_contra other
    rw [not_or, Bool.not_eq_true] at other
    have none_ : numberOf float (c :: more) = none := by
      simp [numberOf, other, isWhole, isDigits]
    rw [none_] at is
    cases is

theorem readValue_number (is : numberOf float token = some value)
    (whole : token.all isNumberChar = true) (ends : Ends rest) :
    readValue float (n + 1) (token ++ rest) = some (value, rest) := by
  have read := readNumber_token is whole ends
  obtain ⟨c, more, rfl, begins⟩ := head_of_numberOf is
  have apart : c ≠ '"' ∧ c ≠ '[' ∧ c ≠ '\x7b' := by
    refine ⟨?_, ?_, ?_⟩ <;> (rintro rfl; revert begins; decide)
  rw [cons_append] at read ⊢
  rw [readValue, if_neg apart.1, if_neg apart.2.1, if_neg apart.2.2, read]
  rfl

theorem readValue_word {word : List Char} (is : wordOf float c = some (word, value)) :
    readValue float (n + 1) (word ++ rest) = some (value, rest) := by
  have number := readNumber_word is rest
  have read := readWord_append is rest
  obtain ⟨more, rfl⟩ := head_word is
  have apart : c ≠ '"' ∧ c ≠ '[' ∧ c ≠ '\x7b' := by
    refine ⟨?_, ?_, ?_⟩ <;> (rintro rfl; cases is)
  rw [cons_append] at number read ⊢
  rw [readValue, if_neg apart.1, if_neg apart.2.1, if_neg apart.2.2, number, read]
  rfl

theorem skip_of_not_blank (visible : isBlank c = false) (rest : List Char) :
    skip (c :: rest) = c :: rest := by
  rw [skip, dropWhile_cons_of_neg (by simp [visible])]

theorem head_write (plain : Plain decimal float value) :
    ∃ c more, write decimal value = c :: more ∧ isBlank c = false ∧ c ≠ ']' ∧ c ≠ '\x7d' := by
  have number {token : List Char} {value : Json} (is : numberOf float token = some value) :
      ∃ c more, token = c :: more ∧ isBlank c = false ∧ c ≠ ']' ∧ c ≠ '\x7d' := by
    obtain ⟨c, more, rfl, begins⟩ := head_of_numberOf is
    refine ⟨c, more, rfl, ?_, ?_, ?_⟩
    · rw [← Bool.not_eq_true]
      intro blank
      simp only [isBlank, Bool.or_eq_true, decide_eq_true_eq] at blank
      rcases blank with ((rfl | rfl) | rfl) | rfl <;> revert begins <;> decide
    all_goals
      rintro rfl
      revert begins
      decide
  cases value with
  | null => exact ⟨_, _, rfl, by decide, by decide, by decide⟩
  | bool value => cases value <;> exact ⟨_, _, rfl, by decide, by decide, by decide⟩
  | int value =>
    rw [write]
    exact number (numberOf_toString value)
  | float value =>
    rw [Plain] at plain
    rw [write]
    exact number plain.1
  | str text => exact ⟨_, _, rfl, by decide, by decide, by decide⟩
  | arr items => exact ⟨_, _, by rw [write], by decide, by decide, by decide⟩
  | obj fields => exact ⟨_, _, by rw [write], by decide, by decide, by decide⟩

variable {items : List Json}

theorem expect_writeItems (filled : items ≠ [])
    (plain : PlainItems decimal float items) (rest : List Char) :
    skip (writeItems decimal items ++ rest) = writeItems decimal items ++ rest ∧
      expect ']' (writeItems decimal items ++ rest) = none := by
  cases items with
  | nil => exact absurd rfl filled
  | cons item items =>
    rw [PlainItems] at plain
    obtain ⟨c, more, first, visible, other, _⟩ := head_write plain.1
    rw [writeItems, first, cons_append, cons_append]
    exact ⟨skip_of_not_blank visible _, if_neg other⟩

variable {fields : List (String × Json)}

theorem expect_writeFields (filled : fields ≠ [])
    (rest : List Char) :
    skip (writeFields decimal fields ++ rest) = writeFields decimal fields ++ rest ∧
      expect '\x7d' (writeFields decimal fields ++ rest) = none := by
  cases fields with
  | nil => exact absurd rfl filled
  | cons field fields =>
    obtain ⟨key, item⟩ := field
    rw [writeFields, writeString, cons_append, cons_append]
    constructor
    · exact skip_of_not_blank (by decide) _
    · rw [expect, if_neg (by decide)]

/-- A list whose items are read back: `value` reads the items that are shorter than a bound. -/
theorem readItems_write_cons {value : Reading Json} {item : Json}
    (plain : PlainItems decimal float items)
    (first : ∀ rest, Ends rest → value (write decimal item ++ rest) = some (item, rest))
    (others : items ≠ [] →
      readItems value n (writeItems decimal items ++ ']' :: rest) = some (items, rest)) :
    readItems value (n + 1) (writeItems decimal (item :: items) ++ ']' :: rest) =
      some (item :: items, rest) := by
  rw [writeItems, append_assoc, readItems]
  cases items with
  | nil =>
    rw [isEmpty_nil, if_pos rfl, nil_append, first _ (.cons (by decide) rest)]
    simp only [Option.bind_eq_bind, Option.bind_some, skip_of_not_blank (c := ']') (by decide)]
    rw [if_neg (by decide), if_pos trivial]
  | cons next items =>
    have later := others (cons_ne_nil _ _)
    rw [isEmpty_cons, if_neg (by decide), cons_append, first _ (.cons (by decide) _)]
    simp only [Option.bind_eq_bind, Option.bind_some, skip_of_not_blank (c := ',') (by decide)]
    rw [if_pos trivial, (expect_writeItems (cons_ne_nil _ _) plain _).1, later]
    rfl

theorem readFields_write_cons {value : Reading Json} {key : String} {item : Json}
    (plain : Plain decimal float item)
    (first : ∀ rest, Ends rest → value (write decimal item ++ rest) = some (item, rest))
    (others : fields ≠ [] →
      readFields value n (writeFields decimal fields ++ '\x7d' :: rest) = some (fields, rest)) :
    readFields value (n + 1) (writeFields decimal ((key, item) :: fields) ++ '\x7d' :: rest) =
      some ((key, item) :: fields, rest) := by
  have value_ (rest : List Char) :
      skip (write decimal item ++ rest) = write decimal item ++ rest := by
    obtain ⟨c, more, begun, visible, -⟩ := head_write plain
    rw [begun, cons_append, skip_of_not_blank visible]
  have named (rest : List Char) :
      readString (body key ++ '"' :: rest) = some (key, rest) := readString_body key rest
  rw [writeFields, writeString, readFields]
  simp only [cons_append, append_assoc, nil_append, Option.bind_eq_bind,
    Option.bind_some, expect_self, named, skip_of_not_blank (c := ':') (by decide), value_]
  cases fields with
  | nil =>
    rw [isEmpty_nil, if_pos rfl, nil_append, first _ (.cons (by decide) rest)]
    simp only [Option.bind_some, skip_of_not_blank (c := '\x7d') (by decide)]
    rw [if_neg (by decide), if_pos trivial]
  | cons next fields =>
    have later := others (cons_ne_nil _ _)
    rw [isEmpty_cons, if_neg (by decide), cons_append, first _ (.cons (by decide) _)]
    simp only [Option.bind_some, skip_of_not_blank (c := ',') (by decide)]
    rw [if_pos trivial, (expect_writeFields (cons_ne_nil _ _) _).1, later]
    rfl

mutual
/-- A plain value is read back from what is written. -/
theorem readValue_write : ∀ (value : Json) (n : Nat) (rest : List Char),
    Plain decimal float value → (write decimal value).length < n → Ends rest →
      readValue float n (write decimal value ++ rest) = some (value, rest)
  | value, 0, _, _, short, _ => absurd short (Nat.not_lt_zero _)
  | .null, n + 1, rest, _, _, _ => by rw [write]; exact readValue_word (c := 'n') rfl
  | .bool true, n + 1, rest, _, _, _ => by rw [write]; exact readValue_word (c := 't') rfl
  | .bool false, n + 1, rest, _, _, _ => by rw [write]; exact readValue_word (c := 'f') rfl
  | .int value, n + 1, rest, _, _, ends => by
    rw [write]
    exact readValue_number (numberOf_toString value) (all_toString value) ends
  | .float value, n + 1, rest, plain, _, ends => by
    rw [Plain] at plain
    rw [write]
    exact readValue_number plain.1 plain.2 ends
  | .str text, n + 1, rest, _, _, _ => by
    rw [write, writeString, cons_append, readValue, if_pos rfl, append_assoc]
    have read := readString_body text rest
    simp only [cons_append, nil_append, read, Option.map_some]
  | .arr items, n + 1, rest, plain, short, _ => by
    rw [Plain] at plain
    rw [write] at short ⊢
    rw [cons_append, readValue, if_neg (by decide), if_pos rfl, append_assoc]
    simp only [cons_append, nil_append]
    by_cases filled : items = []
    · rw [filled]
      rfl
    · -- the first item begins otherwise than the end of the list
      obtain ⟨begun, other⟩ := expect_writeItems filled plain (']' :: rest)
      have fewer : (writeItems decimal items).length < n := by simp at short; omega
      rw [begun, other, readItems_write items n n rest filled plain fewer fewer]
      rfl
  | .obj fields, n + 1, rest, plain, short, _ => by
    rw [Plain] at plain
    rw [write] at short ⊢
    rw [cons_append, readValue, if_neg (by decide), if_neg (by decide), if_pos rfl,
      append_assoc]
    simp only [cons_append, nil_append]
    by_cases filled : fields = []
    · rw [filled]
      rfl
    · -- the first key begins with its quote
      obtain ⟨begun, other⟩ := @expect_writeFields decimal fields filled ('\x7d' :: rest)
      have fewer : (writeFields decimal fields).length < n := by simp at short; omega
      rw [begun, other, readFields_write fields n n rest filled plain.2 fewer fewer]
      simp only [Option.map_some, Dicts.ofEntries_of_nodup plain.1]

theorem readItems_write : ∀ (items : List Json) (k n : Nat) (rest : List Char), items ≠ [] →
    PlainItems decimal float items → (writeItems decimal items).length < k →
      (writeItems decimal items).length < n →
        readItems (readValue float k) n (writeItems decimal items ++ ']' :: rest) =
          some (items, rest)
  | [], _, _, _, filled, _, _, _ => absurd rfl filled
  | _, _, 0, _, _, _, _, short => absurd short (Nat.not_lt_zero _)
  | item :: items, k, n + 1, rest, _, plain, deep, short => by
    rw [PlainItems] at plain
    rw [writeItems, length_append] at deep short
    apply readItems_write_cons plain.2
    · intro rest ends
      exact readValue_write item k rest plain.1 (by omega) ends
    · intro filled
      have more : (if items.isEmpty then [] else ',' :: writeItems decimal items).length =
          (writeItems decimal items).length + 1 := by simp [filled]
      exact readItems_write items k n rest filled plain.2 (by omega) (by omega)

theorem readFields_write : ∀ (fields : List (String × Json)) (k n : Nat) (rest : List Char),
    fields ≠ [] → PlainFields decimal float fields → (writeFields decimal fields).length < k →
      (writeFields decimal fields).length < n →
        readFields (readValue float k) n (writeFields decimal fields ++ '\x7d' :: rest) =
          some (fields, rest)
  | [], _, _, _, filled, _, _, _ => absurd rfl filled
  | _, _, 0, _, _, _, _, short => absurd short (Nat.not_lt_zero _)
  | (key, item) :: fields, k, n + 1, rest, _, plain, deep, short => by
    rw [PlainFields] at plain
    rw [writeFields, length_append, length_cons, length_append] at deep short
    apply readFields_write_cons plain.1
    · intro rest ends
      exact readValue_write item k rest plain.1 (by omega) ends
    · intro filled
      have more : (if fields.isEmpty then [] else ',' :: writeFields decimal fields).length =
          (writeFields decimal fields).length + 1 := by simp [filled]
      exact readFields_write fields k n rest filled plain.2 (by omega) (by omega)
end

theorem readValue_document (plain : Plain decimal float value) :
    readValue float ((write decimal value).length + 1) (write decimal value) =
      some (value, []) := by
  have read := readValue_write value ((write decimal value).length + 1) [] plain
    (Nat.lt_succ_self _) nofun
  rwa [append_nil] at read

theorem loads_write (plain : Plain decimal float value) :
    loads float (write decimal value) = some value := by
  obtain ⟨c, more, begun, visible, -⟩ := head_write plain
  have start : skip (write decimal value) = write decimal value := by
    rw [begun, skip_of_not_blank visible]
  rw [loads, start, readValue_document plain]
  rfl

/-- No proper beginning of a written object can be read. -/
theorem loads_of_prefix
    (plain : Plain decimal float (.obj fields)) {text more : List Char} (cut : more ≠ [])
    (whole : text ++ more = write decimal (.obj fields)) : loads float text = none := by
  cases text with
  | nil => rfl
  | cons c text =>
    have brace : c = '\x7b' := by
      rw [write, cons_append] at whole
      exact (List.cons.inj whole).1
    rw [Option.eq_none_iff_forall_ne_some]
    intro value found
    obtain ⟨⟨value, rest⟩, read, _⟩ := Option.bind_eq_some_iff.mp found
    rw [skip_of_not_blank (by rw [brace]; decide)] at read
    -- with the rest of the object behind it, more would be left than is
    have size := congrArg List.length whole
    rw [length_append] at size
    have enough : (c :: text).length + 1 ≤ (write decimal (.obj fields)).length + 1 := by omega
    have longer := readValue_append enough read (.inr (by rw [brace]; rfl)) more
    rw [whole, readValue_document plain] at longer
    have left := congrArg Prod.snd (Option.some.inj longer)
    exact cut (append_eq_nil_iff.mp left.symm).2

theorem rawDecode_write (plain : Plain decimal float value) (ends : Ends rest) :
    rawDecode float (write decimal value ++ rest) = some value := by
  rw [rawDecode, readValue_write value _ rest plain (by rw [length_append]; omega) ends]
  rfl

end JsonWriter
