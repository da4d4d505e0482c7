import OpenUltraSast.Library.Dicts
import OpenUltraSast.Library.Json
import OpenUltraSast.Library.JsonText

/-!
# Reading JSON

A reader of JSON texts as `json.loads` has it: blanks between the parts, escapes in strings, the
words for what is no number, and the last of several fields with one key.
-/

namespace JsonReader

open Values List Option

abbrev Reading (α : Type) := List Char → Option (α × List Char)

def isBlank (c : Char) : Bool := c = ' ' || c = '\t' || c = '\n' || c = '\r'

def skip (text : List Char) : List Char := text.dropWhile isBlank

def expect (wanted : Char) : List Char → Option (List Char)
  | [] => none
  | c :: rest => if c = wanted then some rest else none

def hexDigit (c : Char) : Option Nat :=
  if c.isDigit then some (c.toNat - 48)
  else if 'a' ≤ c ∧ c ≤ 'f' then some (c.toNat - 87)
  else if 'A' ≤ c ∧ c ≤ 'F' then some (c.toNat - 55)
  else none

def hexUnit (a b c d : Char) : Option Nat := do
  let first ← hexDigit a
  let second ← hexDigit b
  let third ← hexDigit c
  let fourth ← hexDigit d
  some (first * 4096 + second * 256 + third * 16 + fourth)

/-- What a backslash and a character stand for. -/
def unescape : Char → Option Char
  | '"' => some '"'
  | '\\' => some '\\'
  | '/' => some '/'
  | 'b' => some '\x08'
  | 'f' => some '\x0c'
  | 'n' => some '\n'
  | 'r' => some '\r'
  | 't' => some '\t'
  | _ => none

def behind {α : Type} (first : α) (read : List α × List Char) : List α × List Char :=
  (first :: read.1, read.2)

/-- The code units of a string up to its closing quote. -/
def readUnits : Reading (List Nat)
  | [] => none
  | c :: rest =>
    if c = '"' then some ([], rest)
    else if c = '\\' then
      match rest with
      | 'u' :: a :: b :: c :: d :: rest =>
        (hexUnit a b c d).bind fun unit => (readUnits rest).map (behind unit)
      | e :: rest =>
        (unescape e).bind fun plain => (readUnits rest).map (behind plain.toNat)
      | [] => none
    else if c.toNat < 32 then none
    else (readUnits rest).map (behind c.toNat)

/-- The character of a code unit; half of a pair is none and gets the replacement character. -/
def single (unit : Nat) : Char :=
  if JsonText.isHigh unit || JsonText.isLow unit then '\uFFFD' else Char.ofNat unit

/-- The characters of a string, with surrogate pairs joined. -/
def characters : List Nat → List Char
  | [] => []
  | [unit] => [single unit]
  | high :: low :: rest =>
    if JsonText.isHigh high && JsonText.isLow low then
      Char.ofNat (0x10000 + (high - 0xD800) * 0x400 + (low - 0xDC00)) :: characters rest
    else single high :: characters (low :: rest)

def readString (text : List Char) : Option (String × List Char) :=
  (readUnits text).map fun (units, rest) => (String.ofList (characters units), rest)

def isNumberChar (c : Char) : Bool :=
  c.isDigit || c = '+' || c = '-' || c = '.' || c = 'e' || c = 'E'

def isDigits (text : List Char) : Bool := !text.isEmpty && text.all Char.isDigit

def isWhole (text : List Char) : Bool :=
  isDigits text && (text.head? ≠ some '0' || text.length = 1)

def isExponent : List Char → Bool
  | [] => true
  | c :: rest =>
    (c = 'e' || c = 'E') &&
      match rest with
      | '+' :: digits => isDigits digits
      | '-' :: digits => isDigits digits
      | digits => isDigits digits

/-- What may follow the whole part of a number. -/
def isFraction : List Char → Bool
  | '.' :: rest =>
    isDigits (rest.takeWhile Char.isDigit) && isExponent (rest.dropWhile Char.isDigit)
  | rest => isExponent rest

variable (float : List Char → ℚ)

def numberOf (token : List Char) : Option Json :=
  let negative := token.head? = some '-'
  let body := if negative then token.tail else token
  let whole := body.takeWhile Char.isDigit
  let rest := body.dropWhile Char.isDigit
  if !isWhole whole then none
  else if rest.isEmpty then
    let value : Int := Nat.ofDigitChars 10 whole 0
    some (.int (if negative then -value else value))
  else if isFraction rest then some (.float (float token))
  else none

/-- A number goes on to the last character that one could have. Where Python ends it before, what
comes next makes the text no JSON. -/
def readNumber (text : List Char) : Option (Json × List Char) :=
  (numberOf float (text.takeWhile isNumberChar)).map fun value =>
    (value, text.dropWhile isNumberChar)

/-- The word that starts with a character, and its value. -/
def wordOf : Char → Option (List Char × Json)
  | 'n' => some ("null".toList, .null)
  | 't' => some ("true".toList, .bool true)
  | 'f' => some ("false".toList, .bool false)
  | 'N' => some ("NaN".toList, .float (float "NaN".toList))
  | 'I' => some ("Infinity".toList, .float (float "Infinity".toList))
  | '-' => some ("-Infinity".toList, .float (float "-Infinity".toList))
  | _ => none

def readWord (text : List Char) : Option (Json × List Char) := do
  let c ← text.head?
  let (word, value) ← wordOf float c
  if word.isPrefixOf text then some (value, text.drop word.length) else none

def readItems (value : Reading Json) : Nat → Reading (List Json)
  | 0, _ => none
  | n + 1, text => do
    let (item, rest) ← value text
    match skip rest with
    | [] => none
    | c :: rest =>
      if c = ',' then (readItems value n (skip rest)).map (behind item)
      else if c = ']' then some ([item], rest)
      else none

def readFields (value : Reading Json) : Nat → Reading (List (String × Json))
  | 0, _ => none
  | n + 1, text => do
    let rest ← expect '"' text
    let (key, rest) ← readString rest
    let rest ← expect ':' (skip rest)
    let (item, rest) ← value (skip rest)
    match skip rest with
    | [] => none
    | c :: rest =>
      if c = ',' then (readFields value n (skip rest)).map (behind (key, item))
      else if c = '\x7d' then some ([(key, item)], rest)
      else none

/-- A value at the start of a text, with a bound on how deep and how long it is. -/
def readValue : Nat → Reading Json
  | 0, _ => none
  | _ + 1, [] => none
  | n + 1, c :: rest =>
    if c = '"' then (readString rest).map fun (text, rest) => (.str text, rest)
    else if c = '[' then
      match expect ']' (skip rest) with
      | some rest => some (.arr [], rest)
      | none =>
        (readItems (readValue n) n (skip rest)).map fun (items, rest) => (.arr items, rest)
    else if c = '\x7b' then
      match expect '\x7d' (skip rest) with
      | some rest => some (.obj [], rest)
      | none =>
        (readFields (readValue n) n (skip rest)).map fun (fields, rest) =>
          (.obj (Dicts.ofEntries fields), rest)
    else (readNumber float (c :: rest)).or (readWord float (c :: rest))

/-- `JSONDecoder.raw_decode(text)`: the value that a text starts with. -/
def rawDecode (text : List Char) : Option Json :=
  (readValue float (text.length + 1) text).map (·.1)

/-- `json.loads(text)`. -/
def loads (text : List Char) : Option Json := do
  let (value, rest) ← readValue float (text.length + 1) (skip text)
  if skip rest = [] then some value else none

variable {text rest : List Char}

theorem skip_append (filled : skip text ≠ []) (more : List Char) :
    skip (text ++ more) = skip text ++ more := by
  rw [skip, dropWhile_append, ← skip, if_neg (by simpa using filled)]

theorem ne_nil_of_skip (filled : skip text ≠ []) : text ≠ [] := by
  rintro rfl
  exact filled rfl

theorem expect_eq_some {wanted : Char} (next : expect wanted text = some rest) :
    text = wanted :: rest := by
  cases text with
  | nil => cases next
  | cons c text =>
    rw [expect] at next
    split at next
    next same => rw [same, some.inj next]
    next => cases next

@[simp] theorem expect_self (wanted : Char) (rest : List Char) :
    expect wanted (wanted :: rest) = some rest := if_pos rfl

theorem expect_append_eq_none {wanted : Char} (filled : text ≠ []) (next : expect wanted text = none)
    (more : List Char) : expect wanted (text ++ more) = none := by
  cases text with
  | nil => exact absurd rfl filled
  | cons c text =>
    rw [expect] at next
    split at next
    next => cases next
    next other => rw [cons_append, expect, if_neg other]

@[simp] theorem readUnits_quote (rest : List Char) : readUnits ('"' :: rest) = some ([], rest) := by
  rw [readUnits.eq_def]
  exact if_pos rfl

variable {c : Char}

theorem readUnits_plain (quote : c ≠ '"') (escape : c ≠ '\\') (visible : 32 ≤ c.toNat)
    (rest : List Char) : readUnits (c :: rest) = (readUnits rest).map (behind c.toNat) := by
  rw [readUnits.eq_def]
  dsimp only
  rw [if_neg quote, if_neg escape, if_neg (by omega)]

theorem readUnits_unit (a b c d : Char) (rest : List Char) :
    readUnits ('\\' :: 'u' :: a :: b :: c :: d :: rest) =
      (hexUnit a b c d).bind fun unit => (readUnits rest).map (behind unit) := by
  rw [readUnits, if_neg (by decide), if_pos rfl]

theorem readUnits_escape {e plain : Char} (stands : unescape e = some plain) (rest : List Char) :
    readUnits ('\\' :: e :: rest) = (readUnits rest).map (behind plain.toNat) := by
  have other : e ≠ 'u' := by
    rintro rfl
    cases stands
  rw [readUnits, if_neg (by decide), if_pos rfl, stands, bind_some]
  exact fun _ _ _ _ _ same _ => other same

theorem readUnits_append {units : List Nat} (read : readUnits text = some (units, rest))
    (more : List Char) : readUnits (text ++ more) = some (units, rest ++ more) := by
  fun_induction readUnits text generalizing units rest with
  | case1 => cases read
  | case2 rest => cases read; exact readUnits_quote _
  | case3 a b c d rest _ ih =>
    obtain ⟨unit, number, read⟩ := bind_eq_some_iff.mp read
    obtain ⟨⟨units, rest⟩, later, same⟩ := map_eq_some_iff.mp read
    cases same
    simp only [cons_append, readUnits_unit, number, bind_some, ih later,
      map_some, behind]
  | case4 e rest _ _ ih =>
    obtain ⟨plain, stands, read⟩ := bind_eq_some_iff.mp read
    obtain ⟨⟨units, rest⟩, later, same⟩ := map_eq_some_iff.mp read
    cases same
    simp only [cons_append, readUnits_escape stands, ih later, map_some, behind]
  | case5 => cases read
  | case6 => cases read
  | case7 c rest quote escape control ih =>
    obtain ⟨⟨units, rest⟩, later, same⟩ := map_eq_some_iff.mp read
    cases same
    rw [cons_append, readUnits_plain quote escape (by omega), ih later]
    rfl

theorem readString_append {value : String} (read : readString text = some (value, rest))
    (more : List Char) : readString (text ++ more) = some (value, rest ++ more) := by
  obtain ⟨⟨units, rest⟩, found, same⟩ := map_eq_some_iff.mp read
  cases same
  rw [readString, readUnits_append found]
  rfl

variable {float}

theorem takeWhile_append_of_rest {p : Char → Bool} (next : text.dropWhile p = c :: rest)
    (more : List Char) :
    (text ++ more).takeWhile p = text.takeWhile p ∧
      (text ++ more).dropWhile p = c :: (rest ++ more) := by
  have whole := takeWhile_append_dropWhile (p := p) (l := text)
  have shorter : (text.takeWhile p).length ≠ text.length := by
    intro same
    have size := congrArg List.length whole
    rw [length_append, next, length_cons] at size
    omega
  rw [takeWhile_append, if_neg shorter, dropWhile_append, next]
  exact ⟨rfl, rfl⟩

theorem readNumber_append {value : Json} (read : readNumber float text = some (value, rest))
    (ended : rest ≠ []) (more : List Char) :
    readNumber float (text ++ more) = some (value, rest ++ more) := by
  obtain ⟨found, number, same⟩ := map_eq_some_iff.mp read
  cases same
  obtain ⟨c, behind, next⟩ := exists_cons_of_ne_nil ended
  obtain ⟨token, left⟩ := takeWhile_append_of_rest next more
  rw [readNumber, token, left, number, next]
  rfl

variable {word : List Char}

theorem readNumber_word {value : Json}
    (is : wordOf float c = some (word, value)) (rest : List Char) :
    readNumber float (word ++ rest) = none := by
  unfold wordOf at is
  split at is <;> cases is
  all_goals rfl

theorem head_word {value : Json}
    (is : wordOf float c = some (word, value)) : ∃ more, word = c :: more := by
  unfold wordOf at is
  split at is <;> cases is
  all_goals exact ⟨_, rfl⟩

theorem readWord_eq_some {value : Json} (read : readWord float text = some (value, rest)) :
    ∃ c word, wordOf float c = some (word, value) ∧ text = word ++ rest := by
  obtain ⟨c, _, read⟩ := bind_eq_some_iff.mp read
  obtain ⟨⟨word, found⟩, is, read⟩ := bind_eq_some_iff.mp read
  simp only at read
  split at read
  next starts =>
    obtain ⟨behind, rfl⟩ := isPrefixOf_iff_prefix.mp starts
    cases read
    exact ⟨c, word, is, by rw [drop_left]⟩
  next => cases read

theorem readWord_append {value : Json}
    (is : wordOf float c = some (word, value)) (rest : List Char) :
    readWord float (word ++ rest) = some (value, rest) := by
  obtain ⟨more, rfl⟩ := head_word is
  have starts : (c :: more).isPrefixOf (c :: more ++ rest) = true :=
    isPrefixOf_iff_prefix.mpr (prefix_append _ _)
  rw [readWord, cons_append, List.head?_cons]
  simp only [bind_eq_bind, bind_some, is]
  rw [← cons_append, if_pos starts, drop_left]

theorem readAtom_append {value : Json}
    (read : (readNumber float text).or (readWord float text) = some (value, rest)) (ended : rest ≠ [])
    (more : List Char) :
    (readNumber float (text ++ more)).or (readWord float (text ++ more)) =
      some (value, rest ++ more) := by
  rcases or_eq_some_iff.mp read with number | ⟨_, word⟩
  · rw [readNumber_append number ended]
    rfl
  · obtain ⟨c, word, is, rfl⟩ := readWord_eq_some word
    rw [append_assoc, readNumber_word is, none_or, readWord_append is]

variable {value : Reading Json}

theorem readItems_nil (nothing : value [] = none) (n : Nat) : readItems value n [] = none := by
  cases n with
  | zero => rfl
  | succ n => rw [readItems, nothing]; rfl

variable {items : List Json}

theorem readItems_eq_some {n : Nat}
    (read : readItems value (n + 1) text = some (items, rest)) :
    ∃ item left c after, value text = some (item, left) ∧ skip left = c :: after ∧
      (c = ',' ∧ (∃ others, readItems value n (skip after) = some (others, rest) ∧
          items = item :: others) ∨
        c = ']' ∧ items = [item] ∧ rest = after) := by
  obtain ⟨⟨item, left⟩, first, read⟩ := bind_eq_some_iff.mp read
  simp only at read
  split at read
  next => cases read
  next c after next_ =>
    refine ⟨item, left, c, after, first, next_, ?_⟩
    by_cases comma : c = ','
    · rw [if_pos comma] at read
      obtain ⟨⟨others, rest⟩, later, same⟩ := map_eq_some_iff.mp read
      cases same
      exact .inl ⟨comma, others, later, rfl⟩
    · rw [if_neg comma] at read
      split at read
      next close =>
        cases read
        exact .inr ⟨close, rfl, rfl⟩
      next => cases read

variable {longer : Reading Json} {n m : Nat}

theorem readItems_append (nothing : value [] = none)
    (up : n ≤ m) {more : List Char}
    (same : ∀ text item rest, rest ≠ [] → value text = some (item, rest) →
      longer (text ++ more) = some (item, rest ++ more))
    (read : readItems value n text = some (items, rest)) :
    readItems longer m (text ++ more) = some (items, rest ++ more) := by
  induction n generalizing m text items with
  | zero => cases read
  | succ n ih =>
    obtain ⟨m, rfl⟩ := Nat.exists_eq_add_of_le' (Nat.lt_of_lt_of_le (Nat.succ_pos n) up)
    obtain ⟨item, left, c, after, first, next_, read⟩ := readItems_eq_some read
    have filled : skip left ≠ [] := by simp [next_]
    have here := same text item left (ne_nil_of_skip filled) first
    have there : skip (left ++ more) = c :: (after ++ more) := by
      rw [skip_append filled, next_]
      rfl
    rw [readItems, here]
    simp only [bind_eq_bind, bind_some, there]
    rcases read with ⟨rfl, others, later, rfl⟩ | ⟨rfl, rfl, rfl⟩
    · have further : skip after ≠ [] := by
        intro none_
        rw [none_, readItems_nil nothing] at later
        cases later
      rw [if_pos rfl, skip_append further, ih (Nat.le_of_succ_le_succ up) later]
      rfl
    · rw [if_neg (by decide), if_pos rfl]

theorem readFields_nil (value : Reading Json) (n : Nat) : readFields value n [] = none := by
  cases n with
  | zero => rfl
  | succ n => rfl

variable {fields : List (String × Json)}

theorem readFields_eq_some {n : Nat}
    (read : readFields value (n + 1) text = some (fields, rest)) :
    ∃ start key left colon item behind c after,
      text = '"' :: start ∧ readString start = some (key, left) ∧ skip left = ':' :: colon ∧
        value (skip colon) = some (item, behind) ∧ skip behind = c :: after ∧
        (c = ',' ∧ (∃ others, readFields value n (skip after) = some (others, rest) ∧
            fields = (key, item) :: others) ∨
          c = '\x7d' ∧ fields = [(key, item)] ∧ rest = after) := by
  obtain ⟨start, quote, read⟩ := bind_eq_some_iff.mp read
  obtain ⟨⟨key, left⟩, named, read⟩ := bind_eq_some_iff.mp read
  obtain ⟨colon, mark, read⟩ := bind_eq_some_iff.mp read
  obtain ⟨⟨item, behind⟩, value_, read⟩ := bind_eq_some_iff.mp read
  simp only at read
  split at read
  next => cases read
  next c after next_ =>
    refine ⟨start, key, left, colon, item, behind, c, after, expect_eq_some quote, named,
      expect_eq_some mark, value_, next_, ?_⟩
    by_cases comma : c = ','
    · rw [if_pos comma] at read
      obtain ⟨⟨others, rest⟩, later, same⟩ := map_eq_some_iff.mp read
      cases same
      exact .inl ⟨comma, others, later, rfl⟩
    · rw [if_neg comma] at read
      split at read
      next close =>
        cases read
        exact .inr ⟨close, rfl, rfl⟩
      next => cases read

theorem readFields_append (nothing : value [] = none)
    (up : n ≤ m) {more : List Char}
    (same : ∀ text item rest, rest ≠ [] → value text = some (item, rest) →
      longer (text ++ more) = some (item, rest ++ more))
    (read : readFields value n text = some (fields, rest)) :
    readFields longer m (text ++ more) = some (fields, rest ++ more) := by
  induction n generalizing m text fields with
  | zero => cases read
  | succ n ih =>
    obtain ⟨m, rfl⟩ := Nat.exists_eq_add_of_le' (Nat.lt_of_lt_of_le (Nat.succ_pos n) up)
    obtain ⟨start, key, left, colon, item, behind, c, after, rfl, named, mark, value_, next_,
      read⟩ :=
      readFields_eq_some read
    -- a reader that needs a value finds text left after the colon
    have valued : skip colon ≠ [] := by
      intro none_
      rw [none_, nothing] at value_
      cases value_
    have filled : skip behind ≠ [] := by simp [next_]
    have here := same _ item behind (ne_nil_of_skip filled) value_
    have marked : skip (left ++ more) = ':' :: (colon ++ more) := by
      rw [skip_append (by simp [mark]), mark]
      rfl
    have there : skip (behind ++ more) = c :: (after ++ more) := by
      rw [skip_append filled, next_]
      rfl
    rw [readFields, cons_append]
    simp only [bind_eq_bind, bind_some, expect_self, readString_append named, marked,
      skip_append valued, here, there]
    -- another field, or the closing brace
    rcases read with ⟨rfl, others, later, rfl⟩ | ⟨rfl, rfl, rfl⟩
    · have further : skip after ≠ [] := by
        intro none_
        rw [none_, readFields_nil] at later
        cases later
      rw [if_pos rfl, skip_append further, ih (Nat.le_of_succ_le_succ up) later]
      rfl
    · rw [if_neg (by decide), if_pos rfl]

@[simp] theorem readValue_nil (n : Nat) : readValue float n [] = none := by
  cases n with
  | zero => rfl
  | succ n => rfl

/-- A value that is read is read alike with more text behind it. -/
theorem readValue_append (up : n ≤ m) {value : Json}
    (read : readValue float n text = some (value, rest)) (ended : rest ≠ [] ∨ text.head? = some '\x7b')
    (more : List Char) : readValue float m (text ++ more) = some (value, rest ++ more) := by
  -- by the fuel, which bounds how deep values stand in each other
  induction n generalizing m text rest value with
  | zero => cases read
  | succ n ih =>
    obtain ⟨m, rfl⟩ := Nat.exists_eq_add_of_le' (Nat.lt_of_lt_of_le (Nat.succ_pos n) up)
    have lower := Nat.le_of_succ_le_succ up
    cases text with
    | nil => cases read
    | cons c text =>
      rw [readValue] at read
      rw [cons_append, readValue]
      by_cases string : c = '"'
      · rw [if_pos string] at read ⊢
        obtain ⟨⟨found, rest⟩, inner, same⟩ := map_eq_some_iff.mp read
        cases same
        rw [readString_append inner]
        rfl
      rw [if_neg string] at read ⊢
      by_cases list : c = '['
      · rw [if_pos list] at read ⊢
        split at read
        next closed empty =>
          cases read
          have next_ := expect_eq_some empty
          rw [skip_append (by simp [next_]), next_, cons_append, expect_self]
        next filled =>
          obtain ⟨⟨items, rest⟩, inner, same⟩ := map_eq_some_iff.mp read
          cases same
          -- something follows the bracket, so the blanks before it end before the text does
          have begun : skip text ≠ [] := by
            intro none_
            rw [none_, readItems_nil (readValue_nil n)] at inner
            cases inner
          rw [skip_append begun, expect_append_eq_none begun filled,
            readItems_append (readValue_nil n) lower
              (fun _ _ _ left first => ih lower first (.inl left)) inner]
          rfl
      rw [if_neg list] at read ⊢
      by_cases object : c = '\x7b'
      · rw [if_pos object] at read ⊢
        split at read
        next closed empty =>
          cases read
          have next_ := expect_eq_some empty
          rw [skip_append (by simp [next_]), next_, cons_append, expect_self]
        next filled =>
          obtain ⟨⟨fields, rest⟩, inner, same⟩ := map_eq_some_iff.mp read
          cases same
          have begun : skip text ≠ [] := by
            intro none_
            rw [none_, readFields_nil] at inner
            cases inner
          rw [skip_append begun, expect_append_eq_none begun filled,
            readFields_append (readValue_nil n) lower
              (fun _ _ _ left first => ih lower first (.inl left)) inner]
          rfl
      · rw [if_neg object] at read ⊢
        -- a number or a word may go on behind the end of the text, so something has to follow it
        have left : rest ≠ [] := ended.resolve_right (by simpa using object)
        exact readAtom_append read left more

theorem rawDecode_list {value : Json} (read : rawDecode float ('[' :: text) = some value) :
    ∃ items, value = .arr items := by
  obtain ⟨⟨found, rest⟩, start, rfl⟩ := map_eq_some_iff.mp read
  rw [readValue, if_neg (by decide), if_pos rfl] at start
  split at start
  next =>
    cases start
    exact ⟨[], rfl⟩
  next =>
    obtain ⟨⟨items, rest⟩, _, same⟩ := map_eq_some_iff.mp start
    cases same
    exact ⟨items, rfl⟩

end JsonReader
