import Mathlib.Data.List.Infix
import OpenUltraSast.Library.JsonWriter

/-!
# The shape of a written text

Which characters a written text has inside its strings and outside of them.
-/

namespace JsonShape

open Values JsonReader JsonWriter List

mutual
/-- The strings and keys of a value. -/
def texts : Json → List String
  | .null => []
  | .bool _ => []
  | .int _ => []
  | .float _ => []
  | .str text => [text]
  | .arr items => textsItems items
  | .obj fields => textsFields fields

def textsItems : List Json → List String
  | [] => []
  | item :: items => texts item ++ textsItems items

def textsFields : List (String × Json) → List String
  | [] => []
  | (key, item) :: fields => key :: (texts item ++ textsFields fields)
end

def isOutside (c : Char) : Bool :=
  isNumberChar c ||
    ['\x7b', '\x7d', '[', ']', ':', ',', 'n', 'u', 'l', 't', 'r', 'f', 'a', 's'].contains c

def isEscape (c : Char) : Bool := ['"', '\\', 'b', 'f', 'n', 'r', 't', 'u'].contains c

/-- Whether a text goes on, from inside a string or from outside, as a written one does. -/
def shaped : Bool → List Char → Bool
  | _, [] => true
  | false, c :: rest => if c = '"' then shaped true rest else isOutside c && shaped false rest
  | true, c :: rest =>
    if c = '"' then shaped false rest
    else if c = '\\' then
      match rest with
      | [] => true
      | e :: rest => isEscape e && shaped true rest
    else shaped true rest

variable {decimal : ℚ → List Char} {float : List Char → ℚ}

@[simp] theorem shaped_quote (inside : Bool) (rest : List Char) :
    shaped inside ('"' :: rest) = shaped (!inside) rest := by
  cases inside with
  | false => rw [shaped, if_pos rfl]; rfl
  | true =>
    rw [shaped.eq_def]
    exact if_pos rfl

theorem shaped_backslash (e : Char) (rest : List Char) :
    shaped true ('\\' :: e :: rest) = (isEscape e && shaped true rest) := by
  rw [shaped, if_neg (by decide), if_pos rfl]

variable {c : Char} {rest text : List Char}

theorem shaped_plain (quote : c ≠ '"') (backslash : c ≠ '\\') (rest : List Char) :
    shaped true (c :: rest) = shaped true rest := by
  rw [shaped.eq_def]
  dsimp only
  rw [if_neg quote, if_neg backslash]

theorem shaped_cons (quote : c ≠ '"') (rest : List Char) :
    shaped false (c :: rest) = (isOutside c && shaped false rest) := by
  rw [shaped, if_neg quote]

variable {chars front : List Char} {value : Json}

theorem shaped_outside (outside : chars.all isOutside = true) (rest : List Char) :
    shaped false (chars ++ rest) = shaped false rest := by
  induction chars with
  | nil => rfl
  | cons c chars ih =>
    rw [all_cons, Bool.and_eq_true] at outside
    have quote : c ≠ '"' := by
      rintro rfl
      exact absurd outside.1 (by decide)
    rw [cons_append, shaped_cons quote, outside.1, Bool.true_and, ih outside.2]

theorem shaped_inside (plain : ∀ c ∈ chars, c ≠ '"' ∧ c ≠ '\\') (rest : List Char) :
    shaped true (chars ++ rest) = shaped true rest := by
  induction chars with
  | nil => rfl
  | cons c chars ih =>
    rw [forall_mem_cons] at plain
    rw [cons_append, shaped_plain plain.1.1 plain.1.2, ih plain.2]

theorem shaped_escape (c : Char) (rest : List Char) :
    shaped true (escape c ++ rest) = shaped true rest := by
  rcases escape_forms c with ⟨e, among, form⟩ | ⟨control, form⟩ | ⟨quote, backslash, _, form⟩
  · have known : ∀ pair ∈ shorthands, isEscape pair.2 = true := by decide
    rw [form, cons_append, singleton_append, shaped_backslash, known (c, e) among,
      Bool.true_and]
  · have hex : ∀ n < 16, Nat.digitChar n ≠ '"' ∧ Nat.digitChar n ≠ '\\' := by decide
    have high := hex (c.toNat / 16) (by omega)
    have low := hex (c.toNat % 16) (by omega)
    rw [form]
    simp only [cons_append, nil_append]
    rw [shaped_backslash, shaped_plain (by decide) (by decide), shaped_plain (by decide) (by decide),
      shaped_plain high.1 high.2, shaped_plain low.1 low.2]
    rfl
  · rw [form, singleton_append, shaped_plain quote backslash]

theorem shaped_body (text : String) (rest : List Char) :
    shaped true (body text ++ rest) = shaped true rest := by
  rw [body]
  induction text.toList with
  | nil => rfl
  | cons c text ih => rw [flatMap_cons, append_assoc, shaped_escape, ih]

theorem shaped_string (text : String) (rest : List Char) :
    shaped false (writeString text ++ rest) = shaped false rest := by
  rw [writeString, cons_append, shaped_quote, append_assoc]
  exact (shaped_body text _).trans (shaped_quote true rest)

theorem all_isOutside {token : List Char} (number : token.all isNumberChar = true) :
    token.all isOutside = true := by
  rw [all_eq_true] at number ⊢
  intro c member
  rw [isOutside, number c member, Bool.true_or]

theorem shaped_mark (quote : c ≠ '"') (outside : isOutside c = true) (rest : List Char) :
    shaped false (c :: rest) = shaped false rest := by
  rw [shaped_cons quote, outside, Bool.true_and]

mutual
theorem shaped_write : ∀ (value : Json) (rest : List Char), Plain decimal float value →
    shaped false (write decimal value ++ rest) = shaped false rest
  | .null, rest, _ => by rw [write]; exact shaped_outside (by decide) rest
  | .bool true, rest, _ => by rw [write]; exact shaped_outside (by decide) rest
  | .bool false, rest, _ => by rw [write]; exact shaped_outside (by decide) rest
  | .int value, rest, _ => by
    rw [write]
    exact shaped_outside (all_isOutside (all_toString value)) rest
  | .float value, rest, plain => by
    rw [Plain] at plain
    rw [write]
    exact shaped_outside (all_isOutside plain.2) rest
  | .str text, rest, _ => by rw [write, shaped_string]
  | .arr items, rest, plain => by
    rw [Plain] at plain
    rw [write, cons_append, shaped_mark (by decide) (by decide), append_assoc,
      shaped_writeItems items _ plain]
    exact shaped_mark (by decide) (by decide) rest
  | .obj fields, rest, plain => by
    rw [Plain] at plain
    rw [write, cons_append, shaped_mark (by decide) (by decide), append_assoc,
      shaped_writeFields fields _ plain.2]
    exact shaped_mark (by decide) (by decide) rest

theorem shaped_writeItems : ∀ (items : List Json) (rest : List Char),
    PlainItems decimal float items →
      shaped false (writeItems decimal items ++ rest) = shaped false rest
  | [], _, _ => by rw [writeItems, nil_append]
  | item :: items, rest, plain => by
    rw [PlainItems] at plain
    rw [writeItems, append_assoc, shaped_write item _ plain.1]
    split
    · rw [nil_append]
    · rw [cons_append, shaped_mark (by decide) (by decide),
        shaped_writeItems items rest plain.2]

theorem shaped_writeFields : ∀ (fields : List (String × Json)) (rest : List Char),
    PlainFields decimal float fields →
      shaped false (writeFields decimal fields ++ rest) = shaped false rest
  | [], _, _ => by rw [writeFields, nil_append]
  | (key, item) :: fields, rest, plain => by
    rw [PlainFields] at plain
    rw [writeFields, append_assoc, shaped_string, cons_append,
      shaped_mark (by decide) (by decide), append_assoc, shaped_write item _ plain.1]
    split
    · rw [nil_append]
    · rw [cons_append, shaped_mark (by decide) (by decide),
        shaped_writeFields fields rest plain.2]
end

theorem shaped_of_append {inside : Bool} (shape : shaped inside (front ++ rest) = true) :
    shaped inside front = true := by
  fun_induction shaped inside front with
  | case1 => rfl
  | case2 front ih =>
    rw [cons_append, shaped_quote] at shape
    exact ih shape
  | case3 c front quote ih =>
    rw [cons_append, shaped_cons quote, Bool.and_eq_true] at shape
    rw [shape.1, ih shape.2]
    rfl
  | case4 front ih =>
    rw [cons_append, shaped_quote] at shape
    exact ih shape
  | case5 => rfl
  | case6 e front _ ih =>
    rw [cons_append, cons_append, shaped_backslash, Bool.and_eq_true] at shape
    rw [shape.1, ih shape.2]
    rfl
  | case7 c front quote backslash ih =>
    rw [cons_append, shaped_plain quote backslash] at shape
    exact ih shape

/-- A character that stands neither between strings nor in an escape. -/
def isStrange (c : Char) : Bool := !isOutside c && !isEscape c

theorem visible_of_isOutside (outside : isOutside c = true) :
    c ≠ '\\' ∧ 32 ≤ c.toNat ∧ c.toNat < 127 := by
  simp only [isOutside, isNumberChar, Bool.or_eq_true, decide_eq_true_eq, contains_iff_mem,
    mem_cons, not_mem_nil, or_false] at outside
  rcases outside with (((((digit | rfl) | rfl) | rfl) | rfl) | rfl) | mark
  case inl.inl.inl.inl.inl.inl =>
    have between : 48 ≤ c.toNat ∧ c.toNat ≤ 57 := by
      have bounds := digit
      simp only [Char.isDigit, Bool.and_eq_true, decide_eq_true_eq] at bounds
      exact bounds
    refine ⟨?_, by omega, by omega⟩
    rintro rfl
    exact absurd digit (by decide)
  case inr =>
    rcases mark with rfl | rfl | rfl | rfl | rfl | rfl | rfl | rfl | rfl | rfl | rfl | rfl | rfl |
      rfl
    all_goals decide
  all_goals decide

theorem isStrange_of_range (range : c.toNat < 32 ∨ 127 ≤ c.toNat) : isStrange c = true := by
  rw [isStrange, Bool.and_eq_true, Bool.not_eq_true', Bool.not_eq_true', ← Bool.not_eq_true,
    ← Bool.not_eq_true]
  constructor
  · intro outside
    have visible := visible_of_isOutside outside
    omega
  · intro escape
    simp only [isEscape, contains_iff_mem, mem_cons, not_mem_nil, or_false] at escape
    rcases escape with rfl | rfl | rfl | rfl | rfl | rfl | rfl | rfl
    all_goals exact absurd range (by decide)

theorem shaped_behind {inside : Bool} (strange : isStrange c = true)
    (shape : shaped inside (front ++ c :: rest) = true) : shaped true rest = true := by
  have other : isOutside c = false ∧ isEscape c = false := by simpa [isStrange] using strange
  have apart : c ≠ '"' ∧ c ≠ '\\' := by
    constructor <;> (rintro rfl; exact absurd other.2 (by decide))
  fun_induction shaped inside front with
  | case1 inside =>
    rw [nil_append] at shape
    cases inside with
    | false => rw [shaped_cons apart.1, other.1] at shape; cases shape
    | true => rwa [shaped_plain apart.1 apart.2] at shape
  | case2 front ih =>
    rw [cons_append, shaped_quote] at shape
    exact ih shape
  | case3 d front quote ih =>
    rw [cons_append, shaped_cons quote, Bool.and_eq_true] at shape
    exact ih shape.2
  | case4 front ih =>
    rw [cons_append, shaped_quote] at shape
    exact ih shape
  | case5 =>
    -- it would be the escaped character
    rw [cons_append, nil_append, shaped_backslash, other.2] at shape
    cases shape
  | case6 e front _ ih =>
    rw [cons_append, cons_append, shaped_backslash, Bool.and_eq_true] at shape
    exact ih shape.2
  | case7 d front quote backslash ih =>
    rw [cons_append, shaped_plain quote backslash] at shape
    exact ih shape

theorem shaped_skip (shape : shaped true text = true) : shaped true (skip text) = true := by
  have whole : text.takeWhile isBlank ++ skip text = text := takeWhile_append_dropWhile
  have blank : ∀ c ∈ text.takeWhile isBlank, c ≠ '"' ∧ c ≠ '\\' := by
    intro c member
    have is := all_eq_true.mp all_takeWhile c member
    constructor <;> (rintro rfl; exact absurd is (by decide))
  rwa [← whole, shaped_inside blank] at shape

/-- What is taken for a string is a text between two strings. -/
theorem readUnits_outside {units : List Nat} (shape : shaped false text = true)
    (read : readUnits text = some (units, rest)) :
    shaped true rest = true ∧ ∃ chars : List Char, chars.all isOutside = true ∧
      units = chars.map Char.toNat := by
  induction text generalizing units with
  | nil => cases read
  | cons c text ih =>
    by_cases quote : c = '"'
    · subst quote
      rw [readUnits_quote] at read
      rw [shaped_quote] at shape
      cases read
      exact ⟨shape, [], rfl, rfl⟩
    · rw [shaped_cons quote, Bool.and_eq_true] at shape
      have plain := visible_of_isOutside shape.1
      rw [readUnits_plain quote plain.1 plain.2.1] at read
      obtain ⟨⟨units, rest⟩, later, same⟩ := Option.map_eq_some_iff.mp read
      cases same
      obtain ⟨inside, chars, outside, rfl⟩ := ih shape.2 later
      exact ⟨inside, c :: chars, by simp [shape.1, outside], rfl⟩

theorem readString_outside {value : String} (shape : shaped false text = true)
    (read : readString text = some (value, rest)) :
    shaped true rest = true ∧ value.toList.all isOutside = true := by
  obtain ⟨⟨units, rest⟩, found, same⟩ := Option.map_eq_some_iff.mp read
  cases same
  obtain ⟨inside, chars, outside, rfl⟩ := readUnits_outside shape found
  exact ⟨inside, by simpa [characters_toNat] using outside⟩

theorem shaped_word {word : List Char} (is : wordOf float c = some (word, value)) (rest : List Char) :
    shaped true (word ++ rest) = shaped true rest ∧ ∀ fields, value ≠ .obj fields := by
  unfold wordOf at is
  split at is <;> cases is
  all_goals exact ⟨shaped_inside (by simp) rest, nofun⟩

theorem numberOf_ne_obj (token : List Char) (fields : List (String × Json)) :
    numberOf float token ≠ some (.obj fields) := by
  grind [numberOf]

theorem shaped_atom (shape : shaped true text = true)
    (read : (readNumber float text).or (readWord float text) = some (value, rest)) :
    shaped true rest = true ∧ ∀ fields, value ≠ .obj fields := by
  rcases Option.or_eq_some_iff.mp read with number | ⟨_, word⟩
  · obtain ⟨value, is, same⟩ := Option.map_eq_some_iff.mp number
    cases same
    have whole : text.takeWhile isNumberChar ++ text.dropWhile isNumberChar = text :=
      takeWhile_append_dropWhile
    have plain : ∀ c ∈ text.takeWhile isNumberChar, c ≠ '"' ∧ c ≠ '\\' := by
      intro c member
      have is := all_eq_true.mp all_takeWhile c member
      constructor <;> (rintro rfl; exact absurd is (by decide))
    rw [← whole, shaped_inside plain] at shape
    refine ⟨shape, ?_⟩
    rintro fields rfl
    exact numberOf_ne_obj _ fields is
  · obtain ⟨c, word, is, rfl⟩ := readWord_eq_some word
    obtain ⟨same, other⟩ := shaped_word is rest
    exact ⟨same ▸ shape, other⟩

variable {n : Nat}

theorem shaped_readItems {value : Reading Json}
    (inner : ∀ text item rest, shaped true text = true → value text = some (item, rest) →
      shaped true rest = true) {items : List Json} (shape : shaped true text = true)
    (read : readItems value n text = some (items, rest)) : shaped true rest = true := by
  induction n generalizing text items with
  | zero => cases read
  | succ n ih =>
    obtain ⟨item, left, c, after, first, next_, read⟩ := readItems_eq_some read
    have later := shaped_skip (inner _ _ _ shape first)
    rw [next_] at later
    rcases read with ⟨rfl, others, read, -⟩ | ⟨rfl, -, rfl⟩
    · rw [shaped_plain (by decide) (by decide)] at later
      exact ih (shaped_skip later) read
    · rwa [shaped_plain (by decide) (by decide)] at later

variable {fields : List (String × Json)}

theorem shaped_readFields {value : Reading Json}
    (inner : ∀ text item rest, shaped true text = true → value text = some (item, rest) →
      shaped true rest = true)
    (shape : shaped true text = true) (read : readFields value n text = some (fields, rest)) :
    shaped true rest = true ∧ ∀ key ∈ Dicts.keys fields, key.toList.all isOutside = true := by
  induction n generalizing text fields with
  | zero => cases read
  | succ n ih =>
    obtain ⟨start, key, left, colon, item, behind, c, after, rfl, named, mark, value_, next_,
      last⟩ :=
      readFields_eq_some read
    rw [shaped_quote] at shape
    obtain ⟨shape, outside⟩ := readString_outside shape named
    have shape := shaped_skip shape
    rw [mark, shaped_plain (by decide) (by decide)] at shape
    have later := shaped_skip (inner _ _ _ (shaped_skip shape) value_)
    rw [next_] at later
    rcases last with ⟨rfl, others, further, rfl⟩ | ⟨rfl, rfl, rfl⟩
    · rw [shaped_plain (by decide) (by decide)] at later
      obtain ⟨ends, keys⟩ := ih (shaped_skip later) further
      exact ⟨ends, forall_mem_cons.mpr ⟨outside, keys⟩⟩
    · rw [shaped_plain (by decide) (by decide)] at later
      exact ⟨later, forall_mem_singleton.mpr outside⟩

/-- A value that is read from inside a string ends inside one, and the keys of an object are made
of the characters between strings. -/
theorem shaped_readValue (shape : shaped true text = true)
    (read : readValue float n text = some (value, rest)) :
    shaped true rest = true ∧ ∀ fields, value = .obj fields →
      ∀ key ∈ Dicts.keys fields, key.toList.all isOutside = true := by
  -- by the fuel, which bounds how deep values stand in each other
  induction n generalizing text rest value with
  | zero => cases read
  | succ n ih =>
    -- of the items only the end matters here
    have inner (text : List Char) (item : Json) (rest : List Char)
        (shape : shaped true text = true) (read : readValue float n text = some (item, rest)) :
        shaped true rest = true := (ih shape read).1
    cases text with
    | nil => cases read
    | cons c text =>
      rw [readValue] at read
      split at read
      next string =>
        rw [string, shaped_quote] at shape
        obtain ⟨⟨found, rest⟩, read, same⟩ := Option.map_eq_some_iff.mp read
        cases same
        -- the quote ends the string that the text began in, and begins another one
        exact ⟨(readString_outside shape read).1, fun _ same => by cases same⟩
      split at read
      next list =>
        rw [list, shaped_plain (by decide) (by decide)] at shape
        have begun := shaped_skip shape
        split at read
        next empty =>
          cases read
          rw [expect_eq_some empty, shaped_plain (by decide) (by decide)] at begun
          exact ⟨begun, fun _ same => by cases same⟩
        next =>
          obtain ⟨⟨items, rest⟩, read, same⟩ := Option.map_eq_some_iff.mp read
          cases same
          exact ⟨shaped_readItems inner begun read, fun _ same => by cases same⟩
      split at read
      next object =>
        rw [object, shaped_plain (by decide) (by decide)] at shape
        have begun := shaped_skip shape
        split at read
        next empty =>
          cases read
          rw [expect_eq_some empty, shaped_plain (by decide) (by decide)] at begun
          refine ⟨begun, ?_⟩
          rintro fields same key member
          cases same
          cases member
        next =>
          obtain ⟨⟨fields, rest⟩, read, same⟩ := Option.map_eq_some_iff.mp read
          cases same
          obtain ⟨ends, keys⟩ := shaped_readFields inner begun read
          refine ⟨ends, ?_⟩
          rintro found same key member
          cases same
          exact keys key ((Dicts.mem_keys_ofEntries fields key).mp member)
      next =>
        obtain ⟨ends, other⟩ := shaped_atom shape read
        exact ⟨ends, fun fields same => absurd same (other fields)⟩

theorem keys_of_inside (shape : shaped true text = true)
    (read : loads float text = some (.obj fields)) :
    ∀ key ∈ Dicts.keys fields, key.toList.all isOutside = true := by
  obtain ⟨⟨value, rest⟩, found, read⟩ := Option.bind_eq_some_iff.mp read
  simp only at read
  split at read
  next =>
    cases read
    exact (shaped_readValue (shaped_skip shape) found).2 fields rfl
  next => cases read

/-- A character that no escape, no word and no part of the syntax has, apart from numbers. -/
def isMarkChar (c : Char) : Bool := c = '-' || c.isUpper || 127 ≤ c.toNat

/-- A mark that a written text can have in its strings only. -/
structure IsMark (mark : List Char) : Prop where
  chars : ∀ c ∈ mark, isMarkChar c = true
  apart : ∃ c ∈ mark, isOutside c = false

variable {mark : List Char}

theorem IsMark.not_mem (is : IsMark mark) (plain : isMarkChar c = false) : c ∉ mark := by
  intro member
  rw [is.chars c member] at plain
  cases plain

theorem IsMark.not_infix_outside (is : IsMark mark) (outside : chars.all isOutside = true) :
    ¬ mark <:+: chars := by
  intro inside
  obtain ⟨c, member, other⟩ := is.apart
  rw [all_eq_true.mp outside c (inside.subset member)] at other
  cases other

theorem IsMark.not_infix_nil (is : IsMark mark) : ¬ mark <:+: [] := is.not_infix_outside rfl

theorem prefix_of_append_cons {c : Char} {front rest : List Char} (absent : c ∉ mark)
    (starts : mark <+: front ++ c :: rest) : mark <+: front := by
  induction front generalizing mark with
  | nil =>
    cases mark with
    | nil => exact prefix_refl _
    | cons d mark =>
      obtain ⟨behind, whole⟩ := starts
      rw [nil_append, cons_append, List.cons.injEq] at whole
      exact absurd (whole.1 ▸ mem_cons_self) absent
  | cons d front ih =>
    cases mark with
    | nil => exact nil_prefix
    | cons e mark =>
      obtain ⟨same, starts⟩ := cons_prefix_cons.mp starts
      have later := ih (fun member => absent (mem_cons_of_mem _ member)) starts
      exact cons_prefix_cons.mpr ⟨same, later⟩

theorem infix_append_cons_iff (absent : c ∉ mark) :
    mark <:+: front ++ c :: rest ↔ mark <:+: front ∨ mark <:+: rest := by
  constructor
  · intro inside
    induction front with
    | nil =>
      rcases infix_cons_iff.mp inside with starts | later
      · exact .inl (@prefix_of_append_cons mark c [] rest absent starts).isInfix
      · exact .inr later
    | cons d front ih =>
      rcases infix_cons_iff.mp inside with starts | later
      · exact .inl (@prefix_of_append_cons mark c (d :: front) rest absent starts).isInfix
      · exact (ih later).imp_left fun there => infix_cons_iff.mpr (.inr there)
  · rintro (there | there)
    · exact there.trans (prefix_append _ _).isInfix
    · exact there.trans ((suffix_cons _ _).trans (suffix_append _ _)).isInfix

theorem escape_cases (d : Char) :
    escape d = [d] ∨
      isMarkChar d = false ∧ escape d ≠ [] ∧ ∀ e ∈ escape d, isMarkChar e = false := by
  have plain : escapeChars.all (fun c => !isMarkChar c) = true := by decide
  rcases all_escape plain d with ⟨same, -⟩ | ⟨filled, all, own⟩
  · exact .inl same
  · have low : ∀ n < 32, isMarkChar (Char.ofNat n) = false := by decide
    have unmarked : isMarkChar d = false := by
      rcases own with control | own
      · have of := low d.toNat control
        rwa [Char.ofNat_toNat] at of
      · exact Bool.not_eq_true' _ ▸ own
    exact .inr ⟨unmarked, filled, fun e member => Bool.not_eq_true' _ ▸ all e member⟩

section
variable (is : IsMark mark)
include is

theorem IsMark.escape_eq : mark.flatMap escape = mark := by
  have each : ∀ c ∈ mark, escape c = [c] := by
    intro c member
    rcases escape_cases c with same | ⟨other, -⟩
    · exact same
    · rw [is.chars c member] at other
      cases other
  rw [flatMap_congr each]
  simp

theorem IsMark.infix_of_segment {segment : List Char}
    (plain : ∀ e ∈ segment, isMarkChar e = false) (filled : segment ≠ [])
    (inside : mark <:+: front ++ segment ++ rest) : mark <:+: front ∨ mark <:+: rest := by
  induction segment generalizing front with
  | nil => exact absurd rfl filled
  | cons c segment ih =>
    rw [forall_mem_cons] at plain
    rw [append_assoc, cons_append, infix_append_cons_iff (is.not_mem plain.1)] at inside
    rcases inside with there | later
    · exact .inl there
    · cases segment with
      | nil => exact .inr later
      | cons d segment =>
        have there : mark <:+: [] ∨ mark <:+: rest := ih plain.2 (cons_ne_nil _ _) later
        exact .inr (there.resolve_left is.not_infix_nil)

theorem IsMark.infix_escaped (inside : mark <:+: front ++ text.flatMap escape) :
    mark <:+: front ++ text := by
  induction text generalizing front with
  | nil => exact inside
  | cons c text ih =>
    rw [flatMap_cons] at inside
    rcases escape_cases c with same | ⟨-, filled, plain⟩
    · rw [same, ← append_assoc] at inside
      simpa using ih inside
    · rw [← append_assoc] at inside
      rcases is.infix_of_segment plain filled inside with there | later
      · exact there.trans (prefix_append _ _).isInfix
      · have found : mark <:+: [] ++ text := ih later
        exact found.trans ((suffix_cons c text).trans (suffix_append _ _)).isInfix

theorem IsMark.infix_body_iff (text : String) :
    mark <:+: body text ↔ mark <:+: text.toList := by
  constructor
  · intro inside
    have found : mark <:+: [] ++ text.toList := is.infix_escaped inside
    exact found
  · rintro ⟨front, rest, whole⟩
    refine ⟨front.flatMap escape, rest.flatMap escape, ?_⟩
    rw [body, ← whole, flatMap_append, flatMap_append, is.escape_eq]

theorem IsMark.infix_string_iff (text : String) :
    mark <:+: writeString text ↔ mark <:+: text.toList := by
  have quote : '"' ∉ mark := is.not_mem (by decide)
  have whole : writeString text = [] ++ '"' :: (body text ++ '"' :: []) := rfl
  rw [whole, infix_append_cons_iff quote, infix_append_cons_iff quote, is.infix_body_iff]
  simp [is.not_infix_nil]

end

mutual
/-- A mark is in a written value exactly where it is in one of its texts. -/
theorem IsMark.infix_write_iff (is : IsMark mark) : ∀ value : Json, Plain decimal float value →
    (mark <:+: write decimal value ↔ ∃ text ∈ texts value, mark <:+: text.toList)
  | .null, _ => by
    have none_ : ¬ mark <:+: "null".toList := is.not_infix_outside (by decide)
    rw [write, texts]
    simpa using none_
  | .bool true, _ => by
    have none_ : ¬ mark <:+: "true".toList := is.not_infix_outside (by decide)
    rw [write, texts]
    simpa using none_
  | .bool false, _ => by
    have none_ : ¬ mark <:+: "false".toList := is.not_infix_outside (by decide)
    rw [write, texts]
    simpa using none_
  | .int value, _ => by
    have none_ := is.not_infix_outside (all_isOutside (all_toString value))
    rw [write, texts]
    simpa using none_
  | .float value, plain => by
    rw [Plain] at plain
    have none_ := is.not_infix_outside (all_isOutside plain.2)
    rw [write, texts]
    simpa using none_
  | .str text, _ => by
    rw [write, texts, is.infix_string_iff]
    simp
  | .arr items, plain => by
    rw [Plain] at plain
    -- the brackets are no part of a mark, so it lies between them
    have whole : write decimal (.arr items) =
        [] ++ '[' :: (writeItems decimal items ++ ']' :: []) := by rw [write]; rfl
    rw [whole, infix_append_cons_iff (is.not_mem (by decide)),
      infix_append_cons_iff (is.not_mem (by decide)), is.infix_writeItems_iff items plain, texts]
    simp [is.not_infix_nil]
  | .obj fields, plain => by
    rw [Plain] at plain
    have whole : write decimal (.obj fields) =
        [] ++ '\x7b' :: (writeFields decimal fields ++ '\x7d' :: []) := by rw [write]; rfl
    rw [whole, infix_append_cons_iff (is.not_mem (by decide)),
      infix_append_cons_iff (is.not_mem (by decide)), is.infix_writeFields_iff fields plain.2,
      texts]
    simp [is.not_infix_nil]

theorem IsMark.infix_writeItems_iff (is : IsMark mark) : ∀ items : List Json,
    PlainItems decimal float items →
      (mark <:+: writeItems decimal items ↔ ∃ text ∈ textsItems items, mark <:+: text.toList)
  | [], _ => by
    rw [writeItems, textsItems]
    simpa using is.not_infix_nil
  | item :: items, plain => by
    rw [PlainItems] at plain
    have first := is.infix_write_iff item plain.1
    have others := is.infix_writeItems_iff items plain.2
    rw [writeItems, textsItems]
    cases items with
    | nil => simp [first, textsItems]
    | cons next items =>
      rw [isEmpty_cons, if_neg (by decide), infix_append_cons_iff (is.not_mem (by decide)),
        first, others]
      simp [or_and_right, exists_or]

theorem IsMark.infix_writeFields_iff (is : IsMark mark) : ∀ fields : List (String × Json),
    PlainFields decimal float fields →
      (mark <:+: writeFields decimal fields ↔ ∃ text ∈ textsFields fields, mark <:+: text.toList)
  | [], _ => by
    rw [writeFields, textsFields]
    simpa using is.not_infix_nil
  | (key, item) :: fields, plain => by
    rw [PlainFields] at plain
    have first := is.infix_write_iff item plain.1
    have others := is.infix_writeFields_iff fields plain.2
    rw [writeFields, textsFields, infix_append_cons_iff (is.not_mem (by decide)),
      is.infix_string_iff]
    cases fields with
    | nil => simp [first, textsFields]
    | cons next fields =>
      rw [isEmpty_cons, if_neg (by decide), infix_append_cons_iff (is.not_mem (by decide)),
        first, others]
      simp [or_and_right, exists_or]
end

theorem mem_write_iff (foreign : 127 ≤ c.toNat) (plain : Plain decimal float value) :
    c ∈ write decimal value ↔ ∃ text ∈ texts value, c ∈ text.toList := by
  have is : IsMark [c] := by
    have strange := isStrange_of_range (.inr foreign)
    rw [isStrange, Bool.and_eq_true, Bool.not_eq_true'] at strange
    exact ⟨by simpa [isMarkChar] using .inr foreign, c, mem_singleton_self c, strange.1⟩
  simpa only [singleton_infix_iff] using is.infix_write_iff value plain

theorem visible_escape (d : Char) : ∀ c ∈ escape d, 32 ≤ c.toNat := by
  have plain : escapeChars.all (fun c => decide (32 ≤ c.toNat)) = true := by decide
  intro c member
  rcases all_escape plain d with ⟨same, visible⟩ | ⟨-, all, -⟩
  · rw [same, mem_singleton] at member
    rwa [member]
  · exact of_decide_eq_true (all c member)

theorem visible_outside (outside : chars.all isOutside = true) : ∀ c ∈ chars, 32 ≤ c.toNat :=
  fun c member => (visible_of_isOutside (all_eq_true.mp outside c member)).2.1

theorem visible_string (text : String) : ∀ c ∈ writeString text, 32 ≤ c.toNat := by
  intro c member
  rw [writeString, mem_cons, mem_append, body, mem_flatMap,
    mem_singleton] at member
  rcases member with rfl | ⟨d, _, escaped⟩ | rfl
  · decide
  · exact visible_escape d c escaped
  · decide

mutual
theorem visible_write : ∀ value : Json, Plain decimal float value →
    ∀ c ∈ write decimal value, 32 ≤ c.toNat
  | .null, _ => by rw [write]; exact visible_outside (by decide)
  | .bool true, _ => by rw [write]; exact visible_outside (by decide)
  | .bool false, _ => by rw [write]; exact visible_outside (by decide)
  | .int value, _ => by
    rw [write]
    exact visible_outside (all_isOutside (all_toString value))
  | .float value, plain => by
    rw [Plain] at plain
    rw [write]
    exact visible_outside (all_isOutside plain.2)
  | .str text, _ => by
    rw [write]
    exact visible_string text
  | .arr items, plain => by
    rw [Plain] at plain
    rw [write, forall_mem_cons, forall_mem_append]
    exact ⟨by decide, visible_writeItems items plain, visible_outside (by decide)⟩
  | .obj fields, plain => by
    rw [Plain] at plain
    rw [write, forall_mem_cons, forall_mem_append]
    exact ⟨by decide, visible_writeFields fields plain.2, visible_outside (by decide)⟩

theorem visible_writeItems : ∀ items : List Json, PlainItems decimal float items →
    ∀ c ∈ writeItems decimal items, 32 ≤ c.toNat
  | [], _ => by rw [writeItems]; nofun
  | item :: items, plain => by
    rw [PlainItems] at plain
    rw [writeItems, forall_mem_append]
    refine ⟨visible_write item plain.1, ?_⟩
    split
    · nofun
    · exact forall_mem_cons.mpr ⟨by decide, visible_writeItems items plain.2⟩

theorem visible_writeFields : ∀ fields : List (String × Json), PlainFields decimal float fields →
    ∀ c ∈ writeFields decimal fields, 32 ≤ c.toNat
  | [], _ => by rw [writeFields]; nofun
  | (key, item) :: fields, plain => by
    rw [PlainFields] at plain
    rw [writeFields, forall_mem_append, forall_mem_cons, forall_mem_append]
    refine ⟨visible_string key, by decide, visible_write item plain.1, ?_⟩
    split
    · nofun
    · exact forall_mem_cons.mpr ⟨by decide, visible_writeFields fields plain.2⟩
end

end JsonShape
