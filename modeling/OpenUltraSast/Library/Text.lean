import Mathlib.Data.List.Infix

/-!
# Texts

The string methods that the models use.
-/

namespace Text

open List

def startsWith (text start : String) : Bool := start.toList.isPrefixOf text.toList

def endsWith (text ending : String) : Bool := ending.toList.isSuffixOf text.toList

/-- `text.removeprefix(start)`. -/
def removePrefix (text start : String) : String :=
  if startsWith text start then String.ofList (text.toList.drop start.toList.length) else text

/-- `text.split(separator)[0]`. -/
def firstPart (separator : Char) (text : String) : String :=
  String.ofList (text.toList.takeWhile (· ≠ separator))

/-- `text.rsplit(separator, 1)[-1]`. -/
def lastPart (separator : Char) (text : String) : String :=
  String.ofList (text.toList.reverse.takeWhile (· ≠ separator)).reverse

/-- `str.isspace` of a character, which `\s` matches as well. -/
def isSpace (c : Char) : Bool :=
  (9 ≤ c.toNat && c.toNat ≤ 13) || (28 ≤ c.toNat && c.toNat ≤ 32) || c.toNat = 133 ||
    c.toNat = 160 || c.toNat = 5760 || (8192 ≤ c.toNat && c.toNat ≤ 8202) || c.toNat = 8232 ||
    c.toNat = 8233 || c.toNat = 8239 || c.toNat = 8287 || c.toNat = 12288

/-- `not text.strip()`. -/
def isBlank (text : String) : Bool := text.toList.all isSpace

/-- `text.rstrip(...)` of the characters of a kind. -/
def rstripOf (kind : Char → Bool) (text : String) : String :=
  String.ofList (text.toList.reverse.dropWhile kind).reverse

/-- `text.strip(...)` of the characters of a kind. -/
def stripOf (kind : Char → Bool) (text : String) : String :=
  rstripOf kind (String.ofList (text.toList.dropWhile kind))

/-- `text.removesuffix(ending)`. -/
def removeSuffix (text ending : String) : String :=
  if endsWith text ending then
    String.ofList (text.toList.take (text.toList.length - ending.toList.length))
  else text

/-- `part in text`. -/
def contains (text part : String) : Bool :=
  text.toList.tails.any (part.toList.isPrefixOf ·)

theorem contains_append {text part : String} (inside : contains text part = true) (front : String) :
    contains (front ++ text) part = true := by
  rw [contains, any_eq_true] at inside ⊢
  obtain ⟨tail, member, starts⟩ := inside
  refine ⟨tail, ?_, starts⟩
  rw [mem_tails] at member ⊢
  rw [String.toList_append]
  exact member.trans (suffix_append _ _)

/-- `text.replace(c, new)` of one character. -/
def replaceChar (c : Char) (new text : String) : String :=
  String.ofList (text.toList.flatMap fun d => if d = c then new.toList else [d])

def replaceFrom (part new : List Char) : Nat → List Char → List Char
  | _, [] => []
  | covered + 1, _ :: rest => replaceFrom part new covered rest
  | 0, c :: rest =>
    if part.isPrefixOf (c :: rest) then new ++ replaceFrom part new (part.length - 1) rest
    else c :: replaceFrom part new 0 rest

/-- `text.replace(part, new)` of a part that is not empty. -/
def replace (part new text : String) : String :=
  String.ofList (replaceFrom part.toList new.toList 0 text.toList)

def digits (text : String) : Option Nat :=
  if text ≠ "" ∧ text.toList.all Char.isDigit then
    some (text.toList.foldl (fun value c => value * 10 + (c.toNat - '0'.toNat)) 0)
  else none

/-- `path.split("/")`. -/
def segments (path : String) : List String := (path.toList.splitOn '/').map String.ofList

theorem segments_append (front rest : String) :
    segments (front ++ "/" ++ rest) = segments front ++ segments rest := by
  have text : (front ++ "/" ++ rest).toList = front.toList ++ '/' :: rest.toList := by
    simp [String.toList_append]
  rw [segments, text, splitOn_append_cons_self, map_append]
  rfl

theorem segments_plain {name : String} (plain : '/' ∉ name.toList) : segments name = [name] := by
  rw [segments, splitOn_eq_singleton plain, map_singleton, String.ofList_toList]

theorem segments_ne_nil (path : String) : segments path ≠ [] := by
  simp [segments, splitOn_ne_nil]

theorem segments_join {path : List String} (plain : ∀ name ∈ path, '/' ∉ name.toList)
    (some_ : path ≠ []) : segments ("/".intercalate path) = path := by
  have texts : ∀ text ∈ path.map String.toList, '/' ∉ text := by
    intro text member
    obtain ⟨name, named, rfl⟩ := mem_map.mp member
    exact plain name named
  have split := splitOn_intercalate '/' texts (by simpa using some_)
  rw [segments, String.toList_intercalate]
  exact (congrArg (List.map String.ofList) split).trans (by simp)

theorem startsWith_join_iff {path directory : List String}
    (plain : ∀ name ∈ path, '/' ∉ name.toList) (own : ∀ name ∈ directory, '/' ∉ name.toList)
    (someP : path ≠ []) (someD : directory ≠ []) :
    startsWith ("/".intercalate path) ("/".intercalate directory ++ "/") = true ↔
      ∃ rest ≠ [], path = directory ++ rest := by
  constructor
  · intro starts
    obtain ⟨rest, text⟩ := isPrefixOf_iff_prefix.mp starts
    have whole : "/".intercalate path = "/".intercalate directory ++ "/" ++ String.ofList rest := by
      rw [← String.toList_inj, ← text]
      simp [String.toList_append]
    refine ⟨segments (String.ofList rest), segments_ne_nil _, ?_⟩
    rw [← segments_join plain someP, whole, segments_append, segments_join own someD]
  · rintro ⟨rest, some_, rfl⟩
    rw [String.intercalate_append_of_ne_nil someD some_, startsWith, isPrefixOf_iff_prefix]
    simp [String.toList_append, append_assoc]

end Text

/-!
## URLs

`urllib.parse.urlsplit` and the host of its result, for hosts that are names.
-/

namespace Url

structure Parts where
  scheme : String
  netloc : String
  path : String

def schemeChar (c : Char) : Bool := c.isAlphanum || c ∈ ['+', '-', '.']

def splitScheme (text : List Char) : List Char × List Char :=
  let scheme := text.takeWhile (· ≠ ':')
  if scheme.length < text.length ∧ scheme.head?.any Char.isAlpha ∧ scheme.all schemeChar then
    (scheme.map Char.toLower, text.drop (scheme.length + 1))
  else ([], text)

/-- The authority after a double slash and what follows it. -/
def splitNetloc (text : List Char) : List Char × List Char :=
  match text with
  | '/' :: '/' :: rest =>
    (rest.takeWhile (· ∉ ['/', '?', '#']), rest.dropWhile (· ∉ ['/', '?', '#']))
  | _ => ([], text)

/-- `urlsplit(url)`; one bracket without the other is refused. -/
def urlsplit (url : String) : Option Parts :=
  let cleaned := (url.toList.dropWhile (·.toNat ≤ 32)).filter (· ∉ ['\t', '\r', '\n'])
  let (scheme, afterScheme) := splitScheme cleaned
  let (netloc, afterNetloc) := splitNetloc afterScheme
  if netloc.contains '[' ≠ netloc.contains ']' then none
  else some
    { scheme := String.ofList scheme
      netloc := String.ofList netloc
      path := String.ofList ((afterNetloc.takeWhile (· ≠ '#')).takeWhile (· ≠ '?')) }

/-- `parts.hostname or ""`: without the user, the port and the brackets, in lower case up to a
zone. -/
def Parts.hostname (parts : Parts) : String :=
  let info := (parts.netloc.toList.reverse.takeWhile (· ≠ '@')).reverse
  let host :=
    if info.contains '[' then ((info.dropWhile (· ≠ '[')).drop 1).takeWhile (· ≠ ']')
    else info.takeWhile (· ≠ ':')
  String.ofList ((host.takeWhile (· ≠ '%')).map Char.toLower ++ host.dropWhile (· ≠ '%'))

end Url
