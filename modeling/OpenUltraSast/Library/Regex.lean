import OpenUltraSast.Library.Text

/-!
# A backtracking regular-expression matcher

The fragment of the usual backtracking dialect with ordered alternatives, greedy repetition,
one-character lookaround and capture groups.
-/

inductive Regex where
  | eps
  | char (p : Char → Bool)
  | seq (first second : Regex)
  | alt (first second : Regex)
  | star (body : Regex)
  | group (index : Nat) (body : Regex)
  | notBehind (p : Char → Bool)
  | notAhead (p : Char → Bool)
  | boundary

namespace Regex

/-- The characters already consumed (latest first), those left, and the groups. -/
structure State where
  behind : List Char
  ahead : List Char
  groups : List (Nat × String)

/-- Letters, digits and the underscore; every character beyond ASCII counts as one. -/
def isWord (c : Char) : Bool := c.isAlphanum || c = '_' || 128 ≤ c.toNat

def headIsWord : List Char → Bool
  | [] => false
  | c :: _ => isWord c

/-- Repeat a matcher greedily; an iteration that consumes nothing ends the repetition. -/
def repeatMatch (body : (State → Option State) → State → Option State)
    (k : State → Option State) : Nat → State → Option State
  | 0, s => k s
  | fuel + 1, s =>
    (body (fun s' =>
      if s'.ahead.length < s.ahead.length then repeatMatch body k fuel s' else none) s).or (k s)

def run : Regex → (State → Option State) → State → Option State
  | eps, k, s => k s
  | char p, k, s =>
    match s.ahead with
    | [] => none
    | c :: rest => if p c then k { s with behind := c :: s.behind, ahead := rest } else none
  | seq first second, k, s => run first (run second k) s
  | alt first second, k, s => (run first k s).or (run second k s)
  | star body, k, s => repeatMatch (run body) k s.ahead.length s
  | group index body, k, s =>
    run body (fun s' =>
      let taken := s'.behind.take (s.ahead.length - s'.ahead.length)
      k { s' with groups := (index, String.ofList taken.reverse) :: s'.groups }) s
  | notBehind p, k, s => if s.behind.head?.any p then none else k s
  | notAhead p, k, s => if s.ahead.head?.any p then none else k s
  | boundary, k, s => if headIsWord s.behind = headIsWord s.ahead then none else k s

/-- `re.match`: a match at the start of the text. -/
def matchStart (r : Regex) (text : String) : Option State :=
  run r some ⟨[], text.toList, []⟩

def searchFrom (r : Regex) : List Char → List Char → Option State
  | behind, [] => run r some ⟨behind, [], []⟩
  | behind, c :: ahead =>
    (run r some ⟨behind, c :: ahead, []⟩).or (searchFrom r (c :: behind) ahead)

def search (r : Regex) (text : String) : Option State := searchFrom r [] text.toList

/-- The matches left to right, none overlapping the one before. -/
def findAllFrom (r : Regex) : Nat → List Char → List Char → List State
  | 0, _, _ => []
  | fuel + 1, behind, ahead =>
    match run r some ⟨behind, ahead, []⟩, ahead with
    | some found, _ :: _ =>
      if found.ahead.length < ahead.length then
        found :: findAllFrom r fuel found.behind found.ahead
      else found :: findAllFrom r fuel (ahead.take 1 ++ behind) (ahead.drop 1)
    | some found, [] => [found]
    | none, c :: rest => findAllFrom r fuel (c :: behind) rest
    | none, [] => []

/-- `re.finditer`. -/
def findAll (r : Regex) (text : String) : List State :=
  findAllFrom r (text.length + 1) [] text.toList

def State.group? (s : State) (index : Nat) : Option String := s.groups.lookup index

def opt (r : Regex) : Regex := alt r eps

def plus (r : Regex) : Regex := seq r (star r)

def seqs : List Regex → Regex
  | [] => eps
  | [r] => r
  | r :: rs => seq r (seqs rs)

def alts : List Regex → Regex
  | [] => eps
  | [r] => r
  | r :: rs => alt r (alts rs)

def lit (text : String) : Regex := seqs (text.toList.map fun c => char (· = c))

def litAnyCase (text : String) : Regex :=
  seqs (text.toList.map fun c => char (·.toLower = c.toLower))

def endOfText : Regex := notAhead fun _ => true

/-- `re.fullmatch`. -/
def matchFull (r : Regex) (text : String) : Bool :=
  ((seq r endOfText).matchStart text).isSome

def spaces : Regex := star (char Text.isSpace)

def word : Regex := char isWord

def oneOf (chars : String) : Regex := char (chars.toList.contains ·)

example : ((seqs [lit "a", star (char (· = 'b')), lit "b"]).matchStart "abbb").isSome := by decide

example : ((seqs [group 1 (plus word), lit "="]).search "  ok= 1").bind (·.group? 1) = some "ok" := by
  decide

end Regex

/-!
## Shell patterns

Names against patterns with `*`, `?` and bracket expressions.
-/

namespace Fnmatch

inductive Token where
  | star
  | any
  | set (negated : Bool) (ranges : List (Char × Char))
  | char (c : Char)

/-- The members of a bracket expression up to the bracket that closes it, and what follows it. -/
def closing : List Char → Option (List Char × List Char)
  | [] => none
  | ']' :: rest => some ([], rest)
  | c :: rest => (closing rest).map fun found => (c :: found.1, found.2)

/-- What stands behind an opening bracket. A closing bracket that comes first is a member. -/
def bracket : List Char → Option (Bool × List Char × List Char)
  | '!' :: ']' :: rest => (closing rest).map fun found => (true, ']' :: found.1, found.2)
  | '!' :: rest => (closing rest).map (true, ·)
  | ']' :: rest => (closing rest).map fun found => (false, ']' :: found.1, found.2)
  | rest => (closing rest).map (false, ·)

def ranges : List Char → List (Char × Char)
  | [] => []
  | lower :: '-' :: upper :: rest => (lower, upper) :: ranges rest
  | c :: rest => (c, c) :: ranges rest

/-- The tokens of a pattern that is not longer than the fuel. -/
def tokens : Nat → List Char → List Token
  | 0, _ => []
  | _ + 1, [] => []
  | fuel + 1, c :: rest =>
    if c = '*' then .star :: tokens fuel rest
    else if c = '?' then .any :: tokens fuel rest
    else if c = '[' then
      match bracket rest with
      | some (negated, members, after) => .set negated (ranges members) :: tokens fuel after
      | none => .char c :: tokens fuel rest
    else .char c :: tokens fuel rest

/-- Whether a token other than `*` matches a character. -/
def Token.accepts : Token → Char → Bool
  | .star, _ => false
  | .any, _ => true
  | .set negated ranges, c => ranges.any (fun range => range.1 ≤ c && c ≤ range.2) != negated
  | .char d, c => c = d

def run : List Token → List Char → Bool
  | [], text => text.isEmpty
  | .star :: rest, text => text.tails.any (run rest)
  | token :: rest, text =>
    match text with
    | [] => false
    | c :: text => token.accepts c && run rest text

end Fnmatch

/-- `fnmatch.fnmatch(name, pattern)` where the case of names counts. -/
def fnmatch (name pattern : String) : Bool :=
  Fnmatch.run (Fnmatch.tokens pattern.toList.length pattern.toList) name.toList
