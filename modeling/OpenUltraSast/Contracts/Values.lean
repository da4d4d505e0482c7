import OpenUltraSast.Library.JsonText
import OpenUltraSast.Library.Text

/-!
# Contract values

What a contract class declares, `_value` that checks and decodes by a declared kind, the constructor
with its checks, `to_payload` and `from_payload`.
-/

namespace OpenUltraSast.Contracts

open JsonText

inductive Scalar where
  | none
  | bool (value : Bool)
  | int (value : Int)
  | float (value : ℚ)
  | special (value : Special)
  | str (points : List CodePoint)
  deriving DecidableEq

/-- A Python object, as far as contracts tell objects apart. A dictionary with a key that is not
a string is among the others. -/
inductive Obj where
  | scalar (value : Scalar)
  | list (items : List Obj)
  | tuple (items : List Obj)
  | dict (entries : List (List CodePoint × Obj))
  | contract (cls : String) (fields : List (String × Obj))
  | other (identity : Nat)

def codePoint (c : Char) : CodePoint :=
  ⟨c.toNat, by rcases c.valid with below | ⟨_, below⟩ <;> simp only [Char.toNat] <;> omega⟩

def points (text : String) : List CodePoint := text.toList.map codePoint

/-- `not value.strip()`; no surrogate is a space. -/
def isBlank (text : List CodePoint) : Bool := text.all fun c => Text.isSpace (Char.ofNat c.val)

/-- The kinds of values without parts. -/
inductive Atom where
  | str
  | int
  | bool
  | float
  | none
  | literal (options : List Scalar)

inductive Kind where
  | atom (atom : Atom)
  | union (alternatives : List Kind)
  | variadic (item : Kind)
  | fixed (items : List Kind)
  | contract (cls : String)

def Kind.isAtom : Kind → Bool
  | .atom _ => true
  | _ => false

mutual
/-- Each union has at most one alternative that is not atomic, as `T | None` has. -/
def Kind.optional : Kind → Bool
  | .atom _ | .contract _ => true
  | .union alternatives =>
    (alternatives.filter (! ·.isAtom)).length ≤ 1 && Kind.allOptional alternatives
  | .variadic item => item.optional
  | .fixed items => Kind.allOptional items

def Kind.allOptional : List Kind → Bool
  | [] => true
  | kind :: kinds => kind.optional && Kind.allOptional kinds
end

/-- `math.isfinite` of an integer: one that rounds beyond the largest float overflows. -/
def isFinite (n : Int) : Bool := n.natAbs < 2 ^ 1024 - 2 ^ 970

def Atom.admits : Atom → Scalar → Bool
  | .literal options, value => value ∈ options
  | .float, .int n => isFinite n
  | .float, .float _ => true
  | .str, .str text => !isBlank text
  | .int, .int _ => true
  | .bool, .bool _ => true
  | .none, .none => true
  | _, _ => false

structure Field where
  name : String
  kind : Kind
  default : Option Obj := none

/-- A class of the schema: its fields in order, and whether what its own `__post_init__` adds
raises nothing. -/
structure ClassDef where
  fields : List Field
  check : List (String × Obj) → Bool := fun _ => true
  distinct : (fields.map (·.name)).Nodup
  optional : fields.all (·.kind.optional)

def ClassDef.names (definition : ClassDef) : List String := definition.fields.map (·.name)

abbrev Schema := String → Option ClassDef

def atomValue (atom : Atom) : Obj → Option Obj
  | .scalar value => if atom.admits value then some (.scalar value) else none
  | _ => none

def itemsOf (decode : Bool) : Obj → Option (List Obj)
  | .tuple items => some items
  | .list items => if decode then some items else none
  | _ => none

def isInstance (cls : String) : Obj → Bool
  | .contract name _ => name = cls
  | _ => false

mutual
/-- `_value`, where `read` stands for `from_payload` of a class. -/
def value (read : String → Obj → Option Obj) (decode : Bool) : Kind → Obj → Option Obj
  | .atom atom, given => atomValue atom given
  | .union alternatives, given => firstValue read decode alternatives given
  | .variadic item, given =>
    (itemsOf decode given).bind fun items => (items.mapM (value read decode item)).map .tuple
  | .fixed kinds, given =>
    (itemsOf decode given).bind fun items => (values read decode kinds items).map .tuple
  | .contract cls, given =>
    if decode then read cls given else if isInstance cls given then some given else none

def firstValue (read : String → Obj → Option Obj) (decode : Bool) :
    List Kind → Obj → Option Obj
  | [], _ => none
  | kind :: kinds, given => (value read decode kind given).or (firstValue read decode kinds given)

def values (read : String → Obj → Option Obj) (decode : Bool) :
    List Kind → List Obj → Option (List Obj)
  | [], [] => some []
  | kind :: kinds, item :: items =>
    (value read decode kind item).bind fun first =>
      (values read decode kinds items).map (first :: ·)
  | _, _ => none
end

/-- `_value(value, kind, decode=False)` raises nothing. -/
def accepts (kind : Kind) (given : Obj) : Bool := (value (fun _ _ => none) false kind given).isSome

/-- The checks of `Contract.__post_init__`, and those that the class adds. -/
def postInit (definition : ClassDef) (fields : List (String × Obj)) : Bool :=
  definition.fields.all (fun field => match fields.lookup field.name with
    | some given => accepts field.kind given
    | none => false) && definition.check fields

def fillDefaults (definition : ClassDef) (arguments : List (String × Obj)) :
    Option (List (String × Obj)) :=
  definition.fields.mapM fun field =>
    ((arguments.lookup field.name).or field.default).map (field.name, ·)

/-- `cls(**arguments)`. -/
def construct (definition : ClassDef) (cls : String) (arguments : List (String × Obj)) :
    Option Obj :=
  if arguments.all (·.1 ∈ definition.names) then
    (fillDefaults definition arguments).bind fun fields =>
      if postInit definition fields then some (.contract cls fields) else none
  else none

mutual
/-- `_payload`, and `to_payload` of a contract. -/
def payload : Obj → Obj
  | .contract _ fields => .dict (fieldPayloads fields)
  | .tuple items => .list (payloads items)
  | .scalar value => .scalar value
  | .list items => .list items
  | .dict entries => .dict entries
  | .other identity => .other identity

def payloads : List Obj → List Obj
  | [] => []
  | item :: items => payload item :: payloads items

def fieldPayloads : List (String × Obj) → List (List CodePoint × Obj)
  | [] => []
  | (name, given) :: fields => (points name, payload given) :: fieldPayloads fields
end

def ClassDef.fieldNamed (definition : ClassDef) (key : List CodePoint) : Option Field :=
  definition.fields.find? fun field => points field.name = key

/-- The keyword arguments that a dictionary decodes to; an unknown key is refused. -/
def arguments (read : String → Obj → Option Obj) (definition : ClassDef)
    (entries : List (List CodePoint × Obj)) : Option (List (String × Obj)) :=
  entries.mapM fun entry => (definition.fieldNamed entry.1).bind fun field =>
    (value read true field.kind entry.2).map (field.name, ·)

mutual
def Obj.depth : Obj → Nat
  | .list items => depths items + 1
  | .tuple items => depths items + 1
  | .dict entries => entryDepths entries + 1
  | _ => 0

def depths : List Obj → Nat
  | [] => 0
  | item :: items => max item.depth (depths items)

def entryDepths : List (List CodePoint × Obj) → Nat
  | [] => 0
  | (_, given) :: entries => max given.depth (entryDepths entries)
end

/-- `from_payload`, down to a depth. -/
def fromPayloadWithin (schema : Schema) : Nat → String → Obj → Option Obj
  | depth + 1, cls, .dict entries => (schema cls).bind fun definition =>
    (arguments (fromPayloadWithin schema depth) definition entries).bind (construct definition cls)
  | _, _, _ => none

def fromPayload (schema : Schema) (cls : String) (given : Obj) : Option Obj :=
  fromPayloadWithin schema given.depth cls given

end OpenUltraSast.Contracts
