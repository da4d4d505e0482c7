import OpenUltraSast.Learn.Balance
import OpenUltraSast.Library.Outcomes

/-!
# Prompts

A program retrieves examples from its memory and renders them behind its instruction and its compiled
demonstrations.
-/

namespace OpenUltraSast.Learn.Prompts

open Collections Examples Floats Folds Outcomes Retrieve Values

/-- A compiled demonstration, with the one that takes its place where it is not eligible. -/
structure Demo (F : Type) where
  exampleId : String
  excerptSha : String
  label : Int
  family : String
  verdict : String
  confidence : F
  rationale : String
  citedLines : List Int
  alternate : Option (Demo F) := none

def answerFormat : String :=
  "Answer with one JSON object: \x7b\"verdict\": \"vulnerable\" | \"not_vulnerable\" | \"unsure\", " ++
  "\"family\": <family or\n\"none\">, \"confidence\": <probability in [0, 1] that your verdict is " ++
  "right>, \"rationale\": <at most 3 sentences>,\n\"cited_lines\": [<line numbers of the code that " ++
  "support the verdict>]\x7d. Cite at least one line. Say \"unsure\"\nwhen the code does not decide it."

/-- What a compiled program fixes, as far as a prompt is made of it. -/
structure ProgramSpec (F : Type) where
  instruction : String
  demos : List (Demo F) := []
  profile : Profile := .static
  k : Nat := 1
  kRet : Nat := 6
  lam : F
  n1 : Nat := 40
  priors : String := "off"
  inputs : String
  slice : Bool := false

structure Candidate (V : Type) where
  target : Target V
  code : String
  language : String
  roles : List Json := []

structure Prompt where
  messages : List (String × String)
  exampleIds : List String
  demoIds : List String
  validLines : List Nat

/-- What the records, the vectors and the excerpts are read by. A distance or the signals of a record
that is not of its profile, and the cosine of vectors of different dimensions, are errors. -/
structure Tools (V F : Type) where
  sha256 : String → String
  cosine : V → V → Option F
  gower : (priors inputs : String) → Target V → Example → Option F
  signals : (x instruments : List (String × Json)) → Profile → (inputs : String) → Option String
  roles : List Json → String
  slice : (code language family : String) → String
  answer : Demo F → String
  lineNumbers : String → List Nat

structure Program (V F : Type) where
  spec : ProgramSpec F
  memory : List Example
  excerptText : String → Option String
  vectors : List (String × V) := []

section Render
variable {V F : Type} [Floats F] (tools : Tools V F) (program : Program V F)

def Program.index : List (String × Example) :=
  Dicts.ofEntries (program.memory.map fun e => (e.id, e))

/-- `_case`. -/
def caseText (code : String) (x instruments : List (String × Json)) (roles : List Json)
    (family language : String) : Except Refusal String :=
  match tools.signals x instruments program.spec.profile program.spec.inputs with
  | none => .error .record
  | some signals =>
    let flow := if program.spec.slice then "\n" ++ tools.slice code language family else ""
    .ok ("Family: " ++ family ++ "\nLanguage: " ++ language ++ "\nCode:\n" ++
      Text.rstripOf Text.isSpace code ++ flow ++ "\nSignals:\n" ++ signals ++
      "\nRoles:\n" ++ tools.roles roles)

def exampleText (e : Example) (excerptSha : String) : Except Refusal String :=
  caseText tools program ((program.excerptText excerptSha).getD "") e.x e.instruments e.roles e.family
    e.language

def labelWord (label : Int) : String := if label = 1 then "vulnerable" else "not_vulnerable"

def demoText (demo : Demo F × Nat) : Except Refusal String :=
  match program.index.lookup demo.1.exampleId with
  | none => .error (.unknownDemo demo.1.exampleId)
  | some e => do
    let shown ← exampleText tools program e demo.1.excerptSha
    return "Demonstration " ++ toString demo.2 ++ ":\n" ++ shown ++ "\nAnswer: " ++
      tools.answer demo.1

def renderPrefix (demos : List (Demo F)) : Except Refusal String := do
  let stripped := Text.stripOf Text.isSpace program.spec.instruction
  let instruction :=
    if Text.contains stripped answerFormat then stripped else stripped ++ "\n" ++ answerFormat
  return "\n\n".intercalate (instruction :: (← (demos.zipIdx 1).mapM (demoText tools program)))

def blockText (block : Example × Nat) : Except Refusal String := do
  let shown ← exampleText tools program block.1 block.1.excerptSha
  return "Example " ++ toString block.2 ++ " (label: " ++ labelWord block.1.label ++ "):\n" ++ shown

def render (candidate : Candidate V) (retrieved : List Example) (demos : List (Demo F)) :
    Except Refusal Prompt := do
  let blocks ← (retrieved.zipIdx 1).mapM (blockText tools program)
  let target := candidate.target
  let own ← caseText tools program candidate.code target.x target.instruments candidate.roles
    target.family candidate.language
  let system ← renderPrefix tools program demos
  return {
    messages := [("system", system), ("user", "\n\n".intercalate (blocks ++ ["Candidate:\n" ++ own]))]
    exampleIds := retrieved.map (·.id)
    demoIds := demos.map (·.exampleId)
    validLines := tools.lineNumbers candidate.code }

variable (candidate : Candidate V) (fold : Fold)

def demoOk (id : String) : Except Refusal Bool :=
  match program.index.lookup id with
  | none => .ok false
  | some e => do
    return eligible e candidate.target fold
      (← similarity tools.cosine program.vectors candidate.target e)

/-- What becomes of a demonstration: it is shown, its alternate is, or none. -/
def demonstration (demo : Demo F) : Except Refusal (Option (Demo F)) := do
  if ← demoOk tools program candidate fold demo.exampleId then return some demo
  match demo.alternate with
  | none => return none
  | some alternate =>
    if ← demoOk tools program candidate fold alternate.exampleId then return some alternate
    else return none

def demonstrationsFor : Except Refusal (List (Demo F)) := do
  return (← program.spec.demos.mapM (demonstration tools program candidate fold)).reduceOption

def Program.search (seed : Int) (exclude : List String) : Search V F where
  vectors := program.vectors
  n1 := program.spec.n1
  k := program.spec.kRet
  lam := program.spec.lam
  seed := seed
  exclude := exclude

def prepare (seed : Int) (exclude : List String) : Except Refusal (Prompt × Retrieval) := do
  let got ← retrieve tools.sha256 tools.cosine (tools.gower program.spec.priors program.spec.inputs)
    candidate.target program.memory fold (program.search seed exclude)
  let usable ← demonstrationsFor tools program candidate fold
  let prompt ← render tools program candidate got.examples usable
  assertBoundary tools.cosine (prompt.exampleIds ++ prompt.demoIds) program.index candidate.target
    fold program.vectors
  return (prompt, got)

/-- The prompts that are left to prepare over examples that the earlier ones did not use. -/
def prepareFrom (seed : Int) : Nat → List String → Except Refusal (List (Prompt × Retrieval))
  | 0, _ => return []
  | left + 1, used => do
    let (prompt, got) ← prepare tools program candidate fold seed used
    return (prompt, got) :: (← prepareFrom seed left (used ++ prompt.exampleIds))

def prepareEnsemble (seed : Int) : Except Refusal (List (Prompt × Retrieval)) :=
  prepareFrom tools program candidate fold seed program.spec.k []

end Render

end OpenUltraSast.Learn.Prompts
