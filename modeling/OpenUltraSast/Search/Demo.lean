import OpenUltraSast.Library.Dicts
import OpenUltraSast.Library.Json
import OpenUltraSast.Library.Text

/-!
# Demonstrations

A demonstration is checked before it runs. Its steps may name earlier captures, which are put into
the texts of a step when the step is reached; what a step captures is checked on its own.
-/

namespace OpenUltraSast.Search.Demo

open Values

/-- What the language reads and writes: the size of `json.dumps(value, allow_nan=False)`, its text
and `json.loads`, each where it does not raise; and the class `\w`. -/
structure Language where
  size : Json → Option Nat
  dumps : Json → Option String
  loads : String → Option Json
  isWord : Char → Bool

def maxDemoBytes : Nat := 5 * 1024 * 1024

def maxDataBytes : Nat := 64 * 1024

def envDenylist : List String :=
  ["LD_PRELOAD", "LD_LIBRARY_PATH", "PYTHONPATH", "PYTHONSTARTUP", "NODE_OPTIONS", "NODE_PATH",
    "JAVA_TOOL_OPTIONS", "_JAVA_OPTIONS", "JDK_JAVA_OPTIONS", "PHP_INI_SCAN_DIR", "PHPRC", "PATH",
    "HOME", "TMPDIR"]

def dataExtensions : List String :=
  [".pem", ".key", ".json", ".yaml", ".yml", ".txt", ".env", ".ini", ".toml", ".db", ".sqlite",
    ".crt"]

def maxSteps : Nat := 32

def maxValueBytes : Nat := 16384

/-- The recipes of `BUILD_RECIPES`. -/
def buildRecipes : List String := ["none", "pip", "npm", "composer", "maven", "gradle"]

def runtimes : List String := ["python", "node", "php", "java"]

def familyOracles : List (String × List String) :=
  [("injection", ["sql", "command"]), ("path", ["path"]), ("output_encoding", ["xss"]),
    ("untrusted_destination", ["ssrf"]), ("deserialization", []), ("access_control", []),
    ("config_secrets", [])]

def oraclePlaceholders : List (String × List String) :=
  [("path", ["served_root"]), ("sql", ["database_path", "database_url"]),
    ("command", ["marker_dir"]), ("ssrf", ["callback_url"]), ("xss", [])]

def isLower (c : Char) : Bool := 'a' ≤ c && c ≤ 'z'

def nameChar (c : Char) : Bool := isLower c || c.isDigit || c = '_'

/-- `[a-z][a-z0-9_]{0,31}`. -/
def isName : List Char → Bool
  | [] => false
  | c :: rest => isLower c && rest.length ≤ 31 && rest.all nameChar

/-- The name of a reference at the start of a text, by `_REFERENCE`. -/
def referenceAt : List Char → Option (List Char)
  | '$' :: '{' :: rest =>
    let name := rest.takeWhile nameChar
    if isName name && (rest.drop name.length).head? = some '}' then some name else none
  | _ => none

/-- A text between its references: what comes before the first, and each name with what follows. -/
structure Template where
  first : List Char
  rest : List (String × List Char)

/-- The references of a text, after the characters that one still covers. -/
def splitFrom : Nat → List Char → Template
  | _, [] => ⟨[], []⟩
  | covered + 1, _ :: text => splitFrom covered text
  | 0, c :: text =>
    match referenceAt (c :: text) with
    | some name =>
      let more := splitFrom (name.length + 2) text
      ⟨[], (String.ofList name, more.first) :: more.rest⟩
    | none =>
      let more := splitFrom 0 text
      ⟨c :: more.first, more.rest⟩

def template (text : String) : Template := splitFrom 0 text.toList

def Template.literals (t : Template) : List (List Char) := t.first :: t.rest.map (·.2)

/-- `_REFERENCE.findall`. -/
def Template.names (t : Template) : List String := t.rest.map (·.1)

def Template.parts (t : Template) (value : String → List Char) : List (List Char) :=
  t.first :: t.rest.flatMap fun (name, literal) => [value name, literal]

def Template.sub (t : Template) (value : String → List Char) : List Char := (t.parts value).flatten

def referenceText (name : String) : List Char := '$' :: '{' :: name.toList ++ ['}']

/-- The character that a letter is compared as, when case is ignored: four letters beyond ASCII
are compared as an ASCII one. -/
def fold (c : Char) : Char :=
  if c.toNat = 0x17F then 's'
  else if c.toNat = 0x131 ∨ c.toNat = 0x130 then 'i'
  else if c.toNat = 0x212A then 'k'
  else c.toLower

/-- An alternative of `_PRIVATE`: its letters, and whether a word has to end there or a `/` to
follow. -/
structure PrivateText where
  letters : List Char
  ends : Bool

def privateTexts : List PrivateText :=
  (["/fixture", "/proc", "/sys", "/dev", "/deps", "/build"].map fun t => ⟨t.toList, true⟩) ++
    ["proof_marker", "callback_url", "database", "served_root"].map fun t => ⟨t.toList, false⟩

/-- How many characters a match looks at. -/
def PrivateText.reach (p : PrivateText) : Nat := p.letters.length + if p.ends then 1 else 0

/-- `(?:/|\b)` between a character and what follows. -/
def endsHere (isWord : Char → Bool) (last next : Option Char) : Bool :=
  next = some '/' || last.any isWord != next.any isWord

def PrivateText.matchAt (isWord : Char → Bool) (p : PrivateText) (text : List Char) : Bool :=
  (text.take p.letters.length).map fold = p.letters &&
    (!p.ends || endsHere isWord (text.take p.letters.length).getLast? text[p.letters.length]?)

/-- `_PRIVATE.search`. -/
def isPrivate (isWord : Char → Bool) (text : List Char) : Bool :=
  text.tails.any fun tail => privateTexts.any (·.matchAt isWord tail)

def isNul (c : Char) : Bool := c.toNat = 0

def require (holds : Bool) (message : String) : Except String Unit :=
  if holds then .ok () else .error message

/-- `_text`. -/
def checkText (lang : Language) (value : Json) (names : List String) (maximum : Nat) :
    Except String Unit :=
  match value with
  | .str text => do
    require (!text.toList.any isNul && text.utf8ByteSize ≤ maximum)
      "invalid or oversized value"
    let known (name : String) := if name ∈ names then [] else referenceText name
    require (!isPrivate lang.isWord ((template text).sub known))
      "private verifier references are forbidden"
    require ((template text).names.all (· ∈ names) && !((template text).sub fun _ => []).contains '$')
      "only allowed oracle placeholders or earlier response captures may be referenced"
  | _ => .error "invalid or oversized value"

/-- `_arguments`. -/
def checkArguments (lang : Language) (value : Json) (names : List String) : Except String Unit :=
  match value with
  | .arr items =>
    if items.length ≤ 64 then items.forM fun item => checkText lang item names maxValueBytes
    else .error "invalid argument list"
  | _ => .error "invalid argument list"

abbrev Captures := List (String × String)

/-- `substitute`; a name without a value is a `KeyError`. -/
def substitute (value : String) (captures : Captures) : Option String :=
  let t := template value
  if t.names.all fun name => (captures.lookup name).isSome then
    let result := String.ofList (t.sub fun name => ((captures.lookup name).getD "").toList)
    if result.utf8ByteSize ≤ maxValueBytes && !result.toList.any isNul then some result
    else none
  else none

abbrev Fields := List (String × Json)

/-- `_keys`, with the fields of the object. -/
def checkKeys (value : Json) (required optional : List String) : Except String Fields :=
  match value with
  | .obj fields =>
    if required.all (· ∈ Dicts.keys fields) &&
        (Dicts.keys fields).all (fun key => key ∈ required ∨ key ∈ optional) then .ok fields
    else .error "invalid or unknown schema fields"
  | _ => .error "invalid or unknown schema fields"

def pathChar (c : Char) : Bool := c.isAlphanum || c ∈ ['_', '.', '/', ' ', '-']

def checkoutPath (value : Json) : Except String String :=
  match value with
  | .str path => do
    require (path ≠ "" && path.length ≤ 512 && path.toList.all fun c => c.toNat ≠ 92 && !isNul c)
      "invalid checkout path"
    let parts := path.toList.splitOn '/'
    require (!Text.startsWith path "/" && parts.all fun part =>
        part ≠ [] && part ≠ "..".toList && part ≠ ['.'] && part.head? ≠ some '-')
      "path must stay inside checkout"
    require (path.toList.all pathChar) "invalid checkout path"
    return path
  | _ => .error "invalid checkout path"

/-- `[A-Z][A-Z0-9_]{0,63}`. -/
def isVariable (name : String) : Bool :=
  match name.toList with
  | [] => false
  | c :: rest => c.isUpper && rest.length ≤ 63 && rest.all fun d => d.isUpper || d.isDigit || d = '_'

def checkEnvironment (lang : Language) (names : List String) : String × Json → Except String Unit
  | (name, value) => do
    require (isVariable name && name ∉ envDenylist && !Text.startsWith name "OUSAST_" &&
      !Text.contains name "CANARY") "forbidden environment variable"
    match value with
    | .str text => require (text.length ≤ 4096) "invalid environment value"
    | _ => .error "invalid environment value"
    checkText lang value names maxValueBytes

def checkFile (lang : Language) (names : List String) : String × Json → Except String Unit
  | (name, content) => do
    let _ ← checkoutPath (.str name)
    require (!Text.contains name ".." && dataExtensions.any (Text.endsWith name ·))
      "invalid data file extension or name"
    checkText lang content names maxDataBytes

def checkMap (fields : Fields) (key : String) (most : Nat) (message : String) :
    Except String Fields :=
  match fields.lookup key with
  | none => .ok []
  | some (.obj entries) => if entries.length ≤ most then .ok entries else .error message
  | some _ => .error message

/-- `validate_start_config`. -/
def checkStartConfig (lang : Language) (start : Fields) (names : List String) :
    Except String Unit := do
  let environment ← checkMap start "environment" 32 "invalid environment map"
  environment.forM (checkEnvironment lang names)
  let files ← checkMap start "files" 8 "invalid data file map"
  files.forM (checkFile lang names)

/-- `re.search(r"(?:^|[= :])/(?:etc|home|root|tmp|workspace|scratch)/", arg)`. -/
def namesSystemPath (arg : List Char) : Bool :=
  let begins (text : List Char) := ["/etc/", "/home/", "/root/", "/tmp/", "/workspace/",
    "/scratch/"].any fun path => path.toList.isPrefixOf text
  begins arg || arg.tails.any fun
    | c :: text => c ∈ ['=', ' ', ':'] && begins text
    | [] => false

def isExternal (arg : Json) : Bool :=
  match arg with
  | .str text =>
    Text.startsWith text "/" || (text.toList.splitOn '/').contains "..".toList ||
      namesSystemPath text.toList
  | _ => false

def isStr (value : Json) (text : String) : Bool := value.isStr text

def isOneOf (value : Json) (texts : List String) : Bool := texts.any fun text => value.isStr text

def hasLineBreak (value : Json) : Bool :=
  match value with
  | .str text => text.toList.any fun c => c = '\r' || c = '\n'
  | _ => false

def checkPath (value : Json) : Except String Unit :=
  match value with
  | .str path => require (Text.startsWith path "/" && !Text.startsWith path "//" &&
      !hasLineBreak value) "HTTP path must be origin relative"
  | _ => .error "HTTP path must be origin relative"

/-- `[A-Za-z0-9-]+`. -/
def isHeaderName (name : String) : Bool :=
  name ≠ "" && name.toList.all fun c => c.isAlphanum || c = '-'

def checkHeader (lang : Language) (names : List String) : String × Json → Except String Unit
  | (key, value) => do
    require (isHeaderName key && key.toLower ∉ ["host", "connection", "content-length",
      "transfer-encoding", "proxy-authorization"]) "invalid HTTP header"
    checkText lang value names maxValueBytes
    require (!hasLineBreak value) "invalid HTTP header value"

def isPart : Json → Bool
  | .str _ => true
  | .int _ => true
  | _ => false

def checkCapture (lang : Language) (step : Fields) (names : List String) :
    Except String (List String) :=
  match step.lookup "capture" with
  | none => .ok names
  | some capture => do
    let fields ← checkKeys capture ["name", "source"] ["path"]
    match fields.lookup "name" with
    | some (.str name) =>
      require (isName name.toList && name ∉ names && name ≠ "canary" &&
        !(oraclePlaceholders.any fun allowed => name ∈ allowed.2) &&
        !isPrivate lang.isWord name.toList) "invalid capture name"
      require (isOneOf (Json.field fields "source") ["output", "json"]) "invalid capture source"
      match (fields.lookup "path").getD (.arr []) with
      | .arr path => require (path.length ≤ 8 && path.all isPart) "invalid JSON capture path"
      | _ => .error "invalid JSON capture path"
      return names ++ [name]
    | _ => .error "invalid capture name"

def checkCli (lang : Language) (names : List String) (step : Fields) : Except String Unit := do
  let _ ← checkKeys (.obj step) ["type", "arguments"] ["stdin", "capture"]
  checkArguments lang (Json.field step "arguments") names
  checkText lang ((step.lookup "stdin").getD (.str "")) names maxValueBytes

def checkHttp (lang : Language) (names : List String) (step : Fields) : Except String Unit := do
  let _ ← checkKeys (.obj step) ["type", "method", "path"] ["headers", "body", "capture"]
  require (isOneOf (Json.field step "method")
    ["GET", "POST", "PUT", "PATCH", "DELETE", "HEAD", "OPTIONS"]) "invalid HTTP method"
  checkText lang (Json.field step "path") names maxValueBytes
  checkPath (Json.field step "path")
  let headers ← checkMap step "headers" 32 "invalid headers"
  headers.forM (checkHeader lang names)
  checkText lang ((step.lookup "body").getD (.str "")) names maxValueBytes

def checkStep (lang : Language) (mode : Json) (names : List String) (step : Json) :
    Except String (List String) :=
  match step with
  | .obj fields => do
    require ((Json.field fields "type").same mode) "step must match runtime mode"
    if isStr mode "cli" then checkCli lang names fields else checkHttp lang names fields
    checkCapture lang fields names
  | _ => .error "step must match runtime mode"

/-- The build recipe with its argument; `project` is what `build_project` says of the checkout, if
one is given. -/
def checkBuild (lang : Language) (project : Option (String → String → Bool)) (build : Json) :
    Except String Unit := do
  let fields ← checkKeys build ["recipe", "arguments"] []
  match Json.field fields "recipe", Json.field fields "arguments" with
  | .str recipe, arguments =>
    require (recipe ∈ buildRecipes) "unknown build recipe"
    checkArguments lang arguments []
    match recipe, arguments with
    | "none", .arr [] => return ()
    | "none", _ => .error "none recipe accepts no arguments"
    | _, .arr [.str path] =>
      if path ≠ "." then
        let _ ← checkoutPath (.str path)
      match project with
      | none => return ()
      | some accepts =>
        require (accepts recipe path)
          "recipe input must be an ecosystem manifest or project directory"
    | _, _ => .error "recipe requires one checkout path"
  | _, _ => .error "unknown build recipe"

def checkPort (start : Fields) : Except String Unit :=
  if isStr (Json.field start "mode") "http" then
    match start.lookup "port" with
    | some (.int port) =>
      require (1024 ≤ port && port ≤ 65535) "http requires an unprivileged port"
    | _ => .error "http requires an unprivileged port"
  else require ("port" ∉ Dicts.keys start) "cli does not accept a port"

def checkExternal (arguments : Json) : Except String Unit :=
  match arguments with
  | .arr items => require (!items.any isExternal) "start arguments must not name external paths"
  | _ => .error "invalid argument list"

def checkStart (lang : Language) (start : Fields) (placeholders : List String) :
    Except String Unit := do
  require (isOneOf (Json.field start "runtime") runtimes) "unknown runtime"
  let path ← checkoutPath (Json.field start "path")
  require (Text.firstPart '/' path ≠ ".demo") "data files cannot be runtime entrypoints"
  checkArguments lang (Json.field start "arguments") placeholders
  checkExternal (Json.field start "arguments")
  require (isOneOf (Json.field start "mode") ["http", "cli"]) "invalid start mode"
  checkPort start

def ordinary (fields start : Fields) : Json :=
  .obj (Dicts.set fields "start"
    (.obj (start.filter fun entry => entry.1 ∉ ["environment", "files"])))

def checkSize (lang : Language) (value : Json) (most : Nat) (message : String) :
    Except String Unit :=
  match lang.size value with
  | none => .error "demo must be JSON data"
  | some size => require (size ≤ most) message

def checkSteps (lang : Language) (mode steps : Json) : Except String (List String) :=
  match steps with
  | .arr items =>
    if 1 ≤ items.length ∧ items.length ≤ maxSteps then items.foldlM (checkStep lang mode) []
    else .error "invalid step count"
  | _ => .error "invalid step count"

def validateDemo (lang : Language) (project : Option (String → String → Bool)) (value : Json) :
    Except String Json := do
  checkSize lang value maxDemoBytes "demo exceeds size limit"
  let fields ← checkKeys value ["oracle", "build", "start", "steps"] []
  require (isOneOf (Json.field fields "oracle") (familyOracles.flatMap (·.2)))
    "unknown demo oracle"
  checkBuild lang project (Json.field fields "build")
  let start ← checkKeys (Json.field fields "start") ["runtime", "path", "arguments", "mode"]
    ["port", "environment", "files"]
  let placeholders := (oraclePlaceholders.find? fun entry =>
    isStr (Json.field fields "oracle") entry.1).elim [] (·.2)
  checkStartConfig lang start placeholders
  checkSize lang (ordinary fields start) 65536 "demo excluding configuration exceeds size limit"
  checkStart lang start placeholders
  let _ ← checkSteps lang (Json.field start "mode") (Json.field fields "steps")
  return value

def strOf : Json → String
  | .str text => text
  | _ => ""

def strsOf : Json → List String
  | .arr items => items.map strOf
  | _ => []

def valuesOf : Json → List String
  | .obj entries => entries.map fun entry => strOf entry.2
  | _ => []

def stepTexts (step : Fields) : List String :=
  if isStr (Json.field step "type") "cli" then
    strsOf (Json.field step "arguments") ++ [strOf ((step.lookup "stdin").getD (.str ""))]
  else
    strOf (Json.field step "path") ::
      (valuesOf ((step.lookup "headers").getD (.obj [])) ++
        [strOf ((step.lookup "body").getD (.str ""))])

/-- The texts that a step is run with; the expanded path of a request is checked again. -/
def expandStep (step : Fields) (captures : Captures) : Option (List String) := do
  let texts ← (stepTexts step).mapM (substitute · captures)
  if isStr (Json.field step "type") "cli" then return texts
  else if (checkPath (.str (texts.headD ""))).isOk then return texts
  else none

def indexOf (length : Nat) (n : Int) : Option Nat :=
  if 0 ≤ n then some n.toNat
  else if 0 ≤ n + length then some (n + length).toNat
  else none

/-- `value[part]`. -/
def index : Json → Json → Option Json
  | .obj fields, .str key => fields.lookup key
  | .arr items, .int n => (indexOf items.length n).bind (items[·]?)
  | .str text, .int n =>
    (indexOf text.length n).bind fun i => text.toList[i]?.map fun c => .str (String.ofList [c])
  | _, _ => none

def capturedText (lang : Language) (spec : Fields) (output : String) : Option String := do
  let value ←
    if isStr (Json.field spec "source") "json" then
      match (spec.lookup "path").getD (.arr []) with
      | .arr path => path.foldlM index (← lang.loads output)
      | _ => none
    else some (.str output)
  match value with
  | .str text => some text
  | value => lang.dumps value

def captureOutput (lang : Language) (step : Fields) (output : String) (captures : Captures)
    (nonce : String) : Option Captures :=
  match step.lookup "capture" with
  | none => some captures
  | some (.obj spec) => do
    let value ← capturedText lang spec output
    if Text.contains value nonce then none
    else if (checkText lang (.str value) [] maxValueBytes).isOk then
      some (Dicts.set captures (strOf (Json.field spec "name")) value)
    else none
  | some _ => none

structure Reached where
  captures : Captures
  step : Fields
  texts : List String

/-- The steps that a run reaches; an exception ends it, and so does an application that gives no
output. -/
def runSteps (lang : Language) (nonce : String) : Captures → List Json → List String → List Reached
  | captures, .obj step :: steps, outputs =>
    match expandStep step captures with
    | none => []
    | some texts =>
      ⟨captures, step, texts⟩ ::
        match outputs with
        | [] => []
        | output :: outputs =>
          match captureOutput lang step output captures nonce with
          | none => []
          | some captures => runSteps lang nonce captures steps outputs
  | _, _, _ => []

def headerNames (step : Fields) : List String :=
  if isStr (Json.field step "type") "cli" then []
  else
    match (step.lookup "headers").getD (.obj []) with
    | .obj headers => Dicts.keys headers
    | _ => []

def stepsOf : Json → List Json
  | .obj fields =>
    match Json.field fields "steps" with
    | .arr steps => steps
    | _ => []
  | _ => []

end OpenUltraSast.Search.Demo
