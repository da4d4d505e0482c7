import OpenUltraSast.Plane.Memory

/-!
# Delivery of a task

A task's directory under the run directory, its objects in the store, and what an attempt does
with them: it writes the manifest, resets the previous tar, collects the tar that its runner
delivers and judges the summary that the directory then has.
-/

namespace OpenUltraSast.Plane.Delivery

open Values Memory

abbrev Path := List String

def enter (path : Path) (part : String) : Path :=
  if part = "" ∨ part = "." then path
  else if part = ".." then path.dropLast
  else path ++ [part]

/-- `(root / name).resolve()`, where no directory on the way is a link. -/
def resolve (root : Path) (name : String) : Path :=
  ((name.toList.splitOn '/').map String.ofList).foldl enter
    (if Text.startsWith name "/" then [] else root)

def relativeTo (root path : Path) : Option Path :=
  if root.isPrefixOf path then some (path.drop root.length) else none

inductive Node where
  | file (data : Bytes)
  | directory
deriving DecidableEq

def Node.data : Node → Option Bytes
  | file data => some data
  | directory => none

abbrev Files := Path → Option Node

def emptyFiles : Files := fun path => if path = [] then some .directory else none

def fileAt (files : Files) (path : Path) : Option Bytes := (files path).bind Node.data

def writeNode (files : Files) (path : Path) (node : Node) : Files :=
  fun other => if other = path then some node else files other

inductive MemberKind where
  | file (data : Bytes)
  | directory
  | link

structure Member where
  name : String
  kind : MemberKind

structure Tar where
  size : Nat
  members : Except String (List Member)

inductive OsError where
  | manifest
  | notADirectory (path : Path)
  | isADirectory (path : Path)
  | fileExists (path : Path)
deriving DecidableEq

def ancestors (path : Path) : List Path := path.inits.dropLast

/-- A file, or without data a directory, at its place below the root. -/
abbrev Placed := Path × Option Bytes

def makeParents (files : Files) (path : Path) : Files :=
  fun other => if other ∈ ancestors path ∧ files other = none then some .directory else files other

/-- Extract one member. -/
def place (files : Files) : Placed → Except OsError Files
  | (path, content) =>
    if (ancestors path).any fun above => (fileAt files above).isSome then
      .error (.notADirectory path)
    else
      match content with
      | some data =>
        if files path = some .directory then .error (.isADirectory path)
        else .ok (writeNode (makeParents files path) path (.file data))
      | none =>
        if (fileAt files path).isSome then .error (.fileExists path)
        else .ok (writeNode (makeParents files path) path .directory)

/-- `tar.extractall`: the files as far as it comes, and the error that ends it. -/
def extractAll (files : Files) : List Placed → Files × Option OsError
  | [] => (files, none)
  | entry :: rest =>
    match place files entry with
    | .error error => (files, some error)
    | .ok next => extractAll next rest

/-- The check of the members: the name of the first that is a link or leaves the directory, or
the place of each. -/
def checkMembers (root : Path) : List Member → Except String (List Placed)
  | [] => .ok []
  | m :: rest =>
    match m.kind, relativeTo root (resolve root m.name) with
    | .file data, some path => (checkMembers root rest).map ((path, some data) :: ·)
    | .directory, some path => (checkMembers root rest).map ((path, none) :: ·)
    | _, _ => .error m.name

/-- What there is to extract, or the text of the `DeliveryError`. -/
def Tar.placed (task : String) (root : Path) (tar : Tar) : Except String (List Placed) :=
  match tar.members with
  | .error cause => .error ("task " ++ task ++ ": bad tar: " ++ cause)
  | .ok members =>
    match checkMembers root members with
    | .error name => .error ("task " ++ task ++ ": rejected member " ++ name)
    | .ok placed => .ok placed

/-- `done.json`. -/
structure Done where
  task : String
  status : Json
  bytes : Nat
  files : Nat
  published : List String

/-- The directory of a task and its objects in the store. -/
structure Place where
  files : Files := emptyFiles
  tar : Option Tar := none
  done : Option Done := none
  artifacts : String → Option Bytes := fun _ => none

/-- How `collect` ends: it returns, or with a `DeliveryError` or another exception. -/
inductive Collected where
  | returned
  | refused (reason : String)
  | raised (error : OsError)

section Task
variable (loads : Bytes → Option Json) (task : String) (root : Path) (outputs : List String)

def contentOf (files : Files) (artifact : String) : Option Bytes :=
  (relativeTo root (resolve root artifact)).bind (fileAt files)

/-- `publish`: the declared outputs that exist are put, the others stay what they were. -/
def publish (p : Place) : Place :=
  { p with
    artifacts := fun artifact =>
      if artifact ∈ outputs then (contentOf root p.files artifact).or (p.artifacts artifact)
      else p.artifacts artifact }

/-- `_read_json`: what cannot be read or parsed is null. -/
def readJson (files : Files) (path : Path) : Json :=
  match fileAt files path with
  | some data => (loads data).getD .null
  | none => .null

def summaryPath : Path := ["summary.json"]

/-- `collect` of the tar in the store. -/
def collect (p : Place) : Place × Collected :=
  match p.tar with
  | none => (p, .refused ("task " ++ task ++ ": output.tar is not in the store"))
  | some tar =>
    match tar.placed task root with
    | .error reason => (p, .refused reason)
    | .ok placed =>
      match extractAll p.files placed with
      | (files, some error) => ({ p with files }, .raised error)
      | (files, none) =>
        let done : Done :=
          { task
            status := match readJson loads files summaryPath with
              | .obj fields => Json.field fields "status"
              | _ => .null
            bytes := tar.size
            files := placed.countP (·.2.isSome)
            published := outputs.filter fun artifact => (contentOf root files artifact).isSome }
        ({ publish root outputs { p with files } with done := some done }, .returned)

inductive Outcome where
  | returned (status : String) (reason : Json)
  | raised (error : OsError)
  | attributeError

/-- `value or other`. -/
def orElse (value other : Json) : Json := if value.truthy then value else other

def outcomeOf : Json → Outcome
  | .null => .returned "failed" (.str "no summary.json delivered")
  | .obj fields =>
    let status := Json.field fields "status"
    if status.isStr "done" &&
        (Json.field fields "units_done").same (Json.field fields "units_total") then
      .returned "done" (.str "")
    else if status.isStr "unfinished" then
      .returned "unfinished" (orElse (Json.field fields "reason") (.str "budget stop"))
    else
      .returned "failed" (orElse (orElse (Json.field fields "reason") status)
        (.str "task did not report done"))
  | _ => .attributeError

structure Attempt where
  manifest : Bytes
  delivery : Except String Tar

def manifestPath : Path := ["task.yaml"]

/-- The directory and the store after the manifest is written and `reset` is done. -/
def prepared (p : Place) (manifest : Bytes) : Place :=
  { p with files := writeNode p.files manifestPath (.file manifest), tar := none, done := none }

def execute (p : Place) (attempt : Attempt) : Place × Outcome :=
  if p.files manifestPath = some .directory then (p, .raised .manifest)
  else
    match attempt.delivery with
    | .error reason => (prepared p attempt.manifest, .returned "failed" (.str reason))
    | .ok tar =>
      match collect loads task root outputs
          { prepared p attempt.manifest with tar := some tar } with
      | (after, .returned) => (after, outcomeOf (readJson loads after.files summaryPath))
      | (after, .refused reason) => (after, .returned "failed" (.str reason))
      | (after, .raised error) => (after, .raised error)

def attempts (earlier : List Attempt) : Place :=
  earlier.foldl (fun p attempt => (execute loads task root outputs p attempt).1) {}

end Task

end OpenUltraSast.Plane.Delivery
