import OpenUltraSast.Learn.Folds
import OpenUltraSast.Library.UnionFind

/-!
# Labels by repository group

The readers of the label sources name repositories to a union-find and append labels.
-/

namespace OpenUltraSast.Learn.Labels

open Text Dicts Examples

/-- `re.sub(r"^[a-z+]+://", "", text)`. -/
def dropScheme (text : List Char) : List Char :=
  let letter (c : Char) : Bool := ('a' ≤ c && c ≤ 'z') || c = '+'
  let rest := text.dropWhile letter
  if text.takeWhile letter ≠ [] ∧ [':', '/', '/'].isPrefixOf rest then rest.drop 3 else text

/-- `re.sub(r"^[^/@]+@([^:/]+)[:/]", r"\1/", text)`. -/
def dropUser (text : List Char) : List Char :=
  let user (c : Char) : Bool := c ≠ '/' && c ≠ '@'
  let host (c : Char) : Bool := c ≠ ':' && c ≠ '/'
  match text.dropWhile user with
  | '@' :: rest =>
    match rest.dropWhile host with
    | _ :: path =>
      if text.takeWhile user ≠ [] ∧ rest.takeWhile host ≠ [] then
        rest.takeWhile host ++ '/' :: path
      else text
    | [] => text
  | _ => text

section Lower
variable (lower : String → String)

/-- `owner/name` of a repository URL or slug. -/
def repoName (repo : String) : String :=
  let text := String.ofList (dropUser (dropScheme (lower (stripOf isSpace repo)).toList))
  let text := removeSuffix (removeSuffix (removeSuffix text "/") ".git") "/"
  let parts := ((text.toList.splitOn '/').map String.ofList).filter (· ≠ "")
  if 2 ≤ parts.length then "/".intercalate (parts.drop (parts.length - 2)) else text

/-- `repo_name(repo) if repo else ""`. -/
def nameOf (repo : String) : String := if repo = "" then "" else repoName lower repo

end Lower

structure Groups where
  parent : List (String × String) := []
  aliases : List (String × String)
  merged : List (String × Nat) := [("advisory", 0), ("commit", 0), ("alias", 0)]
  byKey : List (String × String) := []

def Groups.union (g : Groups) (a b why : String) : Option Groups := do
  let (parent, moved) ← UnionFind.union g.parent a b
  let count := (g.merged.lookup why).getD 0
  return { g with parent, merged := if moved then set g.merged why (count + 1) else g.merged }

def Groups.addKey (name : String) (g : Groups) (entry : String × String) : Option Groups :=
  match g.byKey.lookup entry.1 with
  | some other => g.union name other entry.2
  | none => some { g with byKey := set g.byKey entry.1 name }

section Lower
variable (lower : String → String)

/-- The keys that a repository is merged by, each with the reason that is counted. -/
def keysOf (advisoryIds commits : List String) : List (String × String) :=
  advisoryIds.map (fun a => ("adv:" ++ a, "advisory")) ++
    (commits.filter (12 ≤ ·.length)).map fun c => ("sha:" ++ lower c, "commit")

def Groups.add (g : Groups) (repo : String) (advisoryIds commits : List String) :
    Option Groups := do
  let name := nameOf lower repo
  if name = "" then return g
  let (parent, _) ← UnionFind.find g.parent name
  let g := { g with parent }
  let g ← match g.aliases.lookup name with
    | some other => g.union name other "alias"
    | none => some g
  (keysOf lower advisoryIds commits).foldlM (Groups.addKey name) g

def Groups.group (g : Groups) (repo : String) : Option (Groups × String) := do
  if repo = "" then return (g, "")
  let (parent, root) ← UnionFind.find g.parent (repoName lower repo)
  return ({ g with parent }, root)

end Lower

structure Case where
  id : String
  repo : String
  advisory : List String
  fixed : String
  labels : List Label

structure PairCase where
  name : String
  slice : String
  repo : String
  cve : String
  commit : String
  labels : List Label

structure Recipe where
  url : String
  known : List String
  labels : List Label

/-- A source: the adjudications name their cases, and the history of a repository is read for the
populations that it lists. -/
inductive Source where
  | population (id : String) (cases : List Case)
  | pairs (cases : List PairCase)
  | recipes (recipes : List Recipe)
  | adjudications (rows : List (String × Label))
  | history (repositoriesFrom : List String) (labels : String → List Label)

/-- The arguments of a call of `Groups.add`. -/
structure Addition where
  repo : String
  advisoryIds : List String
  commits : List String := []

structure Reading where
  additions : List Addition
  labels : List Label

abbrev Cases := List (String × (String × Case))

def casesOf (sources : List Source) : Cases :=
  sources.foldl (fun d source =>
    match source with
    | .population id cases => cases.foldl (fun d case => set d case.id (id, case)) d
    | _ => d) []

section Lower
variable (lower : String → String) (advisory : String → List String)

/-- `advisories`: the ids that some texts name. -/
def advisories (texts : List String) : List String := texts.flatMap advisory

def row (label : Label) (repo : String) : Label := { label with repo, group := repoName lower repo }

def population (cases : List Case) : Reading where
  additions := cases.map fun case => ⟨case.repo, advisories advisory case.advisory, [case.fixed]⟩
  labels := cases.flatMap fun case => case.labels.map (row lower · case.repo)

def pairs (cases : List PairCase) : Reading where
  additions := (cases.filter (·.repo ≠ "")).map fun case =>
    ⟨case.repo, advisories advisory [case.cve, case.name], [case.commit]⟩
  labels := cases.flatMap fun case => case.labels.map fun label =>
    if case.repo ≠ "" then row lower label case.repo
    else
      let own := case.slice ++ ":" ++ case.name
      { label with repo := own, group := own }

def recipes (listed : List Recipe) : Reading where
  additions := listed.map fun recipe =>
    { repo := recipe.url, advisoryIds := advisories advisory recipe.known }
  labels := listed.flatMap fun recipe => recipe.labels.map (row lower · recipe.url)

/-- A verdict on a case that no population has is skipped. -/
def adjudications (cases : Cases) (rows : List (String × Label)) : Reading where
  additions := []
  labels := rows.filterMap fun (id, label) =>
    (cases.lookup id).map fun (_, case) => row lower label case.repo

def history (cases : Cases) (repositoriesFrom : List String) (labels : String → List Label) :
    Reading where
  additions := []
  labels :=
    let wanted := (cases.map (·.2)).filter (·.1 ∈ repositoriesFrom)
    let byGroup := wanted.foldl
      (fun d member => extend d (repoName lower member.2.repo) [member.2]) []
    (byGroup.insertionSort fun a b => a.1 ≤ b.1).flatMap fun (group, members) =>
      match members.insertionSort fun a b => a.id ≤ b.id with
      | [] => []
      | case :: _ => (labels group).map fun label => { label with repo := case.repo, group }

def Source.isPopulation : Source → Bool
  | population _ _ => true
  | _ => false

def Source.read (assumedBenign : Bool) (cases : Cases) : Source → Reading
  | .population _ cases => Labels.population lower advisory cases
  | .pairs cases => Labels.pairs lower advisory cases
  | .recipes listed => Labels.recipes lower advisory listed
  | .adjudications rows => Labels.adjudications lower cases rows
  | .history repositoriesFrom labels =>
    if assumedBenign then Labels.history lower cases repositoriesFrom labels else ⟨[], []⟩

def readings (assumedBenign : Bool) (sources : List Source) : List Reading :=
  (sources.filter (·.isPopulation) ++ sources.filter (!·.isPopulation)).map
    (Source.read lower advisory assumedBenign (casesOf sources))

/-- `groups.group(label.repo) or label.group` of each label. -/
def regroup : Groups → List Label → Option (List Label)
  | _, [] => some []
  | g, label :: rest => do
    let (g, group) ← g.group lower label.repo
    let rest ← regroup g rest
    return { label with group := if group = "" then label.group else group } :: rest

def run (aliases : List (String × String)) (assumedBenign : Bool) (sources : List Source) :
    Option (List Label) := do
  let all := readings lower advisory assumedBenign sources
  let groups ← (all.flatMap (·.additions)).foldlM (fun (g : Groups) addition =>
    g.add lower addition.repo addition.advisoryIds addition.commits) { aliases }
  regroup lower groups (all.flatMap (·.labels))

end Lower

end OpenUltraSast.Learn.Labels
