import Mathlib.Data.Prod.Lex
import OpenUltraSast.Library.Dicts
import OpenUltraSast.Library.Sorting
import OpenUltraSast.Model.Contracts

/-!
# Taint verdicts

The arbiter of the flow families: the rows of a query become one verdict for each sink site, the
strongest first.
-/

namespace OpenUltraSast.Model.Taint

open Values StableSort List

/-- What Python makes of texts: `repr` of the values that `str` does not write as they are, `isdigit`
of a text and `int` of one; none is its `ValueError`. -/
structure Texts where
  repr : Json → String
  isDigit : String → Bool
  int : String → Option Int

/-- `str(value)`. -/
def Texts.str (t : Texts) : Json → String
  | .str text => text
  | .int value => toString value
  | .null => "None"
  | .bool true => "True"
  | .bool false => "False"
  | value => t.repr value

structure TaintSpec where
  family : String
  sources : List String
  safeShapeSinks : List String

/-- A row of the query, with the fields that the arbiter reads. -/
structure Flow where
  sink : String
  sinkArity : Json
  sinkArg0Literal : Json
  inLabeledScope : Json
  sinkLine : String
  sinkMethod : String
  sinkFile : String
  bounded : Bool
  bound : String
  source : String
  sanitized : Bool
  sourceKind : String
  length : Int

structure Verdict where
  rung : Rung
  family : String
  witness : String
  location : String
deriving DecidableEq

def asInt : Json → Int
  | .bool value => if value then 1 else 0
  | .int value => value
  | .float value => value.num.tdiv value.den
  | _ => 0

variable (t : Texts) (spec : TaintSpec) (function : String)

/-- `str(row.get(key, ""))`. -/
def textOf (row : List (String × Json)) (key : String) : String :=
  t.str ((row.lookup key).getD (.str ""))

/-- `bool(row.get(key, False))`. -/
def flagOf (row : List (String × Json)) (key : String) : Bool :=
  ((row.lookup key).getD (.bool false)).truthy

def inScope (row : List (String × Json)) : Bool :=
  match Json.field row "inLabeledScope" with
  | .bool flag => flag
  | _ => textOf t row "sinkMethod" = function

/-- What `_flows` keeps of a row. -/
def flowOf : Json → Option Flow
  | .obj row =>
    -- a row with a kind is an export of its own and no answer
    if (row.lookup "kind").isSome then none
    else if function ≠ "" ∧ inScope t function row = false then none
    else some
      { sink := textOf t row "sink"
        sinkArity := Json.field row "sinkArity"
        sinkArg0Literal := Json.field row "sinkArg0Literal"
        inLabeledScope := Json.field row "inLabeledScope"
        sinkLine := textOf t row "sinkLine"
        sinkMethod := textOf t row "sinkMethod"
        sinkFile := textOf t row "sinkFile"
        bounded := flagOf row "bounded"
        bound := textOf t row "bound"
        source := textOf t row "source"
        sanitized := flagOf row "sanitized"
        sourceKind := textOf t row "sourceKind"
        length := asInt (Json.field row "length") }
  | _ => none

def hasSafeShape (flow : Flow) : Bool :=
  if spec.safeShapeSinks.isEmpty then false
  else if !spec.safeShapeSinks.any (Text.contains flow.sink) then false
  else if flow.sinkArity = .null ∧ flow.sinkArg0Literal = .null then false
  else (flow.sinkArity.number.isSome && 2 ≤ asInt flow.sinkArity) ||
    flow.sinkArg0Literal = .bool true

/-- `_usable_flows`, of the rows that the query returned. -/
def usableFlows (rows : List Json) : List Flow :=
  (rows.filterMap (flowOf t function)).filter (!hasSafeShape spec ·)

def modelledKinds : List String := ["framework", "field", "hook"]

def fromModelledSource (flow : Flow) : Bool :=
  if flow.sourceKind ≠ "" then flow.sourceKind ∈ modelledKinds
  else spec.sources.any (Text.contains flow.source)

def rank (flow : Flow) : Nat ×ₗ Int ×ₗ String ×ₗ String :=
  toLex (if fromModelledSource spec flow then 0 else 1,
    toLex (flow.length, toLex (flow.source, flow.sink)))

def witness (flow : Flow) : String :=
  let line := if flow.sinkLine = "" then "?" else flow.sinkLine
  let at_ := if flow.sinkFile = "" then "" else " in " ++ flow.sinkFile
  let governed :=
    if flow.bounded ∧ flow.bound ≠ "" then ", governed by `" ++ flow.bound ++ "`" else ""
  flow.source ++ " -> " ++ flow.sink ++ at_ ++ " (line " ++ line ++ ", " ++ toString flow.length ++
    " steps" ++ governed ++ ")"

/-- `_location`; none is the `ValueError` of `int`. -/
def location (flow : Flow) : Option String :=
  let digits := String.ofList (flow.sinkLine.toList.dropWhile (· = '-'))
  if flow.sinkFile = "" ∨ t.isDigit digits = false then some ""
  else (t.int flow.sinkLine).map fun line =>
    if line < 0 then ""
    else flow.sinkFile ++ ":" ++ flow.sinkLine ++ ":" ++
      if flow.sinkMethod = "" then "?" else flow.sinkMethod

/-- `_location(flow) or str(flow.get("sink", ""))`. -/
def siteOf (flow : Flow) : Option String :=
  (location t flow).map fun place => if place = "" then flow.sink else place

def settled (flow : Flow) : Bool := flow.sanitized || flow.bounded

/-- `open_flows or preferred` of the flows of a site. -/
def candidates (siteFlows : List Flow) : List Flow :=
  prefer (!settled ·) (prefer (fromModelledSource spec) siteFlows)

def sortKey (flow : Flow) : Bool ×ₗ Nat ×ₗ Int ×ₗ String ×ₗ String :=
  toLex (settled flow, rank spec flow)

def verdictFor (flow : Flow) : Option Verdict :=
  (location t flow).map fun place =>
    { rung := if settled flow then .corroborated else .entailed
      family := spec.family
      witness := witness flow
      location := place }

/-- `verdicts`, of the rows that the query returned. -/
def verdicts (rows : List Json) : Option (List Verdict) := do
  let flows := usableFlows t spec function rows
  if flows.isEmpty then return []
  let sited ← flows.mapM fun flow => (siteOf t flow).map (·, flow)
  let chosen ← (Dicts.group sited).mapM fun site => minBy (rank spec) (candidates spec site.2)
  (sortBy (sortKey spec) chosen).mapM (verdictFor t spec)

def flowsAt (flows : List Flow) (site : String) : List Flow :=
  flows.filter (siteOf t · = some site)

/-- Whether the arbiter may choose a flow for its site: it is a candidate there, and no candidate ranks
before it. -/
def Least (flows : List Flow) (flow : Flow) : Prop :=
  ∃ site, siteOf t flow = some site ∧ flow ∈ candidates spec (flowsAt t flows site) ∧
    ∀ other ∈ candidates spec (flowsAt t flows site), rank spec flow ≤ rank spec other

/-- Whether a flow speaks for its site: it is from a modelled source, or no flow of the site is. -/
def Preferred (flows : List Flow) (flow : Flow) : Prop :=
  flow ∈ flows ∧
    (fromModelledSource spec flow = true ∨ ∀ other ∈ flows, fromModelledSource spec other = false)

variable {t spec}

variable {flows : List Flow} {flow : Flow} {others : List Flow} {site : String} {rows : List Json}

theorem mem_candidates_iff :
    flow ∈ candidates spec flows ↔ Preferred spec flows flow ∧
      (settled flow = false ∨ ∀ other, Preferred spec flows other → settled other = true) := by
  simp only [candidates, mem_prefer_iff, Preferred, Bool.not_eq_true', Bool.not_eq_false']

private theorem candidates_ne_nil (some_ : flows ≠ []) : candidates spec flows ≠ [] :=
  prefer_ne_nil (prefer_ne_nil some_)

theorem candidates_perm (perm : flows.Perm others) (flow : Flow) :
    flow ∈ candidates spec flows ↔ flow ∈ candidates spec others := by
  simp only [mem_candidates_iff, Preferred, perm.mem_iff]

variable {other : Flow}

private theorem settled_candidates (one : flow ∈ candidates spec flows)
    (two : other ∈ candidates spec flows) : settled flow = settled other := by
  rw [mem_candidates_iff] at one two
  rcases one.2 with open_ | all
  · rcases two.2 with open' | all
    · rw [open_, open']
    · have closed := all flow one.1
      rw [open_] at closed
      cases closed
  · rw [all flow one.1, all other two.1]

theorem open_candidate_iff (one : flow ∈ candidates spec flows) :
    settled flow = false ↔ ∃ other, Preferred spec flows other ∧ settled other = false := by
  rw [mem_candidates_iff] at one
  constructor
  · exact fun open_ => ⟨flow, one.1, open_⟩
  · rintro ⟨other, speaks, open_⟩
    rcases one.2 with open' | all
    · exact open'
    · have closed := all other speaks
      rw [open_] at closed
      cases closed

variable (t spec)

def siteName (flow : Flow) : String := (siteOf t flow).getD ""

def sitesOf (flows : List Flow) : List String := (flows.map (siteName t)).eraseDups

def choice (flows : List Flow) (site : String) : Option Flow :=
  minBy (rank spec) (candidates spec (flowsAt t flows site))

/-- Every flow's line is one that `int` reads. -/
def Readable (flows : List Flow) : Prop := ∀ flow ∈ flows, (location t flow).isSome

variable {t spec function}

theorem siteOf_eq (readable : Readable t flows) (member : flow ∈ flows) :
    siteOf t flow = some (siteName t flow) := by
  obtain ⟨place, known⟩ := Option.isSome_iff_exists.mp (readable flow member)
  rw [siteName, siteOf, known]
  rfl

theorem mem_sitesOf_iff (readable : Readable t flows) :
    site ∈ sitesOf t flows ↔ ∃ flow ∈ flows, siteOf t flow = some site := by
  rw [sitesOf, mem_eraseDups, mem_map]
  refine exists_congr fun flow => and_congr_right fun member => ?_
  rw [siteOf_eq readable member, Option.some.injEq]

theorem nodup_sitesOf (flows : List Flow) : (sitesOf t flows).Nodup := Collections.nodup_eraseDups _

theorem sitesOf_perm (perm : flows.Perm others) : (sitesOf t flows).Perm (sitesOf t others) := by
  rw [perm_ext_iff_of_nodup (nodup_sitesOf _) (nodup_sitesOf _)]
  intro site
  simp only [sitesOf, mem_eraseDups, mem_map, perm.mem_iff]

theorem least_of_choice (chosen : choice t spec flows site = some flow) :
    flow ∈ flows ∧ siteOf t flow = some site ∧ Least t spec flows flow := by
  have candidate := minBy_mem chosen
  have at_ := (mem_candidates_iff.mp candidate).1.1
  rw [flowsAt, mem_filter, decide_eq_true_eq] at at_
  exact ⟨at_.1, at_.2, site, at_.2, candidate,
    fun other member => minBy_le member chosen⟩

theorem isSome_choice (spec : TaintSpec) (readable : Readable t flows) (member : site ∈ sitesOf t flows) :
    (choice t spec flows site).isSome := by
  obtain ⟨flow, held, at_⟩ := (mem_sitesOf_iff readable).mp member
  have some_ : flowsAt t flows site ≠ [] :=
    ne_nil_of_mem (mem_filter.mpr ⟨held, decide_eq_true at_⟩)
  rw [Option.isSome_iff_ne_none, choice, Ne, minBy_eq_none_iff]
  exact candidates_ne_nil some_

/-- One verdict for each site, that of its best flow, in the order of the sort key. -/
theorem verdicts_eq (readable : Readable t (usableFlows t spec function rows)) :
    ∃ chosen, (sitesOf t (usableFlows t spec function rows)).mapM
        (choice t spec (usableFlows t spec function rows)) = some chosen ∧
      verdicts t spec function rows = (sortBy (sortKey spec) chosen).mapM (verdictFor t spec) := by
  rw [verdicts]
  generalize usableFlows t spec function rows = flows at readable ⊢
  have every := Collections.isSome_mapM_iff.mpr fun site member => isSome_choice spec readable member
  obtain ⟨chosen, picked⟩ := Option.isSome_iff_exists.mp every
  refine ⟨chosen, picked, ?_⟩
  by_cases none_ : flows = []
  · subst none_
    cases picked
    rfl
  have sited : flows.mapM (fun flow => (siteOf t flow).map (·, flow)) =
      some (flows.map fun flow => (siteName t flow, flow)) := by
    rw [Collections.mapM_congr_mem (g := fun flow => some (siteName t flow, flow))
      fun flow member => by rw [siteOf_eq readable member]; rfl]
    exact mapM_pure
  have groups : (Dicts.group (flows.map fun flow => (siteName t flow, flow))).mapM
      (fun site => minBy (rank spec) (candidates spec site.2)) = some chosen := by
    rw [Dicts.group_eq, mapM_map, map_map]
    refine Eq.trans (Collections.mapM_congr_mem fun site _ => ?_) picked
    have here : flowsAt t flows site = flows.filter (siteName t · = site) := by
      refine filter_congr fun flow member => decide_eq_decide.mpr ?_
      rw [siteOf_eq readable member, Option.some.injEq]
    have values : ((flows.map fun flow => (siteName t flow, flow)).filter (·.1 = site)).map (·.2) =
        flows.filter (siteName t · = site) := by
      rw [filter_map, map_map]
      exact map_id _
    rw [choice, here, ← values]
    rfl
  have full : flows.isEmpty = false := by simpa using none_
  simp only [full, sited, Option.bind_eq_bind, Option.bind_some, groups, Bool.false_eq_true, if_false]

variable (t spec)

/-- What the verdict of a site says: it shows a flow of the site, and it is entailed exactly when a
flow that speaks for the site is neither sanitized nor bounded. -/
structure SiteVerdict (flows : List Flow) (site : String) (verdict : Verdict) : Prop where
  shown : ∃ flow ∈ flows, siteOf t flow = some site ∧ verdictFor t spec flow = some verdict
  rung_or : verdict.rung = .entailed ∨ verdict.rung = .corroborated
  entailed_iff : verdict.rung = .entailed ↔ ∃ flow ∈ flows, siteOf t flow = some site ∧
    (fromModelledSource spec flow = true ∨
      ∀ other ∈ flows, siteOf t other = some site → fromModelledSource spec other = false) ∧
    flow.sanitized = false ∧ flow.bounded = false

/-- One verdict for each site that has a usable flow, and the same list whatever the order of the
rows. -/
def Unordered (function : String) (rows : List Json) : Prop :=
  ∃ sites out,
    sites.Nodup ∧
    (∀ site, site ∈ sites ↔ ∃ flow ∈ usableFlows t spec function rows, siteOf t flow = some site) ∧
    List.Forall₂ (SiteVerdict t spec (usableFlows t spec function rows)) sites out ∧
    ∀ order : List Json, order.Perm rows → verdicts t spec function order = some out

/-- Flows that the arbiter may choose for their sites and that the sort does not tell apart show the
same. -/
def TiesShowSame (flows : List Flow) : Prop :=
  ∀ flow ∈ flows, ∀ other ∈ flows, Least t spec flows flow → Least t spec flows other →
    sortKey spec flow = sortKey spec other →
    witness flow = witness other ∧ location t flow = location t other

variable {t spec}

theorem settled_eq_false_iff :
    settled flow = false ↔ flow.sanitized = false ∧ flow.bounded = false := by
  rw [settled, Bool.or_eq_false_iff]

theorem preferred_flowsAt_iff :
    Preferred spec (flowsAt t flows site) flow ↔ flow ∈ flows ∧ siteOf t flow = some site ∧
      (fromModelledSource spec flow = true ∨
        ∀ other ∈ flows, siteOf t other = some site → fromModelledSource spec other = false) := by
  simp only [Preferred, flowsAt, mem_filter, decide_eq_true_eq, and_imp, and_assoc]

theorem siteVerdict_of_choice {verdict : Verdict} (chosen : choice t spec flows site = some flow)
    (shows : verdictFor t spec flow = some verdict) : SiteVerdict t spec flows site verdict := by
  obtain ⟨member, at_, -⟩ := least_of_choice chosen
  obtain ⟨place, -, rfl⟩ := Option.map_eq_some_iff.mp shows
  have rung : (if settled flow then Rung.corroborated else Rung.entailed) = .entailed ↔
      settled flow = false := by
    cases settled flow <;> simp
  refine ⟨⟨flow, member, at_, shows⟩, ?_, ?_⟩
  · change (if settled flow then Rung.corroborated else Rung.entailed) = _ ∨ _ = _
    cases settled flow <;> simp
  · refine rung.trans ((open_candidate_iff (minBy_mem chosen)).trans ?_)
    refine exists_congr fun other => ?_
    rw [preferred_flowsAt_iff, settled_eq_false_iff]
    simp only [and_assoc]

variable {order : List Json}

theorem usableFlows_perm (perm : order.Perm rows) :
    (usableFlows t spec function order).Perm (usableFlows t spec function rows) :=
  (perm.filterMap _).filter _

section
variable (perm : flows.Perm others)
include perm

theorem readable_perm (readable : Readable t flows) : Readable t others :=
  fun flow member => readable flow (perm.mem_iff.mpr member)

theorem flowsAt_perm (site : String) :
    (flowsAt t flows site).Perm (flowsAt t others site) := perm.filter _

theorem least_perm :
    Least t spec flows flow ↔ Least t spec others flow := by
  simp only [Least, candidates_perm (flowsAt_perm perm _)]

theorem sortKey_choice
    (one : choice t spec flows site = some flow) (two : choice t spec others site = some other) :
    sortKey spec flow = sortKey spec other := by
  have first := minBy_mem one
  have second := (candidates_perm (flowsAt_perm perm site) other).mpr (minBy_mem two)
  have le : rank spec flow ≤ rank spec other := minBy_le second one
  have ge : rank spec other ≤ rank spec flow :=
    minBy_le ((candidates_perm (flowsAt_perm perm site) flow).mp first) two
  rw [sortKey, sortKey, settled_candidates first second, le_antisymm le ge]

end

theorem chosen_perm {β : Type} (read : Flow → β) (perm : flows.Perm others) (readable : Readable t flows)
    {m n : List Flow} (one : (sitesOf t flows).mapM (choice t spec flows) = some m)
    (two : (sitesOf t others).mapM (choice t spec others) = some n)
    (same : ∀ site flow other, choice t spec flows site = some flow →
      choice t spec others site = some other → read flow = read other) :
    (m.map read).Perm (n.map read) := by
  refine Collections.perm_map_of_mapM (sitesOf_perm perm) one two fun site member => ?_
  obtain ⟨flow, first⟩ := Option.isSome_iff_exists.mp (isSome_choice spec readable member)
  have second := isSome_choice spec (readable_perm perm readable)
    ((sitesOf_perm perm).mem_iff.mp member)
  obtain ⟨other, second⟩ := Option.isSome_iff_exists.mp second
  rw [first, second, Option.map_some, Option.map_some, same site flow other first second]

theorem mem_of_least (least : Least t spec flows flow) : flow ∈ flows := by
  obtain ⟨site, -, candidate, -⟩ := least
  have at_ := (mem_candidates_iff.mp candidate).1.1
  exact (mem_filter.mp at_).1

private theorem verdictFor_of_tie (ties : TiesShowSame t spec flows)
    (first : Least t spec flows flow) (second : Least t spec flows other)
    (tied : sortKey spec flow = sortKey spec other) :
    verdictFor t spec flow = verdictFor t spec other := by
  have closed : settled flow = settled other := congrArg (fun key => (ofLex key).1) tied
  obtain ⟨witnesses, places⟩ :=
    ties flow (mem_of_least first) other (mem_of_least second) first second tied
  rw [verdictFor, verdictFor, closed, witnesses, places]

theorem siteName_of_choice (chosen : choice t spec flows site = some flow) : siteName t flow = site := by
  rw [siteName, (least_of_choice chosen).2.1, Option.getD_some]

variable {chosen : List Flow}

theorem map_siteName_chosen (picked : (sitesOf t flows).mapM (choice t spec flows) = some chosen) :
    chosen.map (siteName t) = sitesOf t flows := by
  have each := Collections.mapM_eq_some_iff.mp picked
  rw [← forall₂_eq_eq_eq, forall₂_map_left_iff]
  exact (each.imp fun site flow is => siteName_of_choice is).flip

theorem choice_of_mem (picked : (sitesOf t flows).mapM (choice t spec flows) = some chosen)
    (member : flow ∈ chosen) : choice t spec flows (siteName t flow) = some flow := by
  obtain ⟨site, -, is⟩ :=
    Collections.exists_left_of_forall₂ (Collections.mapM_eq_some_iff.mp picked) member
  rwa [siteName_of_choice is]

private theorem verdicts_perm (perm : order.Perm rows)
    (readable : Readable t (usableFlows t spec function rows))
    (ties : TiesShowSame t spec (usableFlows t spec function rows)) :
    verdicts t spec function order = verdicts t spec function rows := by
  have flows : (usableFlows t spec function order).Perm (usableFlows t spec function rows) :=
    usableFlows_perm perm
  have readable' := readable_perm flows.symm readable
  obtain ⟨chosen, picked, run⟩ := verdicts_eq readable
  obtain ⟨chosen', picked', run'⟩ := verdicts_eq readable'
  have shown : ∀ flow other, Least t spec (usableFlows t spec function order) flow →
      Least t spec (usableFlows t spec function rows) other →
      sortKey spec flow = sortKey spec other → verdictFor t spec flow = verdictFor t spec other :=
    fun flow other first second => verdictFor_of_tie ties ((least_perm flows).mp first) second
  have pairs := chosen_perm (fun flow => (sortKey spec flow, verdictFor t spec flow)) flows readable'
    picked' picked fun site flow other one two => by
      have tied := sortKey_choice flows one two
      rw [tied, shown flow other (least_of_choice one).2.2 (least_of_choice two).2.2 tied]
  have same := map_sortBy_eq (sortKey spec) pairs fun flow first other second =>
    shown flow other (least_of_choice (choice_of_mem picked' first)).2.2
      (least_of_choice (choice_of_mem picked second)).2.2
  have traversed : ∀ l : List Flow, l.mapM (verdictFor t spec) = (l.map (verdictFor t spec)).mapM id :=
    fun l => by rw [mapM_map, Function.id_comp]
  rw [run, run', traversed, traversed, same]

private theorem verdicts_sites (readable : Readable t (usableFlows t spec function rows)) :
    ∃ sites out, verdicts t spec function rows = some out ∧ sites.Nodup ∧
      (∀ site, site ∈ sites ↔ ∃ flow ∈ usableFlows t spec function rows, siteOf t flow = some site) ∧
      List.Forall₂ (SiteVerdict t spec (usableFlows t spec function rows)) sites out := by
  obtain ⟨chosen, picked, run⟩ := verdicts_eq readable
  have sorted := perm_sortBy (sortKey spec) chosen
  have every : ((sortBy (sortKey spec) chosen).mapM (verdictFor t spec)).isSome := by
    rw [Collections.isSome_mapM_iff]
    intro flow member
    have held := (least_of_choice (choice_of_mem picked (sorted.mem_iff.mp member))).1
    rw [verdictFor, Option.isSome_map]
    exact readable flow held
  obtain ⟨out, shows⟩ := Option.isSome_iff_exists.mp every
  have sites : ((sortBy (sortKey spec) chosen).map (siteName t)).Perm
      (sitesOf t (usableFlows t spec function rows)) := by
    rw [← map_siteName_chosen picked]
    exact sorted.map _
  refine ⟨_, out, run.trans shows, sites.nodup_iff.mpr (nodup_sitesOf _), ?_, ?_⟩
  · intro site
    rw [sites.mem_iff, mem_sitesOf_iff readable]
  · rw [forall₂_map_left_iff]
    refine Collections.forall₂_imp_mem (Collections.mapM_eq_some_iff.mp shows)
      fun flow verdict member _ shown => ?_
    exact siteVerdict_of_choice (choice_of_mem picked (sorted.mem_iff.mp member)) shown

variable {out : List Verdict}

theorem readable_of_verdicts (run : verdicts t spec function rows = some out) :
    Readable t (usableFlows t spec function rows) := by
  rw [verdicts] at run
  generalize usableFlows t spec function rows = flows at run ⊢
  by_cases none_ : flows = []
  · subst none_
    exact fun flow member => (not_mem_nil member).elim
  have full : flows.isEmpty = false := by simpa using none_
  simp only [full, Bool.false_eq_true, if_false] at run
  obtain ⟨sited, named, -⟩ := Option.bind_eq_some_iff.mp run
  have every := Collections.isSome_mapM_iff.mp (Option.isSome_of_eq_some named)
  intro flow member
  simpa [siteOf] using every flow member

private theorem exists_order_of_mem (member : flow ∈ usableFlows t spec function rows) :
    ∃ order rest, order.Perm rows ∧ usableFlows t spec function order = flow :: rest := by
  obtain ⟨kept, shape⟩ := mem_filter.mp member
  obtain ⟨row, held, is⟩ := mem_filterMap.mp kept
  refine ⟨row :: rows.erase row, usableFlows t spec function (rows.erase row),
    (perm_cons_erase held).symm, ?_⟩
  rw [usableFlows, filterMap_cons_some is]
  exact filter_cons_of_pos shape

private theorem choice_cons {rest : List Flow} (least : Least t spec (flow :: rest) flow) :
    choice t spec (flow :: rest) (siteName t flow) = some flow := by
  obtain ⟨site, at_, candidate, first⟩ := least
  have name : siteName t flow = site := by rw [siteName, at_, Option.getD_some]
  have here : flowsAt t (flow :: rest) site = flow :: flowsAt t rest site :=
    filter_cons_of_pos (decide_eq_true at_)
  rw [here] at candidate first
  obtain ⟨others, speaks⟩ := prefer_cons (mem_prefer_iff.mp candidate).1
  rw [candidates, speaks] at candidate first
  obtain ⟨others', open_⟩ := prefer_cons candidate
  rw [open_] at first
  rw [name, choice, here, candidates, speaks, open_]
  exact minBy_cons_of_least fun other member => first other (mem_cons_of_mem _ member)

private theorem chosen_cons {rest : List Flow} (least : Least t spec (flow :: rest) flow)
    (picked : (sitesOf t (flow :: rest)).mapM (choice t spec (flow :: rest)) = some chosen) :
    ∃ others, chosen = flow :: others := by
  rw [sitesOf, map_cons, eraseDups_cons, mapM_cons, choice_cons least] at picked
  change (List.mapM _ _ >>= fun others => some (flow :: others)) = some chosen at picked
  obtain ⟨others, -, same⟩ := Option.bind_eq_some_iff.mp picked
  exact ⟨others, (Option.some.inj same).symm⟩

/-- The first of the chosen flows comes out right behind those that are below it. -/
theorem getElem?_verdicts
    (run : (sortBy (sortKey spec) (flow :: others)).mapM (verdictFor t spec) = some out) :
    out[(flow :: others).countP fun other => sortKey spec other < sortKey spec flow]? =
      verdictFor t spec flow := by
  have place := getElem?_sortBy_cons (sortKey spec) flow others
  have texts := congrArg (·[others.countP fun other => sortKey spec other < sortKey spec flow]?)
    (Collections.mapM_eq_some_iff_map.mp run)
  simp only [List.getElem?_map, place, Option.map_some] at texts
  rw [countP_cons_of_neg (by simp)]
  obtain ⟨verdict, found_, same⟩ := Option.map_eq_some_iff.mp texts.symm
  rw [found_, same]

theorem shown_of_least
    (all : ∀ order : List Json, order.Perm rows → verdicts t spec function order = some out)
    (picked : (sitesOf t (usableFlows t spec function rows)).mapM
      (choice t spec (usableFlows t spec function rows)) = some chosen)
    (least : Least t spec (usableFlows t spec function rows) flow) :
    out[chosen.countP fun other => sortKey spec other < sortKey spec flow]? =
      verdictFor t spec flow := by
  obtain ⟨order, rest, perm, first⟩ := exists_order_of_mem (mem_of_least least)
  have flows : (usableFlows t spec function order).Perm (usableFlows t spec function rows) :=
    usableFlows_perm perm
  have readable := readable_of_verdicts (all order perm)
  obtain ⟨chosen', picked', run⟩ := verdicts_eq readable
  have keys : (chosen'.map (sortKey spec)).Perm (chosen.map (sortKey spec)) :=
    chosen_perm (sortKey spec) flows readable picked' picked
      fun site flow other => sortKey_choice flows
  have count := keys.countP_eq fun key => decide (key < sortKey spec flow)
  rw [countP_map, countP_map] at count
  have least' := (least_perm flows).mpr least
  rw [first] at least' picked'
  obtain ⟨others, rfl⟩ := chosen_cons least' picked'
  rw [all order perm] at run
  rw [← getElem?_verdicts run.symm]
  exact congrArg (out[·]?) count.symm

/-- Every order of the rows yields one list with one right verdict for each site exactly when every
line can be read and tied flows show the same. -/
theorem verdicts_unordered_iff (rows : List Json) :
    Unordered t spec function rows ↔
      Readable t (usableFlows t spec function rows) ∧
        TiesShowSame t spec (usableFlows t spec function rows) := by
  constructor
  · rintro ⟨sites, out, -, -, -, all⟩
    have readable := readable_of_verdicts (all rows (List.Perm.refl rows))
    obtain ⟨chosen, picked, -⟩ := verdicts_eq readable
    refine ⟨readable, fun flow member other held first second tied => ?_⟩
    have one := shown_of_least all picked first
    have two := shown_of_least all picked second
    rw [tied, two] at one
    obtain ⟨place, known⟩ := Option.isSome_iff_exists.mp (readable flow member)
    obtain ⟨place', known'⟩ := Option.isSome_iff_exists.mp (readable other held)
    rw [verdictFor, verdictFor, known, known', Option.map_some, Option.map_some, Option.some.injEq,
      Verdict.mk.injEq] at one
    obtain ⟨-, -, witnesses, places⟩ := one
    rw [known, known', witnesses, places]
    exact ⟨rfl, rfl⟩
  · rintro ⟨readable, ties⟩
    obtain ⟨sites, out, run, distinct, named, shown⟩ := verdicts_sites readable
    exact ⟨sites, out, distinct, named, shown, fun order perm =>
      (verdicts_perm perm readable ties).trans run⟩

def plainTexts : Texts where
  repr _ := ""
  isDigit text := (Text.digits text).isSome
  int text := (Text.digits text).map Int.ofNat

def injectionSpec : TaintSpec where
  family := "sql_injection"
  sources := ["request.args"]
  safeShapeSinks := []

def queryRow (line : String) : Json :=
  .obj [("source", .str "request.args"), ("sink", .str "db.query(name)"), ("sinkFile", .str "app.py"),
    ("sinkLine", .str line), ("sinkMethod", .str "search"), ("length", .int 2)]

/-- The same query in two lines: which of them comes first in the verdicts is up to the order of the
rows. -/
theorem queryRows_ordered :
    ¬ Unordered plainTexts injectionSpec "" [queryRow "3", queryRow "7"] := by
  rintro ⟨sites, out, -, -, -, all⟩
  have one := all [queryRow "3", queryRow "7"] (List.Perm.refl _)
  have two := all [queryRow "7", queryRow "3"] (List.Perm.swap _ _ _)
  have apart : verdicts plainTexts injectionSpec "" [queryRow "3", queryRow "7"] ≠
      verdicts plainTexts injectionSpec "" [queryRow "7", queryRow "3"] := by decide +kernel
  exact apart (one.trans two.symm)

end OpenUltraSast.Model.Taint
