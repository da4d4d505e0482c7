import OpenUltraSast.Library.Occurrences
import OpenUltraSast.Search.Demo

/-!
# Private values in expanded texts

The literals of a text and every captured value are checked, each on its own.
-/

namespace OpenUltraSast.Search.Demo

open Values Collections Occurrences List

structure Clean (lang : Language) (nonce text : String) : Prop where
  nonce : ¬ nonce.toList <:+: text.toList
  notPrivate : isPrivate lang.isWord text.toList = false
  expanded : (template text).names = []

def partsOf (captures : Captures) (text : String) : List (List Char) :=
  (template text).parts fun name => ((captures.lookup name).getD "").toList

/-- Nothing private is put together: the nonce is in no literal, and neither it nor a private
reference begins in one part and reaches past its end. -/
structure Unjoined (lang : Language) (nonce : String) (captures : Captures) (text : String) :
    Prop where
  literals : ∀ literal ∈ (template text).literals, ¬ nonce.toList <:+: literal
  nonce : ¬ Crosses nonce.toList.length (nonce.toList.isPrefixOf ·) (partsOf captures text)
  notPrivate : ∀ p ∈ privateTexts,
    ¬ Crosses p.reach (p.matchAt lang.isWord) (partsOf captures text)

theorem referenceAt_eq {text name : List Char} (found : referenceAt text = some name) :
    ∃ rest, text = '$' :: '{' :: (name ++ '}' :: rest) := by
  unfold referenceAt at found
  split at found
  next rest =>
    simp only at found
    split at found
    next closed =>
      cases found
      rw [Bool.and_eq_true, decide_eq_true_eq, List.head?_eq_some_iff] at closed
      obtain ⟨-, after, same⟩ := closed
      refine ⟨after, ?_⟩
      rw [← same, prefix_iff_eq_append.mp ( takeWhile_prefix nameChar)]
    next => cases found
  next => cases found

private theorem sub_cons (name : String) (t : Template) (value : String → List Char) :
    Template.sub ⟨[], (name, t.first) :: t.rest⟩ value = value name ++ t.sub value := by
  simp [Template.sub, Template.parts]

private theorem sub_char (c : Char) (t : Template) (value : String → List Char) :
    Template.sub ⟨c :: t.first, t.rest⟩ value = c :: t.sub value := rfl

private theorem sub_referenceText (covered : Nat) (text : List Char) :
    (splitFrom covered text).sub referenceText = text.drop covered := by
  induction text generalizing covered with
  | nil => simp [splitFrom, Template.sub, Template.parts]
  | cons c text ih =>
    cases covered with
    | succ covered => exact ih covered
    | zero =>
      unfold splitFrom
      split
      next name found =>
        obtain ⟨rest, same⟩ := referenceAt_eq found
        obtain ⟨rfl, rfl⟩ := List.cons.inj same
        simp only
        rw [sub_cons, ih, referenceText, String.toList_ofList]
        simp
      next =>
        simp only
        rw [sub_char, ih, drop_zero, drop_zero]

theorem names_of_plain {text : List Char} (plain : '$' ∉ text) (covered : Nat) :
    (splitFrom covered text).rest = [] := by
  induction text generalizing covered with
  | nil => rfl
  | cons c text ih =>
    rw [mem_cons, not_or] at plain
    cases covered with
    | succ covered => exact ih plain.2 covered
    | zero =>
      unfold splitFrom
      split
      next name found =>
        obtain ⟨rest, same⟩ := referenceAt_eq found
        exact absurd (List.cons.inj same).1.symm plain.1
      next => exact ih plain.2 0

theorem sub_congr {t : Template} {value other : String → List Char}
    (same : ∀ name ∈ t.names, value name = other name) : t.sub value = t.sub other := by
  obtain ⟨first, rest⟩ := t
  simp only [Template.sub, Template.parts, flatten_cons]
  congr 1
  induction rest with
  | nil => rfl
  | cons entry rest ih =>
    obtain ⟨name, literal⟩ := entry
    rw [Template.names, map_cons, forall_mem_cons] at same
    simp only [flatMap_cons, flatten_append]
    rw [same.1, ih same.2]

theorem sub_nothing (t : Template) : (t.sub fun _ => []) = t.literals.flatten := by
  obtain ⟨first, rest⟩ := t
  simp only [Template.sub, Template.parts, Template.literals, flatten_cons]
  congr 1
  induction rest with
  | nil => rfl
  | cons entry rest ih =>
    rw [flatMap_cons, flatten_append, ih]
    simp

private theorem mem_parts {t : Template} {value : String → List Char} {part : List Char}
    (member : part ∈ t.parts value) :
    part ∈ t.literals ∨ ∃ name ∈ t.names, part = value name := by
  rcases mem_cons.mp member with rfl | later
  · exact .inl mem_cons_self
  · obtain ⟨⟨name, literal⟩, among, either⟩ := mem_flatMap.mp later
    rcases mem_cons.mp either with rfl | own
    · exact .inr ⟨name, mem_map_of_mem among, rfl⟩
    · rw [mem_singleton.mp own]
      exact .inl (mem_cons_of_mem _ (mem_map.mpr ⟨_, among, rfl⟩))

private theorem literals_subset_parts (t : Template) (value : String → List Char) :
    t.literals ⊆ t.parts value := by
  intro literal member
  rcases mem_cons.mp member with rfl | later
  · exact mem_cons_self
  · obtain ⟨entry, among, rfl⟩ := mem_map.mp later
    exact mem_cons_of_mem _ (mem_flatMap.mpr ⟨entry, among, by simp⟩)

variable {isWord : Char → Bool}

theorem isPrivate_iff {text : List Char} :
    isPrivate isWord text = true ↔ ∃ p ∈ privateTexts, Occurs (p.matchAt isWord) text := by
  simp only [isPrivate, any_eq_true, mem_tails, Occurs]
  constructor
  · rintro ⟨tail, suffix, p, member, matched⟩
    exact ⟨p, member, tail, suffix, matched⟩
  · rintro ⟨p, member, tail, suffix, matched⟩
    exact ⟨tail, suffix, p, member, matched⟩

theorem notPrivate_iff {text : List Char} :
    isPrivate isWord text = false ↔ ∀ p ∈ privateTexts, ¬ Occurs (p.matchAt isWord) text := by
  rw [← Bool.not_eq_true, isPrivate_iff]
  simp only [not_exists, not_and]

/-- A match looks at its letters, and at the character after them if it has to end there. -/
theorem bounded_matchAt (isWord : Char → Bool) (p : PrivateText) :
    Bounded p.reach (p.matchAt isWord) := by
  intro start rest other long
  unfold PrivateText.reach at long
  have letters : p.letters.length ≤ start.length := by omega
  unfold PrivateText.matchAt
  rw [take_append_of_le_length letters, take_append_of_le_length letters]
  cases ends : p.ends with
  | false => simp
  | true =>
    rw [ends, if_pos rfl] at long
    rw [List.getElem?_append_left (by omega), List.getElem?_append_left (by omega)]

theorem matchAt_nil (isWord : Char → Bool) {p : PrivateText} (member : p ∈ privateTexts) :
    p.matchAt isWord [] = false := by
  have filled : ∀ p ∈ privateTexts, p.letters ≠ [] := by decide
  simp [PrivateText.matchAt, Ne.symm (filled p member)]

variable {message : String}

theorem require_eq_ok_iff {holds : Bool} :
    require holds message = .ok () ↔ holds = true := by
  cases holds <;> simp [require]

theorem require_bind_eq_ok_iff {β : Type} {holds : Bool}
    {f : Unit → Except String β} {out : β} :
    require holds message >>= f = .ok out ↔ holds = true ∧ f () = .ok out := by
  rw [bind_eq_ok_iff]
  constructor
  · rintro ⟨_, first, rest⟩
    exact ⟨require_eq_ok_iff.mp first, rest⟩
  · rintro ⟨first, rest⟩
    exact ⟨(), require_eq_ok_iff.mpr first, rest⟩

/-- The literals of a text are clear of private references when they are joined, and have no `$`. -/
structure Fit (lang : Language) (text : String) : Prop where
  notPrivate : isPrivate lang.isWord (template text).literals.flatten = false
  plain : '$' ∉ (template text).literals.flatten

/-- A captured value gives nothing away on its own. -/
structure Safe (lang : Language) (nonce : String) (value : List Char) : Prop where
  nonce : ¬ nonce.toList <:+: value
  notPrivate : isPrivate lang.isWord value = false
  plain : '$' ∉ value

variable {names : List String} {value : Json} {step : Fields} {maximum : Nat}

theorem checkText_ok {lang : Language} {text : String}
    (checked : checkText lang (.str text) names maximum = .ok ()) :
    Fit lang text ∧ ∀ name ∈ (template text).names, name ∈ names := by
  unfold checkText at checked
  simp only [require_bind_eq_ok_iff, require_eq_ok_iff] at checked
  obtain ⟨-, clear, closed⟩ := checked
  rw [Bool.and_eq_true, all_eq_true] at closed
  have known : ∀ name ∈ (template text).names, name ∈ names :=
    fun name member => of_decide_eq_true (closed.1 name member)
  -- Every reference is known, so the private check reads the literals alone.
  have same : ((template text).sub fun name => if name ∈ names then [] else referenceText name) =
      (template text).literals.flatten := by
    rw [← sub_nothing]
    exact sub_congr fun name member => if_pos (known name member)
  rw [same] at clear
  rw [sub_nothing] at closed
  exact ⟨⟨by simpa using clear, by simpa using closed.2⟩, known⟩

private theorem checkText_alone {lang : Language} {text : String}
    (checked : checkText lang (.str text) [] maximum = .ok ()) :
    isPrivate lang.isWord text.toList = false ∧ '$' ∉ text.toList := by
  obtain ⟨fit, known⟩ := checkText_ok checked
  have same : text.toList = (template text).literals.flatten := by
    rw [← sub_nothing]
    refine (sub_referenceText 0 text.toList).symm.trans (sub_congr fun name member => ?_)
    cases known name member
  rw [same]
  exact ⟨fit.notPrivate, fit.plain⟩

theorem substitute_eq {text out : String} {captures : Captures}
    (expanded : substitute text captures = some out) :
    out.toList = (partsOf captures text).flatten ∧
      ∀ name ∈ (template text).names, ∃ value, captures.lookup name = some value := by
  unfold substitute at expanded
  simp only at expanded
  split at expanded
  next known =>
    split at expanded
    next =>
      rw [← Option.some.inj expanded]
      constructor
      · exact String.toList_ofList
      · intro name member
        exact Option.isSome_iff_exists.mp (all_eq_true.mp known name member)
    next => cases expanded
  next => cases expanded

variable {lang : Language} {nonce text out : String} {captures : Captures}

theorem part_cases (kept : ∀ entry ∈ captures, Safe lang nonce entry.2.toList)
    (expanded : substitute text captures = some out) {part : List Char}
    (member : part ∈ partsOf captures text) :
    part ∈ (template text).literals ∨ Safe lang nonce part := by
  rcases mem_parts member with literal | ⟨name, named, rfl⟩
  · exact .inl literal
  · obtain ⟨value, found⟩ := (substitute_eq expanded).2 name named
    rw [found]
    exact .inr (kept _ (Dicts.mem_of_lookup found))

private theorem plain_expanded (fit : Fit lang text)
    (kept : ∀ entry ∈ captures, Safe lang nonce entry.2.toList)
    (expanded : substitute text captures = some out) : '$' ∉ out.toList := by
  rw [(substitute_eq expanded).1, mem_flatten]
  rintro ⟨part, member, sign⟩
  rcases part_cases kept expanded member with literal | safe
  · exact fit.plain (mem_flatten.mpr ⟨part, literal, sign⟩)
  · exact safe.plain sign

theorem nonce_expanded_iff (kept : ∀ entry ∈ captures, Safe lang nonce entry.2.toList)
    (expanded : substitute text captures = some out) :
    ¬ nonce.toList <:+: out.toList ↔
      (∀ literal ∈ (template text).literals, ¬ nonce.toList <:+: literal) ∧
      ¬ Crosses nonce.toList.length (nonce.toList.isPrefixOf ·) (partsOf captures text) := by
  rw [(substitute_eq expanded).1]
  by_cases empty : nonce.toList = []
  · -- The empty text is everywhere.
    rw [empty]
    constructor
    · exact fun clear => absurd ( nil_infix) clear
    · exact fun clear => absurd ( nil_infix) (clear.1 _ mem_cons_self)
  · have needs : nonce.toList.isPrefixOf [] = false := by
      rw [← Bool.not_eq_true, isPrefixOf_iff_prefix, prefix_nil]
      exact empty
    rw [← occurs_isPrefixOf_iff, occurs_flatten_iff (bounded_isPrefixOf _) needs, not_or]
    apply and_congr_left
    intro _
    simp only [within_isPrefixOf_iff, not_exists, not_and]
    constructor
    · exact fun clear literal member => clear literal (literals_subset_parts _ _ member)
    · intro clear part member
      rcases part_cases kept expanded member with literal | safe
      · exact clear part literal
      · exact safe.nonce

theorem private_expanded_iff (fit : Fit lang text)
    (kept : ∀ entry ∈ captures, Safe lang nonce entry.2.toList)
    (expanded : substitute text captures = some out) :
    isPrivate lang.isWord out.toList = false ↔
      ∀ p ∈ privateTexts, ¬ Crosses p.reach (p.matchAt lang.isWord) (partsOf captures text) := by
  rw [(substitute_eq expanded).1, notPrivate_iff]
  apply forall₂_congr
  intro p member
  rw [occurs_flatten_iff (bounded_matchAt lang.isWord p) (matchAt_nil lang.isWord member), not_or]
  apply and_iff_right
  rintro ⟨part, among, within⟩
  have bounded := bounded_matchAt lang.isWord p
  rcases part_cases kept expanded among with literal | safe
  · obtain ⟨front, back, joined⟩ := append_of_mem literal
    have found := within.occurs bounded front.flatten back.flatten
    apply notPrivate_iff.mp fit.notPrivate p member
    rwa [joined, flatten_append, flatten_cons, ← append_assoc]
  · apply notPrivate_iff.mp safe.notPrivate p member
    simpa using within.occurs bounded [] []

/-- An expanded text is clean exactly where its parts do not join to the nonce or a private text. -/
theorem clean_iff (fit : Fit lang text)
    (kept : ∀ entry ∈ captures, Safe lang nonce entry.2.toList)
    (expanded : substitute text captures = some out) :
    Clean lang nonce out ↔ Unjoined lang nonce captures text := by
  have nonceIff := nonce_expanded_iff kept expanded
  have privateIff := private_expanded_iff fit kept expanded
  constructor
  · intro clean
    obtain ⟨literals, across⟩ := nonceIff.mp clean.nonce
    exact ⟨literals, across, privateIff.mp clean.notPrivate⟩
  · intro unjoined
    refine ⟨nonceIff.mpr ⟨unjoined.literals, unjoined.nonce⟩, privateIff.mpr unjoined.notPrivate, ?_⟩
    rw [Template.names, template, names_of_plain (plain_expanded fit kept expanded) 0]
    rfl

theorem eq_str_of_isStr {text : String} (is : isStr value text = true) : value = .str text := by
  cases value with
  | str own => exact congrArg Json.str (of_decide_eq_true is)
  | _ => cases is

theorem eq_str_of_same {text : String} (same : value.same (.str text) = true) : value = .str text := by
  cases value with
  | str own => exact congrArg Json.str (of_decide_eq_true same)
  | _ => simp [Json.same, Json.number] at same

private theorem checkText_strOf (checked : checkText lang value names maximum = .ok ()) :
    checkText lang (.str (strOf value)) names maximum = .ok () := by
  cases value with
  | str own => exact checked
  | _ => cases checked

theorem fit_of_checkText (checked : checkText lang value names maximum = .ok ()) :
    Fit lang (strOf value) :=
  (checkText_ok (checkText_strOf checked)).1

private theorem fit_arguments (checked : checkArguments lang value names = .ok ()) :
    ∀ text ∈ strsOf value, Fit lang text := by
  intro text member
  cases value with
  | arr items =>
    obtain ⟨item, among, rfl⟩ := mem_map.mp member
    unfold checkArguments at checked
    simp only at checked
    split at checked
    next => exact fit_of_checkText (forM_eq_ok_iff.mp checked item among)
    next => cases checked
  | _ => cases member

theorem checkMap_ok {fields entries : Fields} {key : String} {most : Nat}
    (checked : checkMap fields key most message = .ok entries) :
    (fields.lookup key).getD (.obj []) = .obj entries := by
  unfold checkMap at checked
  split at checked
  next absent =>
    cases checked
    rw [absent]
    rfl
  next own found =>
    split at checked
    next =>
      cases checked
      rw [found]
      rfl
    next => cases checked
  next => cases checked

theorem checkHeader_ok {header : String × Json} (checked : checkHeader lang names header = .ok ()) :
    isHeaderName header.1 = true ∧ Fit lang (strOf header.2) := by
  obtain ⟨key, value⟩ := header
  unfold checkHeader at checked
  simp only [bind_eq_ok_iff] at checked
  obtain ⟨⟨⟩, key, ⟨⟩, text, -⟩ := checked
  rw [require_eq_ok_iff, Bool.and_eq_true] at key
  exact ⟨key.1, fit_of_checkText text⟩

structure Accepted (lang : Language) (step : Fields) : Prop where
  texts : ∀ text ∈ stepTexts step, Fit lang text
  headers : ∀ name ∈ headerNames step, isHeaderName name = true

private theorem accepted_cli (type_ : Json.field step "type" = .str "cli")
    (checked : checkCli lang names step = .ok ()) : Accepted lang step := by
  have cli : isStr (Json.field step "type") "cli" = true := by
    rw [type_]
    rfl
  unfold checkCli at checked
  simp only [bind_eq_ok_iff] at checked
  obtain ⟨-, -, ⟨⟩, arguments, stdin⟩ := checked
  constructor
  · intro text member
    rw [stepTexts, if_pos cli] at member
    rcases mem_append.mp member with argument | own
    · exact fit_arguments arguments text argument
    · rw [mem_singleton.mp own]
      exact fit_of_checkText stdin
  · intro name member
    rw [headerNames, if_pos cli] at member
    cases member

private theorem accepted_http (type_ : Json.field step "type" = .str "http")
    (checked : checkHttp lang names step = .ok ()) : Accepted lang step := by
  have http : ¬ isStr (Json.field step "type") "cli" = true := by
    rw [type_]
    decide
  unfold checkHttp at checked
  simp only [bind_eq_ok_iff] at checked
  obtain ⟨-, -, -, -, ⟨⟩, path, -, -, entries, map, ⟨⟩, headers, body⟩ := checked
  have each := forM_eq_ok_iff.mp headers
  constructor
  · intro text member
    rw [stepTexts, if_neg http, checkMap_ok map] at member
    rcases mem_cons.mp member with rfl | later
    · exact fit_of_checkText path
    · rcases mem_append.mp later with header | own
      · obtain ⟨entry, among, rfl⟩ := mem_map.mp header
        exact (checkHeader_ok (each entry among)).2
      · rw [mem_singleton.mp own]
        exact fit_of_checkText body
  · intro name member
    rw [headerNames, if_neg http, checkMap_ok map] at member
    obtain ⟨entry, among, rfl⟩ := mem_map.mp member
    exact (checkHeader_ok (each entry among)).1

private theorem accepted_of_checkStep {mode : Json} {after : List String}
    (modes : isOneOf mode ["http", "cli"] = true)
    (checked : checkStep lang mode names (.obj step) = .ok after) : Accepted lang step := by
  unfold checkStep at checked
  simp only [bind_eq_ok_iff] at checked
  obtain ⟨⟨⟩, same, branch⟩ := checked
  rw [require_eq_ok_iff] at same
  rw [isOneOf, any_cons, any_cons, any_nil, Bool.or_false, Bool.or_eq_true] at modes
  rcases modes with http | cli
  · have is := eq_str_of_isStr http
    subst is
    rw [if_neg (by decide), bind_eq_ok_iff] at branch
    obtain ⟨⟨⟩, own, -⟩ := branch
    exact accepted_http (eq_str_of_same same) own
  · have is := eq_str_of_isStr cli
    subst is
    rw [if_pos (by decide), bind_eq_ok_iff] at branch
    obtain ⟨⟨⟩, own, -⟩ := branch
    exact accepted_cli (eq_str_of_same same) own

private theorem checkKeys_ok {required optional : List String} {fields : Fields}
    (checked : checkKeys value required optional = .ok fields) : value = .obj fields := by
  unfold checkKeys at checked
  split at checked
  next =>
    split at checked
    next =>
      cases checked
      rfl
    next => cases checked
  next => cases checked

private theorem mode_of_checkStart {start : Fields} {placeholders : List String}
    (checked : checkStart lang start placeholders = .ok ()) :
    isOneOf (Json.field start "mode") ["http", "cli"] = true := by
  unfold checkStart at checked
  simp only [bind_eq_ok_iff] at checked
  obtain ⟨-, -, -, -, -, -, -, -, -, -, ⟨⟩, mode, -⟩ := checked
  exact require_eq_ok_iff.mp mode

private theorem accepted_steps {project : Option (String → String → Bool)} {demo : Json}
    (valid : validateDemo lang project value = .ok demo) (member : Json.obj step ∈ stepsOf demo) :
    Accepted lang step := by
  unfold validateDemo at valid
  simp only [bind_eq_ok_iff] at valid
  obtain ⟨-, -, fields, keys, -, -, -, -, start, -, -, -, -, -, ⟨⟩, checked, _, steps, ⟨⟩⟩ := valid
  rw [checkKeys_ok keys] at member
  unfold stepsOf at member
  unfold checkSteps at steps
  split at steps
  next items found =>
    simp only [found] at member
    split at steps
    next =>
      obtain ⟨before, after, own⟩ := exists_of_foldlM_ok steps _ member
      exact accepted_of_checkStep (mode_of_checkStart checked) own
    next => cases steps
  next => cases steps

theorem contains_iff {whole part : String} :
    Text.contains whole part = true ↔ part.toList <:+: whole.toList := by
  rw [← occurs_isPrefixOf_iff, Text.contains, any_eq_true]
  simp only [mem_tails, Occurs]

theorem isOk_iff {result : Except String Unit} : result.isOk = true ↔ result = .ok () := by
  cases result with
  | error =>
    constructor
    · intro failed
      cases failed
    · intro failed
      cases failed
  | ok => exact ⟨fun _ => rfl, fun _ => rfl⟩

private theorem safe_captureOutput {output : String} {after : Captures}
    (kept : ∀ entry ∈ captures, Safe lang nonce entry.2.toList)
    (captured : captureOutput lang step output captures nonce = some after) :
    ∀ entry ∈ after, Safe lang nonce entry.2.toList := by
  unfold captureOutput at captured
  split at captured
  next =>
    cases captured
    exact kept
  next spec _ =>
    obtain ⟨value, -, checked⟩ := Option.bind_eq_some_iff.mp captured
    split at checked
    next => cases checked
    next clear =>
      split at checked
      next fits =>
        cases checked
        intro entry member
        rcases Dicts.mem_set member with rfl | older
        · obtain ⟨notPrivate, plain⟩ := checkText_alone (isOk_iff.mp fits)
          exact ⟨fun shown => clear (contains_iff.mpr shown), notPrivate, plain⟩
        · exact kept entry older
      next => cases checked
  next => cases captured

theorem reached_of_runSteps {steps : List Json} {outputs : List String} {reached : Reached}
    (kept : ∀ entry ∈ captures, Safe lang nonce entry.2.toList)
    (member : reached ∈ runSteps lang nonce captures steps outputs) :
    (∀ entry ∈ reached.captures, Safe lang nonce entry.2.toList) ∧
      Json.obj reached.step ∈ steps ∧
      expandStep reached.step reached.captures = some reached.texts := by
  induction steps generalizing captures outputs with
  | nil =>
    rw [runSteps] at member
    · cases member
    · intro _ _ empty
      cases empty
  | cons first steps ih =>
    unfold runSteps at member
    split at member
    next step steps outputs same =>
      cases same
      split at member
      next => cases member
      next texts expanded =>
        rcases mem_cons.mp member with rfl | later
        · exact ⟨kept, mem_cons_self, expanded⟩
        · -- The rest of the run starts with one more safe capture, if any.
          split at later
          next => cases later
          next output outputs =>
            split at later
            next => cases later
            next after captured =>
              obtain ⟨safe, among, place⟩ := ih (safe_captureOutput kept captured) later
              exact ⟨safe, mem_cons_of_mem _ among, place⟩
    next => cases member

theorem texts_of_expandStep {texts : List String} (expanded : expandStep step captures = some texts) :
    List.Forall₂ (fun text out => substitute text captures = some out) (stepTexts step) texts := by
  unfold expandStep at expanded
  obtain ⟨out, each, given⟩ := Option.bind_eq_some_iff.mp expanded
  have same : out = texts := by
    split at given
    next => exact Option.some.inj given
    next =>
      split at given
      next => exact Option.some.inj given
      next => cases given
  exact same ▸ mapM_eq_some_iff.mp each

theorem toNat_headerChar {c : Char} (named : (c.isAlphanum || c = '-') = true) : c.toNat < 128 := by
  have below {bound : UInt32} (le : c.val ≤ bound) (small : bound.toNat < 128) : c.toNat < 128 :=
    lt_of_le_of_lt (UInt32.le_iff_toNat_le.mp le) small
  rcases Bool.or_eq_true_iff.mp named with letter | dash
  · rcases Bool.or_eq_true_iff.mp (show (c.isAlpha || c.isDigit) = true from letter) with
      letter | digit
    · rcases Bool.or_eq_true_iff.mp (show (c.isUpper || c.isLower) = true from letter) with
        upper | lower
      · exact below (of_decide_eq_true upper).2 (by decide)
      · exact below (of_decide_eq_true (Bool.and_eq_true_iff.mp lower).2) (by decide)
    · exact below (of_decide_eq_true (Bool.and_eq_true_iff.mp digit).2) (by decide)
  · rw [of_decide_eq_true dash]
    decide

private theorem fold_headerChar {c : Char} (named : (c.isAlphanum || c = '-') = true) :
    fold c ≠ '/' ∧ fold c ≠ '_' := by
  have each : ∀ n : Fin 128, ((Char.ofNat n).isAlphanum || Char.ofNat n = '-') = true →
      fold (Char.ofNat n) ≠ '/' ∧ fold (Char.ofNat n) ≠ '_' := by decide +kernel
  have own := each ⟨c.toNat, toNat_headerChar named⟩
  rw [Char.ofNat_toNat] at own
  exact own named

private theorem isPrivate_headerName (isWord : Char → Bool) {name : String}
    (named : isHeaderName name = true) :
    isPrivate isWord name.toList = true ↔ "database".toList <:+: name.toList.map fold := by
  rw [isPrivate_iff]
  constructor
  · rintro ⟨p, member, tail, suffix, matched⟩
    rw [PrivateText.matchAt, Bool.and_eq_true, decide_eq_true_eq] at matched
    have kinds : ∀ p ∈ privateTexts,
        p.letters = "database".toList ∨ '/' ∈ p.letters ∨ '_' ∈ p.letters := by decide
    have chars : ∀ c ∈ p.letters, c ≠ '/' ∧ c ≠ '_' := by
      rw [← matched.1]
      intro c folded
      obtain ⟨d, among, rfl⟩ := mem_map.mp folded
      unfold isHeaderName at named
      rw [Bool.and_eq_true, all_eq_true] at named
      exact fold_headerChar (named.2 d (suffix.subset (mem_of_mem_take among)))
    rcases kinds p member with database | slash | line
    · rw [← database, ← matched.1]
      exact (( take_prefix _ tail).isInfix.trans suffix.isInfix).map fold
    · exact absurd rfl (chars _ slash).1
    · exact absurd rfl (chars _ line).2
  · rintro ⟨before, after, same⟩
    rw [append_assoc] at same
    obtain ⟨front, tail, whole, -, folded⟩ := map_eq_append_iff.mp same.symm
    have listed : ∃ p ∈ privateTexts, p.letters = "database".toList ∧ p.ends = false := by decide
    obtain ⟨p, member, database, ends⟩ := listed
    refine ⟨p, member, tail, ⟨front, whole.symm⟩, ?_⟩
    have letters : (tail.take p.letters.length).map fold = p.letters := by
      rw [map_take, folded, ← database, take_left]
    rw [PrivateText.matchAt, decide_eq_true letters, ends]
    rfl

/-- What a step is run with, and the names of its headers, are clean. -/
def CleanStep (lang : Language) (nonce : String) (reached : Reached) : Prop :=
  (∀ out ∈ reached.texts, Clean lang nonce out) ∧
    ∀ name ∈ headerNames reached.step, Clean lang nonce name

/-- Nothing private is put together in a step, and no header is named after it. -/
def UnjoinedStep (lang : Language) (nonce : String) (reached : Reached) : Prop :=
  (∀ text ∈ stepTexts reached.step, Unjoined lang nonce reached.captures text) ∧
    ∀ name ∈ headerNames reached.step,
      ¬ nonce.toList <:+: name.toList ∧ ¬ "database".toList <:+: name.toList.map fold

theorem clean_headerName_iff {name : String} (named : isHeaderName name = true) :
    Clean lang nonce name ↔
      ¬ nonce.toList <:+: name.toList ∧ ¬ "database".toList <:+: name.toList.map fold := by
  rw [← isPrivate_headerName lang.isWord named, Bool.not_eq_true]
  constructor
  · exact fun clean => ⟨clean.nonce, clean.notPrivate⟩
  · rintro ⟨clear, notPrivate⟩
    refine ⟨clear, notPrivate, ?_⟩
    have plain : '$' ∉ name.toList := by
      unfold isHeaderName at named
      rw [Bool.and_eq_true, all_eq_true] at named
      exact fun sign => absurd (named.2 _ sign) (by decide)
    rw [Template.names, template, names_of_plain plain 0]
    rfl

/-- In every run of a demonstration that is accepted, a step is reached with clean texts exactly if
nothing private is put together in it. -/
theorem demo_clean_iff {project : Option (String → String → Bool)} {value demo : Json}
    (valid : validateDemo lang project value = .ok demo) (nonce : String)
    (outputs : List String) :
    ∀ reached ∈ runSteps lang nonce [] (stepsOf demo) outputs,
      CleanStep lang nonce reached ↔ UnjoinedStep lang nonce reached := by
  intro reached member
  have nothing : ∀ entry ∈ ([] : Captures), Safe lang nonce entry.2.toList := by simp
  obtain ⟨kept, among, expanded⟩ := reached_of_runSteps nothing member
  have accepted := accepted_steps valid among
  have each := texts_of_expandStep expanded
  apply and_congr
  · constructor
    · intro clean text own
      obtain ⟨out, given, substituted⟩ := exists_right_of_forall₂ each own
      exact (clean_iff (accepted.texts text own) kept substituted).mp (clean out given)
    · intro unjoined out given
      obtain ⟨text, own, substituted⟩ := exists_left_of_forall₂ each given
      exact (clean_iff (accepted.texts text own) kept substituted).mpr (unjoined text own)
  · exact forall₂_congr fun name own => clean_headerName_iff (accepted.headers name own)

def plainLanguage : Language where
  size _ := some 376
  dumps _ := none
  loads _ := none
  isWord c := c.isAlphanum || c = '_'

def captureStep (argument name : String) : Json :=
  .obj [("type", .str "cli"), ("arguments", .arr [.str argument]),
    ("capture", .obj [("name", .str name), ("source", .str "output")])]

def joiningDemo : Json :=
  .obj [("oracle", .str "path"), ("build", .obj [("recipe", .str "none"), ("arguments", .arr [])]),
    ("start", .obj [("runtime", .str "python"), ("path", .str "app.py"), ("arguments", .arr []),
      ("mode", .str "cli")]),
    ("steps", .arr [captureStep "first" "x", captureStep "second" "y",
      .obj [("type", .str "cli"), ("arguments", .arr [.str "$\x7bx\x7d$\x7by\x7d"])]])]

def firstHalf : String := "0123456789abcdef01234567"

def secondHalf : String := "89abcdef0123456789abcdef"

theorem joiningDemo_valid : validateDemo plainLanguage none joiningDemo = .ok joiningDemo := by
  decide +kernel

theorem joining_reached :
    ∃ reached ∈ runSteps plainLanguage (firstHalf ++ secondHalf) [] (stepsOf joiningDemo)
      [firstHalf, secondHalf], reached.texts = [firstHalf ++ secondHalf, ""] := by
  have texts : [["first", ""], ["second", ""], [firstHalf ++ secondHalf, ""]] =
      (runSteps plainLanguage (firstHalf ++ secondHalf) [] (stepsOf joiningDemo)
        [firstHalf, secondHalf]).map (·.texts) := by decide +kernel
  have last : [firstHalf ++ secondHalf, ""] ∈ (runSteps plainLanguage (firstHalf ++ secondHalf) []
      (stepsOf joiningDemo) [firstHalf, secondHalf]).map (·.texts) := by
    rw [← texts]
    simp
  exact mem_map.mp last

/-- An application that reads the nonce can print its halves, and gets the whole as an argument. -/
theorem joined_nonce_not_clean :
    validateDemo plainLanguage none joiningDemo = .ok joiningDemo ∧
    ∃ reached ∈ runSteps plainLanguage (firstHalf ++ secondHalf) [] (stepsOf joiningDemo)
      [firstHalf, secondHalf], ¬ CleanStep plainLanguage (firstHalf ++ secondHalf) reached := by
  obtain ⟨reached, member, texts⟩ := joining_reached
  refine ⟨joiningDemo_valid, reached, member, fun clean => ?_⟩
  exact (clean.1 (firstHalf ++ secondHalf) (texts ▸ mem_cons_self)).nonce (infix_refl _)

theorem demo_clean_iff_joining :
    ∃ reached ∈ runSteps plainLanguage (firstHalf ++ secondHalf) [] (stepsOf joiningDemo)
      [firstHalf, secondHalf], reached.texts = [firstHalf ++ secondHalf, ""] ∧
      (CleanStep plainLanguage (firstHalf ++ secondHalf) reached ↔
        UnjoinedStep plainLanguage (firstHalf ++ secondHalf) reached) := by
  obtain ⟨reached, member, texts⟩ := joining_reached
  exact ⟨reached, member, texts, demo_clean_iff joiningDemo_valid (firstHalf ++ secondHalf)
    [firstHalf, secondHalf] reached member⟩

end OpenUltraSast.Search.Demo
