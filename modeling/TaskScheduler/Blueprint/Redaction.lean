import TaskScheduler.Library.Digits
import TaskScheduler.Blueprint.Noninterference

namespace Scheduler

namespace Json

-- The index that `pointer_mut` reads in a segment when it is at an array.
def parseIndex (token : String) : Option Nat :=
  if token.toList = [] || !token.toList.all Char.isDigit ||
    (token.toList.head? = some '0' && token.toList.length ≠ 1) then
    none
  else
    some (Digits.value token.toList) |>.filter (· < 2 ^ 64)

-- `*value = …` for the value that the segments lead to, if there is one.
def assign (new : Json) : (tokens : List String) → (value : Json) → Json
  | [], _                         => new
  | token :: tokens, array items  =>
    match parseIndex token with
    | none   => array items
    | some i => array (items.modify i (assign new tokens))
  | token :: tokens, object members =>
    object <| members.map fun e => (e.1, if e.1 = token then assign new tokens e.2 else e.2)
  | _, value                      => value

end Json

namespace Blueprints

open Fallible

namespace Redaction

def replacePair (a b c : Char) : List Char → List Char
  | x :: y :: rest =>
    if x = a ∧ y = b then c :: replacePair a b c rest else x :: replacePair a b c (y :: rest)
  | text => text

-- The segments of a JSON pointer.
def tokens (path : String) : Option (List String) :=
  if path = "" then
    some []
  else if path.toList.head? ≠ some '/' then
    none
  else
    some <| (path.toList.splitOn '/').tail.map fun token =>
      String.ofList <| replacePair '~' '0' '~' <| replacePair '~' '1' '/' token

structure ParameterVisibility where
  sensitivePaths : List String
  bindings       : BTreeMap ParameterBinding

def placeholder (binding : ParameterBinding) (debug : Bool) : Json :=
  .string <|
    if binding.sensitive then
      if debug then "<agent-local secret is not persisted by the coordinator>"
      else "<redacted: agent-local secret>"
    else "<agent-local value is not persisted by the coordinator>"

-- `or_insert_with` for every binding.
def addBindings (bindings : BTreeMap ParameterBinding) (debug : Bool) : Json → Json
  | .object members => .object <| members ++ bindings.entries.filterMap fun (name, binding) =>
      if members.any (·.1 = name) then none else some (name, placeholder binding debug)
  | value           => value

def redacted : Json :=
  .string "<redacted: enable debug mode to reveal>"

def redact (displayed : Json) (path : String) : Json :=
  match tokens path with
  | none        => displayed
  | some tokens => Json.assign redacted tokens displayed

def parameterDocument (parameters : Json) (visibility : ParameterVisibility) (debug : Bool) :
    Json :=
  let displayed := addBindings visibility.bindings debug parameters
  if debug then displayed else visibility.sensitivePaths.foldl redact displayed

end Redaction

namespace Schema

open Sensitive

def isWriteOnly (schema : Json) : Bool :=
  schema.get? "writeOnly" matches some (.bool true)

-- The subschemas for a member of an object and for the items of an array.
def property? (schema : Json) (name : String) : Option Json :=
  (schema.get? "properties").bind (·.get? name)

def items? (schema : Json) : Option Json :=
  schema.get? "items"

mutual

-- The document without the values that are governed by a subschema annotated `writeOnly`.
def mask (schema : Option Json) : (document : Json) → Json
  | .array items    =>
    if schema.any isWriteOnly then .null else .array (maskItems (schema.bind items?) items)
  | .object members =>
    if schema.any isWriteOnly then .null else .object (maskMembers schema members)
  | value           => if schema.any isWriteOnly then .null else value

def maskItems (schema : Option Json) : (items : List Json) → List Json
  | []            => []
  | value :: rest => mask schema value :: maskItems schema rest

def maskMembers (schema : Option Json) : (members : List (String × Json)) → List (String × Json)
  | []                    => []
  | (name, value) :: rest =>
    (name, mask (schema.bind (property? · name)) value) :: maskMembers schema rest

end

-- A value somewhere in the schema is annotated.
inductive HasSecret : (schema : Json) → Prop
  | here {schema} (h : isWriteOnly schema) : HasSecret schema
  | property {schema name sub} (hs : property? schema name = some sub) (h : HasSecret sub) :
    HasSecret schema
  | item {schema sub} (hs : items? schema = some sub) (h : HasSecret sub) : HasSecret schema

-- The value of the property is redacted as a whole.
def hides (name : String) (schema : Json) : Bool :=
  annotated schema || sensitiveName name

-- An annotated value is in an array, and no property on the way to the array is redacted.
inductive Exposes : (schema : Json) → Prop
  | item {schema sub} (hs : items? schema = some sub) (h : HasSecret sub) : Exposes schema
  | property {schema name sub} (hs : property? schema name = some sub)
    (hn : hides name sub = false) (h : Exposes sub) : Exposes schema

-- What a redaction of the collected paths has to cover. An annotated root has no path, which leaves
-- all its properties to the paths of sensitive bindings.
structure Covered (schema : Json) (bindings : BTreeMap ParameterBinding) : Prop where
  root     : ¬isWriteOnly schema
  items    : ∀ sub, items? schema = some sub → ¬HasSecret sub
  property : ∀ name sub, property? schema name = some sub → ¬IsSensitive bindings name →
    if annotated schema then ¬HasSecret sub else hides name sub ∨ ¬Exposes sub

end Schema

namespace Redaction

open Sensitive Schema

-- The pointer to the value that the names lead to.
def pointerTo (names : List String) : List Char :=
  names.flatMap fun name => '/' :: escapePointerSegment name

variable {name : String} {names : List String}

theorem replacePair_cons {a b c x : Char} {text : List Char} (h : x ≠ a) :
    replacePair a b c (x :: text) = x :: replacePair a b c text := by
  cases text <;> simp [replacePair, h]

theorem replaceChar_cons {c d : Char} {replacement text : List Char} :
    replaceChar c replacement (d :: text) =
      (if d = c then replacement else [d]) ++ replaceChar c replacement text := by
  simp [replaceChar]

theorem unescape_escape : String.ofList (replacePair '~' '0' '~' <| replacePair '~' '1' '/' <|
    escapePointerSegment name) = name := by
  have h₁ {text : List Char} : replacePair '~' '1' '/' (replaceChar '/' ['~', '1'] <|
      replaceChar '~' ['~', '0'] text) = replaceChar '~' ['~', '0'] text := by
    induction text
    case nil => rfl
    case cons c text hi =>
      by_cases hc : c = '~'
      case pos =>
        simp [hc, replaceChar_cons, replacePair, replacePair_cons, hi]
      case neg =>
        by_cases hd : c = '/'
        case pos => simp [hd, replaceChar_cons, replacePair, hi]
        case neg => simp [hc, hd, replaceChar_cons, replacePair_cons hc, hi]
  have h₂ {text : List Char} :
      replacePair '~' '0' '~' (replaceChar '~' ['~', '0'] text) = text := by
    induction text
    case nil => rfl
    case cons c text hi =>
      by_cases hc : c = '~'
      case pos => simp [hc, replaceChar_cons, replacePair, hi]
      case neg => simp [hc, replaceChar_cons, replacePair_cons hc, hi]
  rw [escapePointerSegment, h₁, h₂, String.ofList_toList]

theorem slash_notMem_escape : '/' ∉ escapePointerSegment name := by
  unfold escapePointerSegment
  induction replaceChar '~' ['~', '0'] name.toList
  case nil => simp [replaceChar]
  case cons c text hi =>
    rw [replaceChar_cons, List.mem_append, not_or]
    refine ⟨?_, hi⟩
    split
    case isTrue => decide
    case isFalse h => simpa [eq_comm] using h

theorem splitOn_pointerTo {text : List Char} (h : '/' ∉ text) :
    (text ++ pointerTo names).splitOn '/' = text :: names.map escapePointerSegment := by
  induction names generalizing text
  case nil => simp [pointerTo, List.splitOn_eq_singleton h]
  case cons name names hi =>
    rw [pointerTo, List.flatMap_cons, List.cons_append, List.splitOn_append_cons_self,
      List.splitOn_eq_singleton h]
    exact congrArg (text :: ·) (hi slash_notMem_escape)

theorem tokens_pointerTo : tokens (String.ofList (pointerTo names)) = some names := by
  cases names
  case nil => rfl
  case cons name names =>
    have hs : (pointerTo (name :: names)).splitOn '/' =
        [] :: (name :: names).map escapePointerSegment := by
      rw [← splitOn_pointerTo List.not_mem_nil, List.nil_append]
    have hh : (pointerTo (name :: names)).head? = some '/' := rfl
    have he : String.ofList (pointerTo (name :: names)) ≠ "" := by
      simp [pointerTo]
    rw [tokens, if_neg he, String.toList_ofList, if_neg (by simp [hh]), hs, List.tail_cons,
      List.map_map]
    exact congrArg some <| (List.map_congr_left fun _ _ => unescape_escape).trans <| List.map_id _

-- The names lead to a value that is redacted as a whole, and no value above it is.
inductive Collects : (schema : Json) → (names : List String) → Prop
  | here {schema name sub} (hs : property? schema name = some sub) (h : hides name sub) :
    Collects schema [name]
  | under {schema name sub names} (hs : property? schema name = some sub)
    (hn : hides name sub = false) (h : Collects sub names) : Collects schema (name :: names)

variable {schema sub : Json} {bindings : BTreeMap ParameterBinding}

theorem Collects.of_cons (h : Collects schema (name :: names))
    (hs : property? schema name = some sub) (hn : hides name sub = false) : Collects sub names := by
  cases h
  case here hh ht =>
    cases hs.symm.trans ht
    exact nomatch hn.symm.trans hh
  case under hh ht hc =>
    cases hs.symm.trans ht
    exact hc

theorem mem_properties : (name, sub) ∈ properties schema ↔ property? schema name = some sub := by
  unfold properties property?
  split
  case h_1 members h =>
    rw [h]
    exact Json.mem_entries
  case h_2 h =>
    cases hg : schema.get? "properties"
    case none => simp
    case some value =>
      cases value
      case object members => exact absurd hg (h members)
      all_goals simp [Json.get?]

theorem pointerTo_cons :
    pointerTo (name :: names) = '/' :: escapePointerSegment name ++ pointerTo names :=
  rfl

theorem mem_collect {path p : List Char} {name : Option String} : p ∈ collect schema path name ↔
    if annotated schema || name.any sensitiveName then path ≠ [] ∧ p = path
    else ∃ names, Collects schema names ∧ p = path ++ pointerTo names := by
  fun_induction collect schema path name
  case case1 h hp => simp [h, List.isEmpty_iff.mp hp]
  case case2 h hp =>
    rw [List.isEmpty_iff] at hp
    simp [h, hp]
  case case3 schema path name h hi =>
    rw [if_neg h]
    simp only [List.mem_flatMap, List.mem_attach, true_and, Subtype.exists, Prod.exists]
    constructor
    case mp =>
      rintro ⟨child, sub, hm, hp⟩
      have hs := mem_properties.mp hm
      have hp := (hi child sub hm).mp hp
      split at hp
      case isTrue hh => exact ⟨[child], .here hs hh, by simp [pointerTo, hp.2]⟩
      case isFalse hh =>
        have ⟨names, hc, hp⟩ := hp
        refine ⟨child :: names, .under hs (by simpa [hides] using hh) hc, ?_⟩
        rw [hp, pointerTo_cons]
        simp
    case mpr =>
      rintro ⟨_, hc, hp⟩
      cases hc
      case here child sub hh hs =>
        have hm := mem_properties.mpr hs
        refine ⟨child, sub, hm, (hi child sub hm).mpr ?_⟩
        have hh : (annotated sub || (some child).any sensitiveName) = true := by
          simpa [hides] using hh
        rw [if_pos hh, hp]
        simp [pointerTo]
      case under child sub names hn hc hs =>
        have hm := mem_properties.mpr hs
        refine ⟨child, sub, hm, (hi child sub hm).mpr ?_⟩
        have hn : ¬(annotated sub || (some child).any sensitiveName) = true := by
          simpa [hides] using hn
        rw [if_neg hn, hp]
        exact ⟨names, hc, by simp [pointerTo_cons]⟩

theorem mem_sensitivePaths {path : String} : path ∈ sensitiveParameterPaths schema bindings ↔
    ∃ names, path = String.ofList (pointerTo names) ∧
      (annotated schema = false ∧ Collects schema names ∨
        ∃ name, IsSensitive bindings name ∧ names = [name]) := by
  simp only [sensitiveParameterPaths, List.mem_dedup, List.mem_insertionSort, List.mem_map,
    List.mem_append, mem_collect, List.mem_filter, Option.any_none, Bool.or_false]
  constructor
  case mp =>
    rintro ⟨p, h, rfl⟩
    cases h
    case inl h =>
      split at h
      case isTrue => exact absurd rfl h.1
      case isFalse ha =>
        have ⟨names, hc, hp⟩ := h
        exact ⟨names, congrArg _ hp, .inl ⟨by simpa using ha, hc⟩⟩
    case inr h =>
      have ⟨e, ⟨hm, hs⟩, hp⟩ := h
      exact ⟨[e.1], by simp [← hp, pointerTo], .inr ⟨e.1, ⟨e.2, hm, hs⟩, rfl⟩⟩
  case mpr =>
    rintro ⟨names, rfl, h⟩
    refine ⟨_, ?_, rfl⟩
    cases h
    case inl h =>
      left
      simp only [h.1, Bool.false_eq_true, if_false]
      exact ⟨names, h.2, rfl⟩
    case inr h =>
      have ⟨name, ⟨binding, hm, hs⟩, hn⟩ := h
      right
      exact ⟨(name, binding), ⟨hm, hs⟩, by simp [hn, pointerTo]⟩

-- The pointers of the redaction, as names.
def sensitiveTokens (schema : Json) (bindings : BTreeMap ParameterBinding) : List (List String) :=
  (sensitiveParameterPaths schema bindings).filterMap tokens

theorem mem_sensitiveTokens : names ∈ sensitiveTokens schema bindings ↔
    annotated schema = false ∧ Collects schema names ∨
      ∃ name, IsSensitive bindings name ∧ names = [name] := by
  simp only [sensitiveTokens, List.mem_filterMap, mem_sensitivePaths]
  constructor
  case mp =>
    rintro ⟨_, ⟨names', rfl, h⟩, ht⟩
    rw [tokens_pointerTo] at ht
    cases ht
    exact h
  case mpr =>
    intro h
    exact ⟨_, ⟨names, rfl, h⟩, tokens_pointerTo⟩

-- A path with a name that is not bound comes from the schema.
theorem mem_sensitiveTokens_cons (h : ¬IsSensitive bindings name) :
    name :: names ∈ sensitiveTokens schema bindings ↔
      annotated schema = false ∧ Collects schema (name :: names) := by
  rw [mem_sensitiveTokens]
  refine or_iff_left fun ⟨n, hn, he⟩ => h ?_
  cases he
  exact hn

-- The document with the values redacted that the paths lead to.
def hide (paths : List (List String)) (document : Json) : Json :=
  paths.foldl (fun document path => Json.assign redacted path document) document

-- What follows a name in a path.
def after (name : String) : List String → Option (List String)
  | []           => none
  | token :: ts => if token = name then some ts else none

variable {paths : List (List String)} {document : Json} {members : List (String × Json)}

theorem mem_after : names ∈ paths.filterMap (after name) ↔ name :: names ∈ paths := by
  rw [List.mem_filterMap]
  constructor
  case mp =>
    rintro ⟨path, hm, ha⟩
    unfold after at ha
    split at ha
    case h_1 => contradiction
    case h_2 token ts =>
      split at ha
      case isTrue ht =>
        cases ha
        exact ht ▸ hm
      case isFalse => contradiction
  case mpr => exact fun hm => ⟨_, hm, by simp [after]⟩

theorem foldl_redact {list : List String} :
    list.foldl redact document = hide (list.filterMap tokens) document := by
  rw [hide, List.foldl_filterMap]
  congr
  funext document path
  unfold redact
  cases tokens path <;> rfl

theorem hide_cons {path : List String} :
    hide (path :: paths) document = hide paths (Json.assign redacted path document) :=
  rfl

theorem hide_of_nil_mem (h : [] ∈ paths) : hide paths document = redacted := by
  have hr {path : List String} : Json.assign redacted path redacted = redacted := by
    cases path <;> rfl
  have hk {paths : List (List String)} : hide paths redacted = redacted := by
    induction paths
    case nil => rfl
    case cons path paths hi => rw [hide_cons, hr, hi]
  induction paths generalizing document
  case nil => contradiction
  case cons path paths hi =>
    rw [hide_cons]
    cases h
    case head => exact hk
    case tail h => exact hi h

theorem hide_object (h : [] ∉ paths) : hide paths (.object members) =
    .object (members.map fun e => (e.1, hide (paths.filterMap (after e.1)) e.2)) := by
  induction paths generalizing members
  case nil => simp [hide]
  case cons path paths hi =>
    have ⟨hp, hn⟩ := not_or.mp (List.mem_cons.not.mp h)
    cases path
    case nil => contradiction
    case cons token ts =>
      rw [hide_cons, Json.assign, hi hn, List.map_map]
      congr 2
      funext e
      by_cases ht : token = e.1
      case pos => simp [after, ht, hide_cons]
      case neg => simp [after, ht, Ne.symm ht]

theorem hide_bool (h : [] ∉ paths) {b : Bool} : hide paths (.bool b) = .bool b := by
  induction paths
  case nil => rfl
  case cons path paths hi =>
    have ⟨hp, hn⟩ := not_or.mp (List.mem_cons.not.mp h)
    cases path
    case nil => contradiction
    case cons => exact hi hn

theorem exists_hide_array (items : List Json) {n : Nat} (h : [] ∉ paths)
    (hn : ∀ token ts, token :: ts ∈ paths → Json.parseIndex token ≠ some n) :
    ∃ items', hide paths (.array items) = .array items' ∧ items'[n]? = items[n]? := by
  induction paths generalizing items
  case nil => exact ⟨items, rfl, rfl⟩
  case cons path paths hi =>
    have ⟨hp, h⟩ := not_or.mp (List.mem_cons.not.mp h)
    have hi (items : List Json) := hi items h fun token ts ht =>
      hn token ts (List.mem_cons_of_mem _ ht)
    cases path
    case nil => contradiction
    case cons token ts =>
      rw [hide_cons, Json.assign]
      split
      case h_1 => exact hi items
      case h_2 i ht =>
        have ⟨items', he, hg⟩ := hi (items.modify i (Json.assign redacted ts))
        have hd : i ≠ n := fun hd => hn token ts List.mem_cons_self (hd ▸ ht)
        exact ⟨items', he, hg.trans (by simp [hd])⟩

end Redaction

namespace Schema

open Sensitive Redaction

variable {schema : Option Json} {sub value : Json} {items : List Json}
  {members : List (String × Json)}

theorem mask_of_isWriteOnly (h : schema.any isWriteOnly) : mask schema value = .null := by
  cases value <;> simp [mask, h]

theorem maskItems_eq : maskItems schema items = items.map (mask schema) := by
  induction items
  case nil => rfl
  case cons value items hi => rw [maskItems, hi, List.map_cons]

theorem maskMembers_eq : maskMembers schema members =
    members.map fun e => (e.1, mask (schema.bind (property? · e.1)) e.2) := by
  induction members
  case nil => rfl
  case cons e members hi => rw [maskMembers, hi, List.map_cons]

theorem mask_array (h : ¬schema.any isWriteOnly) :
    mask schema (.array items) = .array (items.map (mask (schema.bind items?))) := by
  rw [mask, if_neg h, maskItems_eq]

theorem mask_object (h : ¬schema.any isWriteOnly) : mask schema (.object members) =
    .object (members.map fun e => (e.1, mask (schema.bind (property? · e.1)) e.2)) := by
  rw [mask, if_neg h, maskMembers_eq]

-- Where nothing is annotated, nothing is left out.
theorem mask_eq_self (h : ∀ s ∈ schema, ¬HasSecret s) : mask schema value = value := by
  induction value using Json.induction generalizing schema
  all_goals
    have hw : ¬schema.any isWriteOnly := by
      rw [Option.any_eq_true]
      intro ⟨s, hs, hw⟩
      exact h s hs (.here hw)
  case array items hi =>
    rw [mask_array hw]
    congr
    refine (List.map_congr_left fun v hv => hi v hv fun s hs => ?_).trans (List.map_id _)
    have ⟨s', hs', hi⟩ := Option.bind_eq_some_iff.mp hs
    exact fun hh => h s' hs' (.item hi hh)
  case object members hi =>
    rw [mask_object hw]
    congr
    refine (List.map_congr_left fun e he => ?_).trans (List.map_id _)
    refine Prod.ext rfl (hi e he fun s hs => ?_)
    have ⟨s', hs', hp⟩ := Option.bind_eq_some_iff.mp hs
    exact fun hh => h s' hs' (.property hp hh)
  all_goals simp [mask, hw]

-- A secret can be changed without a trace in the masked document.
theorem exists_of_hasSecret (h : HasSecret sub) :
    ∃ d d', d ≠ d' ∧ mask (some sub) d = mask (some sub) d' := by
  induction h
  case here schema h =>
    exact ⟨.bool true, .bool false, by simp, by
      rw [mask_of_isWriteOnly (by simpa using h), mask_of_isWriteOnly (by simpa using h)]⟩
  case property schema name sub hs _ hi =>
    have ⟨d, d', hn, he⟩ := hi
    refine ⟨.object [(name, d)], .object [(name, d')], by simpa using hn, ?_⟩
    simp [mask, maskMembers, hs, he]
  case item schema sub hs _ hi =>
    have ⟨d, d', hn, he⟩ := hi
    refine ⟨.array [d], .array [d'], by simpa using hn, ?_⟩
    simp [mask, maskItems, hs, he]

theorem nil_notMem_of_collects {paths : List (List String)}
    (h : ∀ names ∈ paths, Collects sub names) : [] ∉ paths :=
  fun hn => nomatch h [] hn

theorem not_isWriteOnly (h : annotated sub = false) : isWriteOnly sub = false := by
  simp only [annotated, Bool.or_eq_false_iff] at h
  exact h.1.1

-- The redaction of the collected paths does not depend on what is left out.
theorem hide_mask {paths : List (List String)} (ha : annotated sub = false) (he : ¬Exposes sub)
    (hc : ∀ names, Collects sub names → names ∈ paths) :
    hide paths (mask (some sub) value) = hide paths value := by
  induction value using Json.induction generalizing sub paths
  all_goals
    have hw : ¬(some sub).any isWriteOnly := by
      simpa using not_isWriteOnly ha
  case array items hi =>
    rw [mask_array hw]
    congr
    refine (List.map_congr_left fun v hv => mask_eq_self fun s hs => ?_).trans (List.map_id _)
    exact fun hh => he (.item hs hh)
  case object members hi =>
    by_cases hn : [] ∈ paths
    case pos => rw [hide_of_nil_mem hn, hide_of_nil_mem hn]
    case neg =>
      rw [mask_object hw, hide_object hn, hide_object hn, List.map_map]
      congr 1
      refine List.map_congr_left fun e hm => Prod.ext rfl ?_
      change hide _ (mask (property? sub e.1) e.2) = hide _ e.2
      cases hp : property? sub e.1
      case none => rw [mask_eq_self <| by simp]
      case some t =>
        cases hh : hides e.1 t
        case true =>
          have hn := mem_after.mpr <| hc _ (.here hp hh)
          rw [hide_of_nil_mem hn, hide_of_nil_mem hn]
        case false =>
          have ha : annotated t = false := (Bool.or_eq_false_iff.mp hh).1
          refine hi e hm ha (fun ht => he (.property hp hh ht)) fun names ht => ?_
          exact mem_after.mpr <| hc _ (.under hp hh ht)
  all_goals simp [mask, hw]

-- No path leads to some item of a long array.
theorem exists_item {paths : List (List String)} {t : Json} (hs : items? sub = some t)
    (h : HasSecret t) (hn : [] ∉ paths) :
    ∃ items items', mask (some sub) (.array items) = mask (some sub) (.array items') ∧
      hide paths (.array items) ≠ hide paths (.array items') := by
  have ⟨n, hf⟩ : ∃ n, ∀ token ts, token :: ts ∈ paths → Json.parseIndex token ≠ some n := by
    refine ⟨(paths.filterMap fun p => p.head?.bind Json.parseIndex).sum + 1, ?_⟩
    intro token ts hm hi
    have hl := List.le_sum_of_mem <|
      List.mem_filterMap (f := fun p => p.head?.bind Json.parseIndex).mpr ⟨token :: ts, hm, hi⟩
    omega
  have ⟨d, d', hd, he⟩ := exists_of_hasSecret h
  refine ⟨.replicate n .null ++ [d], .replicate n .null ++ [d'], ?_, fun hh => ?_⟩
  case refine_1 => simp [mask, maskItems_eq, hs, he]
  case refine_2 =>
    have ⟨items, hi, hg⟩ := exists_hide_array (.replicate n .null ++ [d]) hn hf
    have ⟨items', hi', hg'⟩ := exists_hide_array (.replicate n .null ++ [d']) hn hf
    rw [hi, hi', Json.array.injEq] at hh
    rw [hh, hg'] at hg
    simp [hd.symm] at hg

theorem exists_of_exposes {paths : List (List String)} (h : Exposes sub)
    (hc : ∀ names ∈ paths, Collects sub names) :
    ∃ d d', mask (some sub) d = mask (some sub) d' ∧ hide paths d ≠ hide paths d' := by
  induction h generalizing paths
  case item schema t hs ht =>
    have ⟨items, items', hm, hh⟩ := exists_item hs ht (nil_notMem_of_collects hc)
    exact ⟨_, _, hm, hh⟩
  case property schema name t hs hn _ hi =>
    have ht (names) (hm : names ∈ paths.filterMap (after name)) : Collects t names :=
      (hc _ <| mem_after.mp hm).of_cons hs hn
    have ⟨d, d', hm, hh⟩ := hi ht
    refine ⟨.object [(name, d)], .object [(name, d')], ?_, ?_⟩
    case refine_1 => simp [mask, maskMembers, hs, hm]
    case refine_2 =>
      have hn := nil_notMem_of_collects hc
      rw [hide_object hn, hide_object hn]
      simpa using hh

variable {bindings : BTreeMap ParameterBinding}

-- What is displayed without the debug mode.
def displayed (schema : Json) (bindings : BTreeMap ParameterBinding) (document : Json) : Json :=
  parameterDocument document ⟨sensitiveParameterPaths schema bindings, bindings⟩ false

theorem displayed_eq : displayed sub bindings value =
    hide (sensitiveTokens sub bindings) (addBindings bindings false value) :=
  foldl_redact

theorem nil_notMem_tokens : [] ∉ sensitiveTokens sub bindings := by
  rw [mem_sensitiveTokens]
  rintro (⟨_, hc⟩ | ⟨name, _, hn⟩)
  case inl => exact nomatch hc
  case inr => contradiction

theorem displayed_mask (h : Covered sub bindings) :
    displayed sub bindings (mask (some sub) value) = displayed sub bindings value := by
  have hw : ¬(some sub).any isWriteOnly := by simpa using h.root
  cases value
  case array items =>
    rw [mask_array hw]
    congr
    refine (List.map_congr_left fun v _ => mask_eq_self fun s hs => ?_).trans (List.map_id _)
    exact h.items s hs
  case object members =>
    have hk (name : String) : (members.map fun e => (e.1, mask (property? sub e.1) e.2)).any
        (·.1 = name) = members.any (·.1 = name) := by simp [List.any_map, Function.comp_def]
    rw [mask_object hw, displayed_eq, displayed_eq]
    simp only [addBindings, Option.bind_some, hk]
    rw [hide_object nil_notMem_tokens, hide_object nil_notMem_tokens, List.map_append,
      List.map_append, List.map_map]
    congr 2
    refine List.map_congr_left fun e _ => Prod.ext rfl ?_
    change hide _ (mask (property? sub e.1) e.2) = hide _ e.2
    have hr (hn : [e.1] ∈ sensitiveTokens sub bindings) {v : Json} :
        hide ((sensitiveTokens sub bindings).filterMap (after e.1)) v = redacted :=
      hide_of_nil_mem (mem_after.mpr hn)
    cases hp : property? sub e.1
    case none => rw [mask_eq_self <| by simp]
    case some t =>
      by_cases hb : IsSensitive bindings e.1
      case pos =>
        have hn : [e.1] ∈ sensitiveTokens sub bindings :=
          mem_sensitiveTokens.mpr <| .inr ⟨e.1, hb, rfl⟩
        rw [hr hn, hr hn]
      case neg =>
        have hc := h.property e.1 t hp hb
        split at hc
        case isTrue => rw [mask_eq_self <| by simpa using hc]
        case isFalse ha =>
          have ha : annotated sub = false := by simpa using ha
          cases hh : hides e.1 t
          case true =>
            have hn : [e.1] ∈ sensitiveTokens sub bindings :=
              mem_sensitiveTokens.mpr <| .inl ⟨ha, .here hp hh⟩
            rw [hr hn, hr hn]
          case false =>
            have hx : ¬Exposes t := by simpa [hh] using hc
            refine hide_mask (Bool.or_eq_false_iff.mp hh).1 hx fun names ht => ?_
            exact mem_after.mpr <| mem_sensitiveTokens.mpr <| .inl ⟨ha, .under hp hh ht⟩
  all_goals simp [mask, hw]

-- A document with one member shows what the redaction leaves of it.
theorem displayed_member_ne {name : String} {d d' : Json}
    (h : hide ((sensitiveTokens sub bindings).filterMap (after name)) d ≠
      hide ((sensitiveTokens sub bindings).filterMap (after name)) d') :
    displayed sub bindings (.object [(name, d)]) ≠
      displayed sub bindings (.object [(name, d')]) := by
  rw [displayed_eq, displayed_eq]
  simp only [addBindings, hide_object nil_notMem_tokens]
  simpa using fun he => absurd he h

theorem redaction_noninterference_iff (schema : Json) (bindings : BTreeMap ParameterBinding) :
    (∀ document document', mask (some schema) document = mask (some schema) document' →
      displayed schema bindings document = displayed schema bindings document') ↔
      Covered schema bindings := by
  constructor
  case mp =>
    intro h
    constructor
    case root =>
      intro hw
      have hm {b : Bool} : mask (some schema) (.bool b) = .null := mask_of_isWriteOnly hw
      have hd {b : Bool} : displayed schema bindings (.bool b) = .bool b := by
        rw [displayed_eq]
        exact hide_bool nil_notMem_tokens
      have he := h (.bool true) (.bool false) (hm.trans hm.symm)
      rw [hd, hd] at he
      simp at he
    case items =>
      intro sub hs hh
      have ht : [] ∉ sensitiveTokens schema bindings := nil_notMem_tokens
      have ⟨items, items', hm, hn⟩ := exists_item hs hh ht
      apply hn
      have hd := h _ _ hm
      rwa [displayed_eq, displayed_eq] at hd
    case property =>
      intro name sub hs hb
      have hm {d d' : Json} (hm : mask (some sub) d = mask (some sub) d') :
          mask (some schema) (.object [(name, d)]) = mask (some schema) (.object [(name, d')]) := by
        simp [mask, maskMembers, hs, hm]
      split
      case isTrue ha =>
        intro hh
        have ⟨d, d', hn, he⟩ := exists_of_hasSecret hh
        refine displayed_member_ne ?_ <| h _ _ (hm he)
        have ht : (sensitiveTokens schema bindings).filterMap (after name) = [] := by
          rw [List.eq_nil_iff_forall_not_mem]
          intro names ht
          exact nomatch ha.symm.trans ((mem_sensitiveTokens_cons hb).mp (mem_after.mp ht)).1
        rw [ht]
        exact hn
      case isFalse ha =>
        by_contra hc
        have ⟨hh, he⟩ := not_or.mp hc
        have hp (names) (ht : names ∈ (sensitiveTokens schema bindings).filterMap (after name)) :
            Collects sub names :=
          ((mem_sensitiveTokens_cons hb).mp (mem_after.mp ht)).2.of_cons hs (by simpa using hh)
        have ⟨d, d', hd, hn⟩ := exists_of_exposes (not_not.mp he) hp
        exact displayed_member_ne hn <| h _ _ (hm hd)
  case mpr =>
    intro h d d' he
    rw [← displayed_mask h, he, displayed_mask h]

end Schema

end Blueprints

namespace Sample

-- The keys of a list are annotated.
def keyringSchema : Json :=
  .object [("properties", .object [("keyring", .object [
    ("items", .object [("writeOnly", .bool true)])])])]

def keyring (key : String) : Json :=
  .object [("keyring", .array [.string key])]

end Sample

namespace Blueprints.Schema

open Sample

-- The collected paths do not lead into arrays.
theorem keyring_displayed :
    mask (some keyringSchema) (keyring "first") = mask (some keyringSchema) (keyring "second") ∧
    (displayed keyringSchema .empty (keyring "first")
      matches .object [("keyring", .array [.string "first"])]) ∧
    (displayed keyringSchema .empty (keyring "second")
      matches .object [("keyring", .array [.string "second"])]) :=
  ⟨rfl, by decide +kernel, by decide +kernel⟩

end Blueprints.Schema

end Scheduler
