import TaskScheduler.Core.Json

namespace Scheduler

namespace Json

-- The value that a path of names leads to.
def at? (v : Json) : (path : List String) → Option Json
  | []          => some v
  | key :: path => (v.get? key).bind (·.at? path)

mutual

-- `serde_json::Map` holds a name at most once, at every depth of a value.
def hasDistinctNames : Json → Bool
  | array items    => itemsDistinct items
  | object members => (members.map Prod.fst).Nodup && membersDistinct members
  | _              => true

def itemsDistinct : List Json → Bool
  | []         => true
  | v :: items => hasDistinctNames v && itemsDistinct items

def membersDistinct : List (String × Json) → Bool
  | []                => true
  | (_, v) :: members => hasDistinctNames v && membersDistinct members

end

theorem membersDistinct_iff {members : List (String × Json)} :
    membersDistinct members ↔ ∀ e ∈ members, e.2.hasDistinctNames := by
  induction members
  case nil         => simp [membersDistinct]
  case cons e _ hi => simp [membersDistinct, hi]

theorem hasDistinctNames_object {members : List (String × Json)} :
    (object members).hasDistinctNames ↔
      (members.map Prod.fst).Nodup ∧ ∀ e ∈ members, e.2.hasDistinctNames := by
  simp [hasDistinctNames, membersDistinct_iff]

theorem mem_of_lookup {members : List (String × Json)} {name : String} {value : Json}
    (h : members.lookup name = some value) : (name, value) ∈ members := by
  have ⟨pre, post, he, _⟩ := List.lookup_eq_some_iff.mp h
  simp [he]

theorem hasDistinctNames_get? {v w : Json} {key : String} (h : v.hasDistinctNames)
    (hw : v.get? key = some w) : w.hasDistinctNames := by
  cases v
  case object => exact (hasDistinctNames_object.mp h).right (key, w) (mem_of_lookup hw)
  all_goals cases hw

@[simp]
theorem null_deepMerge (v : Json) : null.deepMerge v = v := by
  cases v <;> simp [deepMerge]

theorem deepMerge_of_not_object {v : Json} (target : Json) (h : !v.isObject) :
    target.deepMerge v = v := by
  cases v <;> simp_all [deepMerge, isObject]

theorem isObject_deepMerge {target patch : Json} (h : patch.isObject) :
    (target.deepMerge patch).isObject := by
  cases patch <;> simp [isObject] at h
  cases target <;> simp [deepMerge, isObject]

section Members

variable {members patch : List (String × Json)} {key name : String} {value : Json}

theorem lookup_map_value (members : List (String × Json)) (name : String)
    (f : String → Json → Json) :
    (members.map fun e => (e.1, f e.1 e.2)).lookup name = (members.lookup name).map (f name) := by
  induction members
  case nil => rfl
  case cons e members hi =>
    have ⟨k, v⟩ := e
    by_cases hn : name = k
    case pos => simp [hn]
    case neg => simp [List.lookup_cons, beq_false_of_ne hn, hi]

theorem lookup_eq_none : members.lookup name = none ↔ name ∉ members.map Prod.fst := by
  simp only [List.lookup_eq_none_iff, List.mem_map, not_exists, not_and, bne_iff_ne]
  exact forall₂_congr fun _ _ => ne_comm

-- What the loop over the patch does for one of its members.
def mergeMember (members : List (String × Json)) (key : String) (value : Json) :
    List (String × Json) :=
  if members.any (·.1 = key) then
    members.map fun (k, existing) => (k, if k = key then deepMerge existing value else existing)
  else
    members ++ [(key, value)]

theorem mergeMembers_cons :
    mergeMembers members ((key, value) :: patch) =
      mergeMembers (mergeMember members key value) patch := by
  simp [mergeMembers, mergeMember]

theorem mergeMember_of_mem (h : key ∈ members.map Prod.fst) :
    mergeMember members key value =
      members.map fun e => (e.1, if e.1 = key then e.2.deepMerge value else e.2) :=
  if_pos <| by simpa using h

theorem mergeMember_of_not_mem (h : key ∉ members.map Prod.fst) :
    mergeMember members key value = members ++ [(key, value)] :=
  if_neg <| by simpa using h

theorem lookup_mergeMember_self :
    (mergeMember members key value).lookup key =
      some ((members.lookup key).elim value (·.deepMerge value)) := by
  cases he : members.lookup key
  case none =>
    simp [mergeMember_of_not_mem (lookup_eq_none.mp he), List.lookup_append, he]
  case some e =>
    have hk : key ∈ members.map Prod.fst := by
      by_contra hk
      simp [lookup_eq_none.mpr hk] at he
    have hl := lookup_map_value members key fun k v => if k = key then v.deepMerge value else v
    simpa [mergeMember_of_mem hk, he] using hl

theorem lookup_mergeMember_of_ne (hn : name ≠ key) :
    (mergeMember members key value).lookup name = members.lookup name := by
  by_cases hk : key ∈ members.map Prod.fst
  case pos =>
    have hl := lookup_map_value members name fun k v => if k = key then v.deepMerge value else v
    simpa [mergeMember_of_mem hk, hn] using hl
  case neg =>
    simp [mergeMember_of_not_mem hk, List.lookup_append, List.lookup_cons, beq_false_of_ne hn]

-- With distinct names in the patch, a name is merged when the loop comes by it and not again.
theorem lookup_mergeMembers (hp : (patch.map Prod.fst).Nodup) :
    (mergeMembers members patch).lookup name =
      match patch.lookup name with
      | none       => members.lookup name
      | some value => some ((members.lookup name).elim value (·.deepMerge value)) := by
  induction patch generalizing members
  case nil => simp [mergeMembers]
  case cons e patch hi =>
    obtain ⟨key, value⟩ := e
    obtain ⟨hk, hp⟩ := List.nodup_cons.mp hp
    rw [mergeMembers_cons, hi hp]
    by_cases hn : name = key
    case pos =>
      subst hn
      simp [lookup_eq_none.mpr hk, lookup_mergeMember_self]
    case neg => simp [List.lookup_cons, beq_false_of_ne hn, lookup_mergeMember_of_ne hn]

theorem mergeMember_eq_self (hk : key ∈ members.map Prod.fst)
    (h : ∀ e ∈ members, e.1 = key → e.2.deepMerge value = e.2) :
    mergeMember members key value = members := by
  rw [mergeMember_of_mem hk]
  refine (List.map_congr_left fun e he => ?_).trans members.map_id
  split
  case isTrue hn => rw [h e he hn, id]
  case isFalse   => rfl

-- A patch that is settled for each of its names changes nothing.
theorem mergeMembers_eq_self (hk : ∀ p ∈ patch, p.1 ∈ members.map Prod.fst)
    (h : ∀ p ∈ patch, ∀ e ∈ members, e.1 = p.1 → e.2.deepMerge p.2 = e.2) :
    mergeMembers members patch = members := by
  induction patch
  case nil => simp [mergeMembers]
  case cons p patch hi =>
    obtain ⟨key, value⟩ := p
    obtain ⟨hk₁, hk⟩ := List.forall_mem_cons.mp hk
    obtain ⟨h₁, h⟩ := List.forall_mem_cons.mp h
    rw [mergeMembers_cons, mergeMember_eq_self hk₁ h₁]
    exact hi hk h

theorem names_mergeMember_of_mem (h : key ∈ members.map Prod.fst) :
    (mergeMember members key value).map Prod.fst = members.map Prod.fst := by
  simp [mergeMember_of_mem h]

theorem mem_names_mergeMember :
    name ∈ (mergeMember members key value).map Prod.fst ↔
      name ∈ members.map Prod.fst ∨ name = key := by
  by_cases hk : key ∈ members.map Prod.fst
  case pos =>
    rw [names_mergeMember_of_mem hk]
    exact ⟨.inl, (·.elim id (· ▸ hk))⟩
  case neg =>
    rw [mergeMember_of_not_mem hk]
    simp

theorem mem_names_mergeMembers :
    name ∈ (mergeMembers members patch).map Prod.fst ↔
      name ∈ members.map Prod.fst ∨ name ∈ patch.map Prod.fst := by
  induction patch generalizing members
  case nil => simp [mergeMembers]
  case cons p patch hi =>
    obtain ⟨key, value⟩ := p
    rw [mergeMembers_cons, hi, mem_names_mergeMember, or_assoc, List.map_cons, List.mem_cons]

theorem nodup_names_mergeMember (h : (members.map Prod.fst).Nodup) :
    ((mergeMember members key value).map Prod.fst).Nodup := by
  by_cases hk : key ∈ members.map Prod.fst
  case pos => rwa [names_mergeMember_of_mem hk]
  case neg =>
    rw [mergeMember_of_not_mem hk, List.map_append]
    refine List.nodup_append.mpr ⟨h, List.nodup_singleton key, fun name hn k hs he => hk ?_⟩
    have hs : k = key := List.mem_singleton.mp hs
    exact hs ▸ he ▸ hn

theorem nodup_names_mergeMembers (h : (members.map Prod.fst).Nodup) :
    ((mergeMembers members patch).map Prod.fst).Nodup := by
  induction patch generalizing members
  case nil => simpa [mergeMembers] using h
  case cons p patch hi =>
    obtain ⟨key, value⟩ := p
    rw [mergeMembers_cons]
    exact hi (nodup_names_mergeMember h)

theorem lookup_of_mem (hd : (members.map Prod.fst).Nodup) (h : (name, value) ∈ members) :
    members.lookup name = some value := by
  have ⟨v, hv⟩ : ∃ v, members.lookup name = some v := by
    refine Option.ne_none_iff_exists'.mp fun hn => lookup_eq_none.mp hn ?_
    exact List.mem_map_of_mem (f := Prod.fst) h
  rw [hv, Prod.mk.inj (List.inj_on_of_nodup_map hd (mem_of_lookup hv) h rfl) |>.right]

end Members

variable {target patch v w : Json} {key : String} {path : List String}

-- One step down a path. The target's member is merged with the patch's where both have it.
theorem get?_deepMerge (hd : patch.hasDistinctNames) (ho : patch.isObject) :
    (target.deepMerge patch).get? key =
      match patch.get? key with
      | none       => target.get? key
      | some value => some ((target.get? key).elim value (·.deepMerge value)) := by
  cases patch <;> simp [isObject] at ho
  case object patch =>
    cases target
    case object members =>
      simp only [deepMerge, get?]
      exact lookup_mergeMembers (hasDistinctNames_object.mp hd).left
    all_goals
      simp only [deepMerge, get?]
      cases patch.lookup key <;> rfl

theorem isObject_of_get? (h : v.get? key = some w) : v.isObject := by
  cases v <;> simp_all [get?, isObject]

theorem at?_cons (h : v.get? key = some w) : v.at? (key :: path) = w.at? path := by
  simp [at?, h]

theorem at?_cons_of_none (h : v.get? key = none) : v.at? (key :: path) = none := by
  simp [at?, h]

theorem at?_deepMerge_cons (hd : patch.hasDistinctNames) (ho : patch.isObject) :
    (target.deepMerge patch).at? (key :: path) =
      match patch.get? key with
      | none       => target.at? (key :: path)
      | some value => ((target.get? key).elim value (·.deepMerge value)).at? path := by
  rw [at?, get?_deepMerge hd ho]
  cases patch.get? key <;> rfl

-- Where the patch has a value, the result has it merged into the target's value, if there is one.
theorem at?_deepMerge_of_some (hd : patch.hasDistinctNames) (h : patch.at? path = some v) :
    (target.deepMerge patch).at? path = some ((target.at? path).elim v (·.deepMerge v)) := by
  induction path generalizing target patch
  case nil =>
    cases h
    rfl
  case cons key path hi =>
    have ⟨p, hp, h⟩ := Option.bind_eq_some_iff.mp h
    simp only [at?_deepMerge_cons hd (isObject_of_get? hp), hp]
    cases ht : target.get? key
    case none => simpa [at?_cons_of_none ht] using h
    case some => simpa [at?_cons ht] using hi (hasDistinctNames_get? hd hp) h

-- Where the patch has no value and does not cut the path off, the result has the target's.
theorem at?_deepMerge_of_none (hd : patch.hasDistinctNames) (h : patch.at? path = none)
    (hc : ∀ front, front <+: path → ∀ v, patch.at? front = some v → v.isObject) :
    (target.deepMerge patch).at? path = target.at? path := by
  induction path generalizing target patch
  case nil => cases h
  case cons key path hi =>
    rw [at?_deepMerge_cons hd (hc [] List.nil_prefix patch rfl)]
    cases hp : patch.get? key
    case none => rfl
    case some p =>
      rw [at?_cons hp] at h
      cases ht : target.get? key
      case none => simpa [at?_cons_of_none ht] using h
      case some =>
        simp only [Option.elim_some, at?_cons ht]
        refine hi (hasDistinctNames_get? hd hp) h fun front hf v hv => ?_
        exact hc (key :: front) (List.cons_prefix_cons.mpr ⟨rfl, hf⟩) v (at?_cons hp ▸ hv)

theorem isSome_at?_of_deepMerge (hd : patch.hasDistinctNames)
    (h : ((target.deepMerge patch).at? path).isSome) :
    (target.at? path).isSome ∨ (patch.at? path).isSome := by
  induction path generalizing target patch
  case nil => exact .inl rfl
  case cons key path hi =>
    by_cases ho : patch.isObject
    case neg =>
      rw [deepMerge_of_not_object target (by simpa using ho)] at h
      exact .inr h
    case pos =>
      rw [at?_deepMerge_cons hd ho] at h
      cases hp : patch.get? key
      case none =>
        rw [hp] at h
        exact .inl h
      case some p =>
        rw [hp] at h
        rw [at?_cons hp]
        cases ht : target.get? key
        case none =>
          rw [ht] at h
          exact .inr h
        case some =>
          rw [ht] at h
          rw [at?_cons ht]
          exact hi (hasDistinctNames_get? hd hp) h

theorem hasDistinctNames_mergeMembers {members patch : List (String × Json)}
    (hm : ∀ e ∈ members, e.2.hasDistinctNames) (hp : ∀ p ∈ patch, p.2.hasDistinctNames)
    (h : ∀ p ∈ patch, ∀ t : Json, t.hasDistinctNames → (t.deepMerge p.2).hasDistinctNames) :
    ∀ e ∈ mergeMembers members patch, e.2.hasDistinctNames := by
  induction patch generalizing members
  case nil => simpa [mergeMembers] using hm
  case cons p patch hi =>
    obtain ⟨key, value⟩ := p
    obtain ⟨h₁, h⟩ := List.forall_mem_cons.mp h
    obtain ⟨hp₁, hp⟩ := List.forall_mem_cons.mp hp
    rw [mergeMembers_cons]
    refine hi (fun e he => ?_) hp h
    by_cases hk : key ∈ members.map Prod.fst
    case pos =>
      rw [mergeMember_of_mem hk] at he
      obtain ⟨e, hm', he⟩ := List.mem_map.mp he
      subst he
      dsimp only
      split
      case isTrue  => exact h₁ e.2 (hm e hm')
      case isFalse => exact hm e hm'
    case neg =>
      rw [mergeMember_of_not_mem hk] at he
      rcases List.mem_append.mp he with he | he
      case inl => exact hm e he
      case inr => exact List.mem_singleton.mp he ▸ hp₁

theorem hasDistinctNames_deepMerge (ht : target.hasDistinctNames) (hp : patch.hasDistinctNames) :
    (target.deepMerge patch).hasDistinctNames := by
  induction patch using Json.induction generalizing target
  case object patch hi =>
    have ⟨hn, hv⟩ := hasDistinctNames_object.mp hp
    cases target
    case object members =>
      have ⟨hn', hv'⟩ := hasDistinctNames_object.mp ht
      rw [deepMerge, hasDistinctNames_object]
      refine ⟨nodup_names_mergeMembers hn', hasDistinctNames_mergeMembers hv' hv ?_⟩
      exact fun p hp t ht => hi p hp ht (hv p hp)
    all_goals exact hp
  all_goals exact hp

-- The members of the patch are settled after one merge: each is the patch's own value or the
-- result of merging it, so that the claim for the member closes the case.
theorem deepMerge_deepMerge (ht : target.hasDistinctNames) (hp : patch.hasDistinctNames) :
    (target.deepMerge patch).deepMerge patch = target.deepMerge patch := by
  induction patch using Json.induction generalizing target
  case object patch hi =>
    have ⟨hn, hv⟩ := hasDistinctNames_object.mp hp
    have hs : ∀ p ∈ patch, p.2.deepMerge p.2 = p.2 := fun p hp => by
      have hn : null.hasDistinctNames := rfl
      simpa using hi p hp hn (hv p hp)
    cases target
    case object members =>
      have ⟨hn', hv'⟩ := hasDistinctNames_object.mp ht
      simp only [deepMerge, object.injEq]
      refine mergeMembers_eq_self (fun p hp => ?_) fun p hp e he hk => ?_
      case refine_1 => exact mem_names_mergeMembers.mpr <| .inr <| List.mem_map_of_mem hp
      case refine_2 =>
        have hl := lookup_of_mem (nodup_names_mergeMembers hn') he
        rw [lookup_mergeMembers hn, hk, lookup_of_mem hn hp] at hl
        cases hm : members.lookup p.1
        case none =>
          simp only [hm, Option.elim_none, Option.some.injEq] at hl
          exact hl ▸ hs p hp
        case some m =>
          simp only [hm, Option.elim_some, Option.some.injEq] at hl
          exact hl ▸ hi p hp (hv' _ (mem_of_lookup hm)) (hv p hp)
    all_goals
      simp only [deepMerge, object.injEq]
      refine mergeMembers_eq_self (fun p hp => List.mem_map_of_mem hp) fun p hp e he hk => ?_
      rw [List.inj_on_of_nodup_map hn he hp hk]
      exact hs p hp
  all_goals rfl

end Json

-- The documents that parameters are merged from.
structure Document where
  value    : Json
  isObject : value.isObject
  distinct : value.hasDistinctNames

namespace Document

abbrev at? (d : Document) (path : List String) : Option Json :=
  d.value.at? path

-- `merge_parameters` of two documents, which is a document again.
def merge (base overrides : Document) : Document where
  value    := base.value.deepMerge overrides.value
  isObject := Json.isObject_deepMerge overrides.isObject
  distinct := Json.hasDistinctNames_deepMerge base.distinct overrides.distinct

theorem mergeParameters_value (base overrides : Document) :
    mergeParameters base.value overrides.value = .ok (base.merge overrides).value := by
  simp [mergeParameters, base.isObject, overrides.isObject, merge]

theorem merge_merge (base overrides : Document) :
    (base.merge overrides).merge overrides = base.merge overrides := by
  simp [merge, Json.deepMerge_deepMerge base.distinct overrides.distinct]

theorem isSome_at?_of_merge {base overrides : Document} {path : List String}
    (h : ((base.merge overrides).at? path).isSome) :
    (base.at? path).isSome ∨ (overrides.at? path).isSome :=
  Json.isSome_at?_of_deepMerge overrides.distinct h

end Document

-- What `materialize_item` makes an item's parameters of.
def itemParameters (base item overrides : Json) : Except String Json :=
  mergeParameters base item >>= fun parameters => mergeParameters parameters overrides

-- The precedence of a patch over a base in what they are merged to.
structure Precedence (base patch merged : Document) : Prop where
  bound   : ∀ path v, patch.at? path = some v → !v.isObject → merged.at? path = some v
  unbound : ∀ path, patch.at? path = none →
    (∀ front, front <+: path → ∀ v, patch.at? front = some v → v.isObject) →
    merged.at? path = base.at? path

theorem Document.precedence_merge (base patch : Document) :
    Precedence base patch (base.merge patch) where
  bound path v hv ho := by
    refine (Json.at?_deepMerge_of_some patch.distinct hv).trans ?_
    cases base.value.at? path
    case none => rfl
    case some => simp [Json.deepMerge_of_not_object _ ho]
  unbound _ hn hc := Json.at?_deepMerge_of_none patch.distinct hn hc

theorem parameters_precedence (base item overrides : Document) :
    ∃ merged m : Document,
      mergeParameters base.value item.value = .ok merged.value ∧
      itemParameters base.value item.value overrides.value = .ok m.value ∧
      Precedence base item merged ∧ Precedence merged overrides m ∧
      (∀ path, (m.at? path).isSome →
        (base.at? path).isSome ∨ (item.at? path).isSome ∨ (overrides.at? path).isSome) ∧
      (mergeParameters base.value overrides.value >>= (mergeParameters · overrides.value)) =
        mergeParameters base.value overrides.value := by
  let merged := base.merge item
  refine ⟨merged, merged.merge overrides, base.mergeParameters_value item, ?parameters,
    base.precedence_merge item, merged.precedence_merge overrides, fun path h => ?origin, ?twice⟩
  case parameters =>
    rw [itemParameters, base.mergeParameters_value]
    exact merged.mergeParameters_value overrides
  case origin =>
    rcases Document.isSome_at?_of_merge h with h | h
    case inl => exact (Document.isSome_at?_of_merge h).imp_right .inl
    case inr => exact .inr (.inr h)
  case twice =>
    rw [base.mergeParameters_value]
    refine ((base.merge overrides).mergeParameters_value overrides).trans ?_
    rw [base.merge_merge]

namespace Sample

def baseDocument : Document where
  value    := .object [("host", .object [("name", .string "a"), ("port", .number "1")]),
    ("mode", .string "full")]
  isObject := rfl
  distinct := by decide +kernel

def itemDocument : Document where
  value    := .object [("host", .object [("port", .number "2")])]
  isObject := rfl
  distinct := by decide +kernel

def overridesDocument : Document where
  value    := .object [("mode", .object [("level", .number "3")])]
  isObject := rfl
  distinct := by decide +kernel

end Sample

theorem Precedence.unbound_of_inits {base patch merged : Document} {path : List String}
    (h : Precedence base patch merged) (hn : patch.at? path = none)
    (hc : path.inits.all fun front => (patch.at? front).all (·.isObject)) :
    merged.at? path = base.at? path := by
  refine h.unbound path hn fun front hf v hv => ?_
  have hc := List.all_eq_true.mp hc front ((List.mem_inits front path).mpr hf)
  rwa [hv] at hc

-- A member of the base survives beside the item's, and an override object replaces a scalar.
theorem parameters_precedence_nested :
    ∃ m : Document,
      itemParameters Sample.baseDocument.value Sample.itemDocument.value
        Sample.overridesDocument.value = .ok m.value ∧
      m.at? ["host", "name"] = some (.string "a") ∧
      m.at? ["host", "port"] = some (.number "2") ∧
      m.at? ["mode", "level"] = some (.number "3") := by
  have ⟨merged, m, _, hm, hi, ho, _⟩ :=
    parameters_precedence Sample.baseDocument Sample.itemDocument Sample.overridesDocument
  refine ⟨m, hm, ?name, ?port, ho.bound _ _ rfl rfl⟩
  case name =>
    rw [ho.unbound_of_inits rfl rfl, hi.unbound_of_inits rfl rfl]
    rfl
  case port =>
    rw [ho.unbound_of_inits rfl rfl]
    exact hi.bound _ _ rfl rfl

end Scheduler
