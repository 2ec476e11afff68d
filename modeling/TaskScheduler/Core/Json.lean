import Mathlib

namespace Scheduler

-- `char::is_whitespace`
def isWhitespace (c : Char) : Bool :=
  let n := c.toNat
  (9 ≤ n && n ≤ 13) || n = 0x20 || n = 0x85 || n = 0xA0 || n = 0x1680 ||
    (0x2000 ≤ n && n ≤ 0x200A) || n = 0x2028 || n = 0x2029 || n = 0x202F || n = 0x205F || n = 0x3000

-- `text.trim().is_empty()`
def isBlank (text : String) : Bool :=
  text.toList.all isWhitespace

-- `serde_json::Value`. The members of an object are in no particular order.
inductive Json
  | null
  | bool (value : Bool)
  | number (text : String)
  | string (text : String)
  | array (items : List Json)
  | object (members : List (String × Json))
  deriving Repr

namespace Json

def isObject : Json → Bool
  | object _ => true
  | _        => false

def containsKey : Json → String → Bool
  | object members, key => members.any (·.1 = key)
  | _, _                => false

-- `Value::get` with a name.
def get? : Json → String → Option Json
  | object members, key => members.lookup key
  | _, _                => none

def isScalar : Json → Bool
  | null | bool _ | number _ | string _ => true
  | array _ | object _                  => false

mutual

def deepMerge (target : Json) : (patch : Json) → Json
  | object patch =>
    match target with
    | object members => object (mergeMembers members patch)
    | _              => object patch
  | patch => patch

def mergeMembers (members : List (String × Json)) :
    (patch : List (String × Json)) → List (String × Json)
  | []                    => members
  | (key, value) :: patch =>
    let merged :=
      if members.any (·.1 = key) then
        members.map fun (k, existing) => (k, if k = key then deepMerge existing value else existing)
      else
        members ++ [(key, value)]
    mergeMembers merged patch

end

-- What an iteration over the members of an object comes by: every name once.
def entries (members : List (String × Json)) : List (String × Json) :=
  (members.map Prod.fst).dedup.filterMap fun name => (members.lookup name).map (name, ·)

theorem mem_entries {members : List (String × Json)} {name : String} {value : Json} :
    (name, value) ∈ entries members ↔ members.lookup name = some value := by
  simp only [entries, List.mem_filterMap, List.mem_dedup, Option.map_eq_some_iff, Prod.mk.injEq]
  constructor
  case mp =>
    rintro ⟨_, _, _, hl, rfl, rfl⟩
    exact hl
  case mpr =>
    intro h
    have ⟨pre, post, he, _⟩ := List.lookup_eq_some_iff.mp h
    exact ⟨name, by simp [he], value, h, rfl, rfl⟩

theorem sizeOf_lookup_lt {members : List (String × Json)} {key : String} {value : Json}
    (h : members.lookup key = some value) : sizeOf value < sizeOf members := by
  induction members
  case nil => contradiction
  case cons e members hi =>
    have ⟨k, v⟩ := e
    rw [List.lookup_cons] at h
    split at h
    case h_1 =>
      cases h
      simp
      omega
    case h_2 =>
      have := hi h
      simp
      omega

theorem induction {motive : Json → Prop} (null : motive null) (bool : ∀ b, motive (bool b))
    (number : ∀ text, motive (number text)) (string : ∀ text, motive (string text))
    (array : ∀ items, (∀ v ∈ items, motive v) → motive (array items))
    (object : ∀ members, (∀ e ∈ members, motive e.2) → motive (object members)) :
    ∀ v, motive v
  | .null           => null
  | .bool b         => bool b
  | .number text    => number text
  | .string text    => string text
  | .array items    => array items fun v h =>
    have := List.sizeOf_lt_of_mem h
    induction null bool number string array object v
  | .object members => object members fun e h =>
    have := List.sizeOf_lt_of_mem h
    have : sizeOf e.2 < sizeOf e := by
      cases e
      simp
    induction null bool number string array object e.2
termination_by v => sizeOf v

end Json

def mergeParameters (base overrides : Json) : Except String Json :=
  if !base.isObject || !overrides.isObject then
    .error "base parameters and overrides must be JSON objects"
  else
    .ok (base.deepMerge overrides)

theorem mergeParameters_empty {base : Json} (h : base.isObject) :
    mergeParameters base (.object []) = .ok base := by
  cases base
  case object => simp [mergeParameters, Json.isObject, Json.deepMerge, Json.mergeMembers]
  all_goals contradiction

end Scheduler
