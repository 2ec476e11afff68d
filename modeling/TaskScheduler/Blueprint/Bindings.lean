import TaskScheduler.Library.Fallible
import TaskScheduler.Library.SortedMap
import TaskScheduler.Blueprint.Templates
import TaskScheduler.Dispatch.Sessions

namespace Scheduler

-- `BTreeMap<String, V>`
abbrev BTreeMap (α : Type) := SortedMap String α

namespace Blueprints

open Fallible

structure CommandSpec where
  program          : String
  args             : List String
  env              : BTreeMap String
  workingDirectory : Option String

structure ExcelMacroSpec where
  workbookPath : String
  moduleName   : Option String
  macroName    : String
  args         : List Json
  readOnly     : Bool
  saveChanges  : Bool
  visible      : Bool

inductive ExecutorSpec
  | command (spec : CommandSpec)
  | excelMacro (spec : ExcelMacroSpec)

inductive ParameterBindingValueType
  | string
  | integer
  | number
  | boolean
  | json
  deriving DecidableEq, Repr

structure ParameterBinding extends Scheduler.ParameterBinding where
  valueType : ParameterBindingValueType
  sensitive : Bool
  deriving DecidableEq, Repr

-- One to `max` bytes, of which the first and the last are letters or digits.
def isSafe (allowed : Char → Bool) (value : String) (max : Nat) : Bool :=
  (1 ≤ value.utf8ByteSize && value.utf8ByteSize ≤ max) &&
    value.toList.head?.any Char.isAlphanum && value.toList.getLast?.any Char.isAlphanum &&
    value.toList.all fun c => c.isAlphanum || allowed c

def isSafeIdentifier : (value : String) → (max : Nat) → Bool :=
  isSafe fun c => c = '_' || c = '-'

def isSafeLogicalName : (value : String) → (max : Nat) → Bool :=
  isSafe fun c => c = '.' || c = '_' || c = '-'

def validateParameterName (name : String) : Except String Unit :=
  if !isSafeIdentifier name 128 then
    .error "parameter binding names must be 1-128 ASCII letters, digits, underscores, or hyphens"
  else if name.toList.contains '.' then
    .error "parameter bindings must name a top-level parameter"
  else
    .ok ()

-- The syntax of portable environment variables.
def isPortable (name : String) : Bool :=
  (1 ≤ name.utf8ByteSize && name.utf8ByteSize ≤ 128) &&
    name.toList.head?.any (fun c => c.isAlpha || c = '_') &&
    name.toList.all fun c => c.isAlphanum || c = '_'

def validateBindingSourceName (binding : ParameterBinding) : Except String Unit :=
  match binding.source with
  | .environment =>
    if !isPortable binding.name then
      .error "environment binding names must use portable environment-variable syntax"
    else
      .ok ()
  | .secretFile =>
    if !isSafeLogicalName binding.name 128 || binding.name = "." || binding.name = ".." ||
      binding.name.toList.any fun c => c = '/' || c = '\\' || c = ':' then
      .error "secret-file bindings must use a logical name, not a path"
    else
      .ok ()

-- The path is the parameter or leads into it.
def isWithin (parameter path : List Char) : Bool :=
  path = parameter || (path.dropPrefix? parameter).any fun rest => rest.head? = some '.'

-- The loop of `template_references`.
def references (parameter remaining : List Char) : Bool :=
  match h : Text.split? Template.opening remaining with
  | none                 => false
  | some (_, expression) =>
    match h' : Text.split? Template.closing expression with
    | none              => false
    | some (path, rest) =>
      have : rest.length < remaining.length :=
        (Text.length_lt_of_split? (by decide) h').trans (Text.length_lt_of_split? (by decide) h)
      isWithin parameter (Template.trim path) || references parameter rest
termination_by remaining.length

def templateReferences (template parameter : String) : Bool :=
  references parameter.toList template.toList

-- The places that may not show a sensitive parameter.
def ExecutorSpec.exposed : ExecutorSpec → List String
  | command spec    => spec.program :: spec.args ++ spec.workingDirectory.toList
  | excelMacro spec => spec.workbookPath :: spec.moduleName.toList ++ [spec.macroName]

def validateSensitiveBindingUsage (parameter : String) (executor : ExecutorSpec) :
    Except String Unit :=
  if executor.exposed.any (templateReferences · parameter) then
    .error ("sensitive parameter bindings may only be used in command environment values or " ++
      "Excel arguments")
  else
    .ok ()

-- The checks of one binding.
def validateParameterBinding (executor : ExecutorSpec) (parameter : String)
    (binding : ParameterBinding) : Except String Unit := do
  validateParameterName parameter
  validateBindingSourceName binding
  if binding.sensitive then
    validateSensitiveBindingUsage parameter executor

def validateParameterBindings (bindings : BTreeMap ParameterBinding) (executor : ExecutorSpec) :
    Except String Unit :=
  forM bindings.entries fun (parameter, binding) =>
    validateParameterBinding executor parameter binding

variable {bindings : BTreeMap ParameterBinding} {executor : ExecutorSpec} {parameter : String}
  {binding : ParameterBinding}

-- What is shown of an executor refers to no sensitive binding.
theorem templateReferences_of_valid (h : validateParameterBindings bindings executor = .ok ())
    (hm : (parameter, binding) ∈ bindings.entries) (hs : binding.sensitive) {template : String}
    (ht : template ∈ executor.exposed) : templateReferences template parameter = false := by
  rw [validateParameterBindings, forM_eq_ok] at h
  have hb : validateParameterBinding executor parameter binding = .ok () := h (parameter, binding) hm
  rw [validateParameterBinding, bind_eq_ok] at hb
  have ⟨_, _, hb⟩ := hb
  rw [bind_eq_ok, if_pos hs, validateSensitiveBindingUsage] at hb
  have ⟨_, _, hb⟩ := hb
  split at hb
  case isTrue => contradiction
  case isFalse he =>
    rw [Bool.not_eq_true, List.any_eq_false] at he
    exact Bool.not_eq_true _ ▸ he template ht

variable {path remaining : List Char}

-- The validator takes every path that the renderer reads in the parameter for a reference.
theorem isWithin_of_components (h : (Template.components path).head? = some parameter) :
    isWithin parameter.toList path := by
  unfold Template.components at h
  cases hs : path.splitOn '.'
  case nil => exact absurd hs (List.splitOn_ne_nil _ _)
  case cons name names =>
    have hn : parameter.toList = name := by
      rw [hs] at h
      have he : String.ofList name = parameter := by simpa using h
      simp [← he]
    have hj : ['.'].intercalate (path.splitOn '.') = path := List.intercalate_splitOn '.'
    rw [hs] at hj
    rw [isWithin, hn, ← hj]
    cases names
    case nil => simp
    case cons next names =>
      have hd {rest : List Char} : (name ++ rest).dropPrefix? name = some rest :=
        List.dropPrefix?_append_of_beq rest (beq_self_eq_true name)
      simp [List.intercalate, List.intersperse, hd]

-- What the validator finds are the placeholders of the segments, up to one that does not end.
theorem references_eq {parameter : List Char} : references parameter remaining =
    (Template.segments remaining).any fun segment =>
      match segment with
      | .placeholder path => isWithin parameter (Template.trim path)
      | _                 => false := by
  have hl {text : List Char} {l : List Template.Segment} {p : Template.Segment → Bool}
      (hp : p (.literal text) = false) : (Template.Segment.literals text ++ l).any p = l.any p := by
    unfold Template.Segment.literals
    split <;> simp [hp]
  fun_induction references parameter remaining
  case case1 h =>
    rw [Template.segments_of_none h, ← List.append_nil (Template.Segment.literals _), hl rfl]
    rfl
  case case2 h h' =>
    rw [Template.segments_of_unterminated h h', hl rfl]
    rfl
  case case3 h _ _ h' _ hi =>
    rw [Template.segments_of_placeholder h h', hl rfl, List.any_cons, hi]

end Blueprints

end Scheduler
