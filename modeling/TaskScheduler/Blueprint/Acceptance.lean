import TaskScheduler.Blueprint.Noninterference

namespace Scheduler

namespace Blueprints

open Fallible

-- A fetched blueprint, with the fields of the policy that its document sets.
structure BlueprintDocument where
  blueprint       : Blueprint
  setsMaxAttempts : Bool
  setsTimeout     : Bool
  sourceVersion   : Option String

structure ParametersDocument where
  parameters    : Json
  sourceVersion : Option String

-- The defaults of the global settings.
structure PolicyDefaults where
  maxAttempts    : Nat
  timeoutSeconds : Nat

def BlueprintDocument.withDefaults (document : BlueprintDocument) (defaults : PolicyDefaults) :
    Blueprint :=
  let policy := document.blueprint.policy
  let maxAttempts := if document.setsMaxAttempts then policy.maxAttempts else defaults.maxAttempts
  let timeoutSeconds :=
    if document.setsTimeout then policy.timeoutSeconds else defaults.timeoutSeconds
  { document.blueprint with policy := { policy with maxAttempts, timeoutSeconds } }

structure ScheduleRecord where
  id                : Uuid
  enabled           : Bool
  requiredLabels    : BTreeMap String
  encryptedSnapshot : Sealed ResolvedScheduleSnapshot

structure NewRun where
  id                    : Uuid
  scheduleId            : Uuid
  triggerKind           : TriggerKind
  scheduledAt           : Time
  encryptedSnapshot     : Sealed ExecutionSnapshot
  maxAttempts           : Nat
  initialBackoffSeconds : Nat
  backoffCapSeconds     : Nat
  idempotencyKey        : Option String

namespace Runtime

variable (rt : Runtime)

def parseBlueprintWithDefaults (document : BlueprintDocument) (defaults : PolicyDefaults) :
    Except String Blueprint := do
  rt.validateBlueprint (document.withDefaults defaults)
  return document.withDefaults defaults

-- What is sealed when the documents are fetched and the revision of the blueprint is registered.
def resolveAndEncrypt (hasCollection : Bool) (document : BlueprintDocument)
    (parameters : ParametersDocument) (defaults : PolicyDefaults) :
    Except String (Sealed ResolvedScheduleSnapshot) := do
  let blueprint ← rt.parseBlueprintWithDefaults document defaults
  if !parameters.parameters.isObject then
    .error "parameters must be a JSON object"
  else
    if !hasCollection && blueprint.parameterBindings.isEmpty then
      rt.validateParameters blueprint.parametersSchema parameters.parameters
    return some {
      blueprint
      baseParameters          := parameters.parameters
      blueprintSourceVersion  := document.sourceVersion
      parametersSourceVersion := parameters.sourceVersion
    }

def buildRunFromSchedule (schedule : ScheduleRecord) (overrides : Json) (triggerKind : TriggerKind)
    (scheduledAt : Time) (idempotencyKey : Option String) (id : Uuid) : Except String NewRun :=
  if !schedule.enabled then
    .error "schedule is paused"
  else
    match schedule.encryptedSnapshot with
    | none          => .error "snapshot decryption failed"
    | some resolved => do
      let parameters ← mergeParameters resolved.baseParameters overrides
      let snapshot ← rt.resolveSnapshot resolved parameters schedule.requiredLabels
      return {
        id
        scheduleId            := schedule.id
        triggerKind
        scheduledAt
        encryptedSnapshot     := some snapshot
        maxAttempts           := snapshot.policy.maxAttempts
        initialBackoffSeconds := snapshot.policy.initialBackoffSeconds
        backoffCapSeconds     := snapshot.policy.backoffCapSeconds
        idempotencyKey
      }

end Runtime

-- The path leads to a scalar.
def HasScalar (p : Json) (path : List Char) : Prop :=
  ∃ value, Template.descend p (Template.components path) = some value ∧ value.isScalar

-- Every placeholder of the template ends and has a scalar to stand for it.
def Fills (p : Json) (template : String) : Prop :=
  ∀ segment ∈ Template.segments template.toList,
    match segment with
    | .literal _        => True
    | .placeholder path => HasScalar p (Template.trim path)
    | .unterminated _   => False

-- A text between the braces of a placeholder is one path.
def FillsArgument (p : Json) : Json → Prop
  | .string template =>
    match Template.exactPlaceholder template.toList with
    | some path => HasScalar p path
    | none      => Fills p template
  | argument => argument.isScalar

-- What the template is filled to.
def filled (p : Json) (template : String) : String :=
  String.ofList <| (Template.rendering template.toList p).getD []

def CommandSpec.IsFilled (command : CommandSpec) (p : Json) : Prop :=
  (∀ template ∈ command.args, Fills p template) ∧
    (∀ entry ∈ command.env.entries, Fills p entry.2) ∧
    ∀ template ∈ command.workingDirectory, Fills p template

structure ExcelMacroSpec.IsFilled (excel : ExcelMacroSpec) (p : Json) : Prop where
  args         : ∀ argument ∈ excel.args, FillsArgument p argument
  workbookPath : Fills p excel.workbookPath
  moduleName   : ∀ template ∈ excel.moduleName, Fills p template
  macroName    : Fills p excel.macroName
  isNamed      : ¬isBlank (filled p excel.workbookPath) ∧ ¬isBlank (filled p excel.macroName)
  isUnqualified : ∀ template ∈ excel.moduleName, ¬isBlank (filled p template) ∧
    ¬isQualified (filled p template) ∧ ¬isQualified (filled p excel.macroName)

def ExecutorSpec.IsFilled : ExecutorSpec → Json → Prop
  | command spec    => spec.IsFilled
  | excelMacro spec => spec.IsFilled

variable {p : Json} {template : String}

theorem scalar?_isSome {value : Json} : (Template.scalar? value).isSome ↔ value.isScalar := by
  cases value <;> simp [Template.scalar?, Json.isScalar]

theorem rendering_isSome : (Template.rendering template.toList p).isSome ↔ Fills p template := by
  unfold Template.rendering Fills
  induction Template.segments template.toList
  case nil => simp [Template.Segment.concat]
  case cons segment segments hi =>
    rw [List.forall_mem_cons, ← hi]
    have hs : (segment.text p).isSome ↔ match segment with
        | .literal _        => True
        | .placeholder path => HasScalar p (Template.trim path)
        | .unterminated _   => False := by
      cases segment
      case literal => simp [Template.Segment.text]
      case unterminated => simp [Template.Segment.text]
      case placeholder path =>
        simp only [Template.Segment.text, HasScalar, ← scalar?_isSome]
        cases Template.descend p (Template.components (Template.trim path)) <;> simp
    rw [← hs]
    cases ht : segment.text p <;> simp [Template.Segment.concat, ht]

theorem renderString_eq_ok {text : String} : Template.renderString template p = .ok text ↔
    Fills p template ∧ filled p template = text := by
  have h : (Template.renderString template p).toOption =
      (Template.rendering template.toList p).map String.ofList := Template.renderString_toOption
  rw [← rendering_isSome, filled]
  cases hr : Template.renderString template p
  case error =>
    rw [hr] at h
    cases hn : Template.rendering template.toList p
    case none => simp
    case some => rw [hn] at h; contradiction
  case ok text' =>
    rw [hr] at h
    cases hn : Template.rendering template.toList p
    case none => rw [hn] at h; contradiction
    case some chars =>
      rw [hn] at h
      have h : text' = String.ofList chars := Option.some_inj.mp h
      simp [h]

theorem exists_renderString :
    (∃ text, Template.renderString template p = .ok text) ↔ Fills p template := by
  simp [renderString_eq_ok]

theorem exists_renderCommand {command : CommandSpec} :
    (∃ c, renderCommand command p = .ok c) ↔ command.IsFilled p := by
  have ha := exists_mapM (l := command.args) (f := (Template.renderString · p)) (r := fun _ => True)
  have he := SortedMap.exists_traverse (m := command.env) (f := (Template.renderString · p))
  have hd := exists_option_mapM (o := command.workingDirectory) (f := (Template.renderString · p))
  simp only [and_true, implies_true, exists_renderString] at ha he hd
  rw [CommandSpec.IsFilled, ← ha, ← he, ← hd]
  simp [renderCommand, bind_eq_ok, pure, Except.pure]

theorem exists_renderValue {argument : Json} :
    (∃ value, Template.renderValue argument p = .ok value ∧ value.isScalar) ↔
      FillsArgument p argument := by
  cases argument
  case string template =>
    cases he : Template.exactPlaceholder template.toList
    case none =>
      simp only [Template.renderValue, FillsArgument, he, ← exists_renderString]
      cases Template.renderString template p <;> simp [Except.map, Json.isScalar]
    case some path =>
      simp only [Template.renderValue, FillsArgument, he, HasScalar, Template.lookup]
      cases Template.descend p (Template.components path) <;> simp
  all_goals simp [Template.renderValue, FillsArgument]

theorem validateExcelSpec_eq_ok {excel : ExcelMacroSpec} : validateExcelSpec excel true = .ok () ↔
    (¬isBlank excel.workbookPath ∧ ¬isBlank excel.macroName) ∧
      (∀ name ∈ excel.moduleName,
        ¬isBlank name ∧ ¬isQualified name ∧ ¬isQualified excel.macroName) ∧
      excel.args.length ≤ 30 ∧ ∀ argument ∈ excel.args, argument.isScalar := by
  have hn : excel.moduleName.forM (validateExcelNames · excel.macroName true) = .ok () ↔
      ∀ name ∈ excel.moduleName,
        ¬isBlank name ∧ ¬isQualified name ∧ ¬isQualified excel.macroName := by
    cases excel.moduleName
    case none => simp [pure, Except.pure]
    case some name => simp [validateExcelNames, ite_error_eq_ok]
  rw [← hn, validateExcelSpec, ite_error_eq_ok, bind_eq_ok]
  simp only [ite_error_eq_ok, and_true, exists_and_right]
  have hu {x : Except String Unit} : (∃ u, x = .ok u) ↔ x = .ok () :=
    ⟨fun ⟨_, h⟩ => h, fun h => ⟨_, h⟩⟩
  simp only [hu, Bool.or_eq_true, not_or, not_lt, List.any_eq_true, not_exists, not_and,
    Bool.not_eq_true', Bool.not_eq_false]

theorem mapM_renderString {o r : Option String} :
    o.mapM (Template.renderString · p) = .ok r ↔ (∀ t ∈ o, Fills p t) ∧ r = o.map (filled p) := by
  cases o
  case none => simp [pure, Except.pure, eq_comm]
  case some t =>
    simp only [Option.mapM_some, map_eq_ok, renderString_eq_ok]
    simp [eq_comm]

theorem exists_renderExcel {excel : ExcelMacroSpec} (hl : excel.args.length ≤ 30) :
    (∃ e, renderExcel excel p = .ok e) ↔ excel.IsFilled p := by
  have ha := exists_mapM (l := excel.args) (f := (Template.renderValue · p))
    (r := fun value => value.isScalar)
  have hn {args : List Json} : ¬(args.any fun argument => !argument.isScalar) = true ↔
      ∀ value ∈ args, value.isScalar := by simp
  simp only [exists_renderValue, ← hn] at ha
  simp only [renderExcel, bind_eq_ok, ite_error_eq_ok, renderString_eq_ok, mapM_renderString,
    pure, Except.pure, Except.ok.injEq]
  constructor
  case mp =>
    rintro ⟨_, args, hf, hs, _, ⟨hw, rfl⟩, _, ⟨hm, rfl⟩, _, ⟨hc, rfl⟩, _, hv, rfl⟩
    obtain ⟨hb, hq, _⟩ := validateExcelSpec_eq_ok.mp hv
    exact {
      args          := ha.mp ⟨args, hf, hs⟩
      workbookPath  := hw
      moduleName    := hm
      macroName     := hc
      isNamed       := hb
      isUnqualified := fun template ht => hq _ (Option.mem_map_of_mem _ ht)
    }
  case mpr =>
    intro h
    obtain ⟨args, hf, hs⟩ := ha.mpr h.args
    refine ⟨_, args, hf, hs, _, ⟨h.workbookPath, rfl⟩, _, ⟨h.moduleName, rfl⟩, _,
      ⟨h.macroName, rfl⟩, (), ?_, rfl⟩
    refine validateExcelSpec_eq_ok.mpr ⟨h.isNamed, ?_, (length_of_mapM hf).trans_le hl, hn.mp hs⟩
    intro name hm
    obtain ⟨template, ht, he⟩ := Option.mem_map.mp hm
    exact he ▸ h.isUnqualified template ht

theorem exists_renderExecutor {executor : ExecutorSpec}
    (hl : ∀ excel, executor = .excelMacro excel → excel.args.length ≤ 30) :
    (∃ e, renderExecutor executor p = .ok e) ↔ executor.IsFilled p := by
  cases executor
  case command command =>
    simp [renderExecutor, map_eq_ok, ExecutorSpec.IsFilled, ← exists_renderCommand]
  case excelMacro excel =>
    simp [renderExecutor, map_eq_ok, ExecutorSpec.IsFilled, ← exists_renderExcel (hl excel rfl)]

namespace Runtime

variable {rt : Runtime} {hasCollection : Bool} {document : BlueprintDocument}
  {parameters : ParametersDocument} {defaults : PolicyDefaults}
  {encrypted : Sealed ResolvedScheduleSnapshot}

-- What is known of a schedule without a collection that the API has accepted.
theorem resolveAndEncrypt_eq_ok
    (h : rt.resolveAndEncrypt false document parameters defaults = .ok encrypted) :
    ∃ resolved, encrypted = some resolved ∧ rt.validateBlueprint resolved.blueprint = .ok () ∧
      resolved.blueprint.executor = document.blueprint.executor ∧
      resolved.blueprint.parameterBindings = document.blueprint.parameterBindings ∧
      resolved.baseParameters = parameters.parameters ∧ parameters.parameters.isObject ∧
      (document.blueprint.parameterBindings.isEmpty → rt.validateParameters
        resolved.blueprint.parametersSchema parameters.parameters = .ok ()) := by
  simp only [resolveAndEncrypt, parseBlueprintWithDefaults, bind_eq_ok, ite_error_eq_ok, pure,
    Except.pure, Except.ok.injEq] at h
  have ⟨blueprint, ⟨_, hv, hb⟩, ho, h⟩ := h
  have ho : parameters.parameters.isObject := by simpa using ho
  cases hb
  split at h
  case isTrue =>
    have ⟨_, hp, he⟩ := bind_eq_ok.mp h
    cases he
    exact ⟨_, rfl, hv, rfl, rfl, rfl, ho, fun _ => hp⟩
  case isFalse hn =>
    cases h
    exact ⟨_, rfl, hv, rfl, rfl, rfl, ho, fun hm => absurd hm hn⟩

-- The number of arguments of a macro is checked with its blueprint.
theorem args_of_validateBlueprint {blueprint : Blueprint} {excel : ExcelMacroSpec}
    (h : rt.validateBlueprint blueprint = .ok ()) (he : blueprint.executor = .excelMacro excel) :
    excel.args.length ≤ 30 := by
  simp only [validateBlueprint, ite_error_eq_ok, bind_eq_ok, he] at h
  have ⟨_, _, _, _, hv, _⟩ := h
  simp only [validateExcelSpec, ite_error_eq_ok, bind_eq_ok] at hv
  have ⟨_, _, _, hl, _⟩ := hv
  exact not_lt.mp hl

variable {resolved : ResolvedScheduleSnapshot} {base : Json}

theorem exists_resolveSnapshot (labels : BTreeMap String) (h : base.isObject)
    (hl : ∀ excel, resolved.blueprint.executor = .excelMacro excel → excel.args.length ≤ 30)
    (hp : resolved.blueprint.parameterBindings.isEmpty →
      rt.validateParameters resolved.blueprint.parametersSchema base = .ok ()) :
    (∃ snapshot, rt.resolveSnapshot resolved base labels = .ok snapshot) ↔
      if resolved.blueprint.parameterBindings.isEmpty then
        resolved.blueprint.executor.IsFilled base
      else
        ∀ name ∈ resolved.blueprint.parameterBindings.keys, ¬base.containsKey name := by
  simp only [resolveSnapshot, ite_error_eq_ok, ← exists_renderExecutor hl]
  split
  case isTrue hb => simp [h, hp hb, bind_eq_ok, pure, Except.pure]
  case isFalse hb => simp [h, ite_error_eq_ok]

theorem accepted_schedules_fire_iff (rt : Runtime) (document : BlueprintDocument)
    (parameters : ParametersDocument) (defaults : PolicyDefaults) (schedule : ScheduleRecord)
    (triggerKind : TriggerKind) (scheduledAt : Time) (idempotencyKey : Option String) (id : Uuid)
    (h : rt.resolveAndEncrypt false document parameters defaults = .ok schedule.encryptedSnapshot)
    (he : schedule.enabled) :
    (∃ run, rt.buildRunFromSchedule schedule (.object []) triggerKind scheduledAt idempotencyKey
      id = .ok run) ↔
      if document.blueprint.parameterBindings.isEmpty then
        document.blueprint.executor.IsFilled parameters.parameters
      else
        ∀ name ∈ document.blueprint.parameterBindings.keys,
          ¬parameters.parameters.containsKey name := by
  have ⟨resolved, hr, hv, hx, hb, hp, ho, hs⟩ := resolveAndEncrypt_eq_ok h
  have hl (excel : ExcelMacroSpec) (hm : resolved.blueprint.executor = .excelMacro excel) :
      excel.args.length ≤ 30 := args_of_validateBlueprint hv hm
  rw [← hb] at hs
  rw [← hx, ← hb, ← exists_resolveSnapshot schedule.requiredLabels ho hl hs]
  simp [buildRunFromSchedule, he, hr, hp, mergeParameters_empty ho, bind_eq_ok, pure, Except.pure]

end Runtime

end Blueprints

namespace Sample

def named : String := "\x7b\x7bparams.name\x7d\x7d"

-- A blueprint without bindings and with an empty schema.
def greeting (args : List String) : Blueprints.BlueprintDocument where
  blueprint := {
    apiVersion        := "scheduler/v1"
    executor          := .command ⟨"echo", args, .empty, none⟩
    parametersSchema  := .object []
    parameterBindings := .empty
    requiredLabels    := .empty
    policy            := ⟨1, 60, 1, 60⟩
  }
  setsMaxAttempts := true
  setsTimeout     := true
  sourceVersion   := none

def greetingSchedule (args : List String) : Blueprints.ScheduleRecord where
  id                := 1
  enabled           := true
  requiredLabels    := .empty
  encryptedSnapshot := some {
    blueprint               := (greeting args).blueprint
    baseParameters          := .object []
    blueprintSourceVersion  := none
    parametersSourceVersion := none
  }

end Sample

namespace Blueprints.Runtime

open Sample

theorem accepted_schedules_fire_iff_constant : ∃ run,
    lenient.buildRunFromSchedule (greetingSchedule ["hello"]) (.object []) .manual 0 none 7 =
      .ok run := by
  refine (accepted_schedules_fire_iff lenient (greeting ["hello"]) ⟨.object [], none⟩ ⟨3, 3600⟩
    (greetingSchedule ["hello"]) .manual 0 none 7 rfl rfl).mpr ?_
  have hs : Template.segments "hello".toList = [.literal "hello".toList] := by decide +kernel
  have hf : Fills (.object []) "hello" := by
    rw [Fills, hs]
    simp
  exact ⟨by simpa using hf, nofun, nofun⟩

-- The schema does not require the parameter that the argument is made of.
theorem accepted_schedule_does_not_fire :
    lenient.resolveAndEncrypt false (greeting [named]) ⟨.object [], none⟩ ⟨3, 3600⟩ =
      .ok (greetingSchedule [named]).encryptedSnapshot ∧
    (lenient.buildRunFromSchedule (greetingSchedule [named]) (.object []) .manual 0 none
      7).toOption.isNone :=
  ⟨rfl, by decide +kernel⟩

end Blueprints.Runtime

end Scheduler
