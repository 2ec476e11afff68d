import TaskScheduler.Blueprint.Bindings

namespace Scheduler

namespace Blueprints

structure Blueprint where
  apiVersion        : String
  executor          : ExecutorSpec
  parametersSchema  : Json
  parameterBindings : BTreeMap ParameterBinding
  requiredLabels    : BTreeMap String
  policy            : ExecutionPolicy

structure ResolvedScheduleSnapshot where
  blueprint               : Blueprint
  baseParameters          : Json
  blueprintSourceVersion  : Option String
  parametersSourceVersion : Option String

-- What an agent needs to render the executor when it has resolved its bindings.
structure LateBindingSnapshot where
  executorTemplate : ExecutorSpec
  parametersSchema : Json
  parameters       : Json
  bindings         : BTreeMap ParameterBinding

structure ExecutionSnapshot where
  executor                : ExecutorSpec
  policy                  : ExecutionPolicy
  requiredLabels          : BTreeMap String
  blueprintDigest         : String
  parametersDigest        : String
  parameters              : Option Json
  sensitiveParameterPaths : List String
  lateBindings            : Option LateBindingSnapshot

def hasPlaceholder (text : String) : Bool :=
  (Text.split? Template.opening text.toList).isSome

def isQualified (text : String) : Bool :=
  text.toList.any fun c => c = '.' || c = '!'

-- The checks of the names of a macro that stands in a module.
def validateExcelNames (moduleName macroName : String) (rendered : Bool) : Except String Unit :=
  if isBlank moduleName then
    .error "Excel module_name cannot be blank"
  else if (rendered || !hasPlaceholder moduleName) && isQualified moduleName then
    .error "Excel module_name must be an unqualified standard module name"
  else if (rendered || !hasPlaceholder macroName) && isQualified macroName then
    .error "Excel macro_name must be unqualified when module_name is set"
  else
    .ok ()

def validateExcelSpec (excel : ExcelMacroSpec) (rendered : Bool) : Except String Unit :=
  if isBlank excel.workbookPath || isBlank excel.macroName then
    .error "Excel workbook path and macro name are required"
  else do
    excel.moduleName.forM (validateExcelNames · excel.macroName rendered)
    if 30 < excel.args.length then
      .error "Excel Application.Run supports at most 30 arguments"
    else if excel.args.any fun argument => !argument.isScalar then
      .error ("Excel arguments must be JSON strings, numbers, booleans, null, or parameter " ++
        "expressions")
    else
      .ok ()

def renderCommand (command : CommandSpec) (parameters : Json) : Except String CommandSpec := do
  let args ← command.args.mapM (Template.renderString · parameters)
  let env ← command.env.traverse (Template.renderString · parameters)
  let workingDirectory ← command.workingDirectory.mapM (Template.renderString · parameters)
  return { program := command.program, args, env, workingDirectory }

def renderExcel (excel : ExcelMacroSpec) (parameters : Json) : Except String ExcelMacroSpec := do
  let args ← excel.args.mapM (Template.renderValue · parameters)
  if args.any fun argument => !argument.isScalar then
    .error "resolved Excel arguments must be JSON scalar values"
  else
    let workbookPath ← Template.renderString excel.workbookPath parameters
    let moduleName ← excel.moduleName.mapM (Template.renderString · parameters)
    let macroName ← Template.renderString excel.macroName parameters
    let rendered := { excel with workbookPath, moduleName, macroName, args }
    validateExcelSpec rendered true
    return rendered

def renderExecutor (executor : ExecutorSpec) (parameters : Json) : Except String ExecutorSpec :=
  match executor with
  | .command command  => .command <$> renderCommand command parameters
  | .excelMacro excel => .excelMacro <$> renderExcel excel parameters

namespace Sensitive

def replaceChar (c : Char) (replacement text : List Char) : List Char :=
  text.flatMap fun d => if d = c then replacement else [d]

def escapePointerSegment (segment : String) : List Char :=
  replaceChar '/' ['~', '1'] <| replaceChar '~' ['~', '0'] segment.toList

def markers : List String :=
  ["password", "passwd", "passphrase", "secret", "token", "credential", "apikey", "accesskey",
    "privatekey"]

def sensitiveName (name : String) : Bool :=
  let normalized := (name.toList.filter Char.isAlphanum).map Char.toLower
  markers.any fun marker => marker.toList <:+: normalized

def annotated (schema : Json) : Bool :=
  (schema.get? "writeOnly" matches some (.bool true)) ||
    (schema.get? "x-sensitive" matches some (.bool true)) ||
      (match schema.get? "format" with
      | some (.string format) => format = "password" || format = "secret"
      | _                     => false)

-- `schema.get("properties").and_then(Value::as_object)`
def properties (schema : Json) : List (String × Json) :=
  match schema.get? "properties" with
  | some (.object members) => Json.entries members
  | _                      => []

theorem sizeOf_properties_lt {schema value : Json} {name : String}
    (h : (name, value) ∈ properties schema) : sizeOf value < sizeOf schema := by
  unfold properties at h
  split at h
  case h_2 => contradiction
  case h_1 members hg =>
    cases schema <;> try contradiction
    case object fields =>
      have hl := Json.sizeOf_lookup_lt hg
      have hm := Json.sizeOf_lookup_lt (Json.mem_entries.mp h)
      simp at hl ⊢
      omega

-- The paths are JSON pointers.
def collect (schema : Json) (path : List Char) (name : Option String) : List (List Char) :=
  if annotated schema || name.any sensitiveName then
    if path.isEmpty then [] else [path]
  else
    (properties schema).attach.flatMap fun ⟨(name, property), h⟩ =>
      have := sizeOf_properties_lt h
      collect property (path ++ '/' :: escapePointerSegment name) (some name)
termination_by sizeOf schema

end Sensitive

-- `object.insert` for every value.
def insertAll (members : List (String × Json)) (values : BTreeMap Json) : List (String × Json) :=
  values.entries.foldl (fun members e => SortedMap.insertEntry e.1 e.2 members) members

-- A sorted vector that is deduplicated has every entry once.
def sensitiveParameterPaths (schema : Json) (bindings : BTreeMap ParameterBinding) : List String :=
  let paths := Sensitive.collect schema [] none ++
    (bindings.entries.filter (·.2.sensitive)).map ('/' :: Sensitive.escapePointerSegment ·.1)
  (paths.map String.ofList).insertionSort (· ≤ ·) |>.dedup

-- The JSON schema library, whose validators tell the schema paths of the errors, and the digests of
-- serialized documents.
structure Runtime where
  validatorFor     : (schema : Json) → Option ((parameters : Json) → List String)
  parametersDigest : Json → String
  blueprintDigest  : Blueprint → String

-- The report leaves out where in the parameters an error is.
def describeError (schemaPath : String) : String :=
  let components := schemaPath.toList.splitOn '/'
  let keyword := (components.reverse.find? (· ≠ [])).elim "unknown" String.ofList
  let place := if schemaPath = "" then "<root>" else schemaPath
  s!"`{keyword}` validation failed (schema path {place})"

namespace Runtime

variable (rt : Runtime)

def validateParameters (schema parameters : Json) : Except String Unit :=
  match rt.validatorFor schema with
  | none        => .error "invalid parameters schema"
  | some errors =>
    if (errors parameters).isEmpty then
      .ok ()
    else
      let report := "; ".intercalate ((errors parameters).map describeError)
      .error s!"parameters failed validation: {report}"

def validateBlueprint (blueprint : Blueprint) : Except String Unit :=
  if blueprint.apiVersion ≠ "scheduler/v1" then
    .error "unsupported blueprint api_version; expected scheduler/v1"
  else if blueprint.policy.maxAttempts = 0 then
    .error "max_attempts must be at least one"
  else if blueprint.policy.timeoutSeconds = 0 then
    .error "timeout_seconds must be at least one"
  else do
    match blueprint.executor with
    | .command command  =>
      if isBlank command.program then
        .error "command program cannot be empty"
    | .excelMacro excel => validateExcelSpec excel false
    validateParameterBindings blueprint.parameterBindings blueprint.executor
    if (rt.validatorFor blueprint.parametersSchema).isNone then
      .error "invalid parameters_schema"

-- The snapshot with an executor that is rendered, or is to be rendered with the late bindings.
def snapshot (blueprint : Blueprint) (parameters : Json) (scheduleLabels : BTreeMap String)
    (executor : ExecutorSpec) (lateBindings : Option LateBindingSnapshot) : ExecutionSnapshot where
  executor
  policy                  := blueprint.policy
  requiredLabels          := blueprint.requiredLabels.extend scheduleLabels
  blueprintDigest         := rt.blueprintDigest blueprint
  parametersDigest        := rt.parametersDigest parameters
  parameters              := some parameters
  sensitiveParameterPaths :=
    sensitiveParameterPaths blueprint.parametersSchema blueprint.parameterBindings
  lateBindings

def resolveSnapshot (resolved : ResolvedScheduleSnapshot) (parameters : Json)
    (scheduleLabels : BTreeMap String) : Except String ExecutionSnapshot :=
  let blueprint := resolved.blueprint
  if !parameters.isObject then
    .error "parameters must be a JSON object"
  else if blueprint.parameterBindings.isEmpty then do
    rt.validateParameters blueprint.parametersSchema parameters
    let executor ← renderExecutor blueprint.executor parameters
    return rt.snapshot blueprint parameters scheduleLabels executor none
  else if blueprint.parameterBindings.keys.any parameters.containsKey then
    .error "saved parameters must not contain values for bound parameters"
  else
    .ok <| rt.snapshot blueprint parameters scheduleLabels blueprint.executor <| some {
      executorTemplate := blueprint.executor
      parametersSchema := blueprint.parametersSchema
      parameters
      bindings         := blueprint.parameterBindings
    }

def resolveParameterBindings (snapshot : ExecutionSnapshot) (values : BTreeMap Json) :
    Except String ExecutionSnapshot :=
  match snapshot.lateBindings with
  | none      =>
    if values.isEmpty then
      .ok snapshot
    else
      .error "resolved binding values were supplied for an execution without bindings"
  | some late =>
    if values.entries.length ≠ late.bindings.entries.length ||
      late.bindings.keys.any (fun name => (values.get? name).isNone) ||
      values.keys.any (fun name => (late.bindings.get? name).isNone) then
      .error "resolved parameter bindings do not match the execution snapshot"
    else
      match late.parameters with
      | .object members => do
        let parameters := .object (insertAll members values)
        rt.validateParameters late.parametersSchema parameters
        let executor ← renderExecutor late.executorTemplate parameters
        return { snapshot with executor, lateBindings := none }
      | _ => .error "bound execution parameters must be a JSON object"

end Runtime

end Blueprints

end Scheduler
