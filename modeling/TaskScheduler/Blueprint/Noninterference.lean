import TaskScheduler.Blueprint.Snapshots

namespace Scheduler

namespace Blueprints

open Fallible

def IsSensitive (bindings : BTreeMap ParameterBinding) (name : String) : Prop :=
  ∃ binding, (name, binding) ∈ bindings.entries ∧ binding.sensitive

-- The parameters differ at most in those that are secret.
def AgreeExcept (secret : String → Prop) (p p' : Json) : Prop :=
  ∀ name, ¬secret name → p.get? name = p'.get? name

-- The executors differ at most in environment values or Excel arguments.
def ExecutorSpec.Matches : ExecutorSpec → ExecutorSpec → Prop
  | command c, command c'       => c' = { c with env := c'.env } ∧ c'.env.keys = c.env.keys
  | excelMacro e, excelMacro e' => e' = { e with args := e'.args } ∧ e'.args.length = e.args.length
  | _, _                        => False

theorem ExecutorSpec.Matches.refl (e : ExecutorSpec) : e.Matches e := by
  cases e <;> exact ⟨rfl, rfl⟩

theorem lookup_insertAll {members : List (String × Json)} {values : BTreeMap Json} {name : String} :
    (insertAll members values).lookup name = (values.get? name).or (members.lookup name) :=
  SortedMap.lookup_foldl_insertEntry

variable {secret : String → Prop} {p p' : Json} {path : List Char} {template : String}

namespace AgreeExcept

theorem descend_eq (h : AgreeExcept secret p p')
    (hs : ∀ name, secret name → isWithin name.toList path = false) :
    Template.descend p (Template.components path) =
      Template.descend p' (Template.components path) := by
  cases hc : Template.components path
  case nil => simp [Template.components, List.splitOn_ne_nil] at hc
  case cons name names =>
    have hn : ¬secret name := fun hn => by
      have hw : isWithin name.toList path := isWithin_of_components <| by simp [hc]
      simp [hs name hn] at hw
    simp only [Template.descend, List.foldlM_cons, h name hn]

theorem rendering_eq (h : AgreeExcept secret p p')
    (hs : ∀ name, secret name → templateReferences template name = false) :
    Template.rendering template.toList p = Template.rendering template.toList p' := by
  have hs (name : String) (hn : secret name) := references_eq.symm.trans (hs name hn)
  simp only [List.any_eq_false] at hs
  unfold Template.rendering
  generalize Template.segments template.toList = segments at hs ⊢
  induction segments
  case nil => rfl
  case cons segment segments hi =>
    have ht : segment.text p = segment.text p' := by
      cases segment
      case literal => rfl
      case unterminated => rfl
      case placeholder path =>
        have hw (name : String) (hn : secret name) :
            isWithin name.toList (Template.trim path) = false := by
          simpa using hs name hn _ List.mem_cons_self
        simp only [Template.Segment.text, h.descend_eq hw]
    simp only [Template.Segment.concat, ht]
    rw [hi fun name hn s hm => hs name hn s (List.mem_cons_of_mem _ hm)]

theorem renderString_eq (h : AgreeExcept secret p p')
    (hs : ∀ name, secret name → templateReferences template name = false) {text text' : String}
    (ht : Template.renderString template p = .ok text)
    (ht' : Template.renderString template p' = .ok text') : text = text' := by
  have he := congrArg (Option.map String.ofList) (h.rendering_eq hs)
  rw [← Template.renderString_toOption, ← Template.renderString_toOption, ht, ht'] at he
  exact Option.some_inj.mp he

theorem renderCommand_eq (h : AgreeExcept secret p p') {command c c' : CommandSpec}
    (hs : ∀ name, secret name → ∀ template ∈ (ExecutorSpec.command command).exposed,
      templateReferences template name = false)
    (hc : renderCommand command p = .ok c) (hc' : renderCommand command p' = .ok c') :
    c' = { c with env := c'.env } ∧ c'.env.keys = c.env.keys := by
  simp only [renderCommand, bind_eq_ok, pure, Except.pure, Except.ok.injEq] at hc hc'
  have ⟨args, ha, env, he, directory, hd, hc⟩ := hc
  have ⟨args', ha', env', he', directory', hd', hc'⟩ := hc'
  have hr (template) (hm : template ∈ (ExecutorSpec.command command).exposed) (text text' : String)
      (ht : Template.renderString template p = .ok text)
      (ht' : Template.renderString template p' = .ok text') : text = text' :=
    h.renderString_eq (fun name hn => hs name hn template hm) ht ht'
  have hargs : args = args' := List.forall₂_eq_eq_eq ▸ mapM_eq_ok (r := (· = ·))
    (fun template hm => hr template <| by simp [ExecutorSpec.exposed, hm]) ha ha'
  have hdirectory : directory = directory' := option_mapM_eq_ok
    (fun template hm => hr template <| List.mem_append_right _ hm) hd hd'
  rw [← hc, ← hc', hargs, hdirectory]
  exact ⟨rfl, (SortedMap.keys_traverse he').trans (SortedMap.keys_traverse he).symm⟩

theorem renderExcel_eq (h : AgreeExcept secret p p') {excel e e' : ExcelMacroSpec}
    (hs : ∀ name, secret name → ∀ template ∈ (ExecutorSpec.excelMacro excel).exposed,
      templateReferences template name = false)
    (he : renderExcel excel p = .ok e) (he' : renderExcel excel p' = .ok e') :
    e' = { e with args := e'.args } ∧ e'.args.length = e.args.length := by
  rw [renderExcel, bind_eq_ok] at he he'
  have ⟨args, ha, he⟩ := he
  have ⟨args', ha', he'⟩ := he'
  split at he
  case isTrue => contradiction
  split at he'
  case isTrue => contradiction
  simp only [bind_eq_ok, pure, Except.pure, Except.ok.injEq] at he he'
  have ⟨workbook, hw, modul, hm, macr, hn, _, _, he⟩ := he
  have ⟨workbook', hw', modul', hm', macr', hn', _, _, he'⟩ := he'
  have hr (template) (hm : template ∈ (ExecutorSpec.excelMacro excel).exposed)
      (text text' : String) (ht : Template.renderString template p = .ok text)
      (ht' : Template.renderString template p' = .ok text') : text = text' :=
    h.renderString_eq (fun name hn => hs name hn template hm) ht ht'
  have hworkbook : workbook = workbook' := hr _ (by simp [ExecutorSpec.exposed]) _ _ hw hw'
  have hmacro : macr = macr' := hr _ (by simp [ExecutorSpec.exposed]) _ _ hn hn'
  have hmodule : modul = modul' := option_mapM_eq_ok
    (fun template hm => hr template <| List.mem_append_left _ <| List.mem_cons_of_mem _ hm) hm hm'
  have hl : args.length = args'.length :=
    (mapM_eq_ok (r := fun _ _ => True) (fun _ _ _ _ _ _ => trivial) ha ha').length_eq
  rw [← he, ← he', hworkbook, hmacro, hmodule]
  exact ⟨rfl, hl.symm⟩

theorem renderExecutor_matches (h : AgreeExcept secret p p') {executor e e' : ExecutorSpec}
    (hs : ∀ name, secret name → ∀ template ∈ executor.exposed,
      templateReferences template name = false)
    (he : renderExecutor executor p = .ok e) (he' : renderExecutor executor p' = .ok e') :
    e.Matches e' := by
  cases executor
  case command command =>
    have ⟨c, hc, he⟩ := map_eq_ok.mp he
    have ⟨c', hc', he'⟩ := map_eq_ok.mp he'
    rw [← he, ← he']
    exact h.renderCommand_eq hs hc hc'
  case excelMacro excel =>
    have ⟨c, hc, he⟩ := map_eq_ok.mp he
    have ⟨c', hc', he'⟩ := map_eq_ok.mp he'
    rw [← he, ← he']
    exact h.renderExcel_eq hs hc hc'

end AgreeExcept

namespace Runtime

variable {rt : Runtime} {resolved : ResolvedScheduleSnapshot} {parameters : Json}
  {labels : BTreeMap String} {snapshot r : ExecutionSnapshot} {values : BTreeMap Json}

theorem resolveSnapshot_lateBindings {late : LateBindingSnapshot}
    (h : rt.resolveSnapshot resolved parameters labels = .ok snapshot)
    (hl : snapshot.lateBindings = some late) :
    late.executorTemplate = resolved.blueprint.executor ∧
      late.bindings = resolved.blueprint.parameterBindings := by
  simp only [resolveSnapshot] at h
  split at h
  case isTrue => contradiction
  split at h
  case isTrue =>
    simp only [bind_eq_ok, pure, Except.pure, Except.ok.injEq] at h
    have ⟨_, _, _, _, h⟩ := h
    rw [← h] at hl
    contradiction
  split at h
  case isTrue => contradiction
  case isFalse =>
    cases h
    cases hl
    exact ⟨rfl, rfl⟩

-- The values are written over the parameters, and the executor is rendered with the result.
theorem resolveParameterBindings_cases (h : rt.resolveParameterBindings snapshot values = .ok r) :
    (snapshot.lateBindings = none ∧ values.isEmpty ∧ r = snapshot) ∨
      ∃ late members executor,
        snapshot.lateBindings = some late ∧ late.parameters = .object members ∧
        renderExecutor late.executorTemplate (.object (insertAll members values)) = .ok executor ∧
        r = { snapshot with executor, lateBindings := none } := by
  unfold resolveParameterBindings at h
  split at h
  case h_1 hl =>
    split at h
    case isTrue hv =>
      cases h
      exact .inl ⟨hl, hv, rfl⟩
    case isFalse => contradiction
  case h_2 late hl =>
    split at h
    case isTrue => contradiction
    split at h
    case h_2 => contradiction
    case h_1 members hm =>
      simp only [bind_eq_ok, pure, Except.pure, Except.ok.injEq] at h
      have ⟨_, _, executor, he, h⟩ := h
      exact .inr ⟨late, members, executor, hl, hm, he, h.symm⟩

theorem agreeExcept_insertAll {secret : String → Prop} {values values' : BTreeMap Json}
    (members : List (String × Json))
    (h : ∀ name, ¬secret name → values.get? name = values'.get? name) :
    AgreeExcept secret (.object (insertAll members values)) (.object (insertAll members values')) :=
  fun name hn => by simp only [Json.get?, lookup_insertAll, h name hn]

theorem sensitive_bindings_confined (rt : Runtime) (resolved : ResolvedScheduleSnapshot)
    (parameters : Json) (labels : BTreeMap String) (snapshot r r' : ExecutionSnapshot)
    (values values' : BTreeMap Json)
    (hv : validateParameterBindings resolved.blueprint.parameterBindings
      resolved.blueprint.executor = .ok ())
    (hs : rt.resolveSnapshot resolved parameters labels = .ok snapshot)
    (hd : ∀ name, ¬IsSensitive resolved.blueprint.parameterBindings name →
      values.get? name = values'.get? name)
    (h : rt.resolveParameterBindings snapshot values = .ok r)
    (h' : rt.resolveParameterBindings snapshot values' = .ok r') :
    r' = { r with executor := r'.executor } ∧ r.executor.Matches r'.executor := by
  cases resolveParameterBindings_cases h
  case inl h =>
    have ⟨hl, he, h⟩ := h
    cases resolveParameterBindings_cases h'
    case inl h' =>
      have ⟨_, _, h'⟩ := h'
      rw [h, h']
      exact ⟨rfl, .refl _⟩
    case inr h' =>
      have ⟨_, _, _, hl', _⟩ := h'
      exact nomatch hl.symm.trans hl'
  case inr h =>
    have ⟨late, members, executor, hl, hp, he, h⟩ := h
    cases resolveParameterBindings_cases h'
    case inl h' =>
      have ⟨hl', _⟩ := h'
      exact nomatch hl.symm.trans hl'
    case inr h' =>
      have ⟨late', members', executor', hl', hp', he', h'⟩ := h'
      cases hl.symm.trans hl'
      cases hp.symm.trans hp'
      have ⟨ht, hb⟩ := resolveSnapshot_lateBindings hs hl
      rw [ht] at he he'
      rw [h, h']
      have ha := agreeExcept_insertAll members hd
      refine ⟨rfl, ha.renderExecutor_matches ?_ he he'⟩
      intro name ⟨binding, hm, hn⟩ template ht
      exact templateReferences_of_valid hv hm hn ht

end Runtime

end Blueprints

namespace Sample

open Blueprints

def tokenBinding : Blueprints.ParameterBinding where
  source    := .environment
  name      := "TASK_TOKEN"
  valueType := .string
  sensitive := true

-- The token goes into the environment of the process.
def tokenRunner : ExecutorSpec := .command {
  program          := "runner"
  args             := ["--verbose"]
  env              := ⟨[("TOKEN", "Bearer \x7b\x7bparams.token\x7d\x7d")], by decide⟩
  workingDirectory := none
}

def tokenSchedule : Blueprints.ResolvedScheduleSnapshot where
  blueprint := {
    apiVersion        := "scheduler/v1"
    executor          := tokenRunner
    parametersSchema  := .object []
    parameterBindings := ⟨[("token", tokenBinding)], by decide⟩
    requiredLabels    := .empty
    policy            := ⟨1, 60, 1, 60⟩
  }
  baseParameters          := .object []
  blueprintSourceVersion  := none
  parametersSourceVersion := none

-- Every value is valid.
def lenient : Runtime where
  validatorFor _     := some fun _ => []
  parametersDigest _ := "parameters"
  blueprintDigest _  := "blueprint"

def tokenSnapshot : Blueprints.ExecutionSnapshot :=
  lenient.snapshot tokenSchedule.blueprint (.object []) .empty tokenRunner <| some {
    executorTemplate := tokenRunner
    parametersSchema := .object []
    parameters       := .object []
    bindings         := tokenSchedule.blueprint.parameterBindings
  }

def tokenValue (token : String) : BTreeMap Json :=
  SortedMap.empty.insert "token" (.string token)

end Sample

namespace Blueprints

open Sample

namespace Runtime

theorem sensitive_bindings_confined_token :
    (lenient.resolveParameterBindings tokenSnapshot (tokenValue "first")).toOption.isSome ∧
      (lenient.resolveParameterBindings tokenSnapshot (tokenValue "second")).toOption.isSome ∧
      ∀ r r', lenient.resolveParameterBindings tokenSnapshot (tokenValue "first") = .ok r →
        lenient.resolveParameterBindings tokenSnapshot (tokenValue "second") = .ok r' →
        r' = { r with executor := r'.executor } ∧ r.executor.Matches r'.executor := by
  refine ⟨by decide +kernel, by decide +kernel, fun r r' h h' => ?_⟩
  refine sensitive_bindings_confined lenient tokenSchedule (.object []) .empty tokenSnapshot r r'
    (tokenValue "first") (tokenValue "second") ?hv rfl ?hd h h'
  case hv => decide +kernel
  case hd =>
    intro name hn
    have ht : name ≠ "token" := fun ht => hn ⟨tokenBinding, by simp [ht, tokenSchedule], rfl⟩
    simp [tokenValue, SortedMap.get?, SortedMap.insert, SortedMap.lookup_insertEntry, ht]

end Runtime

end Blueprints

end Scheduler
