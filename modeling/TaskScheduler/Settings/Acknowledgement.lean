import TaskScheduler.Settings.Registry

namespace Scheduler

namespace Registry

variable {ρ ρ' : Registry} {a a' : RegisteredAgent} {id : String} {revision : Int} {error : Option String}

-- The settings of one agent are those of its document.
structure Follows (ρ : Registry) (a : RegisteredAgent) : Prop where
  applied  : a.appliedSettingsRevision ≤ a.desiredSettingsRevision
  document : ∃ d ∈ ρ.documents, d.key = .node a.id ∧ d.revision = a.desiredSettingsRevision
  error    : a.settingsError.isSome → a.appliedSettingsRevision < a.desiredSettingsRevision

structure Settled (ρ : Registry) : Prop where
  positive : ∀ d ∈ ρ.documents, 0 < d.revision
  follows  : ∀ a ∈ ρ.agents, ρ.Follows a

-- No agent disappears, and none goes back behind the settings that it has applied.
def Advances (ρ ρ' : Registry) : Prop :=
  ∀ a ∈ ρ.agents, ∃ a' ∈ ρ'.agents, a'.id = a.id ∧ a.appliedSettingsRevision ≤ a'.appliedSettingsRevision

theorem Settled.initial : Settled initial where
  positive d hd := by
    rcases hd with _ | ⟨_, _ | ⟨_, hd⟩⟩
    case head | tail.head => decide
    case tail.tail => exact absurd hd List.not_mem_nil
  follows a ha := absurd ha Table.not_mem_empty

-- The columns that have to do with settings.
def settings (a : RegisteredAgent) : String × Int × Int × Option String :=
  (a.id, a.desiredSettingsRevision, a.appliedSettingsRevision, a.settingsError)

theorem Follows.of_settings (h : ρ.Follows a) (hs : settings a' = settings a)
    (hd : ρ'.documents = ρ.documents) : ρ'.Follows a' := by
  obtain ⟨hi, hv, ha, he⟩ : a'.id = a.id ∧ a'.desiredSettingsRevision = a.desiredSettingsRevision ∧
      a'.appliedSettingsRevision = a.appliedSettingsRevision ∧ a'.settingsError = a.settingsError := by
    simpa [settings] using hs
  refine ⟨?_, ?_, ?_⟩
  case refine_1 => exact ha ▸ hv ▸ h.applied
  case refine_2 => exact hd ▸ hi ▸ hv ▸ h.document
  case refine_3 => exact he ▸ ha ▸ hv ▸ h.error

theorem Settled.of_same (h : ρ.Settled) (hs : ρ.agents.Same settings ρ'.agents)
    (hd : ρ'.documents = ρ.documents) : ρ'.Settled where
  positive       := hd ▸ h.positive
  follows _ ha' :=
    have ⟨a, ha, he⟩ := hs.exists_left ha'
    (h.follows a ha).of_settings he.symm hd

theorem Advances.of_same (hs : ρ.agents.Same settings ρ'.agents) : ρ.Advances ρ' := by
  intro a ha
  have ⟨a', ha', he⟩ := hs.exists_right ha
  have ⟨hi, _, hv, _⟩ : a'.id = a.id ∧ a'.desiredSettingsRevision = a.desiredSettingsRevision ∧
      a'.appliedSettingsRevision = a.appliedSettingsRevision ∧ a'.settingsError = a.settingsError := by
    simpa [settings] using he
  exact ⟨a', ha', hi, hv.ge⟩

theorem Advances.refl : ρ.Advances ρ :=
  fun a ha => ⟨a, ha, rfl, le_rfl⟩

section Upsert

variable {hostname : String} {labels : List (String × String)} {capacity running : Nat} {now : Time}
  {registration : AgentRegistration}

-- A known agent keeps its settings, a new one starts with the document that is there.
theorem upsertAgent_cases (h : ρ.upsertAgent id hostname labels capacity running now = .ok (registration, ρ')) :
    ∃ document row, ρ'.documents = ρ.documents.insertOrIgnore ⟨.node id, document, 1⟩ ∧
      ρ'.documents.get? (.node id) = some row ∧
      (ρ.agents.Same settings ρ'.agents ∨
        ∃ a, settings a = (id, row.revision, 0, none) ∧ ρ.agents.insert a = some ρ'.agents) := by
  simp only [upsertAgent] at h
  repeat' split at h
  case _ | _ => contradiction
  case _ row hr _ _ _ =>
    cases h
    refine ⟨_, row, rfl, hr, ?_⟩
    rcases ρ.agents.upsert_cases _ _ _ with hi | hu
    case inl => exact .inr ⟨_, rfl, hi⟩
    case inr => exact .inl <| hu ▸ .of_update rfl fun _ _ _ => rfl

theorem Settled.upsertAgent (h : ρ.Settled)
    (hu : ρ.upsertAgent id hostname labels capacity running now = .ok (registration, ρ')) : ρ'.Settled := by
  obtain ⟨document, row, hd, hr, hc⟩ := upsertAgent_cases hu
  have hp : ∀ d ∈ ρ'.documents, 0 < d.revision := by
    intro d hm
    have hg := Table.get?_of_mem hm
    rw [hd, Table.get?_insertOrIgnore] at hg
    split at hg
    case isFalse => exact h.positive d <| Table.mem_of_get? hg
    case isTrue =>
      cases hk : ρ.documents.get? (Keyed.key d) <;> simp only [hk, Option.getD, Option.some.injEq] at hg
      case none => simp [← hg]
      case some d' =>
        obtain rfl := hg
        exact h.positive d' <| Table.mem_of_get? hk
  have hk : ∀ d ∈ ρ.documents, d ∈ ρ'.documents := by
    intro d hm
    refine Table.mem_of_get? (k := Keyed.key d) ?_
    rw [hd, Table.get?_insertOrIgnore, Table.get?_of_mem hm]
    simp
  have hf : ∀ a ∈ ρ.agents, ρ'.Follows a := by
    intro a ha
    obtain ⟨ha, ⟨d, hm, hd⟩, he⟩ := h.follows a ha
    exact ⟨ha, ⟨d, hk d hm, hd⟩, he⟩
  refine ⟨hp, fun a' ha' => ?_⟩
  rcases hc with hs | ⟨a, hs, hi⟩
  case inl =>
    obtain ⟨a, ha, he⟩ := hs.exists_left ha'
    exact (hf a ha).of_settings he.symm rfl
  case inr =>
    rcases Table.mem_of_insert hi |>.mp ha' with ha | rfl
    case inl => exact hf a' ha
    case inr =>
      obtain ⟨rfl, hv, ha, he⟩ : a'.id = id ∧ a'.desiredSettingsRevision = row.revision ∧
        a'.appliedSettingsRevision = 0 ∧ a'.settingsError = none := by simpa [settings] using hs
      have hm := Table.mem_of_get? hr
      refine ⟨?_, ⟨row, hm, Table.key_of_get? hr, hv.symm⟩, by simp [he]⟩
      rw [ha, hv]
      exact (hp row hm).le

theorem Advances.upsertAgent
    (hu : ρ.upsertAgent id hostname labels capacity running now = .ok (registration, ρ')) :
    ρ.Advances ρ' := by
  have ⟨_, _, _, _, hc⟩ := upsertAgent_cases hu
  rcases hc with hs | ⟨a, _, hi⟩
  case inl => exact .of_same hs
  case inr => exact fun a ha => ⟨a, Table.mem_of_insert hi |>.mpr <| .inl ha, rfl, le_rfl⟩

end Upsert

section Acknowledge

variable {outcome : SettingsAckOutcome}

-- What is stored, and what is reported about it.
theorem settingsApplied_cases (h : ρ.settingsApplied id revision error = .ok (outcome, ρ')) :
    ρ'.documents = ρ.documents ∧
    ρ'.agents.rows.map settings = ρ.agents.rows.map (fun a =>
      settings <| if acknowledges id revision error a then acknowledge revision error a else a) ∧
    (outcome.status = .ignored → ρ'.agents = ρ.agents) ∧
    (outcome.status = .applied → ∃ d ∈ ρ.documents, d.key = .node id ∧ d.revision = revision ∧
      ∃ settings, d.document = some settings ∧
        outcome.appliedSettings = some { settings with revision }) := by
  simp only [settingsApplied] at h
  split at h
  case h_1 => contradiction
  case h_2 current hg =>
    split at h
    case isTrue hn =>
      cases h
      refine ⟨rfl, by simp [Table.update], fun _ => ?_, by rintro ⟨⟩⟩
      have hn : ∀ a ∈ ρ.agents, ¬acknowledges id revision error a := by
        simpa [Table.mem_rows] using hn
      apply Table.ext
      refine .trans (List.map_congr_left fun a ha => ?_) (List.map_id _)
      simp [hn a ha]
    case isFalse hn =>
      split at h
      case isTrue =>
        cases h
        exact ⟨rfl, by simp [Table.update], by rintro ⟨⟩, by rintro ⟨⟩⟩
      case isFalse he =>
        have he : error = none := by simpa using he
        repeat' split at h
        case _ | _ => contradiction
        case _ row hr _ settings hs =>
          cases h
          obtain ⟨a, ha, hk⟩ : ∃ a ∈ ρ.agents, acknowledges id revision error a := by
            simpa [Table.mem_rows] using hn
          have hi : a.id = id := by
            simp only [acknowledges, Bool.and_eq_true, decide_eq_true_eq] at hk
            exact hk.left.left
          have hc : current.appliedSettingsRevision = revision := by
            have ha : ρ.agents.get? id = some a := Table.get?_eq_some.mpr ⟨ha, hi⟩
            rw [Table.get?_update, ha, Option.map_some, if_pos hk, Option.some.injEq] at hg
            simp [← hg, acknowledge, he]
          have hr' := List.find?_some hr
          simp only [hc, Bool.and_eq_true, decide_eq_true_eq] at hr'
          refine ⟨rfl, ?_, by rintro ⟨⟩, fun _ => ⟨row, List.mem_of_find?_eq_some hr, hr'.left, hr'.right, settings, hs, ?_⟩⟩
          case refine_1 =>
            simp only [Table.update, List.map_map]
            refine List.map_congr_left fun b _ => ?_
            simp only [Function.comp_apply]
            generalize (if acknowledges id revision error b then acknowledge revision error b else b) = b'
            split <;> rfl
          case refine_2 => rw [hr'.right]

theorem Settled.settingsApplied (h : ρ.Settled)
    (hs : ρ.settingsApplied id revision error = .ok (outcome, ρ')) : ρ'.Settled := by
  have ⟨hd, ha, _⟩ := settingsApplied_cases hs
  refine ⟨hd ▸ h.positive, fun a' ha' => ?_⟩
  have hm : settings a' ∈ ρ'.agents.rows.map settings := List.mem_map_of_mem ha'
  rw [ha] at hm
  have ⟨a, hm, he⟩ := List.mem_map.mp hm
  refine .of_settings ?_ he.symm hd
  have hf := h.follows a hm
  split
  case isFalse => exact hf
  case isTrue hk =>
    simp only [acknowledges, Bool.and_eq_true, decide_eq_true_eq] at hk
    have ⟨⟨_, hv⟩, hk⟩ := hk
    refine ⟨?_, hf.document, fun he => ?_⟩
    case refine_1 =>
      cases error
      case none => exact hv.ge
      case some => exact hf.applied
    case refine_2 =>
      cases error
      case none => contradiction
      case some =>
        rw [← hv] at hk
        exact of_decide_eq_true hk

theorem Advances.settingsApplied (hs : ρ.settingsApplied id revision error = .ok (outcome, ρ')) :
    ρ.Advances ρ' := by
  have ⟨_, ha, _⟩ := settingsApplied_cases hs
  intro a hm
  have hm := List.mem_map_of_mem (f := fun a =>
    settings <| if acknowledges id revision error a then acknowledge revision error a else a) hm
  rw [← ha] at hm
  have ⟨a', ha', he⟩ := List.mem_map.mp hm
  refine ⟨a', ha', ?_, ?_⟩
  all_goals
    simp only [settings, Prod.mk.injEq] at he
  case refine_1 =>
    rw [he.left]
    split <;> rfl
  case refine_2 =>
    rw [he.right.right.left]
    split
    case isFalse => rfl
    case isTrue hk =>
      simp only [acknowledges, Bool.and_eq_true, decide_eq_true_eq] at hk
      cases error
      case none => exact of_decide_eq_true hk.right
      case some => rfl

end Acknowledge

section Update

variable {key : DocumentKey} {document : Option NodeSettings} {token : String} {now : Time} {new : Int}

theorem updateSettings_cases (h : ρ.updateSettings key revision document token now = .ok (new, ρ')) :
    (∃ d ∈ ρ.documents, d.key = key ∧ d.revision = revision) ∧
    ρ'.documents.rows = ρ.documents.rows.map (fun d => if d.key = key && d.revision = revision then
      { d with document, revision := d.revision + 1 } else d) ∧
    ρ'.agents.rows = ρ.agents.rows.map (fun a => if key = .node a.id then
      { a with desiredSettingsRevision := revision + 1, settingsError := none } else a) := by
  simp only [updateSettings] at h
  repeat' split at h
  case _ | _ | _ => contradiction
  case _ hn =>
    cases h
    refine ⟨by simpa [Table.mem_rows] using hn, rfl, ?_⟩
    simp [Table.update]

theorem Settled.updateSettings (h : ρ.Settled)
    (hu : ρ.updateSettings key revision document token now = .ok (new, ρ')) : ρ'.Settled := by
  have ⟨⟨d, hd, hk, hv⟩, hds, has⟩ := updateSettings_cases hu
  have hm {d} (hd : d ∈ ρ.documents) := List.mem_map_of_mem (f := fun d : SettingsDocument =>
    if d.key = key && d.revision = revision then { d with document, revision := d.revision + 1 } else d) hd
  rw [← hds] at hm
  refine ⟨fun d' hd' => ?_, fun a' ha' => ?_⟩
  case refine_1 =>
    rw [← Table.mem_rows, hds] at hd'
    obtain ⟨d, hd, rfl⟩ := List.mem_map.mp hd'
    have hp := h.positive d hd
    split
    case isTrue => exact hp.trans <| Int.lt_succ _
    case isFalse => exact hp
  case refine_2 =>
    rw [← Table.mem_rows, has] at ha'
    obtain ⟨a, ha, rfl⟩ := List.mem_map.mp ha'
    have hf := h.follows a ha
    have ⟨d₁, hd₁, hk₁, hv₁⟩ := hf.document
    split
    case isFalse hn =>
      have hk' : ¬d₁.key = key := fun he => hn <| he.symm.trans hk₁
      have := hm hd₁
      simp only [hk', decide_false, Bool.false_and, Bool.false_eq_true, if_false] at this
      exact ⟨hf.applied, ⟨d₁, this, hk₁, hv₁⟩, hf.error⟩
    case isTrue he =>
      -- The document that is updated is the one that the agent follows.
      obtain rfl : d₁ = d := Table.key_injOn hd₁ hd <| hk₁.trans <| he.symm.trans hk.symm
      have := hm hd
      simp only [hk, hv, decide_true, Bool.and_self, if_true] at this
      refine ⟨?_, ⟨_, this, he, rfl⟩, nofun⟩
      have := hf.applied
      simp only
      omega

theorem Advances.updateSettings
    (hu : ρ.updateSettings key revision document token now = .ok (new, ρ')) : ρ.Advances ρ' := by
  have ⟨_, _, has⟩ := updateSettings_cases hu
  intro a ha
  have hm := List.mem_map_of_mem (f := fun a : RegisteredAgent => if key = .node a.id then
    { a with desiredSettingsRevision := revision + 1, settingsError := none } else a) ha
  rw [← has] at hm
  refine ⟨_, hm, ?_, ?_⟩
  case refine_1 => split <;> rfl
  case refine_2 => split <;> rfl

end Update

theorem exec_settled (h : ρ.Settled) (op : RegistryOp) :
    (ρ.exec op).Settled ∧ ρ.Advances (ρ.exec op) := by
  have hs {ρ' : Registry} (hs : ρ.agents.Same settings ρ'.agents) (hd : ρ'.documents = ρ.documents) :
      ρ'.Settled ∧ ρ.Advances ρ' := ⟨h.of_same hs hd, .of_same hs⟩
  have hr : ρ.Settled ∧ ρ.Advances ρ := ⟨h, .refl⟩
  cases op <;> simp only [exec]
  case upsertAgent id hostname labels capacity running now =>
    cases hu : ρ.upsertAgent id hostname labels capacity running now
    case error => exact hr
    case ok => exact ⟨h.upsertAgent hu, .upsertAgent hu⟩
  case disconnectAgent => exact hs (.of_update rfl fun _ _ _ => rfl) rfl
  case heartbeat => exact hs (.of_update rfl fun _ _ _ => rfl) rfl
  case settingsApplied id revision error =>
    cases hu : ρ.settingsApplied id revision error
    case error => exact hr
    case ok => exact ⟨h.settingsApplied hu, .settingsApplied hu⟩
  case updateSettings key revision document token now =>
    cases hu : ρ.updateSettings key revision document token now
    case error => exact hr
    case ok => exact ⟨h.updateSettings hu, .updateSettings hu⟩
  case acquireLock =>
    simp only [acquireLock]
    split
    case h_1 => exact hs .refl rfl
    case h_2 => exact hr
  case renewLock =>
    simp only [renewLock]
    split
    case isTrue => exact hr
    case isFalse => exact hs .refl rfl
  case releaseLock => exact hs .refl rfl

theorem Settled.of_reachable (h : registry.Reachable .initial ρ) : ρ.Settled :=
  h.invariant (I := Settled) (fun _ op hs _ => (exec_settled hs op).left) .initial

theorem settings_acknowledged (h : registry.Reachable .initial ρ) :
    (∀ a ∈ ρ.agents, a.appliedSettingsRevision ≤ a.desiredSettingsRevision ∧
      (∃ d ∈ ρ.documents, d.key = .node a.id ∧ d.revision = a.desiredSettingsRevision) ∧
      (a.settingsError.isSome → a.appliedSettingsRevision ≠ a.desiredSettingsRevision)) ∧
    (∀ op, ∀ a ∈ ρ.agents, ∃ a' ∈ (ρ.exec op).agents, a'.id = a.id ∧
      a.appliedSettingsRevision ≤ a'.appliedSettingsRevision) ∧
    ∀ id revision error outcome ρ', ρ.settingsApplied id revision error = .ok (outcome, ρ') →
      (outcome.status = .ignored → ρ'.agents = ρ.agents) ∧
      (outcome.status = .applied → ∃ d ∈ ρ.documents, d.key = .node id ∧ d.revision = revision ∧
        ∃ settings, d.document = some settings ∧
          outcome.appliedSettings = some { settings with revision }) := by
  have hs := Settled.of_reachable h
  refine ⟨fun a ha => ?_, fun op => ?_, fun id revision error outcome ρ' ho => ?_⟩
  case refine_1 =>
    have hf := hs.follows a ha
    exact ⟨hf.applied, hf.document, fun he => (hf.error he).ne⟩
  case refine_2 => exact (exec_settled hs op).right
  case refine_3 => exact (settingsApplied_cases ho).right.right

-- A node that applies a revision after it had rejected it, and an acknowledgement that comes late.
theorem settings_acknowledged_late :
    let ρ := registry.run initial [
      .upsertAgent "node" "host" [] 2 0 0, .settingsApplied "node" 1 none,
      .acquireLock (.node "node") "admin" "token" 0,
      .updateSettings (.node "node") 1 (some { maxParallel := 4 }) "token" 1,
      .settingsApplied "node" 2 (some "rejected"), .settingsApplied "node" 2 none
    ]
    (∃ a ∈ ρ.agents, a.appliedSettingsRevision = 2 ∧ a.capacity = 4) ∧
      ∀ outcome ρ', ρ.settingsApplied "node" 1 none = .ok (outcome, ρ') → outcome.status = .ignored ∧
        ρ'.agents = ρ.agents := by
  intro ρ
  refine ⟨⟨_, .head _, rfl, rfl⟩, fun outcome ρ' ho => ?_⟩
  have hi : outcome.status = .ignored := by
    cases ho
    rfl
  have ⟨_, _, hx⟩ := settings_acknowledged (ρ := ρ) (Machine.Reachable.refl.run (.of_forall fun _ _ => trivial))
  exact ⟨hi, (hx _ _ _ _ _ ho).left hi⟩

end Registry

end Scheduler
