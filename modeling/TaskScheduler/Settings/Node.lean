import TaskScheduler.Settings.Acknowledgement

-- A row is found by any function of it that tells its key.
theorem Table.map_get? {α β κ : Type} [Keyed α κ] [DecidableEq κ] {t : Table α} {k : κ} {g : α → β}
    {f : β → κ} (h : ∀ a, f (g a) = Keyed.key a) :
    (t.get? k).map g = (t.rows.map g).find? (f · = k) := by
  rw [List.find?_map]
  simp only [get?, Function.comp_def, h]

namespace Scheduler

-- Whether a transaction may touch the document or the revisions of a node.
def RegistryOp.concerns (id : String) : RegistryOp → Bool
  | .upsertAgent id' .. | .settingsApplied id' .. => id' = id
  | .updateSettings key ..                        => key = .node id
  | _                                             => false

namespace Registry

def getNodeSettings (ρ : Registry) (id : String) : Except StoreError (Option NodeSettings) :=
  match ρ.documents.get? (.node id) with
  | none     => .ok none
  | some row =>
    match row.document with
    | none          => .error undecodable
    | some settings => .ok <| some { settings with revision := row.revision }

-- The settings that the registry holds for a node, if they decode.
def stored (ρ : Registry) (id : String) : Option NodeSettings :=
  (ρ.documents.get? (.node id)).bind fun row => row.document.map ({ · with revision := row.revision })

def applied (ρ : Registry) (id : String) : Int :=
  (ρ.agents.get? id).elim 0 (·.appliedSettingsRevision)

-- What the registry holds for a node.
def node (ρ : Registry) (id : String) :
    Option SettingsDocument × Option (String × Int × Int × Option String) :=
  (ρ.documents.get? (.node id), (ρ.agents.get? id).map settings)

variable {ρ ρ' : Registry} {id : String}

theorem getNodeSettings_of_stored {settings : NodeSettings} (h : ρ.stored id = some settings) :
    ρ.getNodeSettings id = .ok (some settings) := by
  obtain ⟨row, hr, hs⟩ := Option.bind_eq_some_iff.mp h
  obtain ⟨settings, hd, rfl⟩ := Option.map_eq_some_iff.mp hs
  simp [getNodeSettings, hr, hd]

theorem stored_of_getNodeSettings {settings : NodeSettings}
    (h : ρ.getNodeSettings id = .ok (some settings)) : ρ.stored id = some settings := by
  unfold getNodeSettings at h
  repeat' split at h
  case _ | _ => cases h
  case _ row hr _ settings hd =>
    cases h
    simp [stored, hr, hd]

theorem stored_congr (h : ρ'.node id = ρ.node id) : ρ'.stored id = ρ.stored id := by
  have hd : ρ'.documents.get? (.node id) = ρ.documents.get? (.node id) := congrArg Prod.fst h
  simp only [stored, hd]

theorem applied_eq : ρ.applied id = ((ρ.agents.get? id).map settings).elim 0 (·.2.2.1) := by
  unfold applied
  cases ρ.agents.get? id <;> rfl

theorem applied_congr (h : ρ'.node id = ρ.node id) : ρ'.applied id = ρ.applied id := by
  have ha : (ρ'.agents.get? id).map settings = (ρ.agents.get? id).map settings := congrArg Prod.snd h
  rw [applied_eq, applied_eq, ha]

-- The document of a registered node has the revision that is desired of it.
theorem Settled.desired {a : RegisteredAgent} {row : SettingsDocument} (h : ρ.Settled)
    (ha : ρ.agents.get? id = some a) (hr : ρ.documents.get? (.node id) = some row) :
    a.desiredSettingsRevision = row.revision := by
  obtain ⟨d, hd, hk, hv⟩ := (h.follows a (Table.mem_of_get? ha)).document
  have hi : a.id = id := Table.key_of_get? ha
  have hg : ρ.documents.get? (.node id) = some d := Table.get?_eq_some.mpr ⟨hd, hk.trans (by rw [hi])⟩
  rw [hr, Option.some.injEq] at hg
  rw [hg, hv]

section Transactions

variable {op : RegistryOp}

theorem node_upsertAgent_of_ne {id' hostname : String} {labels : List (String × String)}
    {capacity running : Nat} {now : Time} (h : id' ≠ id) :
    ((ρ.upsertAgent id' hostname labels capacity running now).persisted ρ).node id = ρ.node id := by
  simp only [upsertAgent]
  repeat' split
  case _ | _ => rfl
  case _ =>
    have hk : Keyed.key (α := SettingsDocument)
        ⟨.node id', some { labels, maxParallel := capacity }, 1⟩ ≠ .node id := by
      intro he
      cases he
      exact h rfl
    simp only [Result.persisted, node, Table.get?_insertOrIgnore, Table.get?_upsert]
    rw [if_neg hk, if_neg (by exact h)]

-- The rows of the nodes after an acknowledgement.
theorem settingsApplied_get? {id' : String} {revision : Int} {error : Option String}
    {outcome : SettingsAckOutcome} (h : ρ.settingsApplied id' revision error = .ok (outcome, ρ')) :
    (ρ'.agents.get? id).map settings = (ρ.agents.get? id).map fun a =>
      settings <| if acknowledges id' revision error a then acknowledge revision error a else a := by
  have ⟨_, hm, _⟩ := settingsApplied_cases h
  rw [Table.map_get? (f := Prod.fst) fun _ => rfl, Table.map_get? (f := Prod.fst), hm]
  intro a
  split <;> rfl

theorem node_settingsApplied_of_ne {id' : String} {revision : Int} {error : Option String}
    (h : id' ≠ id) : ((ρ.settingsApplied id' revision error).persisted ρ).node id = ρ.node id := by
  cases ho : ρ.settingsApplied id' revision error
  case error => rfl
  case ok out =>
    have ⟨hd, _⟩ := settingsApplied_cases ho
    simp only [Result.persisted, node, hd, settingsApplied_get? ho]
    cases ha : ρ.agents.get? id
    case none => rfl
    case some a =>
      have hi : a.id = id := Table.key_of_get? ha
      simp [acknowledges, hi, Ne.symm h]

theorem node_updateSettings_of_ne {key : DocumentKey} {revision : Int} {document : Option NodeSettings}
    {token : String} {now : Time} (h : key ≠ .node id) :
    ((ρ.updateSettings key revision document token now).persisted ρ).node id = ρ.node id := by
  simp only [updateSettings]
  repeat' split
  case _ | _ | _ => rfl
  case _ =>
    simp only [Result.persisted, node, Table.get?_update]
    congr 1
    case _ =>
      cases hr : ρ.documents.get? (.node id)
      case none => rfl
      case some row =>
        have hk : row.key = .node id := Table.key_of_get? hr
        simp [hk, Ne.symm h]
    case _ =>
      cases ha : ρ.agents.get? id
      case none => rfl
      case some a =>
        have hi : a.id = id := Table.key_of_get? ha
        simp [hi, h]

-- The other transactions leave a node alone.
theorem node_exec (h : op.concerns id = false) : (ρ.exec op).node id = ρ.node id := by
  have hu {t : Table RegisteredAgent} (h : ρ.agents.Same settings t) :
      (t.get? id).map settings = (ρ.agents.get? id).map settings := by
    rw [Table.map_get? (f := Prod.fst) fun _ => rfl, Table.map_get? (f := Prod.fst) fun _ => rfl, h]
  cases op <;> simp only [RegistryOp.concerns, decide_eq_false_iff_not] at h <;> simp only [exec]
  case upsertAgent => exact node_upsertAgent_of_ne h
  case disconnectAgent => exact Prod.ext rfl <| hu <| .of_update rfl fun _ _ _ => rfl
  case heartbeat => exact Prod.ext rfl <| hu <| .of_update rfl fun _ _ _ => rfl
  case settingsApplied => exact node_settingsApplied_of_ne h
  case updateSettings => exact node_updateSettings_of_ne h
  case acquireLock =>
    simp only [acquireLock]
    split <;> rfl
  case renewLock =>
    simp only [renewLock]
    split <;> rfl
  case releaseLock => rfl

-- A node that connects is told the document that is stored for it, which is a new one only if there
-- was none.
theorem upsertAgent_node {hostname : String} {labels : List (String × String)} {capacity running : Nat}
    {now : Time} {registration : AgentRegistration}
    (h : ρ.upsertAgent id hostname labels capacity running now = .ok (registration, ρ')) :
    ρ'.stored id = some registration.desiredSettings ∧
      (ρ.documents.get? (.node id) = none ∨ ρ'.stored id = ρ.stored id) ∧
      ρ'.applied id = ρ.applied id ∧ registration.appliedSettingsRevision = ρ.applied id ∧
      (ρ'.agents.get? id).isSome := by
  simp only [upsertAgent] at h
  repeat' split at h
  case _ | _ => contradiction
  case _ row hr _ settings hs =>
    cases h
    refine ⟨?_, ?_, ?_, ?_, ?_⟩
    case refine_1 => simp [stored, hr, hs]
    case refine_2 =>
      rw [Table.get?_insertOrIgnore, if_pos (by rfl)] at hr
      cases hd : ρ.documents.get? (.node id)
      case none => exact .inl rfl
      case some d =>
        refine .inr ?_
        simp only [stored]
        rw [Table.get?_insertOrIgnore, if_pos (by rfl), hd, Option.getD_some]
    case refine_3 =>
      simp only [applied]
      rw [Table.get?_upsert, if_pos (by rfl)]
      cases ρ.agents.get? id <;> rfl
    case refine_4 =>
      simp only [applied]
      rw [Table.get?_upsert, if_pos (by rfl)]
      cases ρ.agents.get? id <;> rfl
    case refine_5 => simp [Table.get?_upsert, Keyed.key]

theorem updateSettings_node {revision new : Int} {document : Option NodeSettings} {token : String}
    {now : Time} (h : ρ.updateSettings (.node id) revision document token now = .ok (new, ρ')) :
    new = revision + 1 ∧ (∃ row, ρ.documents.get? (.node id) = some row ∧ row.revision = revision) ∧
      ρ'.documents.get? (.node id) = some ⟨.node id, document, new⟩ ∧ ρ'.applied id = ρ.applied id ∧
      (ρ'.agents.get? id).isSome = (ρ.agents.get? id).isSome := by
  simp only [updateSettings] at h
  repeat' split at h
  case _ | _ | _ => contradiction
  case _ hn =>
    cases h
    obtain ⟨row, hm, hk, hv⟩ : ∃ row ∈ ρ.documents, row.key = .node id ∧ row.revision = revision := by
      simpa [Table.mem_rows] using hn
    have hr : ρ.documents.get? (.node id) = some row := Table.get?_eq_some.mpr ⟨hm, hk⟩
    refine ⟨rfl, ⟨row, hr, hv⟩, ?_, ?_, ?_⟩
    case refine_1 => simp [Table.get?_update, hr, hk, hv]
    case refine_2 =>
      simp only [applied, Table.get?_update]
      cases ρ.agents.get? id
      case none => rfl
      case some a =>
        simp only [Option.map_some, Option.elim_some]
        split <;> rfl
    case refine_3 => simp

theorem settingsApplied_registered {revision : Int} {error : Option String} {outcome : SettingsAckOutcome}
    (h : ρ.settingsApplied id revision error = .ok (outcome, ρ')) : ∃ a, ρ.agents.get? id = some a := by
  cases ha : ρ.agents.get? id
  case some a => exact ⟨a, rfl⟩
  case none => simp [settingsApplied, Table.get?_update, ha] at h

-- Only a success for the stored revision is recorded.
theorem settingsApplied_node {revision : Int} {error : Option String} {outcome : SettingsAckOutcome}
    {settings : NodeSettings} (hs : ρ.Settled) (hd : ρ.stored id = some settings)
    (h : ρ.settingsApplied id revision error = .ok (outcome, ρ')) :
    ρ'.documents = ρ.documents ∧ (ρ'.agents.get? id).isSome ∧ ρ'.applied id =
      if error = none ∧ settings.revision = revision then revision else ρ.applied id := by
  have ⟨hx, _⟩ := settingsApplied_cases h
  have hg : (ρ'.agents.get? id).map Registry.settings = _ := settingsApplied_get? h
  obtain ⟨a, ha⟩ := settingsApplied_registered h
  obtain ⟨row, hr, hd⟩ := Option.bind_eq_some_iff.mp hd
  obtain ⟨document, _, rfl⟩ := Option.map_eq_some_iff.mp hd
  have hv := hs.desired ha hr
  have hf := (hs.follows a (Table.mem_of_get? ha)).applied
  have hi : a.id = id := Table.key_of_get? ha
  rw [ha, Option.map_some] at hg
  refine ⟨hx, by simpa using congrArg Option.isSome hg, ?_⟩
  rw [applied_eq, hg]
  simp only [Option.elim_some, applied, ha, acknowledges, hi, hv]
  cases error
  case none =>
    by_cases he : row.revision = revision
    case neg => simp [he, Registry.settings]
    case pos =>
      have hl : a.appliedSettingsRevision ≤ revision := by omega
      simp [he, hl, Registry.settings, acknowledge]
  case some =>
    simp only [reduceCtorEq, false_and, if_false]
    split <;> rfl

theorem settingsApplied_status {revision : Int} {error : Option String} {outcome : SettingsAckOutcome}
    (h : ρ.settingsApplied id revision error = .ok (outcome, ρ')) :
    outcome.status = .applied ∧ error = none ∨ outcome.status = .ignored ∨
      outcome.status = .rejected ∧ error.isSome := by
  simp only [settingsApplied] at h
  repeat' split at h
  all_goals cases h
  case _ => exact .inr <| .inl rfl
  case _ he => exact .inr <| .inr ⟨rfl, he⟩
  case _ he _ _ _ _ _ _ => exact .inl ⟨rfl, by simpa using he⟩

end Transactions

-- How the history follows the registry: the stored document is the last one of it.
structure Recorded (id : String) (ρ : Registry) (history : List NodeSettings) : Prop where
  settled : ρ.Settled
  latest  : ∀ row, ρ.documents.get? (.node id) = some row → ∃ d ∈ history, ρ.stored id = some d
  bounded : ∀ d ∈ history, ∃ d', ρ.stored id = some d' ∧ d.revision ≤ d'.revision
  unique  : ∀ d ∈ history, ∀ d' ∈ history, d.revision = d'.revision → d = d'

namespace Recorded

variable {history : List NodeSettings}

theorem initial : Recorded id .initial [] where
  settled := .initial
  latest row h := by cases h
  bounded := List.forall_mem_nil _
  unique  := List.forall_mem_nil _

theorem of_documents (h : Recorded id ρ history) (hs : ρ'.Settled)
    (hd : ρ'.documents.get? (.node id) = ρ.documents.get? (.node id)) : Recorded id ρ' history := by
  have he : ρ'.stored id = ρ.stored id := by simp only [stored, hd]
  exact ⟨hs, he ▸ hd ▸ h.latest, he ▸ h.bounded, h.unique⟩

theorem mem_of_stored {d : NodeSettings} (h : Recorded id ρ history) (hs : ρ.stored id = some d) :
    d ∈ history := by
  obtain ⟨row, hr, _⟩ := Option.bind_eq_some_iff.mp hs
  obtain ⟨d', hm, hd⟩ := h.latest row hr
  rw [hs, Option.some.injEq] at hd
  exact hd ▸ hm

theorem le_of_mem {d d' : NodeSettings} (h : Recorded id ρ history) (hs : ρ.stored id = some d)
    (hm : d' ∈ history) : d'.revision ≤ d.revision := by
  obtain ⟨_, hd, hl⟩ := h.bounded d' hm
  rw [hs, Option.some.injEq] at hd
  exact hd ▸ hl

theorem find?_eq {d : NodeSettings} (h : Recorded id ρ history) (hm : d ∈ history) :
    history.find? (·.revision = d.revision) = some d := by
  cases hf : history.find? (·.revision = d.revision)
  case none => simpa using List.find?_eq_none.mp hf d hm
  case some d' =>
    have he : d'.revision = d.revision := by simpa using List.find?_some hf
    rw [h.unique _ (List.mem_of_find?_eq_some hf) _ hm he]

theorem stored_of_registered {a : RegisteredAgent} (h : Recorded id ρ history)
    (ha : ρ.agents.get? id = some a) : ∃ d, ρ.stored id = some d := by
  obtain ⟨row, hm, hk, _⟩ := (h.settled.follows a (Table.mem_of_get? ha)).document
  have hi : a.id = id := Table.key_of_get? ha
  obtain ⟨d, _, hd⟩ := h.latest row <| Table.get?_eq_some.mpr ⟨hm, hi ▸ hk⟩
  exact ⟨d, hd⟩

theorem register {hostname : String} {labels : List (String × String)} {capacity running : Nat}
    {now : Time} {registration : AgentRegistration} (h : Recorded id ρ history)
    (hu : ρ.upsertAgent id hostname labels capacity running now = .ok (registration, ρ')) :
    Recorded id ρ' (registration.desiredSettings :: history) := by
  obtain ⟨hs, hd, _⟩ := upsertAgent_node hu
  have hb : ∀ d ∈ history, ρ.stored id = some registration.desiredSettings := by
    intro d hm
    obtain ⟨d', hd', _⟩ := h.bounded d hm
    rcases hd with hn | hd
    case inl => simp [stored, hn] at hd'
    case inr => exact hd ▸ hs
  refine ⟨h.settled.upsertAgent hu, fun _ _ => ⟨_, .head _, hs⟩, ?_, ?_⟩
  case refine_1 =>
    refine List.forall_mem_cons.mpr ⟨⟨_, hs, le_rfl⟩, fun d hm => ⟨_, hs, ?_⟩⟩
    exact h.le_of_mem (hb d hm) hm
  case refine_2 =>
    have hx : ∀ d ∈ history, registration.desiredSettings ∈ history :=
      fun d hm => h.mem_of_stored (hb d hm)
    intro d hd d' hd' he
    rcases List.mem_cons.mp hd with rfl | hd <;> rcases List.mem_cons.mp hd' with rfl | hd'
    case inl.inl => rfl
    case inl.inr => exact h.unique _ (hx d' hd') _ hd' he
    case inr.inl => exact h.unique _ hd _ (hx d hd) he
    case inr.inr => exact h.unique _ hd _ hd' he

theorem edit {revision new : Int} {settings : NodeSettings} {token : String} {now : Time}
    (h : Recorded id ρ history)
    (hu : ρ.updateSettings (.node id) revision (some settings) token now = .ok (new, ρ')) :
    ρ'.stored id = some { settings with revision := new } ∧
      Recorded id ρ' ({ settings with revision := new } :: history) := by
  obtain ⟨rfl, ⟨row, hr, hv⟩, hd, _⟩ := updateSettings_node hu
  have hs : ρ'.stored id = some { settings with revision := revision + 1 } := by
    simp [stored, hd]
  -- The revision that is given is above all that there were.
  have hl : ∀ d ∈ history, d.revision < revision + 1 := by
    intro d hm
    obtain ⟨d', hd', hl⟩ := h.bounded d hm
    obtain ⟨_, hr', hm'⟩ := Option.bind_eq_some_iff.mp hd'
    obtain ⟨_, _, rfl⟩ := Option.map_eq_some_iff.mp hm'
    rw [hr, Option.some.injEq] at hr'
    subst hr'
    exact Int.lt_add_one_of_le (hl.trans hv.le)
  refine ⟨hs, h.settled.updateSettings hu, fun _ _ => ⟨_, .head _, hs⟩, ?_, ?_⟩
  case refine_1 =>
    exact List.forall_mem_cons.mpr ⟨⟨_, hs, le_rfl⟩, fun d hm => ⟨_, hs, (hl d hm).le⟩⟩
  case refine_2 =>
    intro d hd d' hd' he
    rcases List.mem_cons.mp hd with rfl | hd <;> rcases List.mem_cons.mp hd' with rfl | hd'
    case inl.inl => rfl
    case inl.inr => exact absurd he (hl d' hd').ne'
    case inr.inl => exact absurd he (hl d hd).ne
    case inr.inr => exact h.unique _ hd _ hd' he

-- An acknowledgement that is reported as applied is of the document that is stored, and no other is
-- recorded.
theorem settingsApplied {revision : Int} {error : Option String} {outcome : SettingsAckOutcome}
    (h : Recorded id ρ history) (ho : ρ.settingsApplied id revision error = .ok (outcome, ρ')) :
    Recorded id ρ' history ∧
      if outcome.status = .applied then
        ∃ d, ρ.stored id = some d ∧ outcome.appliedSettings = some d ∧ ρ'.applied id = d.revision
      else
        ρ'.applied id = ρ.applied id := by
  have ⟨hd, _, hi, ha⟩ := settingsApplied_cases ho
  refine ⟨h.of_documents (h.settled.settingsApplied ho) (by rw [hd]), ?_⟩
  obtain ⟨a, hr⟩ := settingsApplied_registered ho
  obtain ⟨d, hs⟩ := h.stored_of_registered hr
  have hv := (settingsApplied_node h.settled hs ho).right.right
  rcases settingsApplied_status ho with ⟨hc, he⟩ | hc | ⟨hc, he⟩
  case inl =>
    obtain ⟨row, hm, hk, rfl, settings, hd, hx⟩ := ha hc
    have hg : ρ.documents.get? (.node id) = some row := Table.get?_eq_some.mpr ⟨hm, hk⟩
    have hs' : ρ.stored id = some { settings with revision := row.revision } := by
      simp [stored, hg, hd]
    rw [hs', Option.some.injEq] at hs
    rw [if_pos hc]
    exact ⟨_, hs', hx, by simpa [he, ← hs] using hv⟩
  case inr.inl =>
    rw [if_neg (by simp [hc]), applied, applied, hi hc]
  case inr.inr =>
    obtain ⟨e, rfl⟩ := Option.isSome_iff_exists.mp he
    rw [if_neg (by simp [hc]), hv]
    rfl

end Recorded

end Registry

end Scheduler
