import TaskScheduler.Settings.Acknowledgement

namespace Scheduler

-- The JSON library, and the rules for dashboards.
structure DocumentFormat where
  decode   : String → Option NodeSettings
  encode   : NodeSettings → String
  validate : String → Except String Unit

-- A document that an editor wants to write, and what the editor knows about the one that is there.
structure DocumentUpdate where
  key              : DocumentKey
  expectedRevision : Int
  text             : String
  lockToken        : String
  now              : Time
  deriving DecidableEq, Repr

-- The calls of editors, and what the nodes do meanwhile.
inductive EditCall
  | acquireLock (key : DocumentKey) (owner token : String) (now : Time)
  | renewLock (key : DocumentKey) (token : String) (now : Time)
  | releaseLock (key : DocumentKey) (token : String) (force : Bool)
  | updateSettings (update : DocumentUpdate)
  | updateDashboard (config : String) (expectedRevision : Int) (lockToken : String) (now : Time)
  | node (op : RegistryOp)

-- The transactions that belong to nodes.
def RegistryOp.isOfNode : RegistryOp → Bool
  | upsertAgent .. | disconnectAgent _ | heartbeat .. | settingsApplied ..  => true
  | updateSettings .. | acquireLock .. | renewLock .. | releaseLock ..      => false

-- What a call writes, if it gets as far as `update_settings`.
def EditCall.update? (f : DocumentFormat) : EditCall → Option DocumentUpdate
  | updateSettings u => some u
  | updateDashboard config expectedRevision lockToken now =>
    match f.validate config with
    | .error _ => none
    | .ok ()   => some ⟨.dashboard, expectedRevision, config, lockToken, now⟩
  | _ => none

-- The registry with the texts of its documents and the tokens that it handed out, the last first.
structure EditedRegistry where
  registry : Registry
  texts    : DocumentKey → String
  issued   : List (DocumentKey × String)

namespace EditedRegistry

section Calls

variable (f : DocumentFormat) (σ : EditedRegistry)

def initial (texts : DocumentKey → String) : EditedRegistry where
  registry := .initial
  texts
  issued   := []

-- A document that is new has the text of the settings that it was created with.
def runNode (op : RegistryOp) : EditedRegistry :=
  let registry := σ.registry.exec op
  { σ with
    registry
    texts := fun key =>
      match σ.registry.documents.get? key, registry.documents.get? key with
      | none, some d => d.document.elim (σ.texts key) f.encode
      | _, _         => σ.texts key
  }

def updateSettings (u : DocumentUpdate) : Except StoreError EditedRegistry :=
  (σ.registry.updateSettings u.key u.expectedRevision (f.decode u.text) u.lockToken u.now).map
    fun r => { σ with registry := r.2, texts := Function.update σ.texts u.key u.text }

def call : EditCall → Except StoreError EditedRegistry
  | .acquireLock key owner token now =>
    (σ.registry.acquireLock key owner token now).map fun r =>
      { σ with registry := r.2, issued := (key, token) :: σ.issued }
  | .renewLock key token now =>
    (σ.registry.renewLock key token now).map fun r => { σ with registry := r.2 }
  | .releaseLock key token force =>
    (σ.registry.releaseLock key token force).map fun r => { σ with registry := r.2 }
  | .updateSettings u => σ.updateSettings f u
  | .updateDashboard config expectedRevision lockToken now =>
    match f.validate config with
    | .error e => .error (.bail e)
    | .ok ()   => σ.updateSettings f ⟨.dashboard, expectedRevision, config, lockToken, now⟩
  | .node op => .ok <| σ.runNode f op

def exec (c : EditCall) : EditedRegistry :=
  match σ.call f c with
  | .ok σ'   => σ'
  | .error _ => σ

-- What a call writes, if it is not refused.
def accepts (c : EditCall) : Option DocumentUpdate :=
  (c.update? f).filter fun u => (σ.updateSettings f u).isOk

-- The token that was last handed out for a document.
def newest (key : DocumentKey) : Option String :=
  (σ.issued.find? (·.1 = key)).map (·.2)

end Calls

end EditedRegistry

-- Editors and nodes in any order, with clocks that show any time. Each token is a new random UUID.
def editing (f : DocumentFormat) : Machine EditedRegistry EditCall where
  exec      := EditedRegistry.exec f
  Enabled σ
    | .acquireLock _ _ token _ => ∀ x ∈ σ.issued, x.2 ≠ token
    | .node op                 => op.isOfNode
    | _                        => True

instance {f : DocumentFormat} {σ : EditedRegistry} {c : EditCall} :
    Decidable ((editing f).Enabled σ c) :=
  match c with
  | .acquireLock _ _ token _ => inferInstanceAs (Decidable (∀ x ∈ σ.issued, x.2 ≠ token))
  | .node op                 => inferInstanceAs (Decidable (op.isOfNode = true))
  | .renewLock .. | .releaseLock .. | .updateSettings .. | .updateDashboard .. => .isTrue trivial

namespace Registry

variable {ρ ρ' : Registry} {op : RegistryOp}

-- What an accepted update rests on, and what it does.
theorem updateSettings_ok {key : DocumentKey} {revision new : Int} {document : Option NodeSettings}
    {token : String} {now : Time}
    (h : ρ.updateSettings key revision document token now = .ok (new, ρ')) :
    (∃ l ∈ ρ.locks, l.key = key ∧ l.lockToken = token ∧ now < l.expiresAt) ∧
    (∃ d, ρ.documents.get? key = some d ∧ d.revision = revision) ∧
    ρ'.locks = ρ.locks ∧
    ∀ k, ρ'.documents.get? k = if k = key then some ⟨key, document, revision + 1⟩
      else ρ.documents.get? k := by
  simp only [updateSettings] at h
  repeat' split at h
  case _ | _ | _ => contradiction
  case _ l hl hn hd =>
    cases h
    obtain ⟨ht, he⟩ : l.lockToken = token ∧ now < l.expiresAt := by simpa using hn
    obtain ⟨d, hm, hk, hr⟩ : ∃ d ∈ ρ.documents, d.key = key ∧ d.revision = revision := by
      simpa [Table.mem_rows] using hd
    subst hk
    have hg : ρ.documents.get? d.key = some d := Table.get?_of_mem hm
    refine ⟨⟨l, Table.mem_of_get? hl, Table.key_of_get? hl, ht, he⟩, ⟨d, hg, hr⟩, rfl, fun k => ?_⟩
    rw [Table.get?_update]
    split
    case isTrue hk => simp [hk, hg, hr]
    case isFalse hk =>
      cases hd : ρ.documents.get? k
      case none => rfl
      case some d' =>
        have hk' : d'.key = k := Table.key_of_get? hd
        simp [hk', hk]

-- Nodes neither edit documents nor take locks.
theorem exec_isOfNode (h : op.isOfNode) : (ρ.exec op).locks = ρ.locks ∧
    ∀ key d, ρ.documents.get? key = some d → (ρ.exec op).documents.get? key = some d := by
  cases op <;> simp only [RegistryOp.isOfNode, Bool.false_eq_true] at h <;> simp only [exec]
  case disconnectAgent | heartbeat => exact ⟨rfl, fun _ _ hd => hd⟩
  case upsertAgent id hostname labels capacity running now =>
    cases hu : ρ.upsertAgent id hostname labels capacity running now
    case error => exact ⟨rfl, fun _ _ hd => hd⟩
    case ok r =>
      obtain ⟨document, _, hd, _⟩ := upsertAgent_cases hu
      refine ⟨?_, fun key d hg => ?_⟩
      case refine_1 =>
        simp only [upsertAgent] at hu
        repeat' split at hu
        all_goals cases hu
        rfl
      case refine_2 =>
        simp only [Result.persisted, hd, Table.get?_insertOrIgnore, hg]
        split <;> rfl
  case settingsApplied id revision error =>
    cases hu : ρ.settingsApplied id revision error
    case error => exact ⟨rfl, fun _ _ hd => hd⟩
    case ok r =>
      obtain ⟨hd, _⟩ := settingsApplied_cases hu
      refine ⟨?_, fun key d hg => hd ▸ hg⟩
      simp only [settingsApplied] at hu
      repeat' split at hu
      all_goals cases hu
      all_goals rfl

section Locks

variable {key : DocumentKey} {owner token : String} {now expires : Time} {lock : EditLock}

-- A lock that is taken replaces the one that was there before, if that has expired.
theorem acquireLock_ok (h : ρ.acquireLock key owner token now = .ok (lock, ρ')) :
    ρ'.documents = ρ.documents ∧ ∀ l ∈ ρ'.locks, l ∈ ρ.locks ∧ l.key ≠ key ∨
      l.key = key ∧ l.lockToken = token := by
  simp only [acquireLock] at h
  split at h
  case h_2 => contradiction
  case h_1 locks hi =>
    cases h
    refine ⟨rfl, fun l hl => ?_⟩
    cases (Table.mem_of_insert hi).mp hl
    case inl hl =>
      have hn := Table.get?_eq_none.mp (Table.get?_key_of_insert hi) l hl
      exact .inl ⟨(Table.mem_delete.mp hl).left, hn⟩
    case inr hl => exact .inr ⟨congrArg EditLock.key hl, congrArg EditLock.lockToken hl⟩

theorem renewLock_ok (h : ρ.renewLock key token now = .ok (expires, ρ')) :
    ρ'.documents = ρ.documents ∧ ∀ l ∈ ρ'.locks, ∃ l₀ ∈ ρ.locks,
      l₀.key = l.key ∧ l₀.lockToken = l.lockToken := by
  simp only [renewLock] at h
  split at h
  case isTrue => contradiction
  case isFalse =>
    cases h
    refine ⟨rfl, fun l hl => ?_⟩
    rw [← Table.mem_rows] at hl
    obtain ⟨l₀, hm, he⟩ := List.mem_map.mp hl
    refine ⟨l₀, hm, ?_⟩
    split at he <;> simp [← he]

end Locks

end Registry

namespace EditedRegistry

variable {f : DocumentFormat} {σ σ' : EditedRegistry} {c : EditCall} {u : DocumentUpdate}
variable {key : DocumentKey} {token : String} {cs : List EditCall}

-- The updates of a document that were not refused, in the order in which they were made.
def accepted (f : DocumentFormat) (key : DocumentKey) : EditedRegistry → List EditCall →
    List DocumentUpdate
  | _, []      => []
  | σ, c :: cs => ((σ.accepts f c).filter (·.key = key)).toList ++ accepted f key (σ.exec f c) cs

theorem call_of_update? (h : c.update? f = some u) : σ.call f c = σ.updateSettings f u := by
  cases c <;> simp only [EditCall.update?, reduceCtorEq, Option.some.injEq] at h
  case updateSettings => rw [h, call]
  case updateDashboard =>
    split at h
    case h_1 => contradiction
    case h_2 hv =>
      cases h
      rw [call, hv]

theorem accepts_eq_some (h : σ.accepts f c = some u) :
    c.update? f = some u ∧ σ.updateSettings f u = .ok (σ.exec f c) := by
  have ⟨hu, ho⟩ := Option.filter_eq_some_iff.mp h
  refine ⟨hu, ?_⟩
  rw [exec, call_of_update? hu]
  cases hx : σ.updateSettings f u
  case error => simp [hx, Except.isOk, Except.toBool] at ho
  case ok => rfl

-- A call that does not write a document may still be one of an editor who wanted to.
theorem exec_of_refused (hu : c.update? f = some u) (h : σ.accepts f c = none) :
    σ.exec f c = σ := by
  rw [exec, call_of_update? hu]
  cases hx : σ.updateSettings f u
  case error => rfl
  case ok => simp [accepts, hu, hx, Except.isOk, Except.toBool] at h

theorem exec_of_unaccepted (he : (editing f).Enabled σ c) (h : σ.accepts f c = none)
    {d : SettingsDocument} (hd : σ.registry.documents.get? key = some d) :
    (σ.exec f c).registry.documents.get? key = some d ∧ (σ.exec f c).texts key = σ.texts key := by
  cases hu : c.update? f
  case some =>
    rw [exec_of_refused hu h]
    exact ⟨hd, rfl⟩
  case none =>
    cases c <;> simp only [exec, call]
    case acquireLock k owner token now =>
      cases hx : σ.registry.acquireLock k owner token now
      case error => exact ⟨hd, rfl⟩
      case ok r => exact ⟨(Registry.acquireLock_ok hx).left ▸ hd, rfl⟩
    case renewLock k token now =>
      cases hx : σ.registry.renewLock k token now
      case error => exact ⟨hd, rfl⟩
      case ok r => exact ⟨(Registry.renewLock_ok hx).left ▸ hd, rfl⟩
    case releaseLock => exact ⟨hd, rfl⟩
    case updateSettings => contradiction
    case updateDashboard config revision token now =>
      simp only [EditCall.update?] at hu
      split at hu
      case h_1 hv => simpa [hv] using hd
      case h_2 => contradiction
    case node op =>
      obtain ⟨_, hk⟩ : (σ.registry.exec op).locks = _ ∧ _ := Registry.exec_isOfNode he
      exact ⟨hk key d hd, by simp [runNode, hd]⟩

-- What an accepted update rests on, and what it does.
theorem updateSettings_ok (h : σ.updateSettings f u = .ok σ') :
    (∃ l ∈ σ.registry.locks, l.key = u.key ∧ l.lockToken = u.lockToken ∧ u.now < l.expiresAt) ∧
    (∃ d, σ.registry.documents.get? u.key = some d ∧ d.revision = u.expectedRevision) ∧
    (σ'.issued = σ.issued ∧ σ'.registry.locks = σ.registry.locks) ∧
    σ'.texts = Function.update σ.texts u.key u.text ∧
    ∀ k, σ'.registry.documents.get? k = if k = u.key then
      some ⟨u.key, f.decode u.text, u.expectedRevision + 1⟩ else σ.registry.documents.get? k := by
  simp only [updateSettings] at h
  cases hx : σ.registry.updateSettings u.key u.expectedRevision (f.decode u.text) u.lockToken u.now
  case error => simp [hx, Except.map] at h
  case ok r =>
    simp only [hx, Except.map, Except.ok.injEq] at h
    subst h
    have ⟨hl, hd, hk, hg⟩ := Registry.updateSettings_ok hx
    exact ⟨hl, hd, ⟨rfl, hk⟩, rfl, hg⟩

section Documents

variable {d : SettingsDocument}

-- A document changes only by updates of it, one revision each.
theorem exec_document (he : (editing f).Enabled σ c)
    (hd : σ.registry.documents.get? key = some d) :
    (σ.accepts f c).filter (·.key = key) = none ∧
      (σ.exec f c).registry.documents.get? key = some d ∧ (σ.exec f c).texts key = σ.texts key ∨
    ∃ u, (σ.accepts f c).filter (·.key = key) = some u ∧ u.expectedRevision = d.revision ∧
      (σ.exec f c).texts key = u.text ∧
      ∃ d', (σ.exec f c).registry.documents.get? key = some d' ∧ d'.revision = d.revision + 1 := by
  cases hu : σ.accepts f c
  case none => exact .inl ⟨rfl, exec_of_unaccepted he hu hd⟩
  case some u =>
    have ⟨_, ⟨d', hd', hr⟩, _, ht, hg⟩ := updateSettings_ok (accepts_eq_some hu).right
    by_cases hk : u.key = key
    case pos =>
      subst hk
      obtain rfl : d' = d := Option.some.inj <| hd'.symm.trans hd
      refine .inr ⟨u, by simp, hr.symm, by simp [ht], _, (hg u.key).trans (if_pos rfl), ?_⟩
      rw [hr]
    case neg =>
      have hk' : key ≠ u.key := Ne.symm hk
      exact .inl ⟨by simp [hk], by rw [hg, if_neg hk', hd], by simp [ht, hk']⟩

-- The document after any number of calls is the last accepted one, and each accepted update was
-- made to the document that the one before left.
theorem accepted_serial (v : (editing f).Valid σ cs)
    (hd : σ.registry.documents.get? key = some d) :
    let us := accepted f key σ cs
    let σ' := (editing f).run σ cs
    (∃ d', σ'.registry.documents.get? key = some d' ∧ d'.revision = d.revision + us.length) ∧
      σ'.texts key = us.getLast?.elim (σ.texts key) (·.text) ∧
      ∀ (i : Nat) u, us[i]? = some u → u.expectedRevision = d.revision + i := by
  induction cs generalizing σ d
  case nil => exact ⟨⟨d, hd, by simp [accepted]⟩, rfl, by simp [accepted]⟩
  case cons c cs hi =>
    have ⟨he, v⟩ := Machine.Valid.cons_iff.mp v
    have v : (editing f).Valid (σ.exec f c) cs := v
    cases exec_document he hd
    case inl h =>
      have ⟨hn, hd', ht⟩ := h
      have hx := hi v hd'
      rwa [accepted, hn, ← ht]
    case inr h =>
      have ⟨u, hu, hr, ht, d', hd', hr'⟩ := h
      have ⟨⟨d'', hd'', hl⟩, ht', hs⟩ := hi v hd'
      have ha : accepted f key σ (c :: cs) = u :: accepted f key (σ.exec f c) cs := by
        rw [accepted, hu]
        rfl
      rw [ha]
      refine ⟨⟨d'', hd'', ?_⟩, ?_, fun i w hw => ?_⟩
      case refine_1 =>
        rw [hl, hr', List.length_cons]
        push_cast
        omega
      case refine_2 =>
        rw [List.getLast?_cons]
        refine ht'.trans ?_
        cases (accepted f key (σ.exec f c) cs).getLast?
        case none => exact ht
        case some => rfl
      case refine_3 =>
        cases i
        case zero => simp_all
        case succ i =>
          have hw := hs i w hw
          push_cast
          omega

end Documents

section Tokens

variable {k : DocumentKey}

-- The holder of a lock is the last one who got it.
def Held (σ : EditedRegistry) : Prop :=
  ∀ l ∈ σ.registry.locks, σ.newest l.key = some l.lockToken

-- Somebody else got the lock in the meantime.
def Displaced (σ : EditedRegistry) (key : DocumentKey) (token : String) : Prop :=
  (key, token) ∈ σ.issued ∧ σ.newest key ≠ some token

-- What a call does to locks and tokens.
theorem exec_locks (he : (editing f).Enabled σ c) :
    (σ.exec f c).issued = σ.issued ∧
      (∀ l ∈ (σ.exec f c).registry.locks, ∃ l₀ ∈ σ.registry.locks,
        l₀.key = l.key ∧ l₀.lockToken = l.lockToken) ∨
    ∃ key token, (∀ x ∈ σ.issued, x.2 ≠ token) ∧ (σ.exec f c).issued = (key, token) :: σ.issued ∧
      ∀ l ∈ (σ.exec f c).registry.locks, l ∈ σ.registry.locks ∧ l.key ≠ key ∨
        l.key = key ∧ l.lockToken = token := by
  have same : σ.issued = σ.issued ∧ ∀ l ∈ σ.registry.locks, ∃ l₀ ∈ σ.registry.locks,
      l₀.key = l.key ∧ l₀.lockToken = l.lockToken := ⟨rfl, fun l hl => ⟨l, hl, rfl, rfl⟩⟩
  cases hu : c.update? f
  case some u =>
    rw [exec, call_of_update? hu]
    cases hx : σ.updateSettings f u
    case error => exact .inl same
    case ok σ' =>
      have ⟨_, _, ⟨hi, hl⟩, _⟩ := updateSettings_ok hx
      exact .inl ⟨hi, hl ▸ same.right⟩
  case none =>
    cases c <;> simp only [exec, call]
    case acquireLock key owner token now =>
      cases hx : σ.registry.acquireLock key owner token now
      case error => exact .inl same
      case ok r => exact .inr ⟨key, token, he, rfl, (Registry.acquireLock_ok hx).right⟩
    case renewLock key token now =>
      cases hx : σ.registry.renewLock key token now
      case error => exact .inl same
      case ok r => exact .inl ⟨rfl, (Registry.renewLock_ok hx).right⟩
    case releaseLock =>
      exact .inl ⟨rfl, fun l hl => ⟨l, (Table.mem_delete.mp hl).left, rfl, rfl⟩⟩
    case updateSettings => contradiction
    case updateDashboard config revision token now =>
      simp only [EditCall.update?] at hu
      split at hu
      case h_1 => exact .inl same
      case h_2 => contradiction
    case node op =>
      have ⟨hl, _⟩ : (σ.registry.exec op).locks = σ.registry.locks ∧ _ := Registry.exec_isOfNode he
      exact .inl ⟨rfl, hl ▸ same.right⟩

theorem newest_of_cons (h : σ'.issued = (key, token) :: σ.issued) :
    σ'.newest k = if key = k then some token else σ.newest k := by
  simp only [newest, h, List.find?_cons]
  split <;> simp_all

theorem Held.exec (h : σ.Held) (he : (editing f).Enabled σ c) : (σ.exec f c).Held := by
  intro l hl
  cases exec_locks he
  case inl hx =>
    have ⟨hi, hk⟩ := hx
    have ⟨l₀, hl₀, hk, ht⟩ := hk l hl
    rw [newest, hi, ← hk, ← ht]
    exact h l₀ hl₀
  case inr hx =>
    have ⟨key, token, _, hi, hk⟩ := hx
    rw [newest_of_cons hi]
    cases hk l hl
    case inl hk => simpa [hk.right.symm] using h l hk.left
    case inr hk => simp [hk.left, hk.right]

theorem Displaced.exec (h : σ.Displaced key token) (he : (editing f).Enabled σ c) :
    (σ.exec f c).Displaced key token := by
  cases exec_locks he
  case inl hx => rwa [Displaced, newest, hx.left]
  case inr hx =>
    have ⟨k, t, hn, hi, _⟩ := hx
    refine ⟨hi ▸ .tail _ h.left, ?_⟩
    rw [newest_of_cons hi]
    split
    case isTrue => exact fun ht => hn _ h.left (Option.some.inj ht).symm
    case isFalse => exact h.right

theorem held_of_accepts (h : σ.Held) (hu : σ.accepts f c = some u) :
    σ.newest u.key = some u.lockToken := by
  have ⟨⟨l, hl, hk, ht, _⟩, _⟩ := updateSettings_ok (accepts_eq_some hu).right
  exact hk ▸ ht ▸ h l hl

theorem Displaced.accepted (h : σ.Displaced key token) (hh : σ.Held) (v : (editing f).Valid σ cs) :
    ∀ u ∈ accepted f key σ cs, u.lockToken ≠ token := by
  induction cs generalizing σ
  case nil => simp [EditedRegistry.accepted]
  case cons c cs hi =>
    have ⟨he, v⟩ := Machine.Valid.cons_iff.mp v
    have v : (editing f).Valid (σ.exec f c) cs := v
    intro u hu ht
    cases List.mem_append.mp hu
    case inl hu =>
      have ⟨hu, hk⟩ := Option.filter_eq_some_iff.mp <| Option.mem_toList.mp hu
      have hn := held_of_accepts hh hu
      rw [of_decide_eq_true hk, ht] at hn
      exact h.right hn
    case inr hu => exact hi (h.exec he) (hh.exec he) v u hu ht

end Tokens

theorem edits_serialised {texts : DocumentKey → String}
    (h : (editing f).Reachable (.initial texts) σ) :
    (∀ key, σ.registry.locks.rows.countP (·.key = key) ≤ 1) ∧
    (∀ c u, σ.accepts f c = some u →
      (∃ l ∈ σ.registry.locks, l.key = u.key ∧ l.lockToken = u.lockToken ∧ u.now < l.expiresAt) ∧
      ∃ d ∈ σ.registry.documents, d.key = u.key ∧ d.revision = u.expectedRevision) ∧
    (∀ c e, σ.call f c = .error e → σ.exec f c = σ) ∧
    ∀ cs, (editing f).Valid σ cs →
      (∀ key, ∀ d ∈ σ.registry.documents, d.key = key →
        let us := accepted f key σ cs
        let σ' := (editing f).run σ cs
        (∃ d' ∈ σ'.registry.documents, d'.key = key ∧ d'.revision = d.revision + us.length) ∧
          σ'.texts key = us.getLast?.elim (σ.texts key) (·.text) ∧
          ∀ (i : Nat) u, us[i]? = some u → u.expectedRevision = d.revision + i) ∧
      ∀ key token, σ.Displaced key token → ∀ u ∈ accepted f key σ cs, u.lockToken ≠ token := by
  have hh : σ.Held := by
    refine h.invariant (I := Held) (fun _ _ h he => h.exec he) ?_
    simp [Held, initial, Registry.initial]
  refine ⟨fun key => ?_, fun c u hu => ?_, fun c e hc => ?_, fun cs v => ⟨?_, ?_⟩⟩
  case refine_1 =>
    have hs : σ.registry.locks.select (·.key = key) = (σ.registry.locks.get? key).toList :=
      Table.select_eq_toList
    have hl : (σ.registry.locks.select (·.key = key)).length ≤ 1 := hs ▸ Option.length_toList_le
    exact List.countP_eq_length_filter ▸ hl
  case refine_2 =>
    obtain ⟨hl, ⟨d, hd, hr⟩, _⟩ := updateSettings_ok (accepts_eq_some hu).right
    exact ⟨hl, d, Table.mem_of_get? hd, Table.key_of_get? hd, hr⟩
  case refine_3 => rw [exec, hc]
  case refine_4 =>
    rintro key d hd rfl
    obtain ⟨⟨d', hd', hr⟩, hx⟩ := accepted_serial v (Table.get?_of_mem hd)
    exact ⟨⟨d', Table.mem_of_get? hd', Table.key_of_get? hd', hr⟩, hx⟩
  case refine_5 => exact fun key token hd => hd.accepted hh v

end EditedRegistry

namespace Sample

def plainFormat : DocumentFormat where
  decode _   := none
  encode _   := ""
  validate _ := .ok ()

-- An editor leaves, and another one takes over when the lock has expired.
def editTakenOver : List EditCall := [
    .acquireLock .dashboard "first" "token-1" 0,
    .updateDashboard "one" 1 "token-1" 10,
    .acquireLock .dashboard "second" "token-2" 200000
  ]

-- The first editor comes back.
def editorReturned : List EditCall := [
    .renewLock .dashboard "token-1" 200010,
    .updateDashboard "late" 2 "token-1" 200010,
    .updateDashboard "two" 2 "token-2" 200020
  ]

end Sample

namespace EditedRegistry

open Sample

theorem edits_serialised_returned :
    let σ := (editing plainFormat).run (.initial fun _ => "zero") editTakenOver
    let σ' := (editing plainFormat).run σ editorReturned
    (∃ d ∈ σ'.registry.documents, d.key = .dashboard ∧ d.revision = 3) ∧
      σ'.texts .dashboard = "two" ∧
      ∀ u ∈ accepted plainFormat .dashboard σ editorReturned, u.lockToken ≠ "token-1" := by
  intro σ σ'
  have hr : (editing plainFormat).Reachable (.initial fun _ => "zero") σ := ⟨editTakenOver, by decide, rfl⟩
  have v : (editing plainFormat).Valid σ editorReturned := by decide
  have hd : ∃ d ∈ σ.registry.documents, d.key = .dashboard ∧ d.revision = 2 := by decide
  have ⟨d, hm, hk, hv⟩ := hd
  have ⟨_, _, _, h⟩ := edits_serialised hr
  have ⟨hs, ht⟩ := h editorReturned v
  have ⟨hs, hx, _⟩ := hs .dashboard d hm hk
  have hl : (accepted plainFormat .dashboard σ editorReturned).length = 1 := by decide
  rw [hl, hv] at hs
  refine ⟨hs, hx.trans (by decide), ht .dashboard "token-1" ⟨by decide, by decide⟩⟩

end EditedRegistry

end Scheduler
