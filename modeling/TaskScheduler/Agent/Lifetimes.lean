import TaskScheduler.Agent.Ledger

namespace Scheduler

theorem Decoder.parse_of_decode {d : Decoder} {runner json : String} {a : ExecutionAssignment}
    (h : d.decode runner json = some a) : d.parse json = some a := by
  simp only [decode] at h
  split at h
  case isTrue => exact h
  case isFalse => contradiction

namespace Ledger

variable {l : Ledger} {p : LedgerRow → Bool} {f : LedgerRow → LedgerRow} {id : Uuid}
  {hf : ∀ r, Keyed.key (f r) = Keyed.key r}

@[simp]
theorem get?_updateOne : (l.updateOne p f hf).2.assignments.get? id =
    (l.assignments.get? id).map fun r => if p r then f r else r := by
  rw [updateOne, Table.get?_update]

theorem updateOne_iff : (l.updateOne p f hf).1 = true ↔ ∃ r ∈ l.assignments, p r := by
  simp [updateOne, Table.mem_rows]

-- As long as a result may be stored, storing one succeeds.
theorem saveResult_ok {r : LedgerRow} {runner json : String} {now : Time} (hr : l.assignments.get? id = some r)
    (ho : r.runnerId = some runner) (hs : r.state.isEligible) :
    ∃ l', l.saveResult runner id json now = .ok l' ∧
      l'.assignments.get? id = some { r with state := .finished, resultJson := some json, updatedAt := now } := by
  have hi : r.attemptId = id := Table.key_of_get? hr
  have hu : (l.updateOne (fun r => r.attemptId = id && r.runnerId = some runner && r.state.isEligible) fun r =>
      { r with state := .finished, resultJson := some json, updatedAt := now }).1 = true :=
    updateOne_iff.mpr ⟨r, Table.mem_of_get? hr, by simp [hi, ho, hs]⟩
  simp only [saveResult, hu, if_true]
  exact ⟨_, rfl, by simp [hr, hi, ho, hs]⟩

end Ledger

namespace AgentProcess

def row? (σ : AgentProcess) (id : Uuid) : Option LedgerRow :=
  σ.ledger.assignments.get? id

-- A call is about to quarantine the row: it has selected it and cannot decode it.
def Condemns (d : Decoder) (σ : AgentProcess) (id : Uuid) : Prop :=
  ∃ call selected row todo recovered, σ.recoveries call = some ⟨selected, row :: todo, recovered⟩ ∧
    row.attemptId = id ∧ d.decode σ.runner row.assignmentJson = none

-- What an action can do to one row of the ledger.
inductive Moves (d : Decoder) (σ : AgentProcess) : LedgerAction → LedgerRow → LedgerRow → Prop
  | same : Moves d σ act r r
  | claim (hc : r.claimable σ.runner) (hd : (d.decode σ.runner r.assignmentJson).isSome) :
      Moves d σ act r { r with state := .claimed, runnerId := some σ.runner, updatedAt := now }
  | start (hs : r.state = .claimed) (hr : r.runnerId = some σ.runner) :
      Moves d σ act r { r with state := .running, updatedAt := now }
  | cancel (hs : r.state.isOpen) :
      Moves d σ act r { r with
        state     := if r.state = .running then .cancelRequested else .cancelled
        updatedAt := now
      }
  | save (hr : r.runnerId = some σ.runner) (hs : r.state.isEligible) :
      Moves d σ (.saveResult r.attemptId json now) r
        { r with state := .finished, resultJson := some json, updatedAt := now }
  | acknowledge (hs : r.state = .finished) :
      Moves d σ (.acknowledge r.attemptId now) r { r with state := .acknowledged, updatedAt := now }
  | quarantine (hc : Condemns d σ r.attemptId) :
      Moves d σ act r { r with state := .quarantined, updatedAt := now }

variable {d : Decoder} {σ : AgentProcess} {act : LedgerAction} {r r' : LedgerRow} {id : Uuid}

theorem exec_row (ha : σ.Enabled d act) (hr : σ.row? id = some r) :
    ∃ r', (σ.exec d act).row? id = some r' ∧ Moves d σ act r r' := by
  have hi : r.attemptId = id := Table.key_of_get? hr
  simp only [row?] at hr ⊢
  cases act <;> simp only [exec]
  case boot => exact ⟨r, hr, .same⟩
  case record =>
    split
    case h_2 => exact ⟨r, hr, .same⟩
    case h_1 h =>
      simp only [Ledger.record] at h
      repeat' split at h
      all_goals cases h
      case _ hx =>
        have hn := Table.get?_key_of_insert hx
        rw [Table.get?_of_insert hx]
        split
        case isTrue hk => simp [hk ▸ hn] at hr
        case isFalse => exact ⟨r, hr, .same⟩
      case _ => exact ⟨r, hr, .same⟩
  case claim assignment json now =>
    simp only [Ledger.claim, Ledger.get?_updateOne, hr, Option.map_some]
    refine ⟨_, rfl, ?_⟩
    split
    case isFalse => exact .same
    case isTrue h =>
      simp only [Bool.and_eq_true, decide_eq_true_eq] at h
      exact .claim h.right <| by rw [h.left.right, ha]; rfl
  case start =>
    simp only [Ledger.start, Ledger.get?_updateOne, hr, Option.map_some]
    refine ⟨_, rfl, ?_⟩
    split
    case isFalse => exact .same
    case isTrue h =>
      simp only [Bool.and_eq_true, decide_eq_true_eq] at h
      exact .start h.left.right h.right
  case cancel =>
    simp only [Ledger.cancel, Ledger.get?_updateOne, hr, Option.map_some]
    refine ⟨_, rfl, ?_⟩
    split
    case isFalse => exact .same
    case isTrue h =>
      simp only [Bool.and_eq_true, decide_eq_true_eq] at h
      exact .cancel h.right
  case saveResult =>
    simp only [Ledger.saveResult]
    split
    case h_2 => exact ⟨r, hr, .same⟩
    case h_1 h =>
      repeat' split at h
      all_goals cases h
      case _ =>
        simp only [Ledger.get?_updateOne, hr, Option.map_some]
        refine ⟨_, rfl, ?_⟩
        split
        case isFalse => exact .same
        case isTrue h =>
          simp only [Bool.and_eq_true, decide_eq_true_eq] at h
          rw [← h.left.left]
          exact .save h.left.right h.right
      case _ => exact ⟨r, hr, .same⟩
  case acknowledge =>
    simp only [Ledger.acknowledge]
    split
    case h_2 => exact ⟨r, hr, .same⟩
    case h_1 h =>
      repeat' split at h
      all_goals cases h
      case _ =>
        simp only [Ledger.get?_updateOne, hr, Option.map_some]
        refine ⟨_, rfl, ?_⟩
        split
        case isFalse => exact .same
        case isTrue h =>
          simp only [Bool.and_eq_true, decide_eq_true_eq] at h
          rw [← h.left.left]
          exact .acknowledge h.left.right
      case _ => exact ⟨r, hr, .same⟩
  case recover => exact ⟨r, hr, .same⟩
  case next call now =>
    split
    case h_2 => exact ⟨r, hr, .same⟩
    case h_1 selected row todo recovered hc =>
      split
      case isTrue => exact ⟨r, hr, .same⟩
      case isFalse hn =>
        simp only [setRecovery, Ledger.quarantine, Table.get?_update, hr, Option.map_some]
        refine ⟨_, rfl, ?_⟩
        split
        case isFalse => exact .same
        case isTrue h =>
          refine .quarantine ⟨call, selected, row, todo, recovered, hc, ?_, by simpa using hn⟩
          exact (of_decide_eq_true h).symm

theorem exec_runner : (σ.exec d act).runner = σ.runner ∧ (σ.exec d act).past = σ.past ∨
    ∃ runner, act = .boot runner := by
  cases act
  case boot runner => exact .inr ⟨runner, rfl⟩
  all_goals
    refine .inl ?_
    simp only [exec]
    repeat' split
    all_goals trivial

-- What an entry of the log says about the states before and after it was made.
def Adds (σ σ' : AgentProcess) : LedgerEvent → Prop
  | .claimed runner id => runner = σ.runner ∧ (∃ r, σ.row? id = some r ∧ r.claimable runner) ∧
      ∃ r, σ'.row? id = some r ∧ r.state = .claimed ∧ r.runnerId = some runner
  | .started runner id => runner = σ.runner ∧ (∃ r, σ.row? id = some r ∧ r.state = .claimed) ∧
      ∃ r, σ'.row? id = some r ∧ r.state = .running ∧ r.runnerId = some runner
  | .cancelled id      => ∃ r, σ'.row? id = some r ∧ r.state.isOpen = false
  | .saved runner _    => runner = σ.runner

theorem exec_log : (σ.exec d act).log = σ.log ∨
    ∃ e, (σ.exec d act).log = e :: σ.log ∧ σ.Adds (σ.exec d act) e := by
  cases act
  case boot | recover => exact .inl rfl
  case record | acknowledge | next =>
    refine .inl ?_
    simp only [exec]
    repeat' split
    all_goals rfl
  case claim assignment json now =>
    simp only [exec, log?]
    split
    case isFalse => exact .inl rfl
    case isTrue h =>
      obtain ⟨r, hr, hp⟩ := Ledger.updateOne_iff.mp h
      have hp' := hp
      simp only [Bool.and_eq_true, decide_eq_true_eq] at hp
      have hr : σ.ledger.assignments.get? assignment.attemptId = some r :=
        Table.get?_eq_some.mpr ⟨hr, hp.left.left.left⟩
      refine .inr ⟨_, rfl, rfl, ⟨r, hr, hp.right⟩,
        { r with state := .claimed, runnerId := some σ.runner, updatedAt := now }, ?_, rfl, rfl⟩
      simp only [row?, Ledger.claim, Ledger.get?_updateOne, hr, Option.map_some]
      rw [if_pos hp']
  case start id now =>
    simp only [exec, log?]
    split
    case isFalse => exact .inl rfl
    case isTrue h =>
      obtain ⟨r, hr, hp⟩ := Ledger.updateOne_iff.mp h
      have hp' := hp
      simp only [Bool.and_eq_true, decide_eq_true_eq] at hp
      have hr : σ.ledger.assignments.get? id = some r := Table.get?_eq_some.mpr ⟨hr, hp.left.left⟩
      refine .inr ⟨_, rfl, rfl, ⟨r, hr, hp.left.right⟩, { r with state := .running, updatedAt := now }, ?_,
        rfl, hp.right⟩
      simp only [row?, Ledger.start, Ledger.get?_updateOne, hr, Option.map_some]
      rw [if_pos hp']
  case cancel id now =>
    simp only [exec, log?]
    split
    case isFalse => exact .inl rfl
    case isTrue h =>
      obtain ⟨r, hr, hp⟩ := Ledger.updateOne_iff.mp h
      have hp' := hp
      simp only [Bool.and_eq_true, decide_eq_true_eq] at hp
      have hr : σ.ledger.assignments.get? id = some r := Table.get?_eq_some.mpr ⟨hr, hp.left⟩
      let st : LedgerState := if r.state = .running then .cancelRequested else .cancelled
      refine .inr ⟨_, rfl, { r with state := st, updatedAt := now }, ?_, ?_⟩
      case refine_1 =>
        simp only [row?, Ledger.cancel, Ledger.get?_updateOne, hr, Option.map_some]
        rw [if_pos hp']
      case refine_2 =>
        simp only [st]
        split <;> rfl
  case saveResult id json now =>
    simp only [exec]
    split
    case h_1 => exact .inr ⟨_, rfl, rfl⟩
    case h_2 => exact .inl rfl

namespace Moves

variable (h : Moves d σ act r r')
include h

theorem attemptId : r'.attemptId = r.attemptId := by cases h <;> rfl

theorem leaseToken : r'.leaseToken = r.leaseToken := by cases h <;> rfl

theorem assignmentJson : r'.assignmentJson = r.assignmentJson := by cases h <;> rfl

theorem not_claimable (hc : r.claimable σ.runner = false) : r'.claimable σ.runner = false := by
  cases h
  case same => exact hc
  case claim => simp [LedgerRow.claimable]
  case start hr => simp [LedgerRow.claimable, hr]
  case cancel =>
    simp only [LedgerRow.claimable]
    split <;> simp
  case save | acknowledge | quarantine => simp [LedgerRow.claimable]

theorem not_open (ho : r.state.isOpen = false) : r'.state.isOpen = false := by
  cases h
  case same => exact ho
  case claim hc _ =>
    have : r.state.isOpen := by
      simp only [LedgerRow.claimable, Bool.or_eq_true, Bool.and_eq_true, decide_eq_true_eq] at hc
      rcases hc with hs | ⟨hs | hs, _⟩ <;> simp [hs, LedgerState.isOpen]
    simp [ho] at this
  case start hs _ => simp [hs, LedgerState.isOpen] at ho
  case cancel =>
    simp only
    split <;> rfl
  case save | acknowledge | quarantine => rfl

end Moves

-- A row that an action adds is a new offer.
theorem exec_new (ha : σ.Enabled d act) (hn : σ.row? id = none) (hr : (σ.exec d act).row? id = some r) :
    ∃ a json now, d.decode σ.runner json = some a ∧ a.attemptId = id ∧
      r = ⟨id, a.leaseToken, json, .accepted, none, none, now⟩ := by
  have hx {p f hf} : (σ.ledger.updateOne p f hf).2.assignments.get? id = none := by
    rw [Ledger.get?_updateOne, show σ.ledger.assignments.get? id = none from hn]
    rfl
  cases act <;> simp only [exec, row?] at hr hn
  case boot | recover => simp [setRecovery, hn] at hr
  case record a json now =>
    split at hr
    case h_2 => simp [hn] at hr
    case h_1 h =>
      simp only [Ledger.record] at h
      repeat' split at h
      all_goals cases h
      case _ hi =>
        rw [Table.get?_of_insert hi] at hr
        split at hr
        case isFalse => simp [hn] at hr
        case isTrue hk =>
          obtain rfl := Option.some.inj hr
          obtain rfl : a.attemptId = id := hk
          exact ⟨a, json, now, ha, rfl, rfl⟩
      case _ => simp [hn] at hr
  case claim => simp [Ledger.claim, hn] at hr
  case start => simp [Ledger.start, hn] at hr
  case cancel => simp [Ledger.cancel, hn] at hr
  case saveResult =>
    split at hr
    case h_2 => simp [hn] at hr
    case h_1 h =>
      simp only [Ledger.saveResult] at h
      repeat' split at h
      all_goals cases h
      case _ => simp [hx] at hr
      case _ => simp [hn] at hr
  case acknowledge =>
    split at hr
    case h_2 => simp [hn] at hr
    case h_1 h =>
      simp only [Ledger.acknowledge] at h
      repeat' split at h
      all_goals cases h
      case _ => simp [hx] at hr
      case _ => simp [hn] at hr
  case next =>
    repeat' split at hr
    all_goals simp [setRecovery, Ledger.quarantine, hn] at hr

-- How a call of `recoverable_assignments` goes on.
theorem exec_recoveries {call : Nat} {recovery : Recovery}
    (h : (σ.exec d act).recoveries call = some recovery) :
    σ.recoveries call = some recovery ∨
    recovery = ⟨σ.ledger.recoverable σ.runner, σ.ledger.recoverable σ.runner, []⟩ ∨
    ∃ row recovered, σ.recoveries call = some ⟨recovery.selected, row :: recovery.todo, recovered⟩ ∧
      recovery.recovered = recovered ++
        if (d.decode σ.runner row.assignmentJson).isSome then [row.assignmentJson] else [] := by
  have hu {σ' : AgentProcess} {i r} (hs : (σ'.setRecovery i r).recoveries call = some recovery) :
      i = call ∧ recovery = r ∨ σ'.recoveries call = some recovery := by
    simp only [setRecovery, Function.update_apply] at hs
    split at hs
    case isTrue hi => exact .inl ⟨hi.symm, (Option.some.inj hs).symm⟩
    case isFalse => exact .inr hs
  cases act <;> simp only [exec] at h
  case boot => contradiction
  case claim | start | cancel => exact .inl h
  case record | saveResult | acknowledge => split at h <;> exact .inl h
  case recover =>
    rcases hu h with ⟨_, hr⟩ | hr
    case inl => exact .inr <| .inl hr
    case inr => exact .inl hr
  case next i now =>
    split at h
    case h_2 => exact .inl h
    case h_1 selected row todo recovered hc =>
      split at h
      all_goals rcases hu h with ⟨rfl, rfl⟩ | hr
      case isTrue.inr | isFalse.inr => exact .inl hr
      case isTrue.inl hd => exact .inr <| .inr ⟨row, recovered, hc, by simp [hd]⟩
      case isFalse.inl hd => exact .inr <| .inr ⟨row, recovered, hc, by simp [hd]⟩

-- What the entries of the log say about the rows as they are now. The entries of earlier lifetimes
-- only matter for cancellations.
def Explains (σ : AgentProcess) : LedgerEvent → Prop
  | .claimed runner id => runner = σ.runner → ∃ r, σ.row? id = some r ∧ r.claimable runner = false
  | .started runner id => runner = σ.runner → ∃ r, σ.row? id = some r ∧ r.runnerId = some runner ∧
      (r.state.isEligible ∨
        (r.state = .finished ∨ r.state = .acknowledged) ∧ .saved runner id ∈ σ.log)
  | .cancelled id      => ∃ r, σ.row? id = some r ∧ r.state.isOpen = false
  | .saved ..          => True

-- The lifetime that made an entry.
def author : LedgerEvent → Option String
  | .claimed runner _ | .started runner _ | .saved runner _ => some runner
  | .cancelled _                                            => none

-- A row that a call of `recoverable_assignments` still has to look at.
def Pends (d : Decoder) (σ : AgentProcess) (q : LedgerRow) : Prop :=
  ∃ r, σ.row? q.attemptId = some r ∧ r.assignmentJson = q.assignmentJson ∧
    (d.decode σ.runner q.assignmentJson = none → r.state ≠ .finished)

-- What a call will return: the decodable ones among the rows that it has selected.
def decodable (d : Decoder) (runner : String) (rows : List LedgerRow) : List String :=
  (rows.filter fun r => (d.decode runner r.assignmentJson).isSome).map (·.assignmentJson)

structure Sound (d : Decoder) (σ : AgentProcess) : Prop where
  fresh     : σ.runner ∉ σ.past
  authors   : ∀ e ∈ σ.log, ∀ runner ∈ author e, runner ∈ σ.runner :: σ.past
  owners    : ∀ id r, σ.row? id = some r → ∀ runner ∈ r.runnerId, runner ∈ σ.runner :: σ.past
  parsed    : ∀ id r, σ.row? id = some r →
    ∃ a, d.parse r.assignmentJson = some a ∧ a.attemptId = id ∧ a.leaseToken = r.leaseToken
  owned     : ∀ id r, σ.row? id = some r → r.runnerId = some σ.runner →
    (d.decode σ.runner r.assignmentJson).isSome
  pending   : ∀ call recovery, σ.recoveries call = some recovery → ∀ q ∈ recovery.todo, Pends d σ q
  recovered : ∀ call recovery, σ.recoveries call = some recovery →
    recovery.recovered ++ decodable d σ.runner recovery.todo = decodable d σ.runner recovery.selected
  explains  : ∀ e ∈ σ.log, σ.Explains e
  once      : ∀ runner id, σ.log.count (.claimed runner id) ≤ 1 ∧ σ.log.count (.started runner id) ≤ 1

namespace Sound

variable (h : Sound d σ)
include h

theorem condemned (hc : Condemns d σ r.attemptId) (hr : σ.row? r.attemptId = some r) :
    r.runnerId ≠ some σ.runner ∧ r.state ≠ .finished := by
  have ⟨call, selected, row, todo, recovered, hx, hi, hn⟩ := hc
  have ⟨r', hr', hj, hs⟩ := h.pending call _ hx row List.mem_cons_self
  rw [hi, hr] at hr'
  obtain rfl := Option.some.inj hr'
  refine ⟨fun ho => ?_, hs hn⟩
  have := h.owned _ _ hr ho
  simp [hj, hn] at this

theorem pends {q : LedgerRow} (ha : σ.Enabled d act) (hr : (σ.exec d act).runner = σ.runner)
    (hq : Pends d σ q) : Pends d (σ.exec d act) q := by
  have ⟨r, hx, hj, hs⟩ := hq
  have ⟨r', hx', hm⟩ := exec_row ha hx
  refine ⟨r', hx', hm.assignmentJson.trans hj, fun hn => ?_⟩
  rw [hr] at hn
  cases hm
  case same => exact hs hn
  case save ho _ =>
    have := h.owned _ _ hx ho
    simp [hj, hn] at this
  case cancel =>
    simp only
    split <;> simp
  case claim | start | acknowledge | quarantine => simp

omit h in
-- A stored result leaves an entry.
theorem saved {json : String} {now : Time} (hr : σ.row? id = some r) (ho : r.runnerId = some σ.runner)
    (hs : r.state.isEligible) : .saved σ.runner id ∈ (σ.exec d (.saveResult id json now)).log := by
  have ⟨l', hl, _⟩ : ∃ l', σ.ledger.saveResult σ.runner id json now = .ok l' ∧ _ :=
    Ledger.saveResult_ok hr ho hs
  simp [exec, hl]

theorem explained {e : LedgerEvent} (ha : σ.Enabled d act) (hr : (σ.exec d act).runner = σ.runner)
    (he : σ.Explains e) : (σ.exec d act).Explains e := by
  have hl : ∀ e ∈ σ.log, e ∈ (σ.exec d act).log := by
    intro e he
    have hl : (σ.exec d act).log = σ.log ∨ _ := exec_log
    rcases hl with hl | ⟨e', hl, _⟩
    case inl => exact hl ▸ he
    case inr => exact hl ▸ List.mem_cons_of_mem _ he
  cases e
  case claimed runner id =>
    intro hn
    obtain rfl := hn.trans hr
    have ⟨r, hx, hc⟩ := he rfl
    have ⟨r', hx', hm⟩ := exec_row ha hx
    exact ⟨r', hx', hm.not_claimable hc⟩
  case started runner id =>
    intro hn
    obtain rfl := hn.trans hr
    have ⟨r, hx, ho, hs⟩ := he rfl
    have ⟨r', hx', hm⟩ := exec_row ha hx
    have hi : r.attemptId = id := Table.key_of_get? hx
    refine ⟨r', hx', ?_⟩
    cases hm
    case same => exact ⟨ho, hs.imp_right fun ⟨hs, he⟩ => ⟨hs, hl _ he⟩⟩
    case claim hc _ =>
      simp only [LedgerRow.claimable, Bool.or_eq_true, Bool.and_eq_true, decide_eq_true_eq] at hc
      rcases hc with hc | ⟨_, hc⟩
      case inl => simp [hc, LedgerState.isEligible] at hs
      case inr => exact absurd ho hc
    case start hc _ => simp [hc, LedgerState.isEligible] at hs
    case cancel hc =>
      have hs : r.state = .running := by
        cases hx : r.state <;> simp [hx, LedgerState.isEligible, LedgerState.isOpen] at hs hc ⊢
      exact ⟨ho, .inl <| by simp [hs, LedgerState.isEligible]⟩
    case save hs => exact ⟨ho, .inr ⟨.inl rfl, hi ▸ saved (hi ▸ hx) ho hs⟩⟩
    case acknowledge hf =>
      refine ⟨ho, .inr ⟨.inr rfl, ?_⟩⟩
      rcases hs with hs | ⟨_, hs⟩
      case inl => simp [hf, LedgerState.isEligible] at hs
      case inr => exact hl _ hs
    case quarantine hc => exact absurd ho (h.condemned hc (hi ▸ hx)).left
  case cancelled id =>
    have ⟨r, hx, hc⟩ := he
    have ⟨r', hx', hm⟩ := exec_row ha hx
    exact ⟨r', hx', hm.not_open hc⟩
  case saved => trivial

-- The entry that an action adds was not there before.
theorem fresh_entry {e : LedgerEvent} {σ' : AgentProcess} (he : σ.Adds σ' e) :
    (∀ runner id, e = .claimed runner id → e ∉ σ.log) ∧ ∀ runner id, e = .started runner id → e ∉ σ.log := by
  constructor
  case left =>
    rintro runner id rfl hm
    obtain ⟨rfl, ⟨r, hr, hc⟩, _⟩ := he
    have ⟨r', hr', hn⟩ := h.explains _ hm rfl
    rw [hr] at hr'
    obtain rfl := Option.some.inj hr'
    simp [hc] at hn
  case right =>
    rintro runner id rfl hm
    obtain ⟨rfl, ⟨r, hr, hc⟩, _⟩ := he
    have ⟨r', hr', _, hs⟩ := h.explains _ hm rfl
    rw [hr] at hr'
    obtain rfl := Option.some.inj hr'
    simp [hc, LedgerState.isEligible] at hs

theorem exec_once (runner : String) (id : Uuid) : (σ.exec d act).log.count (.claimed runner id) ≤ 1 ∧
    (σ.exec d act).log.count (.started runner id) ≤ 1 := by
  have hl : (σ.exec d act).log = σ.log ∨ _ := exec_log
  rcases hl with hl | ⟨e, hl, he⟩
  case inl => exact hl ▸ h.once runner id
  case inr =>
    have ⟨hc, hs⟩ := h.fresh_entry he
    have ⟨h₁, h₂⟩ := h.once runner id
    rw [hl, List.count_cons, List.count_cons]
    constructor
    case left =>
      split
      case isFalse => exact h₁
      case isTrue hx =>
        have hx := eq_of_beq hx
        rw [← hx, List.count_eq_zero.mpr <| hc runner id hx]
    case right =>
      split
      case isFalse => exact h₂
      case isTrue hx =>
        have hx := eq_of_beq hx
        rw [← hx, List.count_eq_zero.mpr <| hs runner id hx]

theorem boot {runner : String} (ha : σ.Enabled d (.boot runner)) : Sound d (σ.exec d (.boot runner)) where
  fresh            := fun hm => (List.mem_cons.mp hm).elim ha.left ha.right
  authors e he x hx := List.mem_cons_of_mem _ <| h.authors e he x hx
  owners id r hr x hx := List.mem_cons_of_mem _ <| h.owners id r hr x hx
  parsed           := h.parsed
  owned id r hr ho := by
    rcases List.mem_cons.mp <| h.owners id r hr runner ho with hx | hx
    case inl => exact absurd hx ha.left
    case inr => exact absurd hx ha.right
  pending          := nofun
  recovered        := nofun
  explains e he    := by
    -- The new lifetime has not made any entry yet.
    have hn : ∀ x ∈ author e, x ≠ runner := by
      rintro x hx rfl
      exact (List.mem_cons.mp <| h.authors e he _ hx).elim ha.left ha.right
    cases e
    case claimed x id => exact fun hx => absurd hx <| hn x rfl
    case started x id => exact fun hx => absurd hx <| hn x rfl
    case cancelled => exact h.explains _ he
    case saved => trivial
  once             := h.once

theorem step (ha : σ.Enabled d act) (hr : (σ.exec d act).runner = σ.runner)
    (hp : (σ.exec d act).past = σ.past) : Sound d (σ.exec d act) where
  fresh     := hr ▸ hp ▸ h.fresh
  authors e he x hx := by
    rw [hr, hp]
    have hl : (σ.exec d act).log = σ.log ∨ _ := exec_log
    rcases hl with hl | ⟨e', hl, hn⟩
    case inl => exact h.authors e (hl ▸ he) x hx
    case inr =>
      rcases List.mem_cons.mp (hl ▸ he) with rfl | he
      case inr => exact h.authors e he x hx
      case inl =>
        cases e
        case cancelled => contradiction
        case saved => exact List.mem_cons.mpr <| .inl <| (Option.some.inj hx) ▸ hn
        case claimed | started => exact List.mem_cons.mpr <| .inl <| (Option.some.inj hx) ▸ hn.left
  owners id r' hr' x hx := by
    rw [hr, hp]
    cases hx' : σ.row? id
    case none =>
      obtain ⟨a, json, now, _, _, rfl⟩ := exec_new ha hx' hr'
      contradiction
    case some r =>
      have ⟨r₁, hr₁, hm⟩ := exec_row ha hx'
      rw [hr'] at hr₁
      obtain rfl := Option.some.inj hr₁
      cases hm
      case claim => exact List.mem_cons.mpr <| .inl (Option.some.inj hx).symm
      all_goals exact h.owners id _ hx' x hx
  parsed id r' hr' := by
    cases hx : σ.row? id
    case none =>
      obtain ⟨a, json, now, hd, hi, rfl⟩ := exec_new ha hx hr'
      exact ⟨a, Decoder.parse_of_decode hd, hi, rfl⟩
    case some r =>
      have ⟨r₁, hr₁, hm⟩ := exec_row ha hx
      rw [hr'] at hr₁
      obtain rfl := Option.some.inj hr₁
      exact hm.assignmentJson ▸ hm.leaseToken ▸ h.parsed id r hx
  owned id r' hr' ho := by
    rw [hr] at ho ⊢
    cases hx : σ.row? id
    case none =>
      obtain ⟨a, json, now, _, _, rfl⟩ := exec_new ha hx hr'
      contradiction
    case some r =>
      have ⟨r₁, hr₁, hm⟩ := exec_row ha hx
      rw [hr'] at hr₁
      obtain rfl := Option.some.inj hr₁
      rw [hm.assignmentJson]
      cases hm
      case claim hd => exact hd
      all_goals exact h.owned id _ hx ho
  pending call recovery hc q hq := by
    rcases exec_recoveries hc with hc | rfl | ⟨row, recovered, hc, _⟩
    case inl => exact h.pends ha hr <| h.pending call recovery hc q hq
    case inr.inl =>
      refine h.pends ha hr ?_
      have hm := List.mem_insertionSort _ |>.mp hq
      have ⟨hm, hk⟩ := Table.mem_select.mp hm
      refine ⟨q, Table.get?_of_mem hm, rfl, fun _ hs => ?_⟩
      simp [LedgerRow.claimable, hs] at hk
    case inr.inr => exact h.pends ha hr <| h.pending call _ hc q <| List.mem_cons_of_mem _ hq
  recovered call recovery hc := by
    rw [hr]
    rcases exec_recoveries hc with hc | rfl | ⟨row, recovered, hc, hv⟩
    case inl => exact h.recovered call recovery hc
    case inr.inl => rfl
    case inr.inr =>
      have hx := h.recovered call _ hc
      rw [← hx, hv, List.append_assoc]
      congr 1
      simp only [decodable, List.filter_cons]
      split <;> simp
  explains e he := by
    have hl : (σ.exec d act).log = σ.log ∨ _ := exec_log
    rcases hl with hl | ⟨e', hl, hn⟩
    case inl => exact h.explained ha hr <| h.explains e (hl ▸ he)
    case inr =>
      rcases List.mem_cons.mp (hl ▸ he) with rfl | he
      case inr => exact h.explained ha hr <| h.explains e he
      case inl =>
        cases e
        case claimed =>
          have ⟨_, _, r, hx, hs, ho⟩ := hn
          exact fun _ => ⟨r, hx, by simp [LedgerRow.claimable, hs, ho]⟩
        case started =>
          have ⟨_, _, r, hx, hs, ho⟩ := hn
          exact fun _ => ⟨r, hx, ho, .inl <| by simp [hs, LedgerState.isEligible]⟩
        case cancelled => exact hn
        case saved => trivial
  once      := h.exec_once

end Sound

theorem Sound.initial {runner : String} : Sound d (.initial runner) where
  fresh         := List.not_mem_nil
  authors _ he  := absurd he List.not_mem_nil
  owners _ _    := nofun
  parsed _ _    := nofun
  owned _ _     := nofun
  pending _ _   := nofun
  recovered _ _ := nofun
  explains _ he := absurd he List.not_mem_nil
  once _ _      := by simp [AgentProcess.initial]

theorem Sound.of_reachable {runner : String} (h : (agentProcess d).Reachable (.initial runner) σ) : Sound d σ := by
  refine h.invariant (I := Sound d) (fun σ act hs ha => ?_) .initial
  have hr : (σ.exec d act).runner = σ.runner ∧ _ ∨ _ := exec_runner
  rcases hr with ⟨hr, hp⟩ | ⟨runner, rfl⟩
  case inl => exact hs.step ha hr hp
  case inr => exact hs.boot ha

-- A row can be claimed with what its own text decodes to.
theorem Sound.claim_iff {json : String} {now : Time} (h : Sound d σ) :
    json ∈ decodable d σ.runner (σ.ledger.recoverable σ.runner) ↔
      ∃ a, d.decode σ.runner json = some a ∧ (σ.ledger.claim σ.runner a json now).1 = true := by
  simp only [decodable, List.mem_map, List.mem_filter, Ledger.recoverable, List.mem_insertionSort,
    Table.mem_select, Ledger.claim, Ledger.updateOne_iff]
  constructor
  case mp =>
    rintro ⟨r, ⟨⟨hm, hc⟩, hd⟩, rfl⟩
    obtain ⟨a, ha⟩ := Option.isSome_iff_exists.mp hd
    obtain ⟨a', ha', hi, ht⟩ := h.parsed _ _ <| Table.get?_of_mem hm
    obtain rfl : a = a' := Option.some.inj <| (Decoder.parse_of_decode ha).symm.trans ha'
    have hi : r.attemptId = a.attemptId := hi.symm
    exact ⟨a, ha, r, hm, by simp [hi, ht, hc]⟩
  case mpr =>
    rintro ⟨a, ha, r, hm, hp⟩
    simp only [Bool.and_eq_true, decide_eq_true_eq] at hp
    obtain ⟨⟨_, rfl⟩, hc⟩ := hp
    exact ⟨r, ⟨⟨hm, hc⟩, by simp [ha]⟩, rfl⟩

theorem ledger_safe {runner : String} (h : (agentProcess d).Reachable (.initial runner) σ) :
    (∀ runner id, σ.log.count (.claimed runner id) ≤ 1 ∧ σ.log.count (.started runner id) ≤ 1) ∧
    (∀ id, .cancelled id ∈ σ.log → ∀ runner now, (σ.ledger.start runner id now).1 = false) ∧
    (∀ act, σ.Enabled d act → ∀ r ∈ σ.ledger.assignments, ∃ r' ∈ (σ.exec d act).ledger.assignments,
      r'.attemptId = r.attemptId ∧ r'.leaseToken = r.leaseToken ∧ r'.assignmentJson = r.assignmentJson ∧
      (r.state = .finished → r'.resultJson = r.resultJson ∧
        (r'.state = .finished ∨ r'.state = .acknowledged ∧ ∃ now, act = .acknowledge r.attemptId now))) ∧
    (∀ id, .started σ.runner id ∈ σ.log → .saved σ.runner id ∉ σ.log → ∀ json now,
      ∃ l, σ.ledger.saveResult σ.runner id json now = .ok l ∧
        ∃ r ∈ l.assignments, r.attemptId = id ∧ r.state = .finished ∧ r.resultJson = some json) ∧
    (∀ json now, json ∈ decodable d σ.runner (σ.ledger.recoverable σ.runner) ↔
      ∃ a, d.decode σ.runner json = some a ∧ (σ.ledger.claim σ.runner a json now).1 = true) ∧
    ∀ call, (σ.exec d (.recover call)).recoveries call =
        some ⟨σ.ledger.recoverable σ.runner, σ.ledger.recoverable σ.runner, []⟩ ∧
      ∀ selected recovered, σ.recoveries call = some ⟨selected, [], recovered⟩ →
        recovered = decodable d σ.runner selected := by
  have hs := Sound.of_reachable h
  refine ⟨hs.once, fun id hc runner now => ?_, fun act ha r hr => ?_, fun id hi hn json now => ?_,
    fun json now => hs.claim_iff, fun call => ⟨by simp [exec, setRecovery], fun selected recovered hr => ?_⟩⟩
  case refine_1 =>
    have ⟨r, hr, ho⟩ := hs.explains _ hc
    refine eq_false_of_ne_true fun hx => ?_
    have ⟨r', hm, hp⟩ := Ledger.updateOne_iff.mp hx
    simp only [Bool.and_eq_true, decide_eq_true_eq] at hp
    have hr' : σ.row? id = some r' := Table.get?_eq_some.mpr ⟨hm, hp.left.left⟩
    rw [hr] at hr'
    obtain rfl := Option.some.inj hr'
    simp [hp.left.right, LedgerState.isOpen] at ho
  case refine_2 =>
    have hx : σ.row? r.attemptId = some r := Table.get?_of_mem hr
    have ⟨r', hx', hm⟩ := exec_row ha hx
    refine ⟨r', Table.mem_of_get? hx', hm.attemptId, hm.leaseToken, hm.assignmentJson, fun hf => ?_⟩
    cases hm
    case same => exact ⟨rfl, .inl hf⟩
    case claim hc _ => simp [LedgerRow.claimable, hf] at hc
    case start hc _ => simp [hf] at hc
    case cancel hc => simp [hf, LedgerState.isOpen] at hc
    case save hc => simp [hf, LedgerState.isEligible] at hc
    case acknowledge now _ => exact ⟨rfl, .inr ⟨rfl, now, rfl⟩⟩
    case quarantine hc => exact absurd hf (hs.condemned hc hx).right
  case refine_3 =>
    have ⟨r, hr, ho, he⟩ := hs.explains _ hi rfl
    have he := he.resolve_right fun he => hn he.right
    have ⟨l, hl, hx⟩ : ∃ l, σ.ledger.saveResult σ.runner id json now = .ok l ∧ _ :=
      Ledger.saveResult_ok hr ho he
    exact ⟨l, hl, _, Table.mem_of_get? hx, Table.key_of_get? hr, rfl, rfl⟩
  case refine_4 =>
    have hx := hs.recovered call _ hr
    simpa [decodable] using hx

end AgentProcess

namespace Sample

def snapshot : ExecutionSnapshot :=
  ⟨"blueprint", "parameters"⟩

def assignment (id : Uuid) : ExecutionAssignment :=
  ⟨1, 1, id, 1, "lease", 60, snapshot⟩

-- The second version of the agent no longer understands the text "old".
def decoder : Decoder where
  parse json             := some <| assignment <| if json = "old" then 1 else 2
  understands version json := version = "v1" || json ≠ "old"

-- Two offers are claimed, one of them is started and cancelled before the agent crashes. The next lifetime
-- quarantines what it cannot read while another task cancels it.
def upgraded : List LedgerAction := [
    .record (assignment 1) "old" 0, .record (assignment 2) "new" 0, .claim (assignment 1) "old" 1,
    .claim (assignment 2) "new" 1, .start 2 2, .boot "v2", .recover 0, .cancel 1 3, .next 0 4, .next 0 4,
    .claim (assignment 2) "new" 5, .start 2 6, .cancel 2 7
  ]

end Sample

namespace AgentProcess

open Sample

theorem ledger_safe_upgraded :
    let σ := (agentProcess decoder).run (.initial "v1") upgraded
    (∃ r ∈ σ.ledger.assignments, r.attemptId = 1 ∧ r.state = .quarantined) ∧
      .started "v2" 2 ∈ σ.log ∧ ∀ json now, ∃ l, σ.ledger.saveResult "v2" 2 json now = .ok l := by
  intro σ
  have h : (agentProcess decoder).Reachable (.initial "v1") σ := Machine.Reachable.refl.run (by decide)
  have ⟨_, _, _, hs, _⟩ := ledger_safe h
  refine ⟨⟨_, .head _, rfl, rfl⟩, by decide, fun json now => ?_⟩
  have ⟨l, hl, _⟩ := hs 2 (by decide) (by decide) json now
  exact ⟨l, hl⟩

end AgentProcess

end Scheduler
