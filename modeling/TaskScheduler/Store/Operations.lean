import TaskScheduler.Library.Machine
import TaskScheduler.Store.Health

namespace Scheduler

-- The transactions of the store, with the identifiers, tokens, random numbers and clock readings
-- that they draw. Loops that commit row by row appear as their single rows.
inductive Op
  | createSchedule (new : NewSchedule) (now : Time)
  | updateSchedule (id : Uuid) (expectedRevision : Int) (spec : ScheduleSpec)
      (encryptedSnapshot : Sealed ResolvedScheduleSnapshot) (now : Time)
  | setScheduleEnabled (id : Uuid) (enabled : Bool) (now : Time)
  | rotateWebhook (id : Uuid) (publicId secretHash : String)
  | advanceCronCursor (id : Uuid) (occurrence : Time)
  | createRun (new : NewRun) (triggerId : Uuid) (now : Time)
  | createCronOccurrence (new : NewRun) (expectedRevision : Int) (expectedCron : CronSpec)
      (triggerId : Uuid) (now : Time)
  | createCronBatch (new : NewBatch) (expectedRevision : Int) (expectedCron : CronSpec)
      (triggerId : Uuid) (now : Time)
  | createBatch (new : NewBatch) (triggerId : Uuid) (now : Time)
  | retriggerBatchSnapshot (sourceBatchId newBatchId : Uuid) (scheduledAt : Time) (triggerId : Uuid)
      (now : Time)
  | claimCollectionBatch (batchId : Uuid) (owner : String) (leaseSeconds : Nat) (token : String)
      (now : Time)
  | renewCollectionLease (batchId : Uuid) (leaseToken : String) (leaseSeconds : Nat) (now : Time)
  | commitCollectionPage (page : CommitCollectionPage) (now : Time)
  | finalizeBatch (batchId : Uuid) (leaseToken : String) (newId : Uuid → Uuid) (now : Time)
  | failBatch (batchId : Uuid) (failureCode : String)
  | cancelBatch (batchId : Uuid) (now : Time)
  | createAttempt (runId : Uuid) (agentId : String) (leaseSeconds : Nat) (id : Uuid)
      (leaseToken : String) (now : Time)
  | releaseOffer (attemptId : Uuid)
  | rejectOffer (attemptId : Uuid) (leaseToken : String) (result : ExecutionResult)
      (encrypted : Sealed ExecutionResult) (now : Time)
  | acceptAttempt (attemptId : Uuid) (leaseToken : String) (leaseSeconds : Nat) (now : Time)
  | renewAttempts (agentId : String) (attemptIds : List Uuid) (leaseSeconds running : Nat)
      (now : Time)
  | reauthorizeAttempt (attemptId : Uuid) (agentId leaseToken : String) (leaseSeconds : Nat)
      (now : Time)
  | finishAttempt (attemptId : Uuid) (leaseToken : String) (result : ExecutionResult)
      (encrypted : Sealed ExecutionResult) (random : Nat) (now : Time)
  | finishExpiredAttempt (attemptId : Uuid) (leaseToken : String) (result : ExecutionResult)
      (encrypted : Sealed ExecutionResult) (random : Nat) (now : Time)
  | claimExpiredAttempt (attemptId : Uuid) (graceSeconds : Nat) (now : Time)
  | cancelRun (runId : Uuid) (now : Time)
  | retryRun (runId : Uuid) (now : Time)
  | recordHealthEvidence (evidence : NewHealthEvidence) (poisonDistinctNodes : Nat) (id : Uuid)
      (order : HashOrder) (now : Time)
  | grantInputProbe (digest fingerprint : String) (now : Time)
  | consumeProbeOrIsHeld (digest fingerprint : String) (now : Time)
  | setNodeManualQuarantine (agentId : String) (quarantined : Bool) (now : Time)
  | upsertAgent (id hostname : String) (labels : List (String × String)) (capacity running : Nat)
      (now : Time)
  | disconnectAgent (id : String)

-- The store after a transaction; a failed one leaves no trace.
def Store.exec (s : Store) : Op → Store
  | .createSchedule new now => (s.createSchedule new now).persisted s
  | .updateSchedule id revision spec snapshot now =>
    (s.updateSchedule id revision spec snapshot now).persisted s
  | .setScheduleEnabled id enabled now => (s.setScheduleEnabled id enabled now).persisted s
  | .rotateWebhook id publicId hash => (s.rotateWebhook id publicId hash).persisted s
  | .advanceCronCursor id occurrence => (s.advanceCronCursor id occurrence).persisted s
  | .createRun new triggerId now => (s.createRun new triggerId now).persisted s
  | .createCronOccurrence new revision cron triggerId now =>
    (s.createCronOccurrence new revision cron triggerId now).persisted s
  | .createCronBatch new revision cron triggerId now =>
    (s.createCronBatch new revision cron triggerId now).persisted s
  | .createBatch new triggerId now => (s.createBatch new triggerId now).persisted s
  | .retriggerBatchSnapshot source new scheduledAt triggerId now =>
    (s.retriggerBatchSnapshot source new scheduledAt triggerId now).persisted s
  | .claimCollectionBatch batchId owner lease token now =>
    (s.claimCollectionBatch batchId owner lease token now).persisted s
  | .renewCollectionLease batchId token lease now =>
    (s.renewCollectionLease batchId token lease now).persisted s
  | .commitCollectionPage page now => (s.commitCollectionPage page now).persisted s
  | .finalizeBatch batchId token newId now => (s.finalizeBatch batchId token newId now).persisted s
  | .failBatch batchId code => (s.failBatch batchId code).persisted s
  | .cancelBatch batchId now => (s.cancelBatch batchId now).persisted s
  | .createAttempt runId agentId lease id token now =>
    (s.createAttempt runId agentId lease id token now).persisted s
  | .releaseOffer id => (s.releaseOffer id).persisted s
  | .rejectOffer id token result encrypted now =>
    (s.rejectOffer id token result encrypted now).persisted s
  | .acceptAttempt id token lease now => (s.acceptAttempt id token lease now).persisted s
  | .renewAttempts agentId ids lease running now =>
    (s.renewAttempts agentId ids lease running now).persisted s
  | .reauthorizeAttempt id agentId token lease now =>
    (s.reauthorizeAttempt id agentId token lease now).persisted s
  | .finishAttempt id token result encrypted random now =>
    (s.finishAttempt id token result encrypted random now).persisted s
  | .finishExpiredAttempt id token result encrypted random now =>
    (s.finishExpiredAttempt id token result encrypted random now).persisted s
  | .claimExpiredAttempt id grace now => (s.claimExpiredAttempt id grace now).persisted s
  | .cancelRun runId now => (s.cancelRun runId now).persisted s
  | .retryRun runId now => (s.retryRun runId now).persisted s
  | .recordHealthEvidence evidence nodes id order now =>
    (s.recordHealthEvidence evidence nodes id order now).persisted s
  | .grantInputProbe digest fingerprint now => (s.grantInputProbe digest fingerprint now).persisted s
  | .consumeProbeOrIsHeld digest fingerprint now =>
    (s.consumeProbeOrIsHeld digest fingerprint now).persisted s
  | .setNodeManualQuarantine agentId quarantined now =>
    (s.setNodeManualQuarantine agentId quarantined now).persisted s
  | .upsertAgent id hostname labels capacity running now =>
    (s.upsertAgent id hostname labels capacity running now).persisted s
  | .disconnectAgent id => (s.disconnectAgent id).persisted s

-- The store under transactions in any order, with any arguments.
def database : Machine Store Op where
  exec        := Store.exec
  Enabled _ _ := True

def Store.Reachable (s : Store) : Prop :=
  database.Reachable .empty s

theorem Store.Reachable.run {s : Store} (h : s.Reachable) (ops : List Op) :
    (database.run s ops).Reachable :=
  Machine.Reachable.run h <| .of_forall fun _ _ => trivial

theorem Store.Reachable.exec {s : Store} (h : s.Reachable) (op : Op) : (s.exec op).Reachable :=
  h.run [op]

-- What the history of a run is made of, newest entries first.
inductive LogEntry
  | accepted (attemptId runId : Uuid)
  | executed (attemptId runId : Uuid)
  | retried  (runId : Uuid)
  deriving DecidableEq, Repr

namespace LogEntry

def runId : LogEntry → Uuid
  | accepted _ r | executed _ r | retried r => r

def acceptedSinceRetry (runId : Uuid) : List LogEntry → List Uuid
  | []                  => []
  | .retried r :: log    => if r = runId then [] else acceptedSinceRetry runId log
  | .accepted a r :: log =>
    if r = runId then (acceptedSinceRetry runId log).insert a else acceptedSinceRetry runId log
  | .executed .. :: log  => acceptedSinceRetry runId log

def executedSinceRetry (runId : Uuid) : List LogEntry → List Uuid
  | []                   => []
  | .retried r :: log    => if r = runId then [] else executedSinceRetry runId log
  | .executed a r :: log =>
    if r = runId then (executedSinceRetry runId log).insert a else executedSinceRetry runId log
  | .accepted .. :: log  => executedSinceRetry runId log

end LogEntry

def AttemptState.isConcluded : AttemptState → Bool
  | finished | lateResult => true
  | _                     => false

-- What a transaction adds to the history: a successful acceptance or retry, and a result of an agent
-- that was recorded.
def Store.observe (s : Store) : Op → List LogEntry
  | .acceptAttempt id token lease now =>
    match s.attempts.get? id, s.acceptAttempt id token lease now with
    | some attempt, .ok _ => [.accepted id attempt.runId]
    | _, _                => []
  | .finishAttempt id token result encrypted random now =>
    let s' := s.exec (.finishAttempt id token result encrypted random now)
    match s.attempts.get? id, s'.attempts.get? id with
    | some before, some after =>
      if !before.state.isConcluded && after.state.isConcluded then [.executed id before.runId] else []
    | _, _ => []
  | .retryRun runId now =>
    match s.retryRun runId now with
    | .ok _    => [.retried runId]
    | .error _ => []
  | _ => []

end Scheduler
