import TaskScheduler.Store.Schema

namespace Scheduler

structure NewSchedule where
  id                : Uuid
  spec              : ScheduleSpec
  encryptedSnapshot : Sealed ResolvedScheduleSnapshot
  webhookPublicId   : Option String
  webhookSecretHash : Option String

namespace Store

variable (s : Store)

-- `webhook_public_id TEXT UNIQUE`
def webhookTaken (id : Uuid) (publicId : Option String) : Bool :=
  publicId.isSome && s.schedules.rows.any fun r => r.id ≠ id && r.webhookPublicId = publicId

def createSchedule (new : NewSchedule) (now : Time) : Transaction Unit :=
  let row : Schedule := {
    id                := new.id
    spec              := new.spec
    encryptedSnapshot := new.encryptedSnapshot
    revision          := 1
    enabled           := new.spec.enabled
    cronExpression    := new.spec.cron.map (·.expression)
    cronTimezone      := new.spec.cron.map (·.timezone)
    lastCronAt        := none
    webhookEnabled    := new.spec.webhookEnabled
    webhookPublicId   := new.webhookPublicId
    webhookSecretHash := new.webhookSecretHash
    createdAt         := now
  }
  if s.webhookTaken new.id new.webhookPublicId then
    .error .uniqueViolation
  else
    match s.schedules.insert row with
    | none           => .error .uniqueViolation
    | some schedules =>
      .commit () <| { s with schedules }.appendAudit (.schedule new.id) .scheduleCreated

-- `CASE WHEN last_cron_at IS NULL OR last_cron_at<t THEN t ELSE last_cron_at END`
def latest (lastCronAt : Option Time) (t : Time) : Option Time :=
  some <| lastCronAt.elim t (max t)

def updateSchedule (id : Uuid) (expectedRevision : Int) (spec : ScheduleSpec)
    (encryptedSnapshot : Sealed ResolvedScheduleSnapshot) (now : Time) : Transaction Unit :=
  let expression := spec.cron.map (·.expression)
  let timezone := spec.cron.map (·.timezone)
  if s.schedules.rows.any fun r => r.id = id && r.revision = expectedRevision then
    let schedules := s.schedules.update (fun r => r.id = id && r.revision = expectedRevision) fun r =>
      { r with
        spec
        encryptedSnapshot
        revision       := r.revision + 1
        enabled        := spec.enabled
        lastCronAt     :=
          if !r.enabled && spec.enabled && expression.isSome then latest r.lastCronAt now
          else if !(r.cronExpression = expression && r.cronTimezone = timezone) then some now
          else r.lastCronAt
        cronExpression := expression
        cronTimezone   := timezone
        webhookEnabled := spec.webhookEnabled
      }
    .commit () <| { s with schedules }.appendAudit (.schedule id) .scheduleUpdated
  else
    .bail "schedule revision conflict or schedule not found"

def setScheduleEnabled (id : Uuid) (enabled : Bool) (now : Time) : Transaction Unit :=
  match s.schedules.get? id with
  | none     => .bail "schedule not found"
  | some row =>
    if row.enabled = enabled then
      .commit () s
    else
      let advanceCronCursor := enabled && row.spec.cron.isSome
      let schedules := s.schedules.update (·.id = id) fun r =>
        { r with
          enabled
          spec       := { r.spec with enabled }
          revision   := r.revision + 1
          lastCronAt :=
            if advanceCronCursor && r.cronExpression.isSome then latest r.lastCronAt now
            else r.lastCronAt
        }
      .commit () <| { s with schedules }.appendAudit (.schedule id) <|
        if enabled then .scheduleResumed else .schedulePaused

def rotateWebhook (id : Uuid) (publicId secretHash : String) : Transaction Unit :=
  match s.schedules.get? id with
  | none   => .bail "schedule not found"
  | some _ =>
    if s.webhookTaken id (some publicId) then
      .error .uniqueViolation
    else
      let schedules := s.schedules.update (·.id = id) fun r =>
        { r with
          spec              := { r.spec with webhookEnabled := true }
          webhookEnabled    := true
          webhookPublicId   := some publicId
          webhookSecretHash := some secretHash
          revision          := r.revision + 1
        }
      .commit () <| { s with schedules }.appendAudit (.schedule id) .scheduleWebhookRotated

def advanceCronCursor (id : Uuid) (occurrence : Time) : Transaction Unit :=
  let schedules := s.schedules.update (·.id = id) fun r =>
    { r with lastCronAt := latest r.lastCronAt occurrence }
  .commit () { s with schedules }

-- The `UPDATE schedules` by which a cron occurrence checks that it was built from the schedule as
-- it is now, and moves the cursor in the same transaction; `none` is a stale schedule.
def fence (id : Uuid) (expectedRevision : Int) (expectedCron : CronSpec) (occurrence : Time) :
    Option Store :=
  let current (r : Schedule) : Bool :=
    r.id = id && r.revision = expectedRevision && r.enabled &&
      r.cronExpression = some expectedCron.expression &&
      r.cronTimezone = some expectedCron.timezone
  if s.schedules.rows.any current then
    some { s with
      schedules := s.schedules.update current fun r =>
        { r with lastCronAt := latest r.lastCronAt occurrence }
    }
  else
    none

end Store

end Scheduler
