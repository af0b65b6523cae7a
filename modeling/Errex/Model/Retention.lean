import Errex.Model.Http

/-!
# The retention task

`run_one_tick` of `retention.rs`. The outcomes of the purges are only logged.
-/

namespace Errex.Model.Retention
open Foundation Store Process

def effectiveDays (settings : RetentionSettings) (bootDays : UInt32) : Int :=
  if 0 < settings.eventRetentionDays then settings.eventRetentionDays.toInt else bootDays.toNat

/-- `Utc::now() - span`; a span or an instant out of range is a panic. -/
def cutoff (span : Option Duration) : Handler DateTime := do
  let now : UtcNow ← ask .utcNow
  let span ← ofOption span
  ofOption (now.instant.sub span)

def purgeAgedEvents (settings : RetentionSettings) (bootDays : UInt32) : Handler Unit := do
  if 0 < effectiveDays settings bootDays then
    let eventCutoff ← cutoff (Duration.days (effectiveDays settings bootDays))
    let _ ← ask (.purgeEventsOlderThan eventCutoff)

def purgeExcess (settings : RetentionSettings) : Handler Unit := do
  if 0 < settings.eventsPerIssueMax then
    let _ ← ask (.purgeExcessEventsPerIssue settings.eventsPerIssueMax)
  if 0 < settings.issuesPerProjectMax then
    let _ ← ask (.purgeExcessIssuesPerProject settings.issuesPerProjectMax)

def purgeAuth : Handler Unit := do
  let attemptsCutoff ← cutoff (Duration.hours 24)
  let _ ← ask (.pruneAuthAttemptsOlderThan attemptsCutoff)
  let sessionCutoff ← cutoff (Duration.days 30)
  let _ ← ask (.purgeSessionsIdleSince sessionCutoff)

def runOneTick (bootDays : UInt32) : Handler Unit := do
  match ← ask .getRetentionSettings with
  | .error _ => return ()
  | .ok settings => do
      purgeAgedEvents settings bootDays
      purgeExcess settings
      purgeAuth

end Errex.Model.Retention
