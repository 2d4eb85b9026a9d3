import HaskellAgent.Loop.Input

/-!
# Boundaries and limits of the server

## Main definitions

* `AccessBoundary` — who a client is to the server.
* `SupervisorConfig`, `SupervisorConfig.error` — the limits of a supervisor, and why some are refused.
* `ValidConfig` — limits a supervisor accepts.
-/

namespace HaskellAgent
namespace Server

/-- The authorization boundary of a client. -/
structure AccessBoundary where
  accessTenantId : Text
  /-- The identity of the gateway's credential; none on the direct route. -/
  accessGatewayBoundary : Option Text
  deriving DecidableEq

structure SupervisorConfig where
  supervisorMaxConcurrentTurns : ℕ
  supervisorMaxConcurrentTurnsPerTenant : ℕ
  supervisorMaxQueuedTurns : ℕ
  supervisorMaxQueuedTurnsPerTenant : ℕ
  supervisorMaxEventSubscribers : ℕ
  supervisorMaxEventSubscribersPerTenant : ℕ
  supervisorEventReplayLimit : ℕ
  deriving DecidableEq

/-- The complaint of `newSupervisor` about a configuration. -/
def SupervisorConfig.error (config : SupervisorConfig) : Option Text :=
  if config.supervisorMaxConcurrentTurns < 1 then
    some "supervisorMaxConcurrentTurns must be positive".toList
  else if config.supervisorMaxConcurrentTurnsPerTenant < 1 then
    some "supervisorMaxConcurrentTurnsPerTenant must be positive".toList
  else if config.supervisorMaxConcurrentTurnsPerTenant > config.supervisorMaxConcurrentTurns then
    some "supervisorMaxConcurrentTurnsPerTenant exceeds global concurrency".toList
  else if config.supervisorMaxQueuedTurns < 1 then
    some "supervisorMaxQueuedTurns must be positive".toList
  else if config.supervisorMaxQueuedTurnsPerTenant < 1 then
    some "supervisorMaxQueuedTurnsPerTenant must be positive".toList
  else if config.supervisorMaxQueuedTurnsPerTenant > config.supervisorMaxQueuedTurns then
    some "supervisorMaxQueuedTurnsPerTenant exceeds global queue capacity".toList
  else if config.supervisorMaxEventSubscribers < 1 then
    some "supervisorMaxEventSubscribers must be positive".toList
  else if config.supervisorMaxEventSubscribersPerTenant < 1 then
    some "supervisorMaxEventSubscribersPerTenant must be positive".toList
  else if config.supervisorMaxEventSubscribersPerTenant > config.supervisorMaxEventSubscribers then
    some "supervisorMaxEventSubscribersPerTenant exceeds global capacity".toList
  else if config.supervisorEventReplayLimit < 1 then
    some "supervisorEventReplayLimit must be positive".toList
  else none

/-- The limits of a supervisor that was made. -/
structure ValidConfig extends SupervisorConfig where
  accepted : toSupervisorConfig.error = none

/-- What `newSupervisor` has checked. -/
theorem ValidConfig.limits (config : ValidConfig) :
    (0 < config.supervisorMaxConcurrentTurns ∧ 0 < config.supervisorMaxConcurrentTurnsPerTenant) ∧
    (0 < config.supervisorMaxQueuedTurns ∧ 0 < config.supervisorMaxQueuedTurnsPerTenant) ∧
    0 < config.supervisorEventReplayLimit := by
  have h := config.accepted
  unfold SupervisorConfig.error at h
  repeat' split at h
  all_goals first
    | exact absurd h (Option.some_ne_none _)
    | omega

end Server
end HaskellAgent
