/-
The Wi-Fi supervisor task.

The phases are the await points of `wifi_supervisor_task`, with those of
`handle_associated` and `leave_and_backoff` in line.  A `with_timeout` may report
its timeout late but not early.
-/
import GarageDoor.Core.Wifi
import GarageDoor.Library.Clock
import GarageDoor.Library.Machine

namespace GarageDoor
namespace Wifi

open Library

inductive Phase where
  /-- Inside `attempt_join`. -/
  | joining (expiresAt : Nat)
  /-- Awaiting DHCP, in the window numbered `attempts`. -/
  | awaitingDhcp (attempts : Nat) (expiresAt : Nat)
  /-- `wait_config_up` completed at `since`; the lease is about to be noted. -/
  | configured (since : Nat)
  /-- Awaiting the loss of the link or a rejoin request. -/
  | supervising (since : Nat)
  /-- About to read the clock for `reboot_due`. -/
  | checking
  | leaving (expiresAt : Nat)
  | backingOff (expiresAt : Nat)
  /-- `sys_reset` was called. -/
  | reset
  deriving DecidableEq, Repr

inductive Event where
  | joined
  | joinFailed
  | joinTimedOut
  | configUp
  | dhcpTimedOut
  | rejoinRequested
  | noted
  | linkDown
  | checked
  | left
  | leaveTimedOut
  | waited
  deriving DecidableEq, Repr

inductive Observation where
  /-- An IP lease was held from `since` until supervision of the link ended. -/
  | lease (since lost : Nat)
  | reset (time : Nat)
  deriving DecidableEq, Repr

structure Supervisor where
  phase : Phase
  backoffMs : Nat
  watchdog : NoIpWatchdog
  clock : Instant

/-- The moment `ms` milliseconds after a reading of the clock. -/
def after (t : Instant) (ms : Nat) : Nat := t.val + ms * 1000

def start : Supervisor :=
  { phase := .joining (after 0 joinTimeoutMs), backoffMs := initialBackoffMs,
    watchdog := NoIpWatchdog.new, clock := 0 }

def react (s : Supervisor) (t : Instant) :
    Phase → Event → Option (Supervisor × List Observation)
  | .joining _, .joined =>
    some ({ s with phase := .awaitingDhcp 1 (after t dhcpTimeoutMs) }, [])
  | .joining _, .joinFailed => some ({ s with phase := .checking }, [])
  | .joining expiresAt, .joinTimedOut =>
    if expiresAt ≤ t.val then some ({ s with phase := .checking }, []) else none
  | .awaitingDhcp _ _, .configUp => some ({ s with phase := .configured t.val }, [])
  | .awaitingDhcp attempts expiresAt, .dhcpTimedOut =>
    if expiresAt ≤ t.val then
      if dhcpAttempts ≤ attempts then
        some ({ s with phase := .checking }, [])
      else
        -- Keep the association and open the next window.
        some ({ s with phase := .awaitingDhcp (attempts + 1) (after t dhcpTimeoutMs) }, [])
    else none
  | .awaitingDhcp _ _, .rejoinRequested => some ({ s with phase := .checking }, [])
  | .configured since, .noted =>
    some ({ s with phase := .supervising since, watchdog := s.watchdog.noteIp t.millis,
                   backoffMs := initialBackoffMs }, [])
  | .supervising since, .linkDown =>
    some ({ s with phase := .checking }, [.lease since t.val])
  | .supervising since, .rejoinRequested =>
    some ({ s with phase := .checking }, [.lease since t.val])
  | .checking, .checked =>
    if s.watchdog.rebootDue t.millis then
      some ({ s with phase := .reset }, [.reset t.val])
    else
      some ({ s with phase := .leaving (after t leaveTimeoutMs) }, [])
  | .leaving _, .left =>
    some ({ s with phase := .backingOff (after t s.backoffMs) }, [])
  | .leaving expiresAt, .leaveTimedOut =>
    if expiresAt ≤ t.val then
      some ({ s with phase := .backingOff (after t s.backoffMs) }, [])
    else none
  | .backingOff expiresAt, .waited =>
    if expiresAt ≤ t.val then
      some ({ s with phase := .joining (after t joinTimeoutMs),
                     backoffMs := min (s.backoffMs * 2) maxBackoffMs }, [])
    else none
  | _, _ => none

def step (s : Supervisor) (e : Timed Event) : Option (Supervisor × List Observation) :=
  if s.clock ≤ e.time then react { s with clock := e.time } e.time s.phase e.event else none

def wifiSupervisorTask : Machine Supervisor (Timed Event) Observation where
  start := start
  step := step

end Wifi
end GarageDoor
