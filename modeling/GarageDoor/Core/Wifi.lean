/-
Wi-Fi recovery policy: timing thresholds, the no-IP watchdog and the rejoin counter.
-/
import Mathlib.Data.Nat.Basic

namespace GarageDoor
namespace Wifi

def joinTimeoutMs : Nat := 15000
def dhcpTimeoutMs : Nat := 15000
def dhcpAttempts : Nat := 3
def leaveTimeoutMs : Nat := 5000
def initialBackoffMs : Nat := 1000
def maxBackoffMs : Nat := 30000

/-- Consecutive MQTT connect failures that request a rejoin. -/
def mqttRejoinFailures : Nat := 5

/-- Duration without an IP lease after which the MCU resets. -/
def noIpRebootMs : Nat := 10 * 60 * 1000

structure NoIpWatchdog where
  lastIpMs : Option Nat
  deriving DecidableEq, Repr

namespace NoIpWatchdog

def new : NoIpWatchdog := { lastIpMs := none }

def noteIp (_w : NoIpWatchdog) (nowMs : Nat) : NoIpWatchdog := { lastIpMs := some nowMs }

/-- The subtraction saturates, so a reading before the reference is never due. -/
def rebootDue (w : NoIpWatchdog) (nowMs : Nat) : Bool :=
  noIpRebootMs ≤ nowMs - w.lastIpMs.getD 0

theorem rebootDue_iff {w : NoIpWatchdog} {nowMs : Nat} :
    w.rebootDue nowMs = true ↔ w.lastIpMs.getD 0 + noIpRebootMs ≤ nowMs := by
  rw [rebootDue, decide_eq_true_iff]
  unfold noIpRebootMs
  omega

end NoIpWatchdog

/-- Consecutive MQTT connect failures. -/
structure RejoinCounter where
  failures : Nat
  deriving DecidableEq, Repr

namespace RejoinCounter

def new : RejoinCounter := { failures := 0 }

/-- Counts a failure; at the threshold the counter trips and starts over. -/
def failure (c : RejoinCounter) : Bool × RejoinCounter :=
  let failures := c.failures + 1
  if mqttRejoinFailures ≤ failures then (true, { failures := 0 }) else (false, { failures })

def success (_c : RejoinCounter) : RejoinCounter := { failures := 0 }

end RejoinCounter

end Wifi
end GarageDoor
