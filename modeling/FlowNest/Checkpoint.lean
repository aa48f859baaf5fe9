import FlowNest.Registry

/-!
# FlowNest — checkpoints

Between two units of work a node calls a checkpoint, which tells it to go on or
to exit. The checkpoint first sleeps as long as the node's speed is attenuated.
Then it looks at the signal: a running node goes on, an idle one exits, and an
erroneous one goes on if it resumes by itself. A node that is paused, or has not
been told anything, waits; when the registration is gone it exits.

Time is counted in milliseconds, on a clock that others move. Sleeping is left to timers,
which may take longer than they are set to.

* `Timer`            — what timers there are, and `Timer.Keeps`, what is asked of them;
* `Registry.verdict` — the answer, as far as the signal goes;
* `Checkpoint.poll`  — the answer of a checkpoint under way;
* `Registry.run`     — checkpoints in a row, each within a limit of time.
-/

namespace FlowNest

/-- Timers, by the times at which they end: one is set at a time, to run for another. -/
class Timer where
  ends : Nat → Nat → Nat

/-- No timer ends before its time has passed. -/
def Timer.Keeps [Timer] : Prop :=
  ∀ now time, now + time ≤ Timer.ends now time

/-- Timers that end when their time has passed. -/
instance Timer.exact : Timer :=
  ⟨fun now time => now + time⟩

/-- Timers that end on time keep their time. -/
theorem Timer.keeps_exact : Timer.Keeps :=
  fun _ _ => Nat.le_refl _

/-- When a checkpoint of a handle that is called at a time has slept. -/
def Handle.wakes [Timer] (h : Handle) (now : Nat) : Nat :=
  -- one that is not slowed down sets no timer
  if h.control.speedAttenuationMs = 0 then now
  else Timer.ends now h.control.speedAttenuationMs.toNat

/-- Timers that keep their time let nobody wake before it. -/
theorem Handle.le_wakes [Timer] (hKeeps : Timer.Keeps) (h : Handle) (now : Nat) :
    now + h.control.speedAttenuationMs.toNat ≤ h.wakes now := by
  unfold wakes
  split
  · next hNone =>
    rw [hNone]
    exact Nat.le_refl _
  · exact hKeeps now _

/-- What a checkpoint says once it has slept. -/
inductive Verdict where
  | proceed
  | exit
  | wait
deriving DecidableEq

/-- The verdict on a registration under a configuration. -/
def Registration.verdict (x : Registration) (control : ControlConfig) : Verdict :=
  match x.signal with
  | .told .running => .proceed
  | .told .idle => .exit
  | .told .error => if control.autoResumeOnError then .proceed else .exit
  -- only one who waits notices that the registration is gone
  | .registered | .told .paused => if x.attached then .wait else .exit

/-- The verdict on the registration of a handle. -/
def Registry.verdict (r : Registry) (h : Handle) : Verdict :=
  match r.registrations[h.place]? with
  | some x => x.verdict h.control
  | none => .exit

/-- A checkpoint under way, which looks at its signal from the time `due` on. -/
structure Checkpoint where
  handle : Handle
  due : Nat
deriving DecidableEq

namespace Checkpoint

/-- A checkpoint called at a time. -/
def start [Timer] (now : Nat) (h : Handle) : Checkpoint :=
  ⟨h, h.wakes now⟩

/-- What the checkpoint says at a time. -/
def poll (c : Checkpoint) (r : Registry) (now : Nat) : Verdict :=
  if now < c.due then .wait else r.verdict c.handle

end Checkpoint

/-- How a row of checkpoints ends: all were answered, one was told to exit, or one
was given up. -/
inductive RunEnd where
  | max
  | exit
  | pending
deriving DecidableEq

/-- A row of checkpoints: how many said to go on, and when it was over. -/
structure Run where
  units : Nat
  ending : RunEnd
  finish : Nat
deriving DecidableEq

namespace Registry

/-- What a checkpoint that is called at a time says within a limit, and when it is over. No
signal comes in between, so it is given up or answers when it has slept. -/
def await [Timer] (r : Registry) (h : Handle) (now limit : Nat) : Verdict × Nat :=
  let givenUp := Timer.ends now limit
  -- a sleep that ends with the limit is still followed by a look at the signal
  if givenUp < h.wakes now then (.wait, givenUp)
  else match r.verdict h with
    | .wait => (.wait, givenUp)
    | v => (v, h.wakes now)

/-- Up to `max` checkpoints in a row, each within a limit. -/
def run [Timer] (r : Registry) (h : Handle) (now limit : Nat) : Nat → Run
  | 0 => ⟨0, .max, now⟩
  | max + 1 =>
    match r.await h now limit with
    | (.proceed, time) =>
      let rest := r.run h time limit max
      { rest with units := rest.units + 1 }
    | (.exit, time) => ⟨0, .exit, time⟩
    | (.wait, time) => ⟨0, .pending, time⟩

end Registry

end FlowNest
