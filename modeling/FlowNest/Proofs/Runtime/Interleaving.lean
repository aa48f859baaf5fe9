import Mathlib.Logic.Relation
import Mathlib.Order.Basic
import FlowNest.Checkpoint
import FlowNest.Proofs.Runtime.History

/-!
# FlowNest — checkpoints among events

A checkpoint is not answered in one go. It sleeps, looks at the signal, and where this
is no answer it listens until it hears that there is another one, or that there will be
none. Events come and time passes between any two of these moves, and other checkpoints
make theirs. All the same, what is answered is what `Checkpoint.poll` says at the moment
of the answer, and a checkpoint that nothing disturbs gets as far as `Checkpoint.poll`
says.

* `Call.next?`               — the moves of a checkpoint;
* `World.act?`, `World.run?` — all that may happen, in any order;
* `Call.Sound`               — what is known of a call, which its moves keep;
* `World.Sound.run`          — so it is known of all calls, whatever happens;
* `Call.Sound.waits_iff`     — how far a call gets by its own moves.
-/

namespace FlowNest

/-! ## Moments -/

/-- A moment, with all events up to it. -/
structure Moment where
  events : List Event
  now : Nat
deriving DecidableEq

namespace Moment

/-- One moment comes after another if more has happened and more time has passed. -/
instance : Preorder Moment where
  le m m' := m.events <+: m'.events ∧ m.now ≤ m'.now
  le_refl _ := ⟨List.prefix_rfl, Nat.le_refl _⟩
  le_trans _ _ _ h h' := ⟨h.1.trans h'.1, Nat.le_trans h.2 h'.2⟩

variable {m m' : Moment} {h : Handle}

def registry (m : Moment) : Registry :=
  .after m.events

/-- The registration that a handle is a view of. -/
def tenure? (m : Moment) (h : Handle) : Option Tenure :=
  (tenures m.events)[h.place]?

/-- All signals sent to the registration of a handle. -/
def told (m : Moment) (h : Handle) : List ExecutionState :=
  (m.tenure? h).elim [] Tenure.told

/-- The latest one. -/
def latest? (m : Moment) (h : Handle) : Option ExecutionState :=
  (m.told h).getLast?

/-- Can the registration still be sent signals? -/
def reaches (m : Moment) (h : Handle) : Bool :=
  (m.tenure? h).any Tenure.lasts

theorem registrations_of_tenure? {t : Tenure} (hTenure : m.tenure? h = some t) :
    m.registry.registrations[h.place]? = some t.registration := by
  rw [registry, Registry.registrations_after, List.getElem?_map]
  exact congrArg (Option.map _) hTenure

/-- A registration stays in its place and goes on hearing. -/
theorem tenure?_of_le (hLe : m ≤ m') {t : Tenure} (hTenure : m.tenure? h = some t) :
    ∃ more, m'.tenure? h = some (t.after more) := by
  obtain ⟨⟨more, hMore⟩, -⟩ := hLe
  have hPlace := (List.getElem?_eq_some_iff.mp hTenure).1
  refine ⟨more, ?_⟩
  rw [tenure?, ← hMore, tenures_append, List.getElem?_append_left (by simpa using hPlace),
    List.getElem?_map]
  exact congrArg (Option.map _) hTenure

theorem told_prefix_of_le (hLe : m ≤ m') : m.told h <+: m'.told h := by
  cases hTenure : m.tenure? h with
  | none =>
    rw [told, hTenure]
    exact List.nil_prefix
  | some t =>
    obtain ⟨more, hLater⟩ := tenure?_of_le hLe hTenure
    rw [told, told, hTenure, hLater]
    exact t.told_prefix_after more

end Moment

/-! ## Verdicts -/

/-- The answer that a verdict gives. -/
def Verdict.answer? : Verdict → Option Bool
  | .proceed => some true
  | .exit => some false
  | .wait => none

theorem Verdict.eq_wait_iff {v : Verdict} : v = .wait ↔ v.answer? = none := by
  cases v <;> simp [answer?]

/-- No answer is given to one who still sleeps. -/
theorem Checkpoint.due_le_of_answer? {k : Checkpoint} {r : Registry} {now : Nat} {go : Bool}
    (h : (k.poll r now).answer? = some go) : k.due ≤ now := by
  by_contra hEarly
  rw [poll, if_pos (Nat.not_le.mp hEarly)] at h
  cases h

/-- The answer that the signal gives. -/
def Registration.look (x : Registration) (control : ControlConfig) : Option Bool :=
  match x.signal with
  | .told .running => some true
  | .told .idle => some false
  | .told .error => some control.autoResumeOnError
  | .registered | .told .paused => none

/-- A verdict is a look at the signal. Only where it gives no answer does it count
whether the registration is attached. -/
theorem Registration.answer?_verdict (x : Registration) (control : ControlConfig) :
    (x.verdict control).answer? =
      (x.look control).or (if x.attached then none else some false) := by
  obtain ⟨node, signal, attached⟩ := x
  -- only a pause, or no signal at all, leaves the answer to the sender's side
  rcases signal with _ | state
  · cases attached <;> rfl
  · cases state with
    | idle => rfl
    | running => rfl
    | paused => cases attached <;> rfl
    | error =>
      simp only [verdict, look, Option.some_or]
      cases control.autoResumeOnError <;> rfl

namespace Moment

variable {m : Moment} {h : Handle}

/-- What a look at the registration of a handle says. -/
theorem look_registration {t : Tenure} (hTenure : m.tenure? h = some t) :
    t.registration.look h.control =
      match m.latest? h with
      | some .running => some true
      | some .idle => some false
      | some .error => some h.control.autoResumeOnError
      | some .paused | none => none := by
  rw [latest?, told, hTenure]
  show Registration.look ⟨t.node, t.told.getLast?.elim .registered .told, t.lasts⟩ h.control = _
  simp only [Option.elim_some]
  rcases t.told.getLast? with _ | _ | _ | _ | _ <;> rfl

theorem answer?_verdict {t : Tenure} (hTenure : m.tenure? h = some t) :
    (m.registry.verdict h).answer? =
      (t.registration.look h.control).or (if m.reaches h then none else some false) := by
  rw [Registry.verdict, registrations_of_tenure? hTenure, reaches, hTenure]
  exact Registration.answer?_verdict _ _

end Moment

/-! ## Calls -/

/-- How far a call has got. One who listens knows how many signals there were when it
looked. -/
inductive Phase where
  | asleep
  | looking
  | listening (seen : Nat)
  | answered (go : Bool) (moment : Moment)
deriving DecidableEq

/-- A checkpoint that was called at a moment. -/
structure Call where
  checkpoint : Checkpoint
  called : Moment
  phase : Phase
deriving DecidableEq

namespace Call

def handle (c : Call) : Handle :=
  c.checkpoint.handle

/-- The call gets on to a phase. -/
def withPhase (c : Call) (phase : Phase) : Call :=
  { c with phase }

/-- The next move of a call, unless it has to wait for something or is over. -/
def next? (c : Call) (m : Moment) : Option Call := do
  let x ← m.registry.registrations[c.handle.place]?
  match c.phase with
  | .asleep => if m.now < c.checkpoint.due then none else some (c.withPhase .looking)
  | .looking =>
    match x.look c.handle.control with
    | some go => some (c.withPhase (.answered go m))
    | none => some (c.withPhase (.listening (m.told c.handle).length))
  | .listening seen =>
    -- signals are told apart by their number, so one that repeats the state is heard, too,
    -- and one that was the last to come is heard before the end
    if seen ≠ (m.told c.handle).length then some (c.withPhase .looking)
    else if x.attached then none
    else some (c.withPhase (.answered false m))
  | .answered _ _ => none

/-- The call has no answer yet. -/
def Open (c : Call) : Prop :=
  ∀ go m, c.phase ≠ .answered go m

variable {m m' : Moment} {h : Handle} {c c' : Call}

/-- Once a checkpoint has slept it says what the signal says. -/
theorem poll_of_due (hDue : c.checkpoint.due ≤ m.now) :
    c.checkpoint.poll m.registry m.now = m.registry.verdict c.handle :=
  if_neg (Nat.not_lt.mpr hDue)

/-- The move of a call, for the phase that it is in. -/
theorem next?_eq {t : Tenure} (hTenure : m.tenure? c.handle = some t) :
    c.next? m =
      match c.phase with
      | .asleep => if m.now < c.checkpoint.due then none else some (c.withPhase .looking)
      | .looking =>
        match t.registration.look c.handle.control with
        | some go => some (c.withPhase (.answered go m))
        | none => some (c.withPhase (.listening (m.told c.handle).length))
      | .listening seen =>
        if seen ≠ (m.told c.handle).length then some (c.withPhase .looking)
        else if m.reaches c.handle then none
        else some (c.withPhase (.answered false m))
      | .answered _ _ => none := by
  -- under a tenure the node has one registration, so the scan over all of them is over this one
  rw [next?, Moment.registrations_of_tenure? hTenure, Moment.reaches, hTenure]
  rfl

/-- The moves of a call lead from one to the other while nothing else happens. -/
def Leads (m : Moment) : Call → Call → Prop :=
  Relation.ReflTransGen fun c c' => c.next? m = some c'

/-- No moves of the call lead to an answer while nothing else happens. -/
def Waits (m : Moment) (c : Call) : Prop :=
  ∀ c', Leads m c c' → c'.Open

/-- A move only changes the phase, and an answer is given at once. -/
theorem exists_phase_of_next? (hNext : c.next? m = some c') :
    ∃ phase, c' = c.withPhase phase ∧ ∀ go m', phase = .answered go m' → m' = m := by
  obtain ⟨x, -, hMove⟩ := Option.bind_eq_some_iff.mp hNext
  -- an answer notes the moment at which it is given
  have hAnswer : ∀ {go go' : Bool} {m' : Moment},
      Phase.answered go m = .answered go' m' → m' = m := by
    rintro go go' m' hSame
    cases hSame
    rfl
  split at hMove
  · obtain ⟨-, hMove⟩ := Option.ite_none_left_eq_some.mp hMove
    cases hMove
    exact ⟨_, rfl, nofun⟩
  · split at hMove <;> cases hMove
    · exact ⟨_, rfl, fun _ _ => hAnswer⟩
    · exact ⟨_, rfl, nofun⟩
  · split at hMove
    · cases hMove
      exact ⟨_, rfl, nofun⟩
    · obtain ⟨-, hMove⟩ := Option.ite_none_left_eq_some.mp hMove
      cases hMove
      exact ⟨_, rfl, fun _ _ => hAnswer⟩
  · cases hMove

/-- One who listens for nothing more to come is told to exit. -/
theorem next?_of_heard {t : Tenure} (hTenure : m.tenure? c.handle = some t)
    (hPhase : c.phase = .listening (m.told c.handle).length) (hGone : ¬ m.reaches c.handle = true) :
    c.next? m = some (c.withPhase (.answered false m)) := by
  rw [next?_eq hTenure, hPhase]
  simp only [ne_eq, not_true_eq_false, if_false, if_neg hGone]

/-! ## What is known of a call -/

variable [Timer]

/-- The call of a checkpoint. -/
def start (m : Moment) (h : Handle) : Call :=
  ⟨.start m.now h, m, .asleep⟩

/-- What is known of a call at a moment: it has a registration, it does nothing before
its time, and if it was answered then by what the checkpoint said at that moment. -/
structure Sound (m : Moment) (c : Call) : Prop where
  called_le : c.called ≤ m
  known : ∃ t, c.called.tenure? c.handle = some t
  start : c.checkpoint = .start c.called.now c.handle
  awake : c.phase ≠ .asleep → c.checkpoint.due ≤ m.now
  -- what it has heard so far was no answer, but there may be more by now
  listening : ∀ seen, c.phase = .listening seen → ∃ heard, heard <+: m.told c.handle ∧
    heard.length = seen ∧ (heard.getLast? = none ∨ heard.getLast? = some .paused)
  answered : ∀ go m', c.phase = .answered go m' → c.called ≤ m' ∧ m' ≤ m ∧
    (c.checkpoint.poll m'.registry m'.now).answer? = some go

/-- What is known stays known. -/
theorem Sound.mono (h : c.Sound m) (hLe : m ≤ m') : c.Sound m' where
  called_le := h.called_le.trans hLe
  known := h.known
  start := h.start
  awake hPhase := Nat.le_trans (h.awake hPhase) hLe.2
  listening seen hPhase := by
    obtain ⟨heard, hHeard, hRest⟩ := h.listening seen hPhase
    exact ⟨heard, hHeard.trans (Moment.told_prefix_of_le hLe), hRest⟩
  answered go moment hPhase := by
    obtain ⟨hCalled, hAt, hAnswer⟩ := h.answered go moment hPhase
    exact ⟨hCalled, hAt.trans hLe, hAnswer⟩

theorem Sound.tenure?_of_le (h : c.Sound m) (hLe : c.called ≤ m') :
    ∃ t, m'.tenure? c.handle = some t := by
  obtain ⟨t, ht⟩ := h.known
  obtain ⟨more, hMore⟩ := Moment.tenure?_of_le hLe ht
  exact ⟨_, hMore⟩

/-- The time from which on the call may be answered. -/
theorem Sound.due_eq (h : c.Sound m) : c.checkpoint.due = c.handle.wakes c.called.now := by
  rw [h.start]
  rfl

theorem Sound.answer?_poll (h : c.Sound m) {t : Tenure} (hTenure : m.tenure? c.handle = some t)
    (hPhase : c.phase ≠ .asleep) :
    (c.checkpoint.poll m.registry m.now).answer? =
      (t.registration.look c.handle.control).or
        (if m.reaches c.handle then none else some false) := by
  rw [poll_of_due (h.awake hPhase)]
  exact Moment.answer?_verdict hTenure

/-- Where a listener has heard all signals, none of them is an answer. -/
theorem Sound.look_of_heard (h : c.Sound m) {t : Tenure} (hTenure : m.tenure? c.handle = some t)
    (hPhase : c.phase = .listening (m.told c.handle).length) :
    t.registration.look c.handle.control = none := by
  obtain ⟨heard, hPrefix, hLength, hLast⟩ := h.listening _ hPhase
  obtain rfl := hPrefix.eq_of_length hLength
  rw [Moment.look_registration hTenure, Moment.latest?]
  rcases hLast with hLast | hLast <;> rw [hLast]

theorem Sound.withPhase_looking (h : c.Sound m) (hDue : c.checkpoint.due ≤ m.now) :
    (c.withPhase .looking).Sound m :=
  ⟨h.called_le, h.known, h.start, fun _ => hDue, nofun, nofun⟩

theorem Sound.withPhase_answered (h : c.Sound m) {go : Bool} (hDue : c.checkpoint.due ≤ m.now)
    (hAnswer : (c.checkpoint.poll m.registry m.now).answer? = some go) :
    (c.withPhase (.answered go m)).Sound m where
  called_le := h.called_le
  known := h.known
  start := h.start
  awake _ := hDue
  listening := nofun
  answered go' m' hPhase := by
    cases hPhase
    exact ⟨h.called_le, le_refl m, hAnswer⟩

/-- A look that was no answer leaves only two signals that may have been the latest. -/
theorem Sound.withPhase_listening (h : c.Sound m) (hDue : c.checkpoint.due ≤ m.now) {t : Tenure}
    (hTenure : m.tenure? c.handle = some t) (hLook : t.registration.look c.handle.control = none) :
    (c.withPhase (.listening (m.told c.handle).length)).Sound m where
  called_le := h.called_le
  known := h.known
  start := h.start
  awake _ := hDue
  listening seen hPhase := by
    cases hPhase
    -- a look that gives no answer saw a pause, or nothing yet
    have hLatest : m.latest? c.handle = none ∨ m.latest? c.handle = some .paused := by
      rw [Moment.look_registration hTenure] at hLook
      split at hLook <;> simp_all
    exact ⟨m.told c.handle, List.prefix_rfl, rfl, hLatest⟩
  answered := nofun

/-- What is known of a call is known after its move. -/
theorem Sound.next (h : c.Sound m) (hNext : c.next? m = some c') : c'.Sound m := by
  obtain ⟨t, hTenure⟩ := h.tenure?_of_le h.called_le
  rw [next?_eq hTenure] at hNext
  cases hPhase : c.phase with
  | asleep =>
    rw [hPhase] at hNext
    obtain ⟨hDue, hNext⟩ := Option.ite_none_left_eq_some.mp hNext
    cases hNext
    exact h.withPhase_looking (Nat.not_lt.mp hDue)
  | looking =>
    have hPoll := h.answer?_poll hTenure (by simp [hPhase])
    have hDue := h.awake (by simp [hPhase])
    rw [hPhase] at hNext
    cases hLook : t.registration.look c.handle.control with
    | some go =>
      simp only [hLook] at hNext
      cases hNext
      exact h.withPhase_answered hDue (by rw [hPoll, hLook]; rfl)
    | none =>
      simp only [hLook] at hNext
      cases hNext
      exact h.withPhase_listening hDue hTenure hLook
  | listening seen =>
    have hPoll := h.answer?_poll hTenure (by simp [hPhase])
    have hDue := h.awake (by simp [hPhase])
    rw [hPhase] at hNext
    -- a signal since the last look sends the call back to look again, otherwise it listens on
    by_cases hSeen : seen = (m.told c.handle).length
    · have hNone := h.look_of_heard hTenure (hSeen ▸ hPhase)
      simp only [hSeen, ne_eq, not_true_eq_false, if_false] at hNext
      obtain ⟨hGone, hNext⟩ := Option.ite_none_left_eq_some.mp hNext
      cases hNext
      exact h.withPhase_answered hDue (by rw [hPoll, hNone, if_neg hGone]; rfl)
    · simp only [ne_eq, hSeen, not_false_eq_true, if_true] at hNext
      cases hNext
      exact h.withPhase_looking hDue
  | answered go m' =>
    rw [hPhase] at hNext
    cases hNext

/-- A checkpoint is called with a handle that a registration has returned. -/
theorem sound_start (hKnown : h.place < m.registry.registrations.length) :
    (Call.start m h).Sound m where
  called_le := le_refl m
  known := by
    rw [Moment.registry, Registry.registrations_after, List.length_map] at hKnown
    exact ⟨_, List.getElem?_eq_getElem hKnown⟩
  start := rfl
  awake hPhase := absurd rfl hPhase
  listening := nofun
  answered := nofun

/-! ## How far a call gets by itself -/

/-- Its own moves keep what is known of an open call, and its checkpoint. -/
theorem Sound.of_leads (h : c.Sound m) (hOpen : c.Open) (hLeads : Leads m c c') :
    c'.Sound m ∧ c'.checkpoint = c.checkpoint ∧
      ∀ go m', c'.phase = .answered go m' → m' = m := by
  induction hLeads with
  | refl => exact ⟨h, rfl, fun go m' hPhase => absurd hPhase (hOpen go m')⟩
  | tail _ hNext ih =>
    obtain ⟨hSound, hCheckpoint, -⟩ := ih
    refine ⟨hSound.next hNext, ?_⟩
    obtain ⟨phase, rfl, hNow⟩ := exists_phase_of_next? hNext
    exact ⟨hCheckpoint, hNow⟩

/-- What is answered to an open call is what its checkpoint says. -/
theorem Sound.answer_of_leads (h : c.Sound m) (hOpen : c.Open) (hLeads : Leads m c c') {go : Bool}
    {m' : Moment} (hPhase : c'.phase = .answered go m') :
    (c.checkpoint.poll m.registry m.now).answer? = some go := by
  obtain ⟨hSound, hCheckpoint, hNow⟩ := h.of_leads hOpen hLeads
  obtain ⟨-, -, hAnswer⟩ := hSound.answered go m' hPhase
  rwa [hNow go m' hPhase, hCheckpoint] at hAnswer

/-- A look at the signal leads to what the checkpoint says, if that is an answer. -/
theorem Sound.leads_of_looking (h : c.Sound m) (hPhase : c.phase = .looking) {go : Bool}
    (hPoll : (c.checkpoint.poll m.registry m.now).answer? = some go) :
    Leads m c (c.withPhase (.answered go m)) := by
  obtain ⟨t, hTenure⟩ := h.tenure?_of_le h.called_le
  have hNext := next?_eq hTenure
  rw [h.answer?_poll hTenure (by simp [hPhase])] at hPoll
  rw [hPhase] at hNext
  cases hLook : t.registration.look c.handle.control with
  | some go' =>
    rw [hLook] at hPoll
    cases hPoll
    simp only [hLook] at hNext
    exact .single hNext
  | none =>
    rw [hLook, Option.none_or] at hPoll
    simp only [hLook] at hNext
    obtain ⟨hGone, hGo⟩ := Option.ite_none_left_eq_some.mp hPoll
    cases hGo
    -- nothing is heard any more
    have hLast : (c.withPhase (.listening (m.told c.handle).length)).next? m =
        some (c.withPhase (.answered false m)) := next?_of_heard hTenure rfl hGone
    exact .head hNext (.single hLast)

theorem Sound.leads_answer (h : c.Sound m) (hOpen : c.Open) {go : Bool}
    (hPoll : (c.checkpoint.poll m.registry m.now).answer? = some go) :
    Leads m c (c.withPhase (.answered go m)) := by
  obtain ⟨t, hTenure⟩ := h.tenure?_of_le h.called_le
  have hNext := next?_eq hTenure
  have hLooking : c.next? m = some (c.withPhase .looking) →
      Leads m c (c.withPhase (.answered go m)) := by
    intro hNext
    exact .head hNext ((h.next hNext).leads_of_looking rfl hPoll)
  -- wherever the call stands, one or two steps of its own bring it to the answer that a poll
  -- would give
  cases hPhase : c.phase with
  | asleep =>
    have hDue := Checkpoint.due_le_of_answer? hPoll
    rw [hPhase] at hNext
    simp only [if_neg (Nat.not_lt.mpr hDue)] at hNext
    exact hLooking hNext
  | looking => exact h.leads_of_looking hPhase hPoll
  | listening seen =>
    by_cases hSeen : seen = (m.told c.handle).length
    · rw [hSeen] at hPhase
      rw [h.answer?_poll hTenure (by simp [hPhase]), h.look_of_heard hTenure hPhase] at hPoll
      obtain ⟨hGone, hGo⟩ := Option.ite_none_left_eq_some.mp hPoll
      cases hGo
      exact .single (next?_of_heard hTenure hPhase hGone)
    · rw [hPhase] at hNext
      simp only [ne_eq, hSeen, not_false_eq_true, if_true] at hNext
      exact hLooking hNext
  | answered go' m' => exact absurd hPhase (hOpen go' m')

/-- An open call waits exactly while its checkpoint says so. -/
theorem Sound.waits_iff (h : c.Sound m) (hOpen : c.Open) :
    c.Waits m ↔ c.checkpoint.poll m.registry m.now = .wait := by
  rw [Verdict.eq_wait_iff, Option.eq_none_iff_forall_ne_some]
  constructor
  · intro hWaits go hPoll
    exact hWaits _ (h.leads_answer hOpen hPoll) go m rfl
  · intro hNone c' hLeads go m' hPhase
    exact hNone go (h.answer_of_leads hOpen hLeads hPhase)

end Call

/-! ## Worlds -/

/-- All calls made so far, at a moment. -/
structure World where
  moment : Moment
  calls : List Call
deriving DecidableEq

/-- What may happen next: an event, some time that passes, a call, or a move of the
call at a place. -/
inductive Act where
  | tell (e : Event)
  | pass (time : Nat)
  | call (h : Handle)
  | move (place : Nat)
deriving DecidableEq

namespace World

/-- The world before anything has happened. -/
def dawn : World :=
  ⟨⟨[], 0⟩, []⟩

variable [Timer]

/-- The world after an act. There are no events once the registry is gone, and no calls
without a registration. The settings of a handle are those at the call, and need not be
the ones it was made with. -/
def act? (w : World) : Act → Option World
  | .tell e =>
    if .drop ∈ w.moment.events then none
    else some { w with moment := { w.moment with events := w.moment.events ++ [e] } }
  | .pass time => some { w with moment := { w.moment with now := w.moment.now + time } }
  | .call h =>
    if h.place < w.moment.registry.registrations.length then
      some { w with calls := w.calls ++ [.start w.moment h] }
    else none
  | .move place => do
    let c ← w.calls[place]?
    let c' ← c.next? w.moment
    return { w with calls := w.calls.set place c' }

/-- The world after a run of acts, in the order that they come. -/
def run? (w : World) (acts : List Act) : Option World :=
  acts.foldlM act? w

/-- What is known of a world: it is known of all its calls, and the end of the registry
was the end of the events. -/
structure Sound (w : World) : Prop where
  calls : ∀ c ∈ w.calls, c.Sound w.moment
  last : .drop ∉ w.moment.events.dropLast

theorem sound_dawn : dawn.Sound :=
  ⟨nofun, by decide⟩

variable {w w' : World}

/-- Whatever happens, what is known of a world is known of the next one. -/
theorem Sound.act (hw : w.Sound) {a : Act} (hAct : w.act? a = some w') : w'.Sound := by
  -- what is told and the time that passes only extend the moment, under which a sound call stays
  -- sound
  cases a with
  | tell e =>
    obtain ⟨hDrop, hAct⟩ := Option.ite_none_left_eq_some.mp hAct
    cases hAct
    have hLe : w.moment ≤ { w.moment with events := w.moment.events ++ [e] } :=
      ⟨List.prefix_append _ _, Nat.le_refl _⟩
    exact ⟨fun c hc => (hw.calls c hc).mono hLe, by simpa using hDrop⟩
  | pass time =>
    cases hAct
    have hLe : w.moment ≤ { w.moment with now := w.moment.now + time } :=
      ⟨List.prefix_rfl, Nat.le_add_right _ _⟩
    exact ⟨fun c hc => (hw.calls c hc).mono hLe, hw.last⟩
  | call h =>
    obtain ⟨hKnown, hAct⟩ := Option.ite_none_right_eq_some.mp hAct
    cases hAct
    refine ⟨?_, hw.last⟩
    intro c hc
    rcases List.mem_append.mp hc with hOld | hNew
    · exact hw.calls c hOld
    · rw [List.mem_singleton.mp hNew]
      exact Call.sound_start hKnown
  | move place =>
    obtain ⟨c, hc, hAct⟩ := Option.bind_eq_some_iff.mp hAct
    obtain ⟨c', hNext, hAct⟩ := Option.bind_eq_some_iff.mp hAct
    cases hAct
    refine ⟨?_, hw.last⟩
    intro x hx
    rcases List.mem_or_eq_of_mem_set hx with hOld | rfl
    · exact hw.calls x hOld
    · exact (hw.calls c (List.mem_of_getElem? hc)).next hNext

theorem Sound.run {acts : List Act} (hw : w.Sound) (hRun : w.run? acts = some w') : w'.Sound := by
  induction acts generalizing w with
  | nil =>
    cases hRun
    exact hw
  | cons a rest ih =>
    rw [run?, List.foldlM_cons] at hRun
    obtain ⟨next, hAct, hRest⟩ := Option.bind_eq_some_iff.mp hRun
    exact ih (hw.act hAct) hRest

end World

end FlowNest
