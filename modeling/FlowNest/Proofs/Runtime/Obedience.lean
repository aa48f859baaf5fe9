import FlowNest.Proofs.Runtime.Interleaving

/-!
# FlowNest — what checkpoints obey

A checkpoint obeys the latest signal at the moment of its answer, in whatever order
signals, calls and the moves of all calls come. It lets the node go on if that signal
permits it, and makes it exit if the signal forbids it. A signal that does neither, or
none at all, keeps the call waiting for as long as there may be another one.

The signal comes first, and who is permitted to go on does not notice that the registry
is gone. So a node that was running when the registry was dropped is never told to exit.

* `Moment.Permits`, `Moment.Forbids`, `Moment.Holds` — what the latest signal says;
* `Moment.answer?_verdict_iff` — the verdict follows it;
* `World.obeys`                — so does the answer to a call, at its time;
* `World.obeys_after_drop`     — what becomes of this once the registry is gone;
* `World.exists_go_after_drop` — a call may be told to go on even then.
-/

namespace FlowNest

namespace Moment

variable {m : Moment} {h : Handle}

/-- The latest signal lets the node go on. -/
def Permits (m : Moment) (h : Handle) : Prop :=
  m.latest? h = some .running ∨ m.latest? h = some .error ∧ h.control.autoResumeOnError = true

/-- The latest signal makes the node exit. -/
def Forbids (m : Moment) (h : Handle) : Prop :=
  m.latest? h = some .idle ∨ m.latest? h = some .error ∧ h.control.autoResumeOnError = false

/-- There is no signal yet, or the latest one makes the node pause. -/
def Holds (m : Moment) (h : Handle) : Prop :=
  m.latest? h = none ∨ m.latest? h = some .paused

/-- The verdict follows the latest signal, and one that says nothing is followed by the
end of the registration. -/
theorem answer?_verdict_iff {t : Tenure} (hTenure : m.tenure? h = some t) :
    ((m.registry.verdict h).answer? = some true ↔ m.Permits h) ∧
      ((m.registry.verdict h).answer? = some false ↔
        m.Forbids h ∨ m.Holds h ∧ m.reaches h = false) ∧
      (m.registry.verdict h = .wait ↔ m.Holds h ∧ m.reaches h = true) := by
  rw [Verdict.eq_wait_iff, answer?_verdict hTenure, look_registration hTenure, Permits, Forbids,
    Holds]
  rcases m.latest? h with _ | _ | _ | _ | _ <;> simp

end Moment

/-- An answer was given at its time, and follows the verdict at that moment. -/
theorem Call.Sound.verdict_of_answered [Timer] {m m' : Moment} {c : Call} (h : c.Sound m)
    {go : Bool} (hPhase : c.phase = .answered go m') :
    c.checkpoint.due ≤ m'.now ∧ (m'.registry.verdict c.handle).answer? = some go := by
  obtain ⟨-, -, hAnswer⟩ := h.answered go m' hPhase
  have hDue := Checkpoint.due_le_of_answer? hAnswer
  rw [poll_of_due hDue] at hAnswer
  exact ⟨hDue, hAnswer⟩

namespace World

variable {w : World} {c : Call} {acts : List Act}

/-- In whatever order things come, a call is not answered before its time has passed, if the
timers keep to it. It is told to go on only if the latest signal permits it, and to exit only
if that signal forbids it or the registration has come to its end. Once it has slept it waits
exactly while the registration lasts and has had no signal or a pause as its latest one. So
having had none is not like having been told to be idle, although the state that is seen is
the same. -/
theorem obeys [Timer] (hKeeps : Timer.Keeps) (hRun : dawn.run? acts = some w)
    (hc : c ∈ w.calls) :
    (∀ go m, c.phase = .answered go m → c.called ≤ m ∧ m ≤ w.moment ∧
      c.called.now + c.handle.control.speedAttenuationMs.toNat ≤ m.now ∧
      (go = true → m.Permits c.handle) ∧
      (go = false → m.Forbids c.handle ∨ m.reaches c.handle = false)) ∧
    (c.Open → c.handle.wakes c.called.now ≤ w.moment.now →
      (c.Waits w.moment ↔ w.moment.reaches c.handle = true ∧ w.moment.Holds c.handle)) ∧
    w.moment.registry.stateAt c.handle = (w.moment.latest? c.handle).getD .idle := by
  have hSound := (sound_dawn.run hRun).calls c hc
  obtain ⟨t, hTenure⟩ := hSound.tenure?_of_le hSound.called_le
  refine ⟨?_, ?_, ?_⟩
  · intro go m hPhase
    obtain ⟨hCalled, hMoment, -⟩ := hSound.answered go m hPhase
    obtain ⟨hDue, hAnswer⟩ := hSound.verdict_of_answered hPhase
    obtain ⟨t', hTenure'⟩ := hSound.tenure?_of_le hCalled
    obtain ⟨hGo, hExit, -⟩ := Moment.answer?_verdict_iff hTenure'
    -- nothing is answered in its sleep, and the sleep takes its time
    rw [hSound.due_eq] at hDue
    refine ⟨hCalled, hMoment, Nat.le_trans (c.handle.le_wakes hKeeps _) hDue, ?_, ?_⟩
    · rintro rfl
      exact hGo.mp hAnswer
    · rintro rfl
      exact (hExit.mp hAnswer).imp id And.right
  · intro hOpen hDue
    rw [← hSound.due_eq] at hDue
    rw [hSound.waits_iff hOpen, Call.poll_of_due hDue, (Moment.answer?_verdict_iff hTenure).2.2]
    exact And.comm
  · rw [Registry.stateAt, Moment.registrations_of_tenure? hTenure, Moment.latest?, Moment.told,
      hTenure]
    show (t.told.getLast?.elim Signal.registered Signal.told).state = t.told.getLast?.getD .idle
    cases t.told.getLast? <;> rfl

/-- The handle of a mill that rests for five milliseconds at each checkpoint. -/
def mill : Handle :=
  ⟨0, "mill", { ControlConfig.standard with speedAttenuationMs := 5 }⟩

/-- The mill was called before it was started, paused while it slept, and then resumed. -/
def millResumes : Moment :=
  ⟨[.register "mill" mill.control, .startAll, .pauseAll, .resumeAll], 5⟩

def millGoesOn : World :=
  ⟨millResumes,
    [⟨.start 0 mill, ⟨[.register "mill" mill.control], 0⟩, .answered true millResumes⟩]⟩

theorem run_millGoesOn :
    dawn.run? [.tell (.register "mill" mill.control), .call mill, .tell .startAll, .tell .pauseAll,
      .pass 5, .move 0, .move 0, .tell .resumeAll, .move 0, .move 0] = some millGoesOn := by
  decide +kernel

/-- Where timers end on time, it was told to go on when its five milliseconds had passed. -/
theorem millGoesOn_obeys :
    ∃ c ∈ millGoesOn.calls, c.phase = .answered true millResumes ∧
      c.called.now + 5 ≤ millResumes.now ∧ millResumes.Permits c.handle := by
  obtain ⟨-, -, hLate, hPermits, -⟩ :=
    (obeys Timer.keeps_exact run_millGoesOn (List.mem_singleton_self _)).1 true millResumes rfl
  exact ⟨_, List.mem_singleton_self _, rfl, hLate, hPermits rfl⟩

/-- What happened up to a moment at which the registry was gone is all that happened. -/
theorem Sound.events_eq_of_drop [Timer] (hw : w.Sound) {m : Moment} (hLe : m ≤ w.moment)
    (hDrop : .drop ∈ m.events) : m.events = w.moment.events := by
  obtain ⟨⟨more, hMore⟩, -⟩ := hLe
  have hLast := hw.last
  rw [← hMore] at hLast ⊢
  cases more with
  | nil => exact (List.append_nil _).symm
  | cons e rest =>
    rw [List.dropLast_append_of_ne_nil (List.cons_ne_nil e rest)] at hLast
    exact absurd (List.mem_append_left _ hDrop) hLast

/-- Once the registry is gone it reaches no registration. -/
theorem Sound.reaches_of_drop [Timer] (hw : w.Sound) (hDrop : .drop ∈ w.moment.events)
    (h : Handle) :
    w.moment.reaches h = false := by
  -- the drop is an event, and as there is none after it, it is the last one
  obtain ⟨before, e, hEvents⟩ :=
    (List.eq_nil_or_concat' _).resolve_left (List.ne_nil_of_mem hDrop)
  have hLast := hw.last
  rw [hEvents, List.dropLast_concat] at hLast
  rw [hEvents, List.mem_append, List.mem_singleton] at hDrop
  obtain rfl := hDrop.resolve_left hLast
  have hTenures : tenures w.moment.events = (tenures before).map (·.after [.drop]) := by
    rw [hEvents, tenures_append]
    exact List.append_nil _
  rw [Moment.reaches, Moment.tenure?, hTenures, List.getElem?_map]
  cases (tenures before)[h.place]? with
  | none => rfl
  | some t => simp [Tenure.lasts, Tenure.after, Event.ends]

/-- A call that is made once the registry is gone does not wait beyond its sleep, whatever the
timers do. It is answered by the last signal, and so it is told to go on if that one permits
it. -/
theorem obeys_after_drop [Timer] (hRun : dawn.run? acts = some w) (hc : c ∈ w.calls)
    (hDrop : .drop ∈ c.called.events) :
    (∀ go m, c.phase = .answered go m → (go = true ↔ w.moment.Permits c.handle)) ∧
    (c.Open → c.handle.wakes c.called.now ≤ w.moment.now → ¬ c.Waits w.moment) := by
  have hw := sound_dawn.run hRun
  have hSound := hw.calls c hc
  have hGone := hw.events_eq_of_drop hSound.called_le hDrop
  obtain ⟨t, hTenure⟩ := hSound.tenure?_of_le hSound.called_le
  constructor
  · intro go m hPhase
    obtain ⟨hCalled, hMoment, -⟩ := hSound.answered go m hPhase
    obtain ⟨-, hAnswer⟩ := hSound.verdict_of_answered hPhase
    -- nothing was sent since the call
    have hEvents := hw.events_eq_of_drop hMoment (hCalled.1.subset hDrop)
    rw [Moment.registry, hEvents] at hAnswer
    have hGo := (Moment.answer?_verdict_iff hTenure).1
    rw [← hGo, Moment.registry, hAnswer, Option.some_inj]
  · intro hOpen hDue
    rw [← hSound.due_eq] at hDue
    rw [hSound.waits_iff hOpen, Call.poll_of_due hDue, (Moment.answer?_verdict_iff hTenure).2.2,
      hw.reaches_of_drop (hGone ▸ hDrop)]
    simp

/-- The registry was dropped while the mill was running. -/
def millLeft : Moment :=
  ⟨[.register "mill" mill.control, .startAll, .drop], 0⟩

def millRunsOn : World :=
  ⟨{ millLeft with now := 5 },
    [⟨.start 0 mill, millLeft, .answered true { millLeft with now := 5 }⟩]⟩

theorem run_millRunsOn :
    dawn.run? [.tell (.register "mill" mill.control), .tell .startAll, .tell .drop, .call mill,
      .pass 5, .move 0, .move 0] = some millRunsOn := by
  decide +kernel

theorem millRunsOn_obeys_after_drop :
    .drop ∈ millLeft.events ∧ millRunsOn.moment.Permits mill := by
  have hDrop : .drop ∈ millLeft.events := by decide
  have hGo := (obeys_after_drop run_millRunsOn (List.mem_singleton_self _) hDrop).1 true _ rfl
  exact ⟨hDrop, hGo.mp rfl⟩

/-- That the registry is gone does not keep a call made afterwards from being told to go
on. -/
theorem exists_go_after_drop :
    ¬ ∀ acts w, dawn.run? acts = some w → ∀ c ∈ w.calls, .drop ∈ c.called.events →
      ∀ m, c.phase ≠ .answered true m := by
  intro hAll
  have hDrop : .drop ∈ millLeft.events := by decide
  exact hAll _ _ run_millRunsOn _ (List.mem_singleton_self _) hDrop _ rfl

end World

end FlowNest
