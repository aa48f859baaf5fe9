import Mathlib.Data.List.TakeWhile
import FlowNest.Proofs.Runtime.History

/-!
# FlowNest — signals reach the registration they are meant for

A node is registered while the latest of its registrations has not come to its end. Then
it is in the state that it was told last since then, and idle if it was told none; what
was told to the registrations before is forgotten, and what is told to other nodes does
not count. A handle sees the same, for as long as its registration lasts, and from then
on what was seen in the end.

* `Registered`        — a history leaves a node registered;
* `lastTold`          — the state that a node was told last;
* `mem_tenures_iff`   — a registration that was made splits the history;
* `find?_lasting_eq`  — of a node's registrations only the latest one can last;
* `Registry.delivers` — what a registry and its handles show after any history.
-/

namespace FlowNest

/-- The node was registered, and nothing has put an end to that since. -/
def Registered (node : String) (events : List Event) : Prop :=
  ∃ before control since, events = before ++ .register node control :: since ∧
    ∀ e ∈ since, e.ends node = false

/-- The last state that the events tell a node, and idle if there is none. -/
def lastTold (node : String) (events : List Event) : ExecutionState :=
  (events.filterMap (·.tells? node)).getLast?.getD .idle

/-! ## Single registrations -/

namespace Tenure

variable {node : String} {since held rest : List Event} {e : Event}

/-- A registration is in the state that it was told last. -/
theorem state_registration (t : Tenure) :
    t.registration.signal.state = t.told.getLast?.getD .idle := by
  show (t.told.getLast?.elim Signal.registered Signal.told).state = t.told.getLast?.getD .idle
  cases t.told.getLast? <;> rfl

theorem lasts_iff : (Tenure.mk node since).lasts = true ↔ ∀ e ∈ since, e.ends node = false := by
  simp [lasts]

/-- One that lasts has been told all that was meant for it. -/
theorem told_of_lasts (h : ∀ e ∈ since, e.ends node = false) :
    (Tenure.mk node since).told = since.filterMap (·.tells? node) := by
  have hAll : since.takeWhile (!·.ends node) = since :=
    List.takeWhile_eq_self_iff.mpr fun e he => by rw [h e he, Bool.not_false]
  rw [told, hAll]

/-- After its end it is told nothing. -/
theorem told_of_ends (h : e.ends node = true) :
    (Tenure.mk node (held ++ e :: rest)).told = (Tenure.mk node held).told := by
  have hStop : (e :: rest).takeWhile (!·.ends node) = [] :=
    List.takeWhile_cons_of_neg (by simp [h])
  simp only [told]
  rw [List.takeWhile_append, hStop, List.append_nil]
  -- the end may also have come before
  split
  · next hLength => rw [(List.takeWhile_prefix _).eq_of_length hLength]
  · rfl

theorem not_lasts_after {t : Tenure} (h : e.ends t.node = true) :
    (t.after (e :: rest)).lasts = false := by
  simp [lasts, after, h]

end Tenure

/-! ## All registrations of a history -/

variable {events : List Event} {node : String}

theorem mem_tenures_iff {t : Tenure} :
    t ∈ tenures events ↔
      ∃ before control, events = before ++ .register t.node control :: t.since := by
  induction events with
  | nil => simp [tenures]
  | cons e rest ih =>
    rw [tenures, List.mem_append, ih]
    constructor
    · rintro (h | ⟨before, control, rfl⟩)
      -- only a registration begins a tenure, with all that follows it
      · cases e with
        | register other control =>
          obtain rfl : t = ⟨other, rest⟩ := by simpa [Event.registers?] using h
          exact ⟨[], control, rfl⟩
        | _ => cases h
      · exact ⟨e :: before, control, rfl⟩
    · rintro ⟨before, control, hSplit⟩
      cases before with
      | nil =>
        obtain ⟨rfl, rfl⟩ := List.cons.inj hSplit
        exact .inl (List.mem_singleton_self t)
      | cons _ before =>
        obtain ⟨-, rfl⟩ := List.cons.inj hSplit
        exact .inr ⟨before, control, rfl⟩

/-- The registration that reaches the node. -/
def lasting? (node : String) (events : List Event) : Option Tenure :=
  (tenures events).find? fun t => t.lasts && t.node = node

/-- It is the latest one, for that has put an end to those before. -/
theorem lasting?_eq {before since : List Event} {control : ControlConfig}
    (h : ∀ e ∈ since, e.ends node = false) :
    lasting? node (before ++ .register node control :: since) = some ⟨node, since⟩ := by
  -- an earlier tenure of the node ends with this registration at the latest
  have hEarlier : ((tenures before).map (·.after (.register node control :: since))).find?
      (fun t => t.lasts && t.node = node) = none := by
    rw [List.find?_eq_none]
    intro t ht
    obtain ⟨t, -, rfl⟩ := List.mem_map.mp ht
    by_cases hNode : t.node = node
    · have hEnds : (Event.register node control).ends t.node = true := by simp [Event.ends, hNode]
      simp [Tenure.not_lasts_after hEnds]
    · simp [Tenure.after, hNode]
  have hLasts : (Tenure.mk node since).lasts = true := Tenure.lasts_iff.mpr h
  rw [lasting?, tenures_append, List.find?_append, hEarlier, Option.none_or]
  show List.find? _ (⟨node, since⟩ :: tenures since) = _
  simp [hLasts]

theorem registered_iff : Registered node events ↔ (lasting? node events).isSome = true := by
  constructor
  · rintro ⟨before, control, since, rfl, h⟩
    rw [lasting?_eq h]
    rfl
  · intro h
    obtain ⟨t, ht⟩ := Option.isSome_iff_exists.mp h
    -- the tenure found is one of this node, and it lasts
    obtain ⟨hLasts, hNode⟩ : t.lasts = true ∧ t.node = node := by
      simpa using List.find?_some ht
    obtain ⟨before, control, hSplit⟩ := mem_tenures_iff.mp (List.mem_of_find?_eq_some ht)
    subst hNode
    exact ⟨before, control, t.since, hSplit, Tenure.lasts_iff.mp hLasts⟩

/-! ## What a registry shows -/

namespace Registry

theorem find?_isOf_after (events : List Event) (node : String) :
    (Registry.after events).registrations.find? (·.isOf node) =
      (lasting? node events).map Tenure.registration := by
  rw [registrations_after, List.find?_map]
  rfl

theorem stateOf?_after (events : List Event) (node : String) :
    (Registry.after events).stateOf? node =
      (lasting? node events).map (·.told.getLast?.getD .idle) := by
  rw [stateOf?, find?_isOf_after, Option.map_map]
  exact congrArg (Option.map · _) (funext Tenure.state_registration)

theorem contains_after (events : List Event) (node : String) :
    (Registry.after events).contains node = true ↔ Registered node events := by
  rw [registered_iff, contains, ← List.isSome_find?, find?_isOf_after, Option.isSome_map]

/-- A handle sees the state of the registration that it is a view of. -/
theorem stateAt_after (before since : List Event) (node : String) (control : ControlConfig) :
    (Registry.after (before ++ .register node control :: since)).stateAt
        ((Registry.after before).register node control).2 =
      (Tenure.mk node since).told.getLast?.getD .idle := by
  have hPlace := tenures_place_register before since node control
  rw [stateAt, registrations_after, List.getElem?_map, hPlace]
  exact Tenure.state_registration ⟨node, since⟩

/-- After any history, a node that is registered is in the state that it was told last
since then, and so its latest handle sees it; one that is not registered is in no state.
The handle of a registration that has come to its end goes on seeing what it saw then. A
state can be set exactly for the nodes that are registered, and for others nothing
changes. -/
theorem delivers (events : List Event) (node : String) :
    ((Registry.after events).stateOf? node = none ↔ ¬ Registered node events) ∧
    (∀ before control since, events = before ++ .register node control :: since →
      ((∀ e ∈ since, e.ends node = false) →
        (Registry.after events).stateOf? node = some (lastTold node since) ∧
        (Registry.after events).stateAt ((Registry.after before).register node control).2 =
          lastTold node since) ∧
      (∀ held e rest, since = held ++ e :: rest → e.ends node = true →
        (Registry.after events).stateAt ((Registry.after before).register node control).2 =
          (Registry.after (before ++ .register node control :: held)).stateAt
            ((Registry.after before).register node control).2)) ∧
    (∀ state, (Registered node events →
        (Registry.after events).setState node state =
          .ok (Registry.after (events ++ [.setState node state]))) ∧
      (¬ Registered node events →
        (Registry.after events).setState node state = .error (.nodeNotFound node) ∧
        Registry.after (events ++ [.setState node state]) = Registry.after events)) := by
  refine ⟨?_, ?_, ?_⟩
  · rw [registered_iff, stateOf?_after, Option.map_eq_none_iff, Option.not_isSome_iff_eq_none]
  · rintro before control since rfl
    constructor
    · intro h
      rw [stateOf?_after, lasting?_eq h, stateAt_after, lastTold, ← Tenure.told_of_lasts h]
      exact ⟨rfl, rfl⟩
    · rintro held e rest rfl hEnds
      rw [stateAt_after, stateAt_after, Tenure.told_of_ends hEnds]
  · intro state
    -- telling one more event is one more step of the fold
    have hStep : Registry.after (events ++ [.setState node state]) =
        (Event.setState node state).apply (Registry.after events) := by
      rw [Registry.after, List.foldl_append]
      rfl
    constructor
    · intro h
      rw [hStep, Event.apply_setState, setState, if_pos ((contains_after events node).mpr h)]
    · intro h
      have hNot := Bool.eq_false_iff.mpr (mt (contains_after events node).mp h)
      rw [hStep, Event.apply_setState, editNode_of_not_contains hNot, setState, hNot]
      exact ⟨rfl, rfl⟩

/-- A pump was started, registered anew, and then paused. -/
def pumpRenewed : List Event :=
  [.register "pump" .standard, .startAll, .register "pump" .standard, .pauseAll]

/-- The first handle saw the pump running, and the second sees it paused. -/
theorem pumpRenewed_delivers :
    (Registry.after pumpRenewed).stateOf? "pump" = some .paused ∧
      (Registry.after pumpRenewed).stateAt ⟨1, "pump", .standard⟩ = .paused ∧
      (Registry.after pumpRenewed).stateAt ⟨0, "pump", .standard⟩ = .running := by
  obtain ⟨-, hHandles, -⟩ := delivers pumpRenewed "pump"
  obtain ⟨hLatest, -⟩ := hHandles [.register "pump" .standard, .startAll] .standard [.pauseAll] rfl
  obtain ⟨-, hFirst⟩ := hHandles [] .standard
    [.startAll, .register "pump" .standard, .pauseAll] rfl
  have hSeen := hFirst [.startAll] (.register "pump" .standard) [.pauseAll] rfl (by decide)
  obtain ⟨hState, hHandle⟩ := hLatest (by decide)
  exact ⟨hState, hHandle, hSeen⟩

end Registry

end FlowNest
