import FlowNest.Registry
import Mathlib.Data.List.Basic

/-!
# FlowNest — what a registration has heard

A registry changes by events, one after the other. What each of them does to a
registration is a matter of that registration alone: it may be told a state, or come to
its end, or neither. So the registry after a history of events can be read off the
history. Each registration that was made has its node and the events since, of which it
has heard those before its end.

* `Event.apply`               — an event changes a registry;
* `Registration.hear`         — an event changes a registration;
* `Event.registrations_apply` — the first is nothing but the second, for all of them;
* `Tenure`, `tenures`         — the registrations made in a history;
* `Registry.registrations_after`    — the registry, read off its history;
* `Registry.tenures_place_register` — a handle, and what it is a view of.
-/

namespace FlowNest

/-- What is done to a registry. -/
inductive Event where
  | register (node : String) (control : ControlConfig)
  | unregister (node : String)
  | setState (node : String) (state : ExecutionState)
  | startAll
  | pauseAll
  | resumeAll
  | stopAll
  | drop
deriving DecidableEq

namespace Event

/-- The registry after an event. A state that is set for a node which is not registered
is refused, and nothing changes. -/
def apply (r : Registry) : Event → Registry
  | .register node control => (r.register node control).1
  | .unregister node => r.unregister node
  | .setState node state =>
    match r.setState node state with
    | .ok r' => r'
    | .error _ => r
  | .startAll => r.startAll
  | .pauseAll => RuntimeRegistry.pauseAll r
  | .resumeAll => RuntimeRegistry.resumeAll r
  | .stopAll => RuntimeRegistry.stopAll r
  | .drop => r.drop

/-- The node that the event registers. -/
def registers? : Event → Option String
  | .register node _ => some node
  | _ => none

/-- What the event tells the registration of a node. -/
def tells? (node : String) : Event → Option ExecutionState
  | .setState other state => if other = node then some state else none
  | .startAll | .resumeAll => some .running
  | .pauseAll => some .paused
  | .stopAll => some .idle
  | _ => none

/-- Does the event put an end to the registration of a node? -/
def ends (node : String) : Event → Bool
  | .register other _ | .unregister other => other = node
  | .drop => true
  | _ => false

theorem ends_of_tells? {node : String} {e : Event} {state : ExecutionState}
    (h : e.tells? node = some state) : e.ends node = false := by
  cases e <;> simp_all [tells?, ends]

end Event

namespace Registration

/-- A registration as it is made. -/
def fresh (node : String) : Registration :=
  ⟨node, .registered, true⟩

/-- What becomes of a registration with an event. -/
def hear (x : Registration) (e : Event) : Registration :=
  match e.tells? x.node with
  | some state => x.tell state
  | none => if e.ends x.node then x.detach else x

variable {x : Registration}

theorem tell_of_not_attached (h : x.attached = false) (state : ExecutionState) :
    x.tell state = x := by
  rw [tell, h]
  rfl

theorem detach_of_not_attached (h : x.attached = false) : x.detach = x := by
  rw [detach, ← h]

/-- A registration that is detached hears nothing any more. -/
theorem hear_of_not_attached (h : x.attached = false) (e : Event) : x.hear e = x := by
  unfold hear
  split
  · exact tell_of_not_attached h _
  · split
    · exact detach_of_not_attached h
    · rfl

theorem foldl_hear_of_not_attached (h : x.attached = false) (events : List Event) :
    events.foldl hear x = x := by
  induction events with
  | nil => rfl
  | cons e rest ih => rw [List.foldl_cons, hear_of_not_attached h, ih]

end Registration

namespace Registry

/-- An edit of a node's registration is one of all that are its own, if it leaves alone
those that are detached. -/
theorem registrations_editNode (r : Registry) (node : String) {f : Registration → Registration}
    (hf : ∀ x : Registration, x.attached = false → f x = x) :
    (r.editNode node f).registrations =
      r.registrations.map fun x => if node = x.node then f x else x := by
  refine List.map_congr_left fun x _ => ?_
  cases hAttached : x.attached with
  | true => simp [Registration.isOf, hAttached, eq_comm]
  | false => simp [Registration.isOf, hAttached, hf x hAttached]

theorem editNode_of_not_contains {r : Registry} {node : String} (h : r.contains node = false)
    (f : Registration → Registration) : r.editNode node f = r := by
  have hNone : ∀ x ∈ r.registrations, x.isOf node = false := by simpa [contains] using h
  have hMap : r.registrations.map (fun x => if x.isOf node then f x else x) = r.registrations := by
    calc r.registrations.map (fun x => if x.isOf node then f x else x)
      _ = r.registrations.map id := List.map_congr_left fun x hx => by simp [hNone x hx]
      _ = r.registrations := List.map_id _
  exact congrArg mk hMap

end Registry

/-- To set the state of a node that is not registered changes nothing, as would telling
it to its registration. -/
theorem Event.apply_setState (r : Registry) (node : String) (state : ExecutionState) :
    (Event.setState node state).apply r = r.editNode node (.tell state) := by
  simp only [apply, Registry.setState]
  cases hContains : r.contains node with
  | true => rfl
  | false => exact (Registry.editNode_of_not_contains hContains _).symm

/-- An event changes the registrations, each by itself, and may add one. -/
theorem Event.registrations_apply (r : Registry) (e : Event) :
    (e.apply r).registrations =
      r.registrations.map (·.hear e) ++ (e.registers?.map .fresh).toList := by
  have hDetach : ∀ x : Registration, x.attached = false → x.detach = x :=
    fun _ => Registration.detach_of_not_attached
  cases e with
  | register node control =>
    show (r.editNode node .detach).registrations ++ [.fresh node] = _
    rw [r.registrations_editNode node hDetach]
    simp [registers?, Registration.hear, tells?, ends]
  | unregister node =>
    show (r.editNode node .detach).registrations = _
    rw [r.registrations_editNode node hDetach]
    simp [registers?, Registration.hear, tells?, ends]
  | setState node state =>
    rw [apply_setState,
      r.registrations_editNode node fun _ h => Registration.tell_of_not_attached h _]
    simp only [registers?, Option.map_none, Option.toList_none, List.append_nil]
    refine List.map_congr_left fun x _ => ?_
    by_cases hOwn : node = x.node <;> simp [Registration.hear, tells?, ends, hOwn]
  -- the other events find no registration to add, and ask for no node
  | startAll => exact (List.append_nil _).symm
  | pauseAll => exact (List.append_nil _).symm
  | resumeAll => exact (List.append_nil _).symm
  | stopAll => exact (List.append_nil _).symm
  | drop => exact (List.append_nil _).symm

/-! ## Histories -/

/-- A registration that was made, by its node and the events since. -/
structure Tenure where
  node : String
  since : List Event
deriving DecidableEq

/-- The registrations made in a history, in order. -/
def tenures : List Event → List Tenure
  | [] => []
  | e :: rest => (e.registers?.map (⟨·, rest⟩)).toList ++ tenures rest

namespace Tenure

/-- All that was told before the end. -/
def told (t : Tenure) : List ExecutionState :=
  (t.since.takeWhile (!·.ends t.node)).filterMap (·.tells? t.node)

/-- Has the registration not come to its end yet? -/
def lasts (t : Tenure) : Bool :=
  t.since.all (!·.ends t.node)

/-- The registration as it is now. -/
def registration (t : Tenure) : Registration where
  node := t.node
  signal := t.told.getLast?.elim .registered .told
  attached := t.lasts

/-- The same registration after more events. -/
def after (t : Tenure) (events : List Event) : Tenure :=
  { t with since := t.since ++ events }

theorem told_cons (node : String) (e : Event) (rest : List Event) :
    (Tenure.mk node (e :: rest)).told =
      if e.ends node then [] else (e.tells? node).toList ++ (Tenure.mk node rest).told := by
  cases hEnds : e.ends node with
  | true => simp [told, hEnds]
  | false => cases hTells : e.tells? node <;> simp [told, hEnds, hTells]

theorem lasts_cons (node : String) (e : Event) (rest : List Event) :
    (Tenure.mk node (e :: rest)).lasts = (!e.ends node && (Tenure.mk node rest).lasts) :=
  List.all_cons

/-- What was told stays told. -/
theorem told_prefix_after (t : Tenure) (events : List Event) :
    t.told <+: (t.after events).told := by
  refine List.IsPrefix.filterMap _ ?_
  rw [after, List.takeWhile_append]
  split
  · exact (List.takeWhile_prefix _).trans (List.prefix_append _ _)
  · exact List.prefix_rfl

end Tenure

/-- A registration hears all that is told before its end. -/
theorem Registration.foldl_hear {x : Registration} (hAttached : x.attached = true)
    (events : List Event) :
    events.foldl hear x =
      ⟨x.node, (Tenure.told ⟨x.node, events⟩).getLast?.elim x.signal .told,
        Tenure.lasts ⟨x.node, events⟩⟩ := by
  induction events generalizing x with
  | nil =>
    obtain ⟨node, signal, attached⟩ := x
    cases hAttached
    rfl
  | cons e rest ih =>
    rw [List.foldl_cons, Tenure.told_cons, Tenure.lasts_cons]
    cases hTells : e.tells? x.node with
    | some state =>
      have hEnds := Event.ends_of_tells? hTells
      have hHear : x.hear e = ⟨x.node, .told state, true⟩ := by simp [hear, hTells, tell, hAttached]
      rw [hHear, ih rfl, hEnds]
      simp only [Bool.false_eq_true, if_false, Option.toList_some, List.singleton_append,
        List.getLast?_cons, Option.elim_some, Bool.not_false, Bool.true_and]
      -- the state told now counts until another one is told
      cases (Tenure.mk x.node rest).told.getLast? <;> rfl
    | none =>
      cases hEnds : e.ends x.node with
      | true =>
        have hHear : x.hear e = x.detach := by simp [hear, hTells, hEnds]
        rw [hHear, foldl_hear_of_not_attached rfl]
        rfl
      | false =>
        have hHear : x.hear e = x := by simp [hear, hTells, hEnds]
        rw [hHear, ih hAttached]
        rfl

theorem tenures_append (events more : List Event) :
    tenures (events ++ more) = (tenures events).map (·.after more) ++ tenures more := by
  induction events with
  | nil => rfl
  | cons e rest ih =>
    rw [List.cons_append, tenures, tenures, ih]
    cases e.registers? <;> simp [Tenure.after]

/-- The registry after a history of events. -/
def Registry.after (events : List Event) : Registry :=
  events.foldl Event.apply .empty

/-- The registry holds the registrations made in its history, as they are now. -/
theorem Registry.registrations_after (events : List Event) :
    (Registry.after events).registrations = (tenures events).map (·.registration) := by
  have hRun : ∀ r : Registry, (events.foldl Event.apply r).registrations =
      r.registrations.map (events.foldl Registration.hear ·) ++
        (tenures events).map (·.registration) := by
    intro r
    induction events generalizing r with
    | nil => simp [tenures]
    | cons e rest ih =>
      rw [List.foldl_cons, ih, Event.registrations_apply, tenures, List.map_append, List.map_append,
        List.map_map, List.append_assoc]
      cases e.registers? with
      | none => rfl
      | some node =>
        -- the new registration starts afresh and hears the rest
        have hFresh := Registration.foldl_hear (x := .fresh node) rfl rest
        show _ ++ (rest.foldl Registration.hear (.fresh node) :: _) = _
        rw [hFresh]
        rfl
  exact hRun .empty

/-- The handle that a registration returns is a view of that registration, whatever comes
later. -/
theorem Registry.tenures_place_register (events more : List Event) (node : String)
    (control : ControlConfig) :
    (tenures (events ++ .register node control :: more))[
      ((Registry.after events).register node control).2.place]? = some ⟨node, more⟩ := by
  have hPlace : ((Registry.after events).register node control).2.place =
      ((tenures events).map (·.after (.register node control :: more))).length := by
    show (Registry.after events).registrations.length = _
    rw [registrations_after, List.length_map, List.length_map]
  rw [tenures_append, hPlace, List.getElem?_append_right (Nat.le_refl _), Nat.sub_self]
  rfl

end FlowNest
