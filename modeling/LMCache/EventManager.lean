import LMCache.Foundations.Dict

namespace LMCache

inductive EventStatus where
  | ongoing
  | done
  | notFound
deriving DecidableEq

inductive EventError where
  | notFound
  | notDone
deriving DecidableEq

structure EventManager (F : Type) where
  events : EventStatus → Dict String F

namespace EventManager

variable {F : Type}

def empty : EventManager F := ⟨fun _ => Dict.empty⟩

variable (em : EventManager F)

def setEvents (status : EventStatus) (d : Dict String F) : EventManager F :=
  ⟨fun s => if s = status then d else em.events s⟩

variable (eventId : String) (future : F)

def addEvent : EventManager F :=
  em.setEvents .ongoing ((em.events .ongoing).set eventId future)

def findEvent : Option (EventStatus × F) :=
  [EventStatus.ongoing, .done, .notFound].findSome? fun s =>
    ((em.events s).get? eventId).map fun future => (s, future)

def updateEventStatus (status : EventStatus) : Except EventError (EventManager F) :=
  match em.findEvent eventId with
  | none => .error .notFound
  | some (s, future) =>
      let popped := em.setEvents s ((em.events s).erase eventId)
      .ok (popped.setEvents status ((popped.events status).set eventId future))

def getEventStatus : EventStatus :=
  ((em.findEvent eventId).map Prod.fst).getD .notFound

def popEvent : Except EventError (EventManager F × F) :=
  match (em.events .done).get? eventId with
  | none => .error .notDone
  | some future => .ok (em.setEvents .done ((em.events .done).erase eventId), future)

def getEventFuture : Except EventError F :=
  match (em.events .done).get? eventId with
  | none => .error .notDone
  | some future => .ok future

@[simp] theorem events_setEvents (status s : EventStatus) (d : Dict String F) :
    (em.setEvents status d).events s = if s = status then d else em.events s := rfl

theorem findEvent_addEvent :
    (em.addEvent eventId future).findEvent eventId = some (.ongoing, future) := by
  simp [findEvent, addEvent]

theorem updateEventStatus_addEvent :
    ∃ em', (em.addEvent eventId future).updateEventStatus eventId .done = .ok em' ∧
      em'.getEventFuture eventId = .ok future := by
  rw [updateEventStatus, findEvent_addEvent]
  exact ⟨_, rfl, by simp [getEventFuture]⟩

theorem done_updateEventStatus :
    ∃ em', (em.addEvent eventId future).updateEventStatus eventId .done = .ok em' ∧
      em'.getEventStatus eventId = .done ∧ em'.getEventFuture eventId = .ok future ∧
        ∃ popped, em'.popEvent eventId = .ok (popped, future) := by
  rw [updateEventStatus, findEvent_addEvent]
  refine ⟨_, rfl, ?_, ?_, ?_⟩
  · simp [getEventStatus, findEvent, addEvent, Dict.get?_erase]
  · simp [getEventFuture]
  · simp [popEvent]

theorem getEventFuture_of_notFound {em : EventManager F} {eventId : String}
    (h : em.getEventStatus eventId = .notFound) :
    em.getEventFuture eventId = .error .notDone := by
  rw [getEventFuture]
  cases hdone : (em.events .done).get? eventId with
  | none => rfl
  | some future =>
    have hstatus : em.getEventStatus eventId ≠ .notFound := by
      rw [getEventStatus, findEvent, List.findSome?_cons, List.findSome?_cons, hdone]
      cases (em.events .ongoing).get? eventId with
      | none => exact EventStatus.noConfusion
      | some ongoing => exact EventStatus.noConfusion
    exact absurd h hstatus

end EventManager

end LMCache
