import Mathlib.Logic.Function.Basic

/-!
# The table of message handlers

`handler_map` (`lars_reactor/include/handler.h`) maps message ids to handlers. It is a singleton:
the `add_router` of every `tcp_server`, `tcp_client`, `udp_server` and `udp_client` of a process
puts handlers into the one table, and every message received by any of them is looked up there.

`Process` is a process after some calls of `add_router`. What an endpoint has itself registered last
for an id (`own`) is what it finds in the table if no other endpoint has come after it
(`getHandler_eq_own_iff`).
-/

namespace Lars.Reactor

/-- `handler_map`, with handlers of any type. -/
structure HandlerMap (η : Type*) where
  handlers : Int32 → Option η := fun _ => none

namespace HandlerMap

variable {η : Type*}

/-- `handler_map::register_handler`. -/
def registerHandler (msgid : Int32) (handler : η) (t : HandlerMap η) : HandlerMap η :=
  { t with handlers := Function.update t.handlers msgid (some handler) }

/-- `handler_map::get_handler`. -/
def getHandler (msgid : Int32) (t : HandlerMap η) : Option η := t.handlers msgid

end HandlerMap

/-- A call of the `add_router` of an endpoint. -/
structure AddRouter (ι η : Type*) where
  endpoint : ι
  msgid : Int32
  handler : η

section AddRouter

variable {ι η : Type*}

/-- The table of a process after calls of `add_router`, the same for all endpoints. -/
def process (calls : List (AddRouter ι η)) : HandlerMap η :=
  calls.foldl (fun t call => t.registerHandler call.msgid call.handler) {}

/-- The last call for an id. -/
def lastFor (calls : List (AddRouter ι η)) (msgid : Int32) : Option (AddRouter ι η) :=
  calls.reverse.find? fun call => call.msgid = msgid

/-- The table has the last handler registered, by whichever endpoint. -/
theorem getHandler_process (calls : List (AddRouter ι η)) (msgid : Int32) :
    (process calls).getHandler msgid = (lastFor calls msgid).map AddRouter.handler := by
  have hfold : ∀ (calls : List (AddRouter ι η)) (t : HandlerMap η),
      (calls.foldl (fun t call => t.registerHandler call.msgid call.handler) t).getHandler msgid =
        ((lastFor calls msgid).map AddRouter.handler).or (t.getHandler msgid) := by
    intro calls
    induction calls with
    | nil => exact fun t => rfl
    | cons call calls ih =>
      intro t
      rw [List.foldl_cons, ih, lastFor, lastFor, List.reverse_cons, List.find?_append]
      cases calls.reverse.find? fun call => call.msgid = msgid with
      | some last => rfl
      | none =>
        by_cases h : call.msgid = msgid
        · simp [HandlerMap.getHandler, HandlerMap.registerHandler, h]
        · simp [HandlerMap.getHandler, HandlerMap.registerHandler, h,
            Function.update_of_ne (Ne.symm h)]
  rw [process, hfold, HandlerMap.getHandler, Option.or_none]

variable [DecidableEq ι]

/-- The handler that an endpoint itself has last registered for an id. -/
def own (calls : List (AddRouter ι η)) (e : ι) (msgid : Int32) : Option η :=
  (calls.reverse.find? fun call => call.endpoint = e ∧ call.msgid = msgid).map AddRouter.handler

/-- No other endpoint has registered a handler for the id since the endpoint itself last did, or at
all if it never did; unless the last handler registered is the endpoint's own all the same. -/
def Undisturbed (calls : List (AddRouter ι η)) (e : ι) (msgid : Int32) : Prop :=
  ∀ call, lastFor calls msgid = some call →
    call.endpoint = e ∨ own calls e msgid = some call.handler

/-- The last call for an id, if it is an endpoint's, is that endpoint's last. -/
theorem own_of_lastFor {calls : List (AddRouter ι η)} {msgid : Int32} {call : AddRouter ι η}
    (h : lastFor calls msgid = some call) : own calls call.endpoint msgid = some call.handler := by
  obtain ⟨hid, later, earlier, hcalls, hlater⟩ := List.find?_eq_some_iff_append.mp h
  have hfind : calls.reverse.find? (fun c => c.endpoint = call.endpoint ∧ c.msgid = msgid) =
      some call := by
    refine List.find?_eq_some_iff_append.mpr ⟨by simpa using hid, later, earlier, hcalls, ?_⟩
    intro c hc
    have hne : ¬ c.msgid = msgid := by simpa using hlater c hc
    simp [hne]
  rw [own, hfind, Option.map_some]

theorem own_of_lastFor_none {calls : List (AddRouter ι η)} {msgid : Int32}
    (h : lastFor calls msgid = none) (e : ι) : own calls e msgid = none := by
  rw [own, Option.map_eq_none_iff, List.find?_eq_none]
  intro call hcall
  have hne : ¬ call.msgid = msgid := by simpa using List.find?_eq_none.mp h call hcall
  simp [hne]

/-- An endpoint finds its own handler if and only if no other endpoint has come after it. -/
theorem getHandler_eq_own_iff (calls : List (AddRouter ι η)) (e : ι) (msgid : Int32) :
    (process calls).getHandler msgid = own calls e msgid ↔ Undisturbed calls e msgid := by
  rw [getHandler_process, Undisturbed]
  cases h : lastFor calls msgid with
  | none => simp [own_of_lastFor_none h]
  | some call =>
    constructor
    · rintro hown _ ⟨⟩
      exact Or.inr hown.symm
    · intro hcall
      rcases hcall call rfl with rfl | hown
      · exact (own_of_lastFor h).symm
      · exact hown.symm

end AddRouter

end Lars.Reactor
