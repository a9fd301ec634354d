import OnlineAccounts.SignOnUiRequest
import OnlineAccounts.Transition

/-! # Handlers and their requests

An account plugin that shows the page of a sign-on request itself makes a `RequestHandler`
(`plugins/OnlineAccountsPlugin/request-handler.cpp`) and gives its `matchId` to the authentication
session.  The UI process looks for the handler with this id when the request arrives
(`UiServerPrivate::onDataReady`), and `start()` binds the handler to the request.  `closeView()`
unbinds it, for a result, a cancellation, a failure of the network and in the destructor.

Several requests may name one handler.  A handler that is bound refuses another request, but
anybody may unbind it: a request that was refused, or has been closed before.  So what a handler is
bound to is always in order, and a request takes a handler away from another one exactly if it
closes its view while the handler is bound to the other one (`binding_in_order`). -/

namespace OnlineAccounts.SignOnUi

open Transition

structure RequestHandler where
  /-- The number in the `matchId`. -/
  number : ℕ
  matchId : String
  /-- `m_request`: the number of a request. -/
  request : Option ℕ := none
deriving DecidableEq

/-- `RequestHandler::setRequest(request)`. -/
def RequestHandler.setRequest (request : Option ℕ) (handler : RequestHandler) : RequestHandler :=
  if request = handler.request then handler
  else if handler.request.isSome ∧ request.isSome then handler
  else { handler with request := request }

/-- A request that has been started. -/
structure HandledRequest where
  /-- The number of its handler; the pointer is null once the handler is destroyed. -/
  handler : Option ℕ
  progress : Progress := Progress.start {}
  /-- `closeView()` has been called. -/
  closed : Bool := false
  destroyed : Bool := false
deriving DecidableEq

structure UiProcess where
  pid : ℕ
  counter : ℕ := 1
  allRequestHandlers : List RequestHandler := []
  /-- The requests, in the order in which they arrived. -/
  requests : List HandledRequest := []
deriving DecidableEq

namespace UiProcess

inductive Event where
  | newHandler
  | handlerDestroyed (number : ℕ)
  /-- A request arrives and is started. -/
  | process (parameters : QVariantMap)
  | cancel (i : ℕ)
  /-- `onFinished()`, with its reply. -/
  | finished (i : ℕ) (reply : QVariantMap)
  | failTimeout (i : ℕ)
  | destroyed (i : ℕ)

/-- The request that closes its view. -/
def Event.closes : Event → Option ℕ
  | .cancel i | .finished i _ | .failTimeout i | .destroyed i => some i
  | _ => none

/-- `RequestHandlerWatcher::findMatching(parameters)`: the number of the handler. -/
def findMatching (parameters : QVariantMap) (s : UiProcess) : Option ℕ :=
  if parameters.contains SSOUI_KEY_CLIENT_DATA then
    let clientData := (parameters.value SSOUI_KEY_CLIENT_DATA).toMap
    let matchId := (clientData.value OAU_REQUEST_MATCH_KEY).toString
    if matchId = "" then none
    else (s.allRequestHandlers.find? (·.matchId = matchId)).map (·.number)
  else none

def newHandler (s : UiProcess) : UiProcess :=
  { s with
    counter := s.counter + 1
    allRequestHandlers := s.allRequestHandlers ++
      [{ number := s.counter, matchId := s.pid.repr ++ "-" ++ s.counter.repr }] }

def handlerDestroyed (number : ℕ) (s : UiProcess) : UiProcess :=
  { s with allRequestHandlers := s.allRequestHandlers.filter (·.number ≠ number) }

/-- `setRequest(request)` of a handler, if it has not been destroyed. -/
def setRequest (number : ℕ) (request : Option ℕ) (s : UiProcess) : UiProcess :=
  { s with
    allRequestHandlers := s.allRequestHandlers.map fun handler =>
      if handler.number = number then handler.setRequest request else handler }

def modifyRequest (i : ℕ) (f : HandledRequest → HandledRequest) (s : UiProcess) : UiProcess :=
  { s with requests := s.requests.modify i f }

/-- The handler that request `i` was started with. -/
def handlerOf (i : ℕ) (s : UiProcess) : Option ℕ := s.requests[i]?.bind (·.handler)

def closeView (i : ℕ) (s : UiProcess) : UiProcess :=
  let s' := match s.handlerOf i with
    | some number => s.setRequest number none
    | none => s
  s'.modifyRequest i ({ · with closed := true })

def setResult (i : ℕ) (result : QVariantMap) (s : UiProcess) : UiProcess :=
  s.modifyRequest i fun request => { request with progress := request.progress.setResult result }

/-- `onDataReady(data)`, for the parameters of a request in the data. -/
def process (parameters : QVariantMap) (s : UiProcess) : UiProcess :=
  let handler := s.findMatching parameters
  let i := s.requests.length
  let s := { s with requests := s.requests ++ [{ handler := handler }] }
  match handler with
  | some number => s.setRequest number (some i)
  | none => s

def cancel (i : ℕ) (s : UiProcess) : UiProcess :=
  (s.setResult i (errorResult .QUERY_ERROR_CANCELED)).closeView i

def onFinished (i : ℕ) (reply : QVariantMap) (s : UiProcess) : UiProcess :=
  (s.closeView i).setResult i reply

def onFailTimer (i : ℕ) (s : UiProcess) : UiProcess :=
  (s.closeView i).setResult i (errorResult .QUERY_ERROR_NETWORK)

/-- The pointers to a deleted request become null. -/
def forget (i : ℕ) (s : UiProcess) : UiProcess :=
  { s with
    allRequestHandlers := s.allRequestHandlers.map fun handler =>
      if handler.request = some i then { handler with request := none } else handler }

/-- The destructor of a request. -/
def destroy (i : ℕ) (s : UiProcess) : UiProcess :=
  ((s.closeView i).modifyRequest i ({ · with destroyed := true })).forget i

/-- Request `i` has been started and not been destroyed. -/
def Alive (i : ℕ) (s : UiProcess) : Prop := s.requests[i]?.any (!·.destroyed) = true

instance (i : ℕ) (s : UiProcess) : Decidable (s.Alive i) := inferInstanceAs (Decidable (_ = _))

/-- Nothing happens to a request that has been destroyed. -/
def step (s : UiProcess) : Event → UiProcess
  | .newHandler => s.newHandler
  | .handlerDestroyed number => s.handlerDestroyed number
  | .process parameters => s.process parameters
  | .cancel i => if s.Alive i then s.cancel i else s
  | .finished i reply => if s.Alive i then s.onFinished i reply else s
  | .failTimeout i => if s.Alive i then s.onFailTimer i else s
  | .destroyed i => if s.Alive i then s.destroy i else s

/-- A process at its start; no event faults. -/
def machine (pid : ℕ) : Machine UiProcess Event Empty where
  start := { pid := pid }
  step s e := .ok (s.step e)

/-! ### Bindings -/

/-- The request that a handler is bound to. -/
def bound (s : UiProcess) (number : ℕ) : Option ℕ :=
  (s.allRequestHandlers.find? (·.number = number)).bind (·.request)

/-- Request `i` was started with the handler, and has not closed its view. -/
def Open (s : UiProcess) (number i : ℕ) : Prop :=
  ∃ request, s.requests[i]? = some request ∧ request.handler = some number ∧
    request.closed = false ∧ request.destroyed = false

/-- Handlers are bound only to requests that are open with them. -/
def InOrder (s : UiProcess) : Prop := ∀ number i, s.bound number = some i → s.Open number i

/-- No handler is taken away from another request than the one that closes its view. -/
def KeepsOthers (s : UiProcess) (e : Event) : Prop :=
  ∀ i, e.closes = some i → ∀ number j, s.bound number = some j → j ≠ i →
    (s.step e).bound number = some j

/-- The handler of the request that closes its view is bound to no other request. -/
def Owns (s : UiProcess) (e : Event) : Prop :=
  ∀ i, e.closes = some i → s.Alive i → ∀ number, s.handlerOf i = some number →
    ∀ j, s.bound number = some j → j = i

@[simp] theorem bound_modifyRequest (i : ℕ) (f : HandledRequest → HandledRequest) (s : UiProcess)
    (number : ℕ) : (s.modifyRequest i f).bound number = s.bound number := rfl

@[simp] theorem bound_setResult (i : ℕ) (result : QVariantMap) (s : UiProcess) (number : ℕ) :
    (s.setResult i result).bound number = s.bound number := rfl

theorem bound_map {f : RequestHandler → RequestHandler} (hf : ∀ k, (f k).number = k.number)
    (s : UiProcess) (number : ℕ) :
    ({ s with allRequestHandlers := s.allRequestHandlers.map f } : UiProcess).bound number =
      (s.allRequestHandlers.find? (·.number = number)).bind fun k => (f k).request := by
  unfold bound
  rw [List.find?_map]
  have hcomp : ((fun k : RequestHandler => decide (k.number = number)) ∘ f) =
      fun k => decide (k.number = number) := by
    funext k
    simp [hf]
  rw [hcomp]
  cases s.allRequestHandlers.find? (·.number = number) <;> rfl

theorem bound_setRequest (number : ℕ) (request : Option ℕ) (s : UiProcess) (number' : ℕ) :
    (s.setRequest number request).bound number' =
      (s.allRequestHandlers.find? (·.number = number')).bind fun k =>
        if k.number = number then (k.setRequest request).request else k.request := by
  refine (bound_map (fun k => ?_) s number').trans ?_
  · split_ifs
    · unfold RequestHandler.setRequest
      split_ifs <;> rfl
    · rfl
  · congr 1
    funext k
    split_ifs <;> rfl

theorem bound_unbind (number : ℕ) (s : UiProcess) (number' : ℕ) :
    (s.setRequest number none).bound number' = if number' = number then none else s.bound number' := by
  rw [bound_setRequest]
  unfold bound
  cases hk : s.allRequestHandlers.find? (·.number = number') with
  | none => simp
  | some k =>
      have hnumber : k.number = number' := by simpa using List.find?_some hk
      have hunbound : (k.setRequest none).request = none := by
        unfold RequestHandler.setRequest
        split_ifs with heq hbusy
        · exact heq.symm
        · exact absurd hbusy.2 (by simp)
        · rfl
      simp [hnumber, hunbound]

/-- A handler is bound by the request that starts, or it is bound as before. -/
theorem bound_bind {number i : ℕ} {s : UiProcess} {number' j : ℕ}
    (h : (s.setRequest number (some i)).bound number' = some j) :
    s.bound number' = some j ∨ (number' = number ∧ j = i) := by
  rw [bound_setRequest] at h
  unfold bound
  cases hk : s.allRequestHandlers.find? (·.number = number') with
  | none => simp [hk] at h
  | some k =>
      have hnumber : k.number = number' := by simpa using List.find?_some hk
      simp only [hk, Option.bind_some, hnumber] at h ⊢
      split_ifs at h with heq
      · unfold RequestHandler.setRequest at h
        split_ifs at h
        · exact .inl h
        · exact .inl h
        · exact .inr ⟨heq, (Option.some.inj h).symm⟩
      · exact .inl h

/-- Closing the view of a request unbinds its handler, whatever that is bound to. -/
theorem bound_closeView (i : ℕ) (s : UiProcess) (number : ℕ) :
    (s.closeView i).bound number = if s.handlerOf i = some number then none else s.bound number := by
  unfold closeView
  cases hi : s.handlerOf i with
  | none => simp
  | some number' =>
      rw [bound_modifyRequest, bound_unbind]
      simp [eq_comm]

theorem bound_forget (i : ℕ) (s : UiProcess) (number : ℕ) :
    (s.forget i).bound number = if s.bound number = some i then none else s.bound number := by
  refine (bound_map (fun k => ?_) s number).trans ?_
  · split_ifs <;> rfl
  · unfold bound
    cases s.allRequestHandlers.find? (·.number = number) with
    | none => rfl
    | some k =>
        simp only [Option.bind_some]
        split_ifs <;> rfl

theorem handlerOf_modifyRequest {f : HandledRequest → HandledRequest}
    (hf : ∀ request, (f request).handler = request.handler) (i i' : ℕ) (s : UiProcess) :
    (s.modifyRequest i f).handlerOf i' = s.handlerOf i' := by
  unfold handlerOf modifyRequest
  rw [List.getElem?_modify]
  cases s.requests[i']? with
  | none => rfl
  | some request =>
      by_cases hi : i = i'
      · simp [hi, hf]
      · simp [hi]

/-- What becomes of the binding to another request when a request closes its view. -/
theorem bound_of_closes {s : UiProcess} {e : Event} {i : ℕ} (h : e.closes = some i) {number j : ℕ}
    (hj : s.bound number = some j) (hne : j ≠ i) :
    (s.step e).bound number = if s.Alive i ∧ s.handlerOf i = some number then none else some j := by
  have hclose : (s.closeView i).bound number =
      if s.handlerOf i = some number then none else some j := by
    rw [bound_closeView, hj]
  by_cases hlive : s.Alive i
  · have hif : (if s.Alive i ∧ s.handlerOf i = some number then none else some j) =
        if s.handlerOf i = some number then none else some j := by
      simp [hlive]
    rw [hif, ← hclose]
    cases e with
    | newHandler | handlerDestroyed | process => cases h
    | cancel i' =>
        obtain rfl := Option.some.inj h
        simp only [step, if_pos hlive, cancel]
        have hhandler : (s.setResult i' (errorResult .QUERY_ERROR_CANCELED)).handlerOf i' =
            s.handlerOf i' := by
          refine handlerOf_modifyRequest ?_ i' i' s
          exact fun _ => rfl
        rw [bound_closeView, bound_closeView, hhandler, bound_setResult]
    | finished i' reply =>
        obtain rfl := Option.some.inj h
        simp only [step, if_pos hlive, onFinished, bound_setResult]
    | failTimeout i' =>
        obtain rfl := Option.some.inj h
        simp only [step, if_pos hlive, onFailTimer, bound_setResult]
    | destroyed i' =>
        obtain rfl := Option.some.inj h
        simp only [step, if_pos hlive, destroy]
        rw [bound_forget, bound_modifyRequest, if_neg]
        rw [hclose]
        split_ifs
        · exact fun hnone => by cases hnone
        · exact fun heq => hne (Option.some.inj heq)
  · have hstep : s.step e = s := by
      cases e with
      | newHandler | handlerDestroyed | process => cases h
      | cancel i' | finished i' reply | failTimeout i' | destroyed i' =>
          obtain rfl := Option.some.inj h
          exact if_neg hlive
    rw [hstep, hj, if_neg fun hand => hlive hand.1]

/-- Exactly the request whose handler is bound to another one takes it away. -/
theorem keepsOthers_iff (s : UiProcess) (e : Event) : s.KeepsOthers e ↔ s.Owns e := by
  constructor
  · intro hkeeps i hi hlive number hnumber j hj
    by_contra hne
    have hkept := hkeeps i hi number j hj hne
    rw [bound_of_closes hi hj hne, if_pos ⟨hlive, hnumber⟩] at hkept
    cases hkept
  · intro howns i hi number j hj hne
    rw [bound_of_closes hi hj hne]
    apply if_neg
    intro hand
    exact hne (howns i hi hand.1 number hand.2 j hj)

/-! ### Every run -/

theorem Open.handlerOf {s : UiProcess} {number i : ℕ} (h : s.Open number i) :
    s.handlerOf i = some number := by
  obtain ⟨request, hi, hhandler, -, -⟩ := h
  simp [UiProcess.handlerOf, hi, hhandler]

theorem Open.modifyRequest {s : UiProcess} {number j : ℕ} (h : s.Open number j) {i : ℕ}
    (hne : j ≠ i) (f : HandledRequest → HandledRequest) : (s.modifyRequest i f).Open number j := by
  obtain ⟨request, hj, hopen⟩ := h
  refine ⟨request, ?_, hopen⟩
  simp [UiProcess.modifyRequest, hne.symm, hj]

theorem Open.setResult {s : UiProcess} {number j : ℕ} (h : s.Open number j) (i : ℕ)
    (result : QVariantMap) : (s.setResult i result).Open number j := by
  by_cases hne : j = i
  · obtain ⟨request, hj, hopen⟩ := h
    refine ⟨{ request with progress := request.progress.setResult result }, ?_, hopen⟩
    simp [UiProcess.setResult, UiProcess.modifyRequest, ← hne, hj]
  · exact h.modifyRequest hne _

theorem InOrder.setResult {s : UiProcess} (h : s.InOrder) (i : ℕ) (result : QVariantMap) :
    (s.setResult i result).InOrder :=
  fun number j hj => (h number j hj).setResult i result

/-- The request that closes its view is bound to no handler afterwards. -/
theorem InOrder.closeView {s : UiProcess} (h : s.InOrder) (i : ℕ) : (s.closeView i).InOrder := by
  intro number j hj
  rw [bound_closeView] at hj
  split_ifs at hj with hi
  have hopen := h number j hj
  have hne : j ≠ i := fun heq => hi (heq ▸ hopen.handlerOf)
  have hrequests : (s.closeView i).requests =
      (s.modifyRequest i ({ · with closed := true })).requests := by
    unfold UiProcess.closeView
    cases s.handlerOf i <;> rfl
  unfold Open
  rw [hrequests]
  exact hopen.modifyRequest hne _

theorem InOrder.destroy {s : UiProcess} (h : s.InOrder) (i : ℕ) : (s.destroy i).InOrder := by
  intro number j hj
  unfold UiProcess.destroy at hj
  rw [bound_forget, bound_modifyRequest] at hj
  split_ifs at hj with hi
  have hne : j ≠ i := fun heq => hi (heq ▸ hj)
  exact (h.closeView i number j hj).modifyRequest hne _

theorem InOrder.process {s : UiProcess} (h : s.InOrder) (parameters : QVariantMap) :
    (s.process parameters).InOrder := by
  have hopen {number j : ℕ} (request : HandledRequest) (hj : s.Open number j) :
      ({ s with requests := s.requests ++ [request] } : UiProcess).Open number j := by
    obtain ⟨request', hj, hopen⟩ := hj
    exact ⟨request', List.getElem?_append_left (List.getElem?_eq_some_iff.mp hj).1 ▸ hj, hopen⟩
  unfold UiProcess.process
  cases hf : s.findMatching parameters with
  | none => exact fun number j hj => hopen _ (h number j hj)
  | some number' =>
      intro number j hj
      rcases bound_bind hj with hj | ⟨rfl, rfl⟩
      · exact hopen _ (h number j hj)
      · exact ⟨{ handler := some number }, List.getElem?_concat_length, rfl, rfl, rfl⟩

theorem bound_newHandler (s : UiProcess) (number : ℕ) :
    s.newHandler.bound number = s.bound number := by
  unfold bound newHandler
  rw [List.find?_append]
  cases s.allRequestHandlers.find? (·.number = number) with
  | some k => rfl
  | none =>
      by_cases hnumber : s.counter = number <;> simp [hnumber]

theorem bound_handlerDestroyed {number' : ℕ} {s : UiProcess} {number j : ℕ}
    (h : (s.handlerDestroyed number').bound number = some j) : s.bound number = some j := by
  by_cases hne : number = number'
  · subst hne
    have hnone : (s.handlerDestroyed number).allRequestHandlers.find? (·.number = number) = none := by
      apply List.find?_eq_none.mpr
      simp [handlerDestroyed]
    rw [bound, hnone] at h
    cases h
  · have hfind : (s.handlerDestroyed number').allRequestHandlers.find? (·.number = number) =
        s.allRequestHandlers.find? (·.number = number) := by
      simp only [handlerDestroyed, List.find?_filter]
      congr 1
      funext k
      by_cases hk : k.number = number <;> simp [hk, hne]
    unfold bound at h ⊢
    exact hfind ▸ h

theorem InOrder.step {s : UiProcess} (h : s.InOrder) (e : Event) : (s.step e).InOrder := by
  cases e with
  | newHandler => exact fun number j hj => h number j (bound_newHandler s number ▸ hj)
  | handlerDestroyed number' => exact fun number j hj => h number j (bound_handlerDestroyed hj)
  | process parameters => exact h.process parameters
  | cancel i =>
      simp only [UiProcess.step]
      split_ifs
      · exact (h.setResult i _).closeView i
      · exact h
  | finished i reply =>
      simp only [UiProcess.step]
      split_ifs
      · exact (h.closeView i).setResult i reply
      · exact h
  | failTimeout i =>
      simp only [UiProcess.step]
      split_ifs
      · exact (h.closeView i).setResult i _
      · exact h
  | destroyed i =>
      simp only [UiProcess.step]
      split_ifs
      · exact h.destroy i
      · exact h

/-- In every reachable state the bindings are in order; and the next event leaves the handlers of
other requests alone exactly if the handler of the request that closes its view is bound to no
other request. -/
theorem binding_in_order {pid : ℕ} {s : UiProcess}
    (h : Reachable (machine pid) (fun _ _ => True) s) :
    s.InOrder ∧ ∀ e, s.KeepsOthers e ↔ s.Owns e := by
  refine ⟨?_, s.keepsOthers_iff⟩
  refine h.invariant ?_ ?_
  · intro number i hi
    cases hi
  · intro s e s' hs _ hstep
    obtain rfl := Except.ok.inj hstep
    exact hs.step e

/-- The parameters of a request for the page at a URL, meant for a handler. -/
def browse (matchId : String) : QVariantMap :=
  (QVariantMap.nil.insert SSOUI_KEY_CLIENT_DATA
    (.map (QVariantMap.nil.insert OAU_REQUEST_MATCH_KEY (.string matchId)))).insert "OpenUrl"
      (.string "https://example.com/signin")

/-- One request after the other uses the handler. -/
theorem binding_in_order_two :
    ∃ s, (machine 7).run { pid := 7 } [.newHandler, .process (browse "7-1"), .finished 0 .nil,
        .destroyed 0, .process (browse "7-1")] = .ok s ∧
      s.InOrder ∧ ∀ e, s.KeepsOthers e ↔ s.Owns e := by
  refine (exists_reachable (machine 7) (fun _ _ => True) _ ?_ ?_).imp fun s h =>
    ⟨h.1, binding_in_order h.2⟩
  · decide
  · decide

/-- The first request is finished, the second one gets the handler, and the destructor of the first
one takes it away: the handler has no request, and the second one is still in progress. -/
theorem destructor_unbinds_another :
    ∃ s, (machine 7).run { pid := 7 } [.newHandler, .process (browse "7-1"), .finished 0 .nil,
        .process (browse "7-1")] = .ok s ∧
      s.bound 1 = some 1 ∧ (s.step (.destroyed 0)).bound 1 = none ∧
      ¬ s.KeepsOthers (.destroyed 0) ∧ (s.step (.destroyed 0)).Open 1 1 := by
  refine ⟨_, rfl, by decide, by decide, ?_, ?_⟩
  · intro hkeeps
    have hkept := hkeeps 0 rfl 1 1 (by decide) (by decide)
    revert hkept
    decide
  · exact ⟨{ handler := some 1 }, by decide, rfl, rfl, rfl⟩

end UiProcess

end OnlineAccounts.SignOnUi
