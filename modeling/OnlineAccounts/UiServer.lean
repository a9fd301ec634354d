import OnlineAccounts.UiProxy

/-! # The UI process

`UiServer` (`online-accounts-ui/ui-server.cpp`) reads the operations of its proxy, makes a request
object for each operation `process`, and sends an operation back when the request completes.  The
request objects (`request.cpp`) belong to dialogs and account plugins, which may fail them, give
them a result or cancel them at any time and in any order.

`onRequestCompleted` disconnects the request before it answers, so that a request is answered
only once, whatever is called on it afterwards; `answer` keeps the operation, for the proofs. -/

namespace OnlineAccounts

namespace Operation

/-- The id of the request that an operation asks the UI process to process. -/
def processed : Operation → Option ℤ
  | .process id _ _ _ => some id
  | _ => none

/-- The id of the request that an operation of the UI process answers. -/
def answers : Operation → Option ℤ
  | .finished id _ _ _ | .failed id _ _ _ => some id
  | _ => none

/-- The reply that an operation of the UI process carries. -/
def reply : Operation → Option Reply
  | .finished _ data _ _ => some (.result data)
  | .failed _ _ errorName errorMessage => some (.error errorName errorMessage)
  | _ => none

end Operation

/-- A request in the UI process. -/
structure UiRequest where
  interface : String
  id : ℤ
  clientApparmorProfile : String
  parameters : QVariantMap
  inProgress : Bool := false
  errorName : String := ""
  errorMessage : String := ""
  result : QVariantMap := .nil
  delay : ℤ := 0
  /-- The operation that was sent for the request; until then `completed()` is connected. -/
  answer : Option Operation := none

namespace UiRequest

/-- The operation that the request was made for. -/
def origin (request : UiRequest) : Operation :=
  .process request.id request.parameters request.interface request.clientApparmorProfile

/-- The operation that answers the request. -/
def operation (request : UiRequest) : Operation :=
  if request.errorName = "" then
    .finished request.id request.result request.delay request.interface
  else .failed request.id request.interface request.errorName request.errorMessage

def start (request : UiRequest) : UiRequest :=
  if request.inProgress then request else { request with inProgress := true }

theorem operation_answers (request : UiRequest) : request.operation.answers = some request.id := by
  unfold operation
  split_ifs <;> rfl

end UiRequest

structure UiServer where
  /-- The operations that have been read, in order. -/
  received : List Operation := []
  /-- The request objects, in the order in which they were made. -/
  requests : List UiRequest := []
  /-- The operations written to the socket, in order. -/
  sent : List Operation := []

/-- What happens in the UI process; `i` is the number of a request object. -/
inductive UiEvent where
  | setDelay (i : ℕ) (delay : ℤ)
  | fail (i : ℕ) (name message : String)
  | setCanceled (i : ℕ)
  | setResult (i : ℕ) (result : QVariantMap)
  | newHandler (matchId : String)

namespace UiServer

/-- `onDataReady(data)`, for the operation in the data. -/
def onDataReady (operation : Operation) (server : UiServer) : UiServer :=
  let server := { server with received := server.received ++ [operation] }
  match operation with
  | .process id parameters interface clientProfile =>
      { server with
        requests := server.requests ++ [UiRequest.start
          { interface := interface
            id := id
            clientApparmorProfile := clientProfile
            parameters := parameters }] }
  | _ => server

def sendOperation (operation : Operation) (server : UiServer) : UiServer :=
  { server with sent := server.sent ++ [operation] }

def setRequest (i : ℕ) (f : UiRequest → UiRequest) (server : UiServer) : UiServer :=
  { server with requests := server.requests.modify i f }

/-- `completed()`, with `onRequestCompleted()` if it is still connected. -/
def completed (i : ℕ) (server : UiServer) : UiServer :=
  match server.requests[i]? with
  | none => server
  | some request =>
      if request.answer.isSome then server
      else (server.setRequest i ({ · with answer := some request.operation })).sendOperation
        request.operation

def fail (i : ℕ) (name message : String) (server : UiServer) : UiServer :=
  (server.setRequest i ({ · with errorName := name, errorMessage := message })).completed i

/-- Whether request `i` is in progress. -/
def inProgress (i : ℕ) (server : UiServer) : Bool := server.requests[i]?.any (·.inProgress)

def setCanceled (i : ℕ) (server : UiServer) : UiServer :=
  if server.inProgress i then
    (server.fail i OAU_ERROR_USER_CANCELED "Canceled").setRequest i ({ · with inProgress := false })
  else server

def setResult (i : ℕ) (result : QVariantMap) (server : UiServer) : UiServer :=
  if server.inProgress i then
    ((server.setRequest i ({ · with result := result })).completed i).setRequest i
      ({ · with inProgress := false })
  else server

/-- `registerHandler(handler)`, for its `matchId()`. -/
def registerHandler (matchId : String) (server : UiServer) : UiServer :=
  server.sendOperation (.newHandler matchId)

def handle (server : UiServer) : UiEvent → UiServer
  | .setDelay i delay => server.setRequest i ({ · with delay := delay })
  | .fail i name message => server.fail i name message
  | .setCanceled i => server.setCanceled i
  | .setResult i result => server.setResult i result
  | .newHandler matchId => server.registerHandler matchId

/-! ### One answer for each operation -/

/-- The requests are those that were read, and what is answered is answered once, by the request
with the id. -/
structure Valid (server : UiServer) : Prop where
  ids : server.requests.map UiRequest.id = server.received.filterMap Operation.processed
  origin : ∀ request ∈ server.requests, request.origin ∈ server.received
  distinct : (server.received.filterMap Operation.processed).Nodup
  answers : (server.sent.filterMap Operation.answers).Nodup
  answered : ∀ operation ∈ server.sent, ∀ id, operation.answers = some id →
    ∃ request ∈ server.requests, request.id = id ∧ request.answer = some operation

theorem valid_start : Valid {} := by
  constructor <;> simp

theorem map_modify {α β : Type*} {l : List α} {i : ℕ} {f : α → α} {g : α → β}
    (h : ∀ a, g (f a) = g a) : (l.modify i f).map g = l.map g := by
  refine List.ext_getElem? fun j => ?_
  simp only [List.getElem?_map, List.getElem?_modify]
  cases l[j]? with
  | none => rfl
  | some a =>
      by_cases hi : i = j <;> simp [hi, h]

/-- A change of a request that is not about its operations. -/
def Local (f : UiRequest → UiRequest) : Prop :=
  ∀ request, (f request).origin = request.origin ∧ (f request).answer = request.answer

theorem mem_modify_local {f : UiRequest → UiRequest} {l : List UiRequest} {i : ℕ}
    {request : UiRequest} (h : request ∈ l.modify i f) :
    ∃ request' ∈ l, request = request' ∨ request = f request' := by
  obtain ⟨j, hj⟩ := List.mem_iff_getElem?.mp h
  rw [List.getElem?_modify] at hj
  cases hl : l[j]? with
  | none => simp [hl] at hj
  | some request' =>
      refine ⟨request', List.mem_of_getElem? hl, ?_⟩
      by_cases hi : i = j
      · exact .inr (by simpa [hl, hi, eq_comm] using hj)
      · exact .inl (by simpa [hl, hi, eq_comm] using hj)

theorem exists_mem_modify {f : UiRequest → UiRequest} {l : List UiRequest} (i : ℕ)
    {request : UiRequest} (h : request ∈ l) : ∃ request' ∈ l.modify i f,
      request' = request ∨ (l[i]? = some request ∧ request' = f request) := by
  obtain ⟨j, hj⟩ := List.mem_iff_getElem?.mp h
  by_cases hi : i = j
  · subst hi
    exact ⟨f request, List.mem_iff_getElem?.mpr ⟨i, by simp [hj]⟩,
      .inr ⟨hj, rfl⟩⟩
  · exact ⟨request, List.mem_iff_getElem?.mpr ⟨j, by simp [hj, hi]⟩, .inl rfl⟩

theorem Local.id_eq {f : UiRequest → UiRequest} (hf : Local f) (request : UiRequest) :
    (f request).id = request.id := (Operation.process.inj (hf request).1).1

theorem Valid.setRequest {server : UiServer} (h : server.Valid) (i : ℕ) {f : UiRequest → UiRequest}
    (hf : Local f) : (server.setRequest i f).Valid where
  ids := (map_modify hf.id_eq).trans h.ids
  origin request hr := by
    obtain ⟨request', hr', rfl | rfl⟩ := mem_modify_local hr
    · exact h.origin _ hr'
    · rw [(hf request').1]
      exact h.origin request' hr'
  distinct := h.distinct
  answers := h.answers
  answered operation ho id hid := by
    obtain ⟨request, hr, hreq, hanswer⟩ := h.answered operation ho id hid
    obtain ⟨request', hr', rfl | ⟨-, rfl⟩⟩ := exists_mem_modify (f := f) i hr
    · exact ⟨request', hr', hreq, hanswer⟩
    · exact ⟨f request, hr', (hf.id_eq request).trans hreq, (hf request).2.trans hanswer⟩

theorem Valid.request_unique {server : UiServer} (h : server.Valid) {request request' : UiRequest}
    (hr : request ∈ server.requests) (hr' : request' ∈ server.requests)
    (hid : request.id = request'.id) : request = request' := by
  have hnd : (server.requests.map UiRequest.id).Nodup := h.ids ▸ h.distinct
  exact List.inj_on_of_nodup_map hnd hr hr' hid

theorem Valid.sendOperation {server : UiServer} (h : server.Valid) {operation : Operation}
    (hid : operation.answers = none) : (server.sendOperation operation).Valid where
  ids := h.ids
  origin := h.origin
  distinct := h.distinct
  answers := by
    have hsent : (server.sent ++ [operation]).filterMap Operation.answers =
        server.sent.filterMap Operation.answers := by
      simp [List.filterMap_append, hid]
    exact hsent ▸ h.answers
  answered operation' ho id hid' := by
    rcases List.mem_append.mp ho with ho | ho
    · exact h.answered operation' ho id hid'
    · rw [List.mem_singleton.mp ho, hid] at hid'
      cases hid'

/-- A request is answered only while it has no answer. -/
theorem Valid.completed {server : UiServer} (h : server.Valid) (i : ℕ) :
    (server.completed i).Valid := by
  unfold UiServer.completed
  cases hi : server.requests[i]? with
  | none => exact h
  | some request =>
      simp only
      split_ifs with hanswer
      · exact h
      · have hr : request ∈ server.requests := List.mem_of_getElem? hi
        have hnew : request.id ∉ server.sent.filterMap Operation.answers := by
          intro hid
          obtain ⟨operation, ho, hid⟩ := List.mem_filterMap.mp hid
          obtain ⟨request', hr', hreq, hanswer'⟩ := h.answered operation ho _ hid
          rw [h.request_unique hr' hr hreq] at hanswer'
          simp [hanswer'] at hanswer
        have hsent : (server.sent ++ [request.operation]).filterMap Operation.answers =
            server.sent.filterMap Operation.answers ++ [request.id] := by
          simp [List.filterMap_append, request.operation_answers]
        refine ⟨?_, fun request' hr' => ?_, h.distinct, ?_, fun operation ho id hid => ?_⟩
        · refine Eq.trans (map_modify ?_) h.ids
          exact fun _ => rfl
        · obtain ⟨request'', hr'', rfl | rfl⟩ := mem_modify_local hr'
          · exact h.origin _ hr''
          · exact h.origin request'' hr''
        · refine hsent ▸ List.nodup_append.mpr ⟨h.answers, List.nodup_singleton _, ?_⟩
          rintro a ha b hb rfl
          exact hnew (List.mem_singleton.mp hb ▸ ha)
        · rcases List.mem_append.mp ho with ho | ho
          · obtain ⟨request', hr', hreq, hanswer'⟩ := h.answered operation ho id hid
            obtain ⟨request'', hr'', rfl | ⟨hi', -⟩⟩ :=
              exists_mem_modify (f := ({ · with answer := some request.operation })) i hr'
            · exact ⟨request'', hr'', hreq, hanswer'⟩
            · -- the request that completes has no answer yet
              rw [hi] at hi'
              obtain rfl := Option.some.inj hi'
              simp [hanswer'] at hanswer
          · obtain rfl := List.mem_singleton.mp ho
            refine ⟨{ request with answer := some request.operation }, ?_, ?_, rfl⟩
            · exact List.mem_iff_getElem?.mpr ⟨i, by
                simp [UiServer.sendOperation, UiServer.setRequest, hi]⟩
            · exact Option.some.inj (request.operation_answers.symm.trans hid)

/-- Whatever happens in the UI process, it sends at most one answer for each operation. -/
theorem Valid.handle {server : UiServer} (h : server.Valid) (e : UiEvent) :
    (server.handle e).Valid := by
  have hfail (i : ℕ) (name message : String) : (server.fail i name message).Valid := by
    refine Valid.completed (h.setRequest i ?_) i
    exact fun _ => ⟨rfl, rfl⟩
  cases e with
  | setDelay i delay =>
      refine h.setRequest i ?_
      exact fun _ => ⟨rfl, rfl⟩
  | fail i name message => exact hfail i name message
  | setCanceled i =>
      simp only [UiServer.handle, UiServer.setCanceled]
      split_ifs
      · refine (hfail i _ _).setRequest i ?_
        exact fun _ => ⟨rfl, rfl⟩
      · exact h
  | setResult i result =>
      simp only [UiServer.handle, UiServer.setResult]
      split_ifs
      · refine Valid.setRequest ((h.setRequest i ?_).completed i) i ?_
        · exact fun _ => ⟨rfl, rfl⟩
        · exact fun _ => ⟨rfl, rfl⟩
      · exact h
  | newHandler matchId => exact h.sendOperation rfl

theorem Valid.onDataReady {server : UiServer} (h : server.Valid) {operation : Operation} {id : ℤ}
    (hid : operation.processed = some id)
    (hnew : id ∉ server.received.filterMap Operation.processed) :
    (server.onDataReady operation).Valid := by
  cases operation with
  | process id' parameters interface clientProfile =>
      obtain rfl := Option.some.inj hid
      have hreceived : (server.received ++
          [Operation.process id' parameters interface clientProfile]).filterMap Operation.processed =
            server.received.filterMap Operation.processed ++ [id'] := by
        simp [List.filterMap_append, Operation.processed]
      refine ⟨?_, fun request hr => ?_, ?_, h.answers, fun operation ho id hid => ?_⟩
      · refine Eq.trans ?_ hreceived.symm
        simp [UiServer.onDataReady, h.ids, UiRequest.start]
      · rcases List.mem_append.mp hr with hr | hr
        · exact List.mem_append_left _ (h.origin request hr)
        · rw [List.mem_singleton.mp hr]
          exact List.mem_append_right _ (List.mem_singleton.mpr rfl)
      · refine hreceived ▸ List.nodup_append.mpr ⟨h.distinct, List.nodup_singleton _, ?_⟩
        rintro a ha b hb rfl
        exact hnew (List.mem_singleton.mp hb ▸ ha)
      · obtain ⟨request, hr, hanswer⟩ := h.answered operation ho id hid
        exact ⟨request, List.mem_append_left _ hr, hanswer⟩
  | _ => cases hid

theorem handle_received (server : UiServer) (e : UiEvent) :
    (server.handle e).received = server.received := by
  have hcompleted (server : UiServer) (i : ℕ) :
      (server.completed i).received = server.received := by
    unfold UiServer.completed
    cases server.requests[i]? with
    | none => rfl
    | some request =>
        simp only
        split_ifs <;> rfl
  cases e with
  | setDelay | newHandler => rfl
  | fail i name message => exact hcompleted _ i
  | setCanceled i =>
      simp only [UiServer.handle, UiServer.setCanceled]
      split_ifs
      · exact hcompleted _ i
      · rfl
  | setResult i result =>
      simp only [UiServer.handle, UiServer.setResult]
      split_ifs
      · exact hcompleted _ i
      · rfl

theorem handle_sent (server : UiServer) (e : UiEvent) :
    server.sent <+: (server.handle e).sent := by
  have hcompleted (server : UiServer) (i : ℕ) : server.sent <+: (server.completed i).sent := by
    unfold UiServer.completed
    cases server.requests[i]? with
    | none => exact List.prefix_rfl
    | some request =>
        simp only
        split_ifs
        · exact List.prefix_rfl
        · exact List.prefix_append _ _
  cases e with
  | setDelay => exact List.prefix_rfl
  | newHandler => exact List.prefix_append _ _
  | fail i name message => exact hcompleted (server.setRequest i _) i
  | setCanceled i =>
      simp only [UiServer.handle, UiServer.setCanceled]
      split_ifs
      · exact hcompleted (server.setRequest i _) i
      · exact List.prefix_rfl
  | setResult i result =>
      simp only [UiServer.handle, UiServer.setResult]
      split_ifs
      · exact hcompleted (server.setRequest i _) i
      · exact List.prefix_rfl

end UiServer

end OnlineAccounts
