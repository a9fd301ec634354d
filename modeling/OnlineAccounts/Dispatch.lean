import OnlineAccounts.QueueDiscipline

/-! # What a proxy writes to its UI process

A proxy gives the ids `0, 1, 2, …` to the requests that it handles, and writes at most one
operation `process` for each of them, in this order: those that are registered when the UI process
connects are written then, and the later ones at once (`UiProxy.Sent`).

`Dispatches` says so of a proxy in a state of the service.  It has two parameters, so that what
happens between two states can be read off it: some ids that are never going to be sent, and the
operations that have been read by the UI process, which stay at the beginning of what is written. -/

namespace OnlineAccounts

/-- A list that picks entries by increasing positions is a sublist of the entries. -/
theorem sublist_zipIdx {α : Type*} : ∀ (l : List α) (n : ℕ) {es : List (α × ℕ)},
    es.Pairwise (fun e e' => e.2 < e'.2) → (∀ e ∈ es, n ≤ e.2 ∧ l[e.2 - n]? = some e.1) →
      es.Sublist (l.zipIdx n)
  | [], _, es, _, hes => by
      cases es with
      | nil => exact List.Sublist.refl _
      | cons e es => simpa using hes e List.mem_cons_self
  | a :: l, n, es, hpair, hes => by
      rw [List.zipIdx_cons]
      -- what lies behind position `n` picks from the rest
      have hrest {es : List (α × ℕ)} (hpair : es.Pairwise fun e e' => e.2 < e'.2)
          (hes : ∀ e ∈ es, n < e.2 ∧ (a :: l)[e.2 - n]? = some e.1) :
          es.Sublist (l.zipIdx (n + 1)) := by
        refine sublist_zipIdx l (n + 1) hpair fun e he => ?_
        obtain ⟨hlt, hget⟩ := hes e he
        obtain ⟨k, hk⟩ : ∃ k, e.2 = n + 1 + k := Nat.exists_eq_add_of_le hlt
        refine ⟨hlt, ?_⟩
        have hsub : e.2 - n = k + 1 := by omega
        have hsub' : e.2 - (n + 1) = k := by omega
        rw [hsub, List.getElem?_cons_succ] at hget
        rw [hsub', hget]
      cases es with
      | nil => exact List.nil_sublist _
      | cons e es =>
          obtain ⟨hlt, hpair'⟩ := List.pairwise_cons.mp hpair
          obtain ⟨hle, hget⟩ := hes e List.mem_cons_self
          rcases Nat.lt_or_eq_of_le hle with hn | hn
          · refine (hrest hpair fun e' he' => ?_).cons _
            obtain ⟨hle', hget'⟩ := hes e' he'
            rcases List.mem_cons.mp he' with rfl | he'
            · exact ⟨hn, hget⟩
            · exact ⟨hn.trans (hlt e' he'), hget'⟩
          · obtain rfl : e = (a, n) := by
              rw [← hn, Nat.sub_self, List.getElem?_cons_zero] at hget
              exact Prod.ext (Option.some.inj hget).symm hn.symm
            exact (hrest hpair' fun e' he' =>
              ⟨hlt e' he', (hes e' (List.mem_cons_of_mem _ he')).2⟩).cons_cons _

/-- The request that is handed or routed to proxy `p`. -/
def Emission.handledBy (p : ProxyId) : Emission → Option RequestId
  | .routed r q | .handed r _ q => if q = p then some r else none
  | _ => none

namespace UiProxy

variable {unsent : ℕ → Prop} {read : List Operation} {handled : List RequestId}
  {requests : RequestId → Request} {proxy : UiProxy}

/-- The operations written by a proxy that has handled the requests `handled` are those of the
entries `es`, each a request with its id. -/
structure Sent (unsent : ℕ → Prop) (handled : List RequestId) (requests : RequestId → Request)
    (proxy : UiProxy) (es : List (RequestId × ℕ)) : Prop where
  order : es.Sublist handled.zipIdx
  sent : proxy.sent = es.map fun e => processOperation e.2 (requests e.1)
  unsent : ∀ e ∈ es, ¬ unsent e.2
  /-- Nothing is written before the UI process has connected. -/
  before : proxy.status ≠ .ready → es = []
  /-- Afterwards, all that is registered has been written. -/
  after : proxy.status = .ready →
    ∀ (i : ℕ) (r : RequestId), proxy.requests[(i : ℤ)]? = some r → (r, i) ∈ es

/-- A proxy has handled these requests, and its UI process has read these operations. -/
structure Dispatched (unsent : ℕ → Prop) (read : List Operation) (handled : List RequestId)
    (requests : RequestId → Request) (proxy : UiProxy) : Prop where
  next : proxy.nextRequestId = handled.length
  registered : ∀ (id : ℤ) (r : RequestId), proxy.requests[id]? = some r →
    ∃ i : ℕ, id = i ∧ handled[i]? = some r ∧ ¬ unsent i
  read : read <+: proxy.sent
  ready : proxy.status = .ready ↔ proxy.socket ≠ .none
  sent : ∃ es, proxy.Sent unsent handled requests es

theorem Dispatched.congr {requests' : RequestId → Request}
    (h : proxy.Dispatched unsent read handled requests)
    (hdata : ∀ r ∈ handled, ∀ id, processOperation id (requests' r) =
      processOperation id (requests r)) : proxy.Dispatched unsent read handled requests' := by
  obtain ⟨es, hes⟩ := h.sent
  refine ⟨h.next, h.registered, h.read, h.ready, es, hes.order, ?_, hes.unsent, hes.before,
    hes.after⟩
  rw [hes.sent]
  refine List.map_congr_left fun e he => (hdata e.1 ?_ _).symm
  exact List.fst_mem_of_mem_zipIdx (hes.order.subset he)

theorem Dispatched.of_same {proxy' : UiProxy} (h : proxy.Dispatched unsent read handled requests)
    (hnext : proxy'.nextRequestId = proxy.nextRequestId)
    (hrequests : proxy'.requests = proxy.requests) (hsent : proxy'.sent = proxy.sent)
    (hstatus : proxy'.status = proxy.status)
    (hsocket : proxy'.socket = .none ↔ proxy.socket = .none) :
    proxy'.Dispatched unsent read handled requests := by
  obtain ⟨es, hes⟩ := h.sent
  refine ⟨hnext.trans h.next, hrequests ▸ h.registered, hsent ▸ h.read, ?_, es, hes.order,
    hsent.trans hes.sent, hes.unsent, hstatus ▸ hes.before, ?_⟩
  · rw [hstatus, h.ready]
    exact not_congr hsocket.symm
  · rw [hstatus, hrequests]
    exact hes.after

/-! ### Each method keeps it -/

theorem Dispatched.onRequestCompleted (h : proxy.Dispatched unsent read handled requests)
    (r : RequestId) (delay : ℤ) :
    (proxy.onRequestCompleted r delay).Dispatched unsent read handled requests := by
  have hsub : ∀ (id : ℤ) (q : RequestId),
      (proxy.onRequestCompleted r delay).requests[id]? = some q → proxy.requests[id]? = some q :=
    requests_onRequestCompleted proxy r delay
  obtain ⟨es, hes⟩ := h.sent
  exact ⟨h.next, fun id q hid => h.registered id q (hsub id q hid), h.read, h.ready, es, hes.order,
    hes.sent, hes.unsent, hes.before, fun hready i q hid => hes.after hready i q (hsub _ q hid)⟩

theorem startProcess_same (env : Environment) (proxy : UiProxy) :
    (proxy.startProcess env).socket = proxy.socket ∧ (proxy.startProcess env).sent = proxy.sent ∧
      (proxy.startProcess env).status ≠ .ready := by
  unfold startProcess
  cases env.listens with
  | false => exact ⟨rfl, rfl, by simp⟩
  | true =>
      refine ⟨rfl, rfl, ?_⟩
      cases env.starts <;> simp

/-- A handled request is written at once if the UI process is there. -/
theorem handleRequest_cases (env : Environment) (proxy : UiProxy) (r : RequestId)
    (request : Request) :
    (proxy.handleRequest env r request).socket = proxy.socket ∧
      (proxy.status = .ready ∧ (proxy.handleRequest env r request).status = .ready ∧
          (proxy.handleRequest env r request).sent =
            proxy.sent ++ [processOperation proxy.nextRequestId request] ∨
        proxy.status ≠ .ready ∧ (proxy.handleRequest env r request).status ≠ .ready ∧
          (proxy.handleRequest env r request).sent = proxy.sent) := by
  unfold UiProxy.handleRequest
  cases hs : proxy.status with
  | ready => exact ⟨rfl, .inl ⟨rfl, rfl, rfl⟩⟩
  | loading | error => exact ⟨rfl, .inr ⟨by simp, by simp, rfl⟩⟩
  | null =>
      obtain ⟨hsocket, hsent, hready⟩ := startProcess_same env { proxy with
        providerId := if proxy.providerId = "" then request.providerId env.accounts
          else proxy.providerId
        nextRequestId := proxy.nextRequestId + 1
        requests := proxy.requests.insert proxy.nextRequestId r }
      simp only [hs] at hsocket hsent hready ⊢
      exact ⟨hsocket, .inr ⟨by simp, hready, hsent⟩⟩

theorem Dispatched.handleRequest (h : proxy.Dispatched unsent read handled requests)
    (hunsent : ∀ i, unsent i → i < handled.length) (env : Environment) (r : RequestId)
    {request : Request} (hdata : ∀ id, processOperation id (requests r) =
      processOperation id request) :
    (proxy.handleRequest env r request).Dispatched unsent read (handled ++ [r]) requests := by
  have hnew : ¬ unsent handled.length := fun hu => lt_irrefl _ (hunsent _ hu)
  have hzip : (handled ++ [r]).zipIdx = handled.zipIdx ++ [(r, handled.length)] := by
    simp [List.zipIdx_append]
  have hregistered : ∀ (id : ℤ) (q : RequestId),
      (proxy.handleRequest env r request).requests[id]? = some q →
        (id = handled.length ∧ q = r) ∨ proxy.requests[id]? = some q := by
    intro id q hid
    rw [handleRequest_requests, Std.TreeMap.getElem?_insert, h.next] at hid
    split_ifs at hid with he
    · rw [compare_eq_iff_eq] at he
      exact .inl ⟨he.symm, (Option.some.inj hid).symm⟩
    · exact .inr hid
  obtain ⟨hsocket, hcases⟩ := handleRequest_cases env proxy r request
  obtain ⟨es, hes⟩ := h.sent
  refine ⟨by rw [handleRequest_nextRequestId, h.next]; simp, fun id q hid => ?_, ?_, ?_, ?_⟩
  · rcases hregistered id q hid with ⟨rfl, rfl⟩ | hold
    · exact ⟨handled.length, rfl, by simp, hnew⟩
    · obtain ⟨i, rfl, hget, hu⟩ := h.registered id q hold
      have hlt : i < handled.length := (List.getElem?_eq_some_iff.mp hget).1
      exact ⟨i, rfl, by rw [List.getElem?_append_left hlt]; exact hget, hu⟩
  · rcases hcases with ⟨-, -, hsent⟩ | ⟨-, -, hsent⟩
    · rw [hsent]
      exact h.read.trans (List.prefix_append _ _)
    · rw [hsent]
      exact h.read
  · rw [hsocket, ← h.ready]
    rcases hcases with ⟨hs, hs', -⟩ | ⟨hs, hs', -⟩
    · simp [hs, hs']
    · simp [hs, hs']
  · rcases hcases with ⟨hs, hs', hsent⟩ | ⟨hs, hs', hsent⟩
    · -- the request is written
      refine ⟨es ++ [(r, handled.length)], ?_, ?_, fun e he => ?_, fun hne => absurd hs' hne,
        fun _ i q hid => ?_⟩
      · rw [hzip]
        exact hes.order.append (List.Sublist.refl _)
      · rw [hsent, hes.sent, List.map_append, h.next]
        simp [hdata]
      · rcases List.mem_append.mp he with he | he
        · exact hes.unsent e he
        · rw [List.mem_singleton.mp he]
          exact hnew
      · rcases hregistered _ q hid with ⟨hi, rfl⟩ | hold
        · rw [Int.natCast_inj.mp hi]
          simp
        · exact List.mem_append_left _ (hes.after hs i q hold)
    · -- the request waits for the UI process
      refine ⟨es, ?_, hsent.trans hes.sent, hes.unsent, fun _ => hes.before hs,
        fun hready => absurd hready hs'⟩
      rw [hzip]
      exact hes.order.trans (List.sublist_append_left _ _)

/-- The UI process connects: the registered requests are written, in the order of their ids. -/
theorem Dispatched.onNewConnection (h : proxy.Dispatched unsent read handled requests) :
    (proxy.onNewConnection requests).Dispatched unsent read handled requests := by
  unfold UiProxy.onNewConnection
  rw [sendAll_eq]
  split_ifs with hsocket
  · have hstatus : proxy.status ≠ .ready := fun hready => h.ready.mp hready hsocket
    obtain ⟨es₀, hes₀⟩ := h.sent
    have hnil : proxy.sent = [] := by rw [hes₀.sent, hes₀.before hstatus]; rfl
    have hget {e : ℤ × RequestId} (he : e ∈ proxy.requests.toList) :
        ∃ i : ℕ, e.1 = i ∧ handled[i]? = some e.2 ∧ ¬ unsent i :=
      h.registered e.1 e.2 (Std.TreeMap.mem_toList_iff_getElem?_eq_some.mp he)
    let es : List (RequestId × ℕ) := proxy.requests.toList.map fun e => (e.2, e.1.toNat)
    refine ⟨h.next, h.registered, ?_, by simp, es, ?_, ?_, fun e he => ?_,
      fun hne => absurd rfl hne, fun _ i r hid => ?_⟩
    · have hread : read = [] := List.prefix_nil.mp (hnil ▸ h.read)
      rw [hread]
      exact List.nil_prefix
    · refine sublist_zipIdx handled 0 ?_ fun e he => ⟨Nat.zero_le _, ?_⟩
      · refine List.pairwise_map.mpr (Std.TreeMap.ordered_keys_toList.imp_of_mem ?_)
        intro e e' he he' hlt
        obtain ⟨i, hi, -⟩ := hget he
        obtain ⟨i', hi', -⟩ := hget he'
        rw [compare_lt_iff_lt, hi, hi'] at hlt
        simpa [hi, hi'] using hlt
      · obtain ⟨e', he', rfl⟩ := List.mem_map.mp he
        obtain ⟨i, hi, hh, -⟩ := hget he'
        simpa [hi] using hh
    · simp only [hnil, List.nil_append, es, List.map_map]
      refine List.map_congr_left fun e he => ?_
      obtain ⟨i, hi, -⟩ := hget he
      simp [hi]
    · obtain ⟨e', he', rfl⟩ := List.mem_map.mp he
      obtain ⟨i, hi, -, hu⟩ := hget he'
      simpa [hi] using hu
    · refine List.mem_map.mpr ⟨((i : ℤ), r), ?_, by simp⟩
      exact Std.TreeMap.mem_toList_iff_getElem?_eq_some.mpr hid
  · exact h

/-! ### The ids of the operations -/

variable {es : List (RequestId × ℕ)}

theorem Sent.ids (h : proxy.Sent unsent handled requests es) :
    proxy.sent.filterMap Operation.processed = es.map fun e => (e.2 : ℤ) := by
  rw [h.sent, List.filterMap_map]
  exact congrFun List.filterMap_eq_map es

/-- No id is written twice. -/
theorem Sent.nodup (h : proxy.Sent unsent handled requests es) :
    (proxy.sent.filterMap Operation.processed).Nodup := by
  rw [h.ids]
  have hnd : (es.map Prod.snd).Nodup := by
    refine (h.order.map Prod.snd).nodup ?_
    rw [List.zipIdx_map_snd]
    exact List.nodup_range'
  have hcast : es.map (fun e => (e.2 : ℤ)) = (es.map Prod.snd).map Nat.cast := by simp
  rw [hcast]
  exact hnd.map Nat.cast_injective

/-- The operation behind those that have been read is an operation `process` with a new id. -/
theorem Dispatched.next_read (h : proxy.Dispatched unsent read handled requests)
    {operation : Operation} (ho : proxy.sent[read.length]? = some operation) :
    read ++ [operation] <+: proxy.sent ∧ ∃ id, operation.processed = some id ∧
      id ∉ read.filterMap Operation.processed := by
  obtain ⟨es, hes⟩ := h.sent
  obtain ⟨rest, hrest⟩ := h.read
  have hget : (read ++ rest)[read.length]? = some operation := hrest ▸ ho
  rw [List.getElem?_append_right le_rfl, Nat.sub_self] at hget
  obtain ⟨rest', rfl⟩ : ∃ rest', rest = operation :: rest' := by
    cases rest with
    | nil => cases hget
    | cons o rest' => exact ⟨rest', by rw [Option.some.inj hget]⟩
  refine ⟨⟨rest', by rw [← hrest]; simp⟩, ?_⟩
  obtain ⟨id, hid⟩ : ∃ id, operation.processed = some id := by
    have hmem : operation ∈ proxy.sent := by
      rw [← hrest]
      simp
    rw [hes.sent] at hmem
    obtain ⟨e, -, rfl⟩ := List.mem_map.mp hmem
    exact ⟨e.2, rfl⟩
  refine ⟨id, hid, fun hmem => ?_⟩
  have hnd := hes.nodup
  rw [← hrest, List.filterMap_append, List.filterMap_cons_some hid] at hnd
  exact (List.nodup_append.mp hnd).2.2 id hmem id List.mem_cons_self rfl

end UiProxy

namespace Service

open Transition UiProxy

variable {env : ProxyId → Environment} {unsent : ℕ → Prop} {read : List Operation} {p : ProxyId}

/-- The requests that proxy `p` has handled, in order. -/
def handled (s : Service) (p : ProxyId) : List RequestId := inOrder (Emission.handledBy p) s.log

/-- Proxy `p` dispatches what it has handled. -/
structure Dispatches (unsent : ℕ → Prop) (read : List Operation) (p : ProxyId) (s : Service) :
    Prop where
  nodup : (s.handled p).Nodup
  fresh : s.nextProxy ≤ p → s.handled p = [] ∧ read = []
  bound : ∀ i, unsent i → i < (s.handled p).length
  proxy : ∀ proxy, s.proxies p = some proxy →
    proxy.Dispatched unsent read (s.handled p) s.requests

theorem History.handled {s : Service} (hh : s.History) {r : RequestId} (hr : r ∈ s.handled p) :
    (s.phase r).HeldBy p ∨ s.phase r = .done := by
  obtain ⟨e, he, hhandled⟩ := mem_inOrder.mp hr
  have hagrees := hh e he
  cases e with
  | routed q p' =>
      simp only [Emission.handledBy] at hhandled
      split_ifs at hhandled with hp
      cases hhandled
      exact hagrees.imp_left fun h => .inr (hp ▸ h)
  | handed q w p' =>
      simp only [Emission.handledBy] at hhandled
      split_ifs at hhandled with hp
      cases hhandled
      exact hagrees.imp_left fun h => .inl (hp ▸ h)
  | _ => cases hhandled

/-- The operations of the handled requests stay the same. -/
def SameData (p : ProxyId) (s s' : Service) : Prop :=
  ∀ r ∈ s.handled p, ∀ id, processOperation id (s'.requests r) = processOperation id (s.requests r)

theorem Dispatches.quiet {s s' : Service} (h : s.Dispatches unsent read p)
    (hhandled : s'.handled p = s.handled p) (hnext : s.nextProxy ≤ s'.nextProxy)
    (hdata : SameData p s s') (hproxy : ∀ proxy', s'.proxies p = some proxy' →
      ∃ proxy, s.proxies p = some proxy ∧ (proxy.Dispatched unsent read (s.handled p) s.requests →
        proxy'.Dispatched unsent read (s.handled p) s.requests)) :
    s'.Dispatches unsent read p where
  nodup := hhandled ▸ h.nodup
  fresh hp := by
    rw [hhandled]
    exact h.fresh (hnext.trans hp)
  bound := hhandled ▸ h.bound
  proxy proxy' hp' := by
    obtain ⟨proxy, hp, hkept⟩ := hproxy proxy' hp'
    rw [hhandled]
    exact (hkept (h.proxy proxy hp)).congr hdata

theorem Dispatches.same {s s' : Service} (h : s.Dispatches unsent read p)
    (hhandled : s'.handled p = s.handled p) (hnext : s.nextProxy ≤ s'.nextProxy)
    (hdata : SameData p s s') (hproxies : s'.proxies p = s.proxies p) :
    s'.Dispatches unsent read p :=
  h.quiet hhandled hnext hdata fun proxy hp => ⟨proxy, hproxies ▸ hp, id⟩

variable (env) in
theorem Dispatches.handle {s s' : Service} (h : s.Dispatches unsent read p) {r : RequestId}
    (hhandled : s'.handled p = s.handled p ++ [r]) (hr : r ∉ s.handled p)
    (hnext : p < s'.nextProxy) (hdata : SameData p s s')
    (hproxy : ∀ proxy', s'.proxies p = some proxy' →
      ∃ (proxy : UiProxy) (request : Request),
        proxy.Dispatched unsent read (s.handled p) s.requests ∧
        proxy' = proxy.handleRequest (env p) r request ∧
        ∀ id, processOperation id (s'.requests r) = processOperation id request) :
    s'.Dispatches unsent read p where
  nodup := by
    rw [hhandled, List.nodup_append]
    refine ⟨h.nodup, List.nodup_singleton r, ?_⟩
    rintro a ha b hb rfl
    exact hr (List.mem_singleton.mp hb ▸ ha)
  fresh hp := absurd hnext (Nat.not_lt.mpr hp)
  bound i hi := by
    rw [hhandled, List.length_append]
    exact Nat.lt_add_right _ (h.bound i hi)
  proxy proxy' hp' := by
    obtain ⟨proxy, request, hproxy, rfl, hrequest⟩ := hproxy proxy' hp'
    rw [hhandled]
    exact (hproxy.congr hdata).handleRequest h.bound (env p) r hrequest

theorem handled_cons {s s' : Service} {e : Emission} (hlog : s'.log = e :: s.log)
    (he : e.handledBy p = none) : s'.handled p = s.handled p := by
  unfold handled
  rw [hlog, inOrder, he]
  simp

theorem handled_cons_some {s s' : Service} {e : Emission} {r : RequestId}
    (hlog : s'.log = e :: s.log) (he : e.handledBy p = some r) :
    s'.handled p = s.handled p ++ [r] := by
  unfold handled
  rw [hlog, inOrder, he]
  rfl

theorem handled_append {s s' : Service} (es : List Emission) (hlog : s'.log = es ++ s.log)
    (hes : ∀ e ∈ es, e.handledBy p = none) : s'.handled p = s.handled p := by
  unfold handled
  rw [hlog, inOrder_append_neutral hes]

theorem newProxy_dispatched {s : Service} (h : s.Dispatches unsent read s.nextProxy)
    (r : RequestId) : (s.newProxy env r).1.Dispatched unsent read (s.handled s.nextProxy)
      s.requests := by
  obtain ⟨hhandled, rfl⟩ := h.fresh le_rfl
  obtain ⟨promptSession, environment, hinit⟩ :=
    UiProxy.init_eq (env s.nextProxy) { clientPid := (s.requests r).clientPid }
  unfold newProxy
  rw [hinit, hhandled]
  exact ⟨rfl, fun id q hid => by simp at hid, List.nil_prefix, by simp, [], List.nil_sublist _,
    rfl, by simp, fun _ => rfl, fun _ _ _ hid => by simp at hid⟩

/-! ### Each action keeps it -/

theorem History.handled_lt {s : Service} (hh : s.History) (hi : s.Inv) {r : RequestId}
    (hr : r ∈ s.handled p) : r < s.nextRequest := by
  apply hi.lt_nextRequest
  intro hunborn
  rcases hh.handled hr with hheld | hdone
  · simp [hunborn, Phase.HeldBy] at hheld
  · simp [hunborn] at hdone

/-- Flags and delays are not part of the operations. -/
theorem sameData_setRequest {s : Service} {r : RequestId} {f : Request → Request}
    (hf : ∀ request id, processOperation id (f request) = processOperation id request) :
    SameData p s (s.setRequest r f) := by
  intro q _ id
  by_cases hq : q = r
  · subst hq
    simp [hf]
  · simp [hq]

theorem Dispatches.unregister {s : Service} (h : s.Dispatches unsent read p) (q : ProxyId)
    (r : RequestId) : (s.unregister q r).Dispatches unsent read p := by
  refine h.quiet rfl le_rfl (fun _ _ _ => rfl) fun proxy' hp => ?_
  obtain ⟨proxy, hp', rfl⟩ := setProxy_some.mp hp
  refine ⟨proxy, hp', fun hd => ?_⟩
  split_ifs
  · exact hd.onRequestCompleted r _
  · exact hd

theorem Dispatches.answer {s s' : Service} (h : s.Dispatches unsent read p) {r : RequestId}
    {reply : Reply} (hlog : s'.log = .completed r :: .replied r reply :: s.log)
    (hnext : s.nextProxy ≤ s'.nextProxy) (hrequests : s'.requests = s.requests)
    (hproxies : s'.proxies p = s.proxies p) : s'.Dispatches unsent read p := by
  refine h.same (handled_append [.completed r, .replied r reply] hlog ?_) hnext
    (fun r _ id => by rw [hrequests]) hproxies
  simp [Emission.handledBy]

theorem Dispatches.completeAgain {s : Service} (h : s.Dispatches unsent read p) (r : RequestId)
    (reply : Reply) : (s.completeAgain r reply).Dispatches unsent read p := by
  refine completeAgain_induction (I := Dispatches unsent read p) (h.answer rfl le_rfl rfl rfl)
    fun t slot ht => ?_
  cases slot with
  | manager => exact ht.same (handled_cons rfl rfl) le_rfl (fun _ _ _ => rfl) rfl
  | deleteLater => exact ht.same rfl le_rfl (fun _ _ _ => rfl) rfl
  | proxy q => exact ht.unregister q r

theorem Act.dispatches {a : Label} {s s' : Service} (h : Act env a s s') (ht : a ≠ .touch)
    (hi : s.Inv) (hh : s.History) (hd : s.Dispatches unsent read p) :
    s'.Dispatches unsent read p := by
  cases h with
  | accept request _ =>
      refine hd.same (handled_cons rfl rfl) le_rfl (fun r hr _ => ?_) rfl
      have hne : r ≠ s.nextRequest := Nat.ne_of_lt (hh.handled_lt hi hr)
      simp [Service.accept, hne]
  | @route _ q proxy request hq =>
      have hdata : SameData p s (s.route env q request) := by
        intro r hr _
        have hne : r ≠ s.nextRequest := Nat.ne_of_lt (hh.handled_lt hi hr)
        simp [Service.route, Service.handleRequest, hne]
      by_cases hqp : q = p
      · subst hqp
        have hlt : q < s.nextProxy := hi.proxy_lt hq
        refine hd.handle env (handled_cons_some rfl (if_pos rfl))
          (fun hr => lt_irrefl _ (hh.handled_lt hi hr)) hlt hdata fun proxy' hp => ?_
        have hp' : (s.setProxy q (·.handleRequest (env q) s.nextRequest
            ((s.newRequest request).requests s.nextRequest))).proxies q = some proxy' := hp
        rw [newRequest_requests, Function.update_self] at hp'
        obtain ⟨proxy, hproxy, rfl⟩ := setProxy_some.mp hp'
        refine ⟨proxy, request, hd.proxy proxy hproxy, if_pos rfl, fun id => ?_⟩
        simp [Service.route, Service.handleRequest, processOperation]
      · refine hd.same (handled_cons rfl (if_neg hqp)) le_rfl hdata ?_
        simp [Service.route, Service.handleRequest, Ne.symm hqp]
  | @hand _ w r rest hq hr hinit =>
      have hnot : r ∉ s.handled p := by
        intro hmem
        rcases hh.handled hmem with hheld | hdone
        · simp [hr, Phase.HeldBy] at hheld
        · simp [hr] at hdone
      have hdata : SameData p s (s.hand env w r) := by
        intro q hmem _
        have hne : q ≠ r := fun he => hnot (he ▸ hmem)
        simp [Service.hand, Service.handleRequest, hne]
      by_cases hp : s.nextProxy = p
      · subst hp
        refine hd.handle env (handled_cons_some rfl (if_pos rfl)) hnot (Nat.lt_succ_self _) hdata
          fun proxy' hp => ?_
        simp only [Service.hand, Service.handleRequest, setRequest_proxies, connect_proxies,
          setProxy_proxies, emit_proxies, Function.update_self, Option.map_some] at hp
        refine ⟨_, s.requests r, newProxy_dispatched hd r, (Option.some.inj hp).symm, fun id => ?_⟩
        simp [Service.hand, Service.handleRequest, processOperation]
      · refine hd.same (handled_cons rfl (if_neg hp)) (Nat.le_succ _) hdata ?_
        simp [Service.hand, Service.handleRequest, Ne.symm hp]
  | refuse _ _ _ => exact hd.answer rfl (Nat.le_succ _) rfl rfl
  | @complete _ w r rest q reply _ _ =>
      have ht : Dispatches unsent read p (((s.answer r reply).deleteLater r).dequeue w rest) :=
        hd.answer rfl le_rfl rfl rfl
      exact ht.unregister q r
  | @completeRouted _ r q reply _ =>
      have ht : Dispatches unsent read p ((s.answer r reply).deleteLater r) :=
        hd.answer rfl le_rfl rfl rfl
      exact ht.unregister q r
  | completeAgain reply => exact hd.completeAgain _ reply
  | idle | finish => exact hd.same (handled_cons rfl rfl) le_rfl (fun _ _ _ => rfl) rfl
  | clear | delay => exact hd.same rfl le_rfl (sameData_setRequest fun _ _ => rfl) rfl
  | touch => exact absurd rfl ht
  | @deleteProxy _ q _ =>
      refine hd.quiet rfl le_rfl (fun _ _ _ => rfl) fun proxy hp => ⟨proxy, ?_, id⟩
      by_cases hq : p = q
      · simp [hq] at hp
      · simpa [hq] using hp
  | deleteRequest => exact hd.same rfl le_rfl (fun _ _ _ => rfl) rfl

/-! ### Each event keeps it -/

theorem Dispatches.setProxy {s : Service} (h : s.Dispatches unsent read p) {q : ProxyId}
    {proxy : UiProxy} (hq : s.proxies q = some proxy) {f : UiProxy → UiProxy}
    (hf : p = q → proxy.Dispatched unsent read (s.handled p) s.requests →
      (f proxy).Dispatched unsent read (s.handled p) s.requests) :
    (s.setProxy q f).Dispatches unsent read p := by
  refine h.quiet rfl le_rfl (fun _ _ _ => rfl) fun proxy' hp => ?_
  obtain ⟨proxy'', hp', rfl⟩ := setProxy_some.mp hp
  refine ⟨proxy'', hp', fun hd => ?_⟩
  split_ifs with hpq
  · obtain rfl := Option.some.inj ((hpq ▸ hp').symm.trans hq)
    exact hf hpq hd
  · exact hd

theorem Dispatches.onProxyFinished {s : Service} (h : s.Dispatches unsent read p) (q : ProxyId) :
    (s.onProxyFinished q).Dispatches unsent read p :=
  h.same (handled_cons rfl rfl) le_rfl (fun _ _ _ => rfl) rfl

theorem Dispatches.mayFinish {s : Service} (h : s.Dispatches unsent read p) {q : ProxyId}
    {proxy : UiProxy} (hq : s.proxies q = some proxy) {method : UiProxy → UiProxy × Bool}
    (hf : p = q → proxy.Dispatched unsent read (s.handled p) s.requests →
      (method proxy).1.Dispatched unsent read (s.handled p) s.requests) :
    (s.mayFinish q method proxy).Dispatches unsent read p := by
  have hset := h.setProxy hq (f := fun proxy => (method proxy).1) hf
  unfold Service.mayFinish
  simp only
  split_ifs
  · exact hset.onProxyFinished q
  · exact hset

theorem LocalStep.dispatches {s s' : Service} {e : Event} (h : LocalStep s e s')
    (hd : s.Dispatches unsent read p) : s'.Dispatches unsent read p := by
  cases h with
  | nothing => exact hd
  | newConnection hq _ => exact hd.setProxy hq fun _ hproxy => hproxy.onNewConnection
  | disconnected hq hsocket =>
      refine hd.mayFinish hq fun _ hproxy => hproxy.of_same rfl rfl rfl rfl ?_
      simp [UiProxy.onDisconnected, hsocket]
  | newHandler hq _ _ =>
      exact hd.setProxy hq fun _ hproxy => hproxy.of_same rfl rfl rfl rfl Iff.rfl
  | finishedTimer hq _ =>
      exact hd.mayFinish hq fun _ hproxy => hproxy.of_same rfl rfl rfl rfl Iff.rfl
  | promptSessionFinished _ _ => exact hd.onProxyFinished _
  | processExited hq _ =>
      exact hd.setProxy hq fun _ hproxy => hproxy.of_same rfl rfl rfl rfl Iff.rfl
  | deleteRequest _ => exact hd.same rfl le_rfl (fun _ _ _ => rfl) rfl

theorem step_dispatches {s s' : Service} {e : Event} (hi : s.Inv) (hs : ∀ w, s.Settled w)
    (hh : s.History) (hd : s.Dispatches unsent read p) (hrun : s.step env e = .ok s') :
    s'.Dispatches unsent read p := by
  by_cases he : ¬ e.IsCall ∧ ¬ e.MayAnswer
  · exact (local_cases he hrun).dispatches hd
  · have hall : s'.Inv ∧ s'.History ∧ s'.Dispatches unsent read p := by
      refine (handles hi hs hrun).1.invariant
        (I := fun t => t.Inv ∧ t.History ∧ t.Dispatches unsent read p) ⟨hi, hh, hd⟩ ?_
      rintro a t t' ⟨hi, hh, hd⟩ ha hact
      refine ⟨hact.inv hi, (hact.effect hi).history hi hh, hact.dispatches ?_ hi hh hd⟩
      rintro rfl
      exact he ha
    exact hall.2.2

end Service

end OnlineAccounts
