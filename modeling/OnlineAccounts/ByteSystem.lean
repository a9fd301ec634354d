import OnlineAccounts.ByteStream
import OnlineAccounts.HandlerRouting
import OnlineAccounts.Messages

/-! # The sockets carry bytes

A `System` delivers whole operations.  Here is the level below: a `ByteSystem` has the same service
and UI processes, but an operation becomes a variant map, the map becomes bytes (`Codec`, for the
`QDataStream` of both sides), `Ipc` writes them behind their length, and bytes arrive in pieces of
any size.  `Ipc::onReadyRead` runs after each arrival, and each payload that it emits is read and
handled.

`byteSystem_refines` says that nothing is lost by forgetting the bytes: as long as no arrival ends
inside a length, the runs are runs of the system of operations, and at any time exactly those
operations have been handled whose bytes have all arrived. -/

namespace OnlineAccounts

/-- How a variant map is put into bytes and taken out of them. -/
structure Codec where
  write : QVariantMap → Bytes
  read : Bytes → QVariantMap

namespace Codec

variable (codec : Codec)

/-- The payload for an operation. -/
def payload (operation : Operation) : Bytes := codec.write operation.toMap

/-- What the codec has to do with an operation: its numbers are `int`s, the map is read back, and
the length of its bytes is an `int`. -/
structure Carries (operation : Operation) : Prop where
  inRange : operation.InRange
  read_write : codec.read (codec.write operation.toMap) = operation.toMap
  length_lt : (codec.payload operation).length < 2 ^ 31

instance (operation : Operation) : Decidable (codec.Carries operation) :=
  decidable_of_iff (operation.InRange ∧
      codec.read (codec.write operation.toMap) = operation.toMap ∧
        (codec.payload operation).length < 2 ^ 31)
    ⟨fun h => ⟨h.1, h.2.1, h.2.2⟩, fun h => ⟨h.inRange, h.read_write, h.length_lt⟩⟩

end Codec

structure ByteSystem where
  system : System := {}
  /-- From each proxy to its UI process. -/
  toServer : ProxyId → Wire := fun _ => {}
  /-- From the UI process of a proxy to the proxy. -/
  toProxy : ProxyId → Wire := fun _ => {}

namespace ByteSystem

open Transition

inductive Event where
  | service (e : OnlineAccounts.Event)
  | ui (p : ProxyId) (e : UiEvent)
  /-- At most `n` more bytes arrive at the UI process of proxy `p`. -/
  | bytesToServer (p : ProxyId) (n : ℕ)
  /-- At most `n` more bytes arrive at proxy `p`. -/
  | bytesToProxy (p : ProxyId) (n : ℕ)

inductive Fault where
  | service (fault : OnlineAccounts.Fault)
  /-- The loop of `onReadyRead` does not return. -/
  | hangs
deriving DecidableEq

variable (codec : Codec) (env : ProxyId → Environment)

/-- `UiServerPrivate::onDataReady(data)`. -/
def serverDataReady (p : ProxyId) (system : System) (data : Bytes) : System :=
  system.setServer p (·.onDataReady (UiServer.readOperation (codec.read data)))

/-- `UiProxyPrivate::onDataReady(data)`. -/
def proxyDataReady (p : ProxyId) (system : System) (data : Bytes) :
    Except OnlineAccounts.Fault System :=
  (system.service.step env (.dataReady p (UiProxy.readOperation (codec.read data)))).map
    fun service => { system with
      service := service
      delivered := Function.update system.delivered p (system.delivered p + 1) }

/-- What proxy `p` has written, while it is there. -/
def writtenByProxy (s : ByteSystem) (p : ProxyId) : List Bytes :=
  ((s.system.service.proxies p).elim [] (·.sent)).map codec.payload

/-- What the UI process of proxy `p` has written. -/
def writtenByServer (s : ByteSystem) (p : ProxyId) : List Bytes :=
  (s.system.servers p).sent.map codec.payload

def liftSystem (s : ByteSystem) : Except OnlineAccounts.Fault System → Except Fault ByteSystem
  | .ok system => .ok { s with system := system }
  | .error fault => .error (.service fault)

def step (s : ByteSystem) : Event → Except Fault ByteSystem
  | .service e => s.liftSystem (s.system.step env (.service e))
  | .ui p e => s.liftSystem (s.system.step env (.ui p e))
  | .bytesToServer p n =>
      if (s.system.service.proxies p).isSome then
        match (s.toServer p).arrive (s.writtenByProxy codec p) n with
        | none => .error .hangs
        | some wire =>
            let payloads := wire.reader.emitted.drop (s.toServer p).reader.emitted.length
            .ok { s with
              toServer := Function.update s.toServer p wire
              system := payloads.foldl (serverDataReady codec p) s.system }
      else .ok s
  | .bytesToProxy p n => match (s.toProxy p).arrive (s.writtenByServer codec p) n with
      | none => .error .hangs
      | some wire =>
          let payloads := wire.reader.emitted.drop (s.toProxy p).reader.emitted.length
          { s with toProxy := Function.update s.toProxy p wire }.liftSystem
            (payloads.foldlM (proxyDataReady codec env p) s.system)

def machine : Machine ByteSystem Event Fault where
  start := {}
  step := step codec env

/-- No arrival ends inside a length, and the codec carries what has been written. -/
def Whole (s : ByteSystem) : Event → Prop
  | .bytesToServer p n => ∀ proxy ∈ s.system.service.proxies p,
      (∀ operation ∈ proxy.sent, codec.Carries operation) ∧
        ¬ InsideLength (s.writtenByProxy codec p)
          ((s.toServer p).next (s.writtenByProxy codec p) n)
  | .bytesToProxy p n =>
      (∀ operation ∈ (s.system.servers p).sent, codec.Carries operation) ∧
        ¬ InsideLength (s.writtenByServer codec p)
          ((s.toProxy p).next (s.writtenByServer codec p) n)
  | _ => True

instance : ∀ (s : ByteSystem) (e : Event), Decidable (Whole codec s e)
  | s, .bytesToServer p n => inferInstanceAs (Decidable (∀ proxy ∈ s.system.service.proxies p,
      (∀ operation ∈ proxy.sent, codec.Carries operation) ∧
        ¬ InsideLength (s.writtenByProxy codec p)
          ((s.toServer p).next (s.writtenByProxy codec p) n)))
  | s, .bytesToProxy p n => inferInstanceAs (Decidable
      ((∀ operation ∈ (s.system.servers p).sent, codec.Carries operation) ∧
        ¬ InsideLength (s.writtenByServer codec p)
          ((s.toProxy p).next (s.writtenByServer codec p) n)))
  | _, .service _ | _, .ui _ _ => .isTrue trivial

end ByteSystem

/-! ### What each side writes -/

theorem System.Linked.fromProxy {s : System} (h : s.Linked) {p : ProxyId} {proxy : UiProxy}
    (hp : s.service.proxies p = some proxy) : ∀ operation ∈ proxy.sent, operation.FromProxy := by
  obtain ⟨es, hes⟩ := ((h.dispatches p).proxy proxy hp).sent
  intro operation ho
  rw [hes.sent] at ho
  obtain ⟨e, -, rfl⟩ := List.mem_map.mp ho
  trivial

namespace UiServer

/-- A UI process only writes answers and handlers. -/
def WritesAnswers (server : UiServer) : Prop := ∀ operation ∈ server.sent, operation.FromServer

theorem WritesAnswers.sendOperation {server : UiServer} (h : server.WritesAnswers)
    {operation : Operation} (ho : operation.FromServer) :
    (server.sendOperation operation).WritesAnswers := by
  intro operation' hmem
  rcases List.mem_append.mp hmem with hmem | hmem
  · exact h operation' hmem
  · exact List.mem_singleton.mp hmem ▸ ho

theorem WritesAnswers.setRequest {server : UiServer} (h : server.WritesAnswers) (i : ℕ)
    (f : UiRequest → UiRequest) : (server.setRequest i f).WritesAnswers := h

theorem WritesAnswers.completed {server : UiServer} (h : server.WritesAnswers) (i : ℕ) :
    (server.completed i).WritesAnswers := by
  unfold UiServer.completed
  cases server.requests[i]? with
  | none => exact h
  | some request =>
      have hanswer : request.operation.FromServer := by
        unfold UiRequest.operation
        split_ifs <;> trivial
      simp only
      split_ifs
      · exact h
      · exact WritesAnswers.sendOperation h hanswer

theorem WritesAnswers.handle {server : UiServer} (h : server.WritesAnswers) (e : UiEvent) :
    (server.handle e).WritesAnswers := by
  cases e with
  | setDelay => exact h
  | newHandler handlerId => exact h.sendOperation trivial
  | fail i name message => exact (h.setRequest i _).completed i
  | setCanceled i =>
      simp only [UiServer.handle, UiServer.setCanceled]
      split_ifs
      · exact (h.setRequest i _).completed i
      · exact h
  | setResult i result =>
      simp only [UiServer.handle, UiServer.setResult]
      split_ifs
      · exact (h.setRequest i _).completed i
      · exact h

/-- The operations are read one after the other. -/
def onDataReadyAll (operations : List Operation) (server : UiServer) : UiServer :=
  operations.foldl (fun server operation => server.onDataReady operation) server

theorem onDataReadyAll_same (operations : List Operation) (server : UiServer) :
    (server.onDataReadyAll operations).sent = server.sent ∧
      (server.onDataReadyAll operations).received = server.received ++ operations := by
  induction operations generalizing server with
  | nil => exact ⟨rfl, (List.append_nil _).symm⟩
  | cons operation operations ih =>
      obtain ⟨hsent, hreceived⟩ := ih (server.onDataReady operation)
      have hone : (server.onDataReady operation).received = server.received ++ [operation] := by
        cases operation <;> rfl
      refine ⟨hsent.trans (server.onDataReady_sent operation), hreceived.trans ?_⟩
      rw [hone, List.append_assoc]
      rfl

end UiServer

namespace Service

open Transition

variable {env : ProxyId → Environment} {p : ProxyId}

theorem step_proxies {s s' : Service} {e : Event} (hi : s.Inv) (hs : ∀ w, s.Settled w)
    (hrun : s.step env e = .ok s') : s.nextProxy ≤ s'.nextProxy ∧
      ∀ p proxy', s'.proxies p = some proxy' → (∃ proxy, s.proxies p = some proxy) ∨
        s.nextProxy ≤ p := by
  have hset {t : Service} {q : ProxyId} {f : UiProxy → UiProxy} (p : ProxyId) (proxy' : UiProxy)
      (hp : (t.setProxy q f).proxies p = some proxy') : ∃ proxy, t.proxies p = some proxy := by
    obtain ⟨proxy, hproxy, -⟩ := setProxy_some.mp hp
    exact ⟨proxy, hproxy⟩
  by_cases hroutes : s.Routes e
  · obtain ⟨q, request, rfl⟩ := step_routed hroutes hrun
    refine ⟨le_rfl, fun p proxy' hp => .inl ?_⟩
    exact hset (t := s) (q := q) (f := (·.handleRequest (env q) s.nextRequest
      ((s.newRequest request).requests s.nextRequest))) p proxy' hp
  · by_cases hhandler : ∃ q handlerId, e = .dataReady q (.newHandler handlerId)
    · obtain ⟨q, handlerId, rfl⟩ := hhandler
      cases local_cases ⟨id, by simp [Event.MayAnswer, Operation.answers]⟩ hrun with
      | nothing => exact ⟨le_rfl, fun p proxy' hp => .inl ⟨proxy', hp⟩⟩
      | newHandler => exact ⟨le_rfl, fun p proxy' hp => .inl (hset p proxy' hp)⟩
    · have hkeeps (p : ProxyId) : Keeps p s s' :=
        step_keeps hi hs hrun hroutes fun handlerId he => hhandler ⟨p, handlerId, he⟩
      refine ⟨(hkeeps 0).nextProxy, fun p proxy' hp => ?_⟩
      exact ((hkeeps p).handlers proxy' hp).imp (fun ⟨proxy, hproxy, _⟩ => ⟨proxy, hproxy⟩) And.left

theorem step_sent {s s' : Service} {e : Event} (hi : s.Inv) (hs : ∀ w, s.Settled w)
    (hh : s.History) {read : List Operation} (hd : s.Dispatches (fun _ => False) read p)
    (hrun : s.step env e = .ok s') {proxy proxy' : UiProxy} (hp : s.proxies p = some proxy)
    (hp' : s'.proxies p = some proxy') : proxy.sent <+: proxy'.sent := by
  have hwritten : s.Dispatches (fun _ => False) proxy.sent p := by
    refine ⟨hd.nodup, fun hle => ?_, hd.bound, fun proxy₀ hp₀ => ?_⟩
    · exact absurd (hi.proxy_lt hp) (Nat.not_lt.mpr hle)
    · obtain rfl := Option.some.inj (hp.symm.trans hp₀)
      obtain ⟨hnext, hregistered, -, hready, hsent⟩ := hd.proxy proxy hp
      exact ⟨hnext, hregistered, List.prefix_rfl, hready, hsent⟩
  exact ((step_dispatches hi hs hh hwritten hrun).proxy proxy' hp').read

end Service

namespace ByteSystem

open Transition

variable {codec : Codec} {env : ProxyId → Environment}

/-! ### The wires and the system -/

/-- The UI processes have read what has arrived of their proxies. -/
structure ToServers (codec : Codec) (toServer : ProxyId → Wire) (system : System) : Prop where
  inStep : ∀ p proxy, system.service.proxies p = some proxy →
    (toServer p).InStep (proxy.sent.map codec.payload) ∧
      (system.servers p).received.length = (toServer p).reader.emitted.length
  fresh : ∀ p, system.service.nextProxy ≤ p → toServer p = {}

/-- The proxies have been given what has arrived of their UI processes. -/
structure ToProxies (codec : Codec) (toProxy : ProxyId → Wire) (system : System) : Prop where
  inStep : ∀ p, (toProxy p).InStep ((system.servers p).sent.map codec.payload)
  delivered : ∀ p, system.delivered p = (toProxy p).reader.emitted.length
  writes : ∀ p, (system.servers p).WritesAnswers

variable {toServer toProxy : ProxyId → Wire} {system : System}

theorem ToServers.service (h : ToServers codec toServer system)
    (hr : Reachable (System.machine env) (fun _ _ => True) system) {e : OnlineAccounts.Event}
    {service : Service} (hrun : system.service.step env e = .ok service)
    (delivered : ProxyId → ℕ) :
    ToServers codec toServer { system with service := service, delivered := delivered } := by
  have hlinked := System.reachable_linked hr
  have hs := System.reachable_service hr
  obtain ⟨hi, hsettled⟩ := Service.reachable_inv hs
  obtain ⟨hnext, hproxies⟩ := Service.step_proxies hi hsettled hrun
  refine ⟨fun p proxy' hp' => ?_, fun p hp => h.fresh p (hnext.trans hp)⟩
  rcases hproxies p proxy' hp' with ⟨proxy, hp⟩ | hle
  · obtain ⟨hstep, hlength⟩ := h.inStep p proxy hp
    obtain ⟨more, hmore⟩ := Service.step_sent hi hsettled (Service.reachable_history hs)
      (hlinked.dispatches p) hrun hp hp'
    refine ⟨?_, hlength⟩
    rw [← hmore, List.map_append]
    exact hstep.append _
  · have hnil : (system.servers p).received = [] := ((hlinked.dispatches p).fresh hle).2
    rw [h.fresh p hle]
    exact ⟨Wire.inStep_start _, congrArg List.length hnil⟩

theorem ToProxies.ui (h : ToProxies codec toProxy system) (p : ProxyId) (e : UiEvent) :
    ToProxies codec toProxy (system.setServer p (·.handle e)) := by
  refine ⟨fun q => ?_, h.delivered, fun q => ?_⟩
  · by_cases hq : q = p
    · subst hq
      obtain ⟨more, hmore⟩ := (system.servers q).handle_sent e
      have hwritten : ((system.setServer q (·.handle e)).servers q).sent.map codec.payload =
          (system.servers q).sent.map codec.payload ++ more.map codec.payload := by
        simp [System.setServer, ← hmore]
      rw [hwritten]
      exact (h.inStep q).append _
    · simpa [System.setServer, hq] using h.inStep q
  · by_cases hq : q = p
    · subst hq
      simpa [System.setServer] using (h.writes q).handle e
    · simpa [System.setServer, hq] using h.writes q

theorem ToServers.ui (h : ToServers codec toServer system) (p : ProxyId) (e : UiEvent) :
    ToServers codec toServer (system.setServer p (·.handle e)) := by
  refine ⟨fun q proxy hq => ?_, h.fresh⟩
  have hreceived : ((system.setServer p (·.handle e)).servers q).received =
      (system.servers q).received := by
    by_cases hqp : q = p
    · subst hqp
      simpa [System.setServer] using (system.servers q).handle_received e
    · simp [System.setServer, hqp]
  rw [hreceived]
  exact h.inStep q proxy hq

/-! ### Bytes arrive at a UI process -/

/-- The payloads of operations are handled as these operations. -/
theorem foldl_serverDataReady (p : ProxyId) {operations : List Operation}
    (hread : ∀ operation ∈ operations,
      UiServer.readOperation (codec.read (codec.payload operation)) = operation) :
    (operations.map codec.payload).foldl (serverDataReady codec p) system =
      system.setServer p (·.onDataReadyAll operations) := by
  induction operations generalizing system with
  | nil =>
      change system = { system with servers := Function.update system.servers p (system.servers p) }
      rw [Function.update_eq_self]
  | cons operation operations ih =>
      obtain ⟨hone, hrest⟩ := List.forall_mem_cons.mp hread
      rw [List.map_cons, List.foldl_cons, ih hrest, serverDataReady, hone]
      simp [System.setServer, UiServer.onDataReadyAll]

theorem run_reads {p : ProxyId} {proxy : UiProxy} (hp : system.service.proxies p = some proxy)
    {operations : List Operation}
    (hnext : operations <+: proxy.sent.drop (system.servers p).received.length) :
    (System.machine env).run system (List.replicate operations.length (.read p)) =
      .ok (system.setServer p (·.onDataReadyAll operations)) := by
  induction operations generalizing system with
  | nil =>
      have hsame : system.setServer p (·.onDataReadyAll []) = system := by
        change { system with servers := Function.update system.servers p (system.servers p) } = _
        rw [Function.update_eq_self]
      rw [hsame]
      rfl
  | cons operation operations ih =>
      obtain ⟨rest, hrest⟩ := hnext
      have hget : proxy.sent[(system.servers p).received.length]? = some operation := by
        rw [← Nat.add_zero (system.servers p).received.length, ← List.getElem?_drop, ← hrest]
        rfl
      have hunread : system.unread p = some operation := by
        rw [System.unread, hp]
        exact hget
      have hreceived : ((system.setServer p (·.onDataReady operation)).servers p).received.length =
          (system.servers p).received.length + 1 := by
        have hone := ((system.servers p).onDataReadyAll_same [operation]).2
        simpa [System.setServer, UiServer.onDataReadyAll] using congrArg List.length hone
      have hdrop : operations <+:
          proxy.sent.drop ((system.setServer p (·.onDataReady operation)).servers p).received.length := by
        rw [hreceived, ← List.drop_drop, ← hrest]
        exact List.prefix_append _ _
      have hstep : (System.machine env).step system (.read p) =
          .ok (system.setServer p (·.onDataReady operation)) := by
        simp [System.machine, System.step, hunread]
      rw [List.length_cons, List.replicate_succ, Machine.run, hstep]
      have hp' : (system.setServer p (·.onDataReady operation)).service.proxies p = some proxy := hp
      refine (ih hp' hdrop).trans ?_
      simp [System.setServer, UiServer.onDataReadyAll]

/-! ### Bytes arrive at a proxy -/

/-- The payloads of the next operations are delivered by a run of the system. -/
theorem run_delivers {p : ProxyId} {operations : List Operation} {system system' : System}
    (h : ToServers codec toServer system)
    (hr : Reachable (System.machine env) (fun _ _ => True) system)
    (hread : ∀ operation ∈ operations,
      UiProxy.readOperation (codec.read (codec.payload operation)) = operation)
    (hnext : operations <+: (system.servers p).sent.drop (system.delivered p))
    (hrun : (operations.map codec.payload).foldlM (proxyDataReady codec env p) system =
      .ok system') :
    (System.machine env).run system (List.replicate operations.length (.deliver p)) =
        .ok system' ∧
      ToServers codec toServer system' ∧ system'.servers = system.servers ∧
      system'.delivered =
        Function.update system.delivered p (system.delivered p + operations.length) := by
  induction operations generalizing system with
  | nil =>
      cases hrun
      exact ⟨rfl, h, rfl, (Function.update_eq_self _ _).symm⟩
  | cons operation operations ih =>
      obtain ⟨hone, hread⟩ := List.forall_mem_cons.mp hread
      obtain ⟨rest, hrest⟩ := hnext
      have hundelivered : system.undelivered p = some operation := by
        rw [System.undelivered, ← Nat.add_zero (system.delivered p), ← List.getElem?_drop, ← hrest]
        rfl
      rw [List.map_cons, List.foldlM_cons, proxyDataReady, hone] at hrun
      cases hservice : system.service.step env (.dataReady p operation) with
      | error fault =>
          rw [hservice] at hrun
          cases hrun
      | ok service =>
          rw [hservice] at hrun
          have hstep : (System.machine env).step system (.deliver p) = .ok { system with
              service := service
              delivered := Function.update system.delivered p (system.delivered p + 1) } := by
            simp [System.machine, System.step, hundelivered, hservice, Except.map]
          have hdrop : operations <+: (system.servers p).sent.drop
              (Function.update system.delivered p (system.delivered p + 1) p) := by
            rw [Function.update_self, ← List.drop_drop, ← hrest]
            exact List.prefix_append _ _
          obtain ⟨hrest, hservers, hsame, hdelivered⟩ :=
            ih (h.service hr hservice _) (.step hr trivial hstep) hread hdrop hrun
          refine ⟨?_, hservers, hsame, ?_⟩
          · rw [List.length_cons, List.replicate_succ, Machine.run, hstep]
            exact hrest
          · simp only [Function.update_self, Function.update_idem] at hdelivered
            rw [hdelivered, List.length_cons, Nat.add_assoc, Nat.add_comm 1]

/-! ### Whole runs -/

/-- The wires are in step with the system. -/
structure InStep (codec : Codec) (s : ByteSystem) : Prop where
  toServers : ToServers codec s.toServer s.system
  toProxies : ToProxies codec s.toProxy s.system

theorem inStep_start (codec : Codec) : InStep codec {} := by
  refine ⟨⟨fun p proxy hp => ?_, fun _ _ => rfl⟩, ⟨fun _ => Wire.inStep_start _, fun _ => rfl, ?_⟩⟩
  · cases hp
  · exact fun _ _ hmem => absurd hmem List.not_mem_nil

theorem lengths_lt {operations : List Operation}
    (hcarries : ∀ operation ∈ operations, codec.Carries operation) :
    ∀ payload ∈ operations.map codec.payload, payload.length < 2 ^ 31 := by
  intro payload hmem
  obtain ⟨operation, ho, rfl⟩ := List.mem_map.mp hmem
  exact (hcarries operation ho).length_lt

/-- What a wire emits when bytes arrive are the payloads of the next operations. -/
theorem emitted_next {operations : List Operation} {wire wire' : Wire}
    (h : wire.InStep (operations.map codec.payload))
    (h' : wire'.InStep (operations.map codec.payload)) (hle : wire.arrived ≤ wire'.arrived) :
    ∃ next, next <+: operations.drop wire.reader.emitted.length ∧
      wire'.reader.emitted.drop wire.reader.emitted.length = next.map codec.payload ∧
      wire'.reader.emitted.length = wire.reader.emitted.length + next.length := by
  have hwhole : wire'.reader.emitted =
      (operations.take (whole (operations.map codec.payload) wire'.arrived)).map codec.payload := by
    rw [h'.emitted, List.map_take]
  refine ⟨(operations.take (whole (operations.map codec.payload) wire'.arrived)).drop
    wire.reader.emitted.length, ?_, ?_, ?_⟩
  · exact (List.take_prefix _ _).drop _
  · conv_lhs => rw [hwhole]
    rw [List.map_drop]
  · have hlength := congrArg List.length (h.emitted_append h' hle)
    rw [List.length_append] at hlength
    rw [← hlength, hwhole, ← List.map_drop, List.length_map]

variable (env) in
theorem bytesToServer_spec {s : ByteSystem} (hs : s.InStep codec)
    (hr : Reachable (System.machine env) (fun _ _ => True) s.system) {p : ProxyId} {n : ℕ}
    (hg : Whole codec s (.bytesToServer p n)) : ∃ s' count,
      s.step codec env (.bytesToServer p n) = .ok s' ∧ s'.InStep codec ∧
        (System.machine env).run s.system (List.replicate count (.read p)) = .ok s'.system := by
  cases hp : s.system.service.proxies p with
  | none => exact ⟨s, 0, by simp [step, hp], hs, rfl⟩
  | some proxy =>
      have hwritten : s.writtenByProxy codec p = proxy.sent.map codec.payload := by
        simp [writtenByProxy, hp]
      obtain ⟨hcarries, hout⟩ := hg proxy hp
      rw [hwritten] at hout
      obtain ⟨hstep, hlength⟩ := hs.toServers.inStep p proxy hp
      obtain ⟨wire, harrive, hstep', harrived⟩ := hstep.arrive (lengths_lt hcarries) hout
      obtain ⟨next, hnext, hnew, hcount⟩ :=
        emitted_next hstep hstep' (harrived ▸ Nat.le_add_right _ _)
      have hread : ∀ operation ∈ next,
          UiServer.readOperation (codec.read (codec.payload operation)) = operation := by
        intro operation ho
        have hsent : operation ∈ proxy.sent := List.mem_of_mem_drop (hnext.subset ho)
        rw [Codec.payload, (hcarries operation hsent).read_write]
        exact UiServer.readOperation_toMap ((System.reachable_linked hr).fromProxy hp operation hsent)
          (hcarries operation hsent).inRange
      refine ⟨{ s with
        toServer := Function.update s.toServer p wire
        system := s.system.setServer p (·.onDataReadyAll next) }, next.length, ?_, ⟨⟨?_, ?_⟩, ?_⟩,
        run_reads hp (hlength ▸ hnext)⟩
      · rw [step, hp, hwritten]
        simp only [Option.isSome_some, if_true, harrive]
        rw [hnew, foldl_serverDataReady p hread]
      · intro q proxy' hq
        by_cases hqp : q = p
        · subst hqp
          obtain rfl := Option.some.inj (hp.symm.trans hq)
          refine ⟨by simpa using hstep', ?_⟩
          simp [System.setServer, (UiServer.onDataReadyAll_same next _).2, hlength, hcount]
        · simpa [System.setServer, hqp] using hs.toServers.inStep q proxy' hq
      · intro q hq
        have hne : q ≠ p := by
          rintro rfl
          have hlt := (Service.reachable_inv (System.reachable_service hr)).1.proxy_lt hp
          exact absurd hlt (Nat.not_lt.mpr hq)
        simpa [hne] using hs.toServers.fresh q hq
      · have hsent (q : ProxyId) : ((s.system.setServer p (·.onDataReadyAll next)).servers q).sent =
            (s.system.servers q).sent := by
          by_cases hqp : q = p
          · subst hqp
            simp [System.setServer, (UiServer.onDataReadyAll_same next _).1]
          · simp [System.setServer, hqp]
        refine ⟨fun q => ?_, hs.toProxies.delivered, fun q => ?_⟩
        · rw [hsent]
          exact hs.toProxies.inStep q
        · rw [UiServer.WritesAnswers, hsent]
          exact hs.toProxies.writes q

/-- Bytes arrive at a proxy; if handling what they complete does not fault, then this is a run of
the system. -/
theorem bytesToProxy_spec {s : ByteSystem} (hs : s.InStep codec)
    (hr : Reachable (System.machine env) (fun _ _ => True) s.system) {p : ProxyId} {n : ℕ}
    (hg : Whole codec s (.bytesToProxy p n)) :
    s.step codec env (.bytesToProxy p n) ≠ .error .hangs ∧ ∀ s',
      s.step codec env (.bytesToProxy p n) = .ok s' → s'.InStep codec ∧ ∃ count,
        (System.machine env).run s.system (List.replicate count (.deliver p)) = .ok s'.system := by
  obtain ⟨hcarries, hout⟩ := hg
  obtain ⟨wire, harrive, hstep', harrived⟩ :=
    (hs.toProxies.inStep p).arrive (lengths_lt hcarries) hout
  obtain ⟨next, hnext, hnew, hcount⟩ :=
    emitted_next (hs.toProxies.inStep p) hstep' (harrived ▸ Nat.le_add_right _ _)
  have harrive' : (s.toProxy p).arrive (s.writtenByServer codec p) n = some wire := harrive
  have hread : ∀ operation ∈ next,
      UiProxy.readOperation (codec.read (codec.payload operation)) = operation := by
    intro operation ho
    have hsent : operation ∈ (s.system.servers p).sent := List.mem_of_mem_drop (hnext.subset ho)
    rw [Codec.payload, (hcarries operation hsent).read_write]
    exact UiProxy.readOperation_toMap (hs.toProxies.writes p operation hsent)
      (hcarries operation hsent).inRange
  have hstep : s.step codec env (.bytesToProxy p n) =
      { s with toProxy := Function.update s.toProxy p wire }.liftSystem
        ((next.map codec.payload).foldlM (proxyDataReady codec env p) s.system) := by
    rw [step, harrive', ← hnew]
  rw [hstep]
  cases hfold : (next.map codec.payload).foldlM (proxyDataReady codec env p) s.system with
  | error fault =>
      refine ⟨?_, fun s' h => ?_⟩
      · exact fun h => by cases h
      · cases h
  | ok system' =>
      refine ⟨(by simp [liftSystem]), fun s' h => ?_⟩
      cases h
      obtain ⟨hrun, htoServers, hservers, hdelivered⟩ := run_delivers hs.toServers hr hread
        ((hs.toProxies.delivered p).symm ▸ hnext) hfold
      refine ⟨⟨htoServers, fun q => ?_, fun q => ?_, fun q => ?_⟩, next.length, hrun⟩
      · rw [hservers]
        by_cases hqp : q = p
        · subst hqp
          simpa using hstep'
        · simpa [hqp] using hs.toProxies.inStep q
      · rw [hdelivered]
        by_cases hqp : q = p
        · subst hqp
          simp [hs.toProxies.delivered, hcount]
        · simpa [hqp] using hs.toProxies.delivered q
      · rw [hservers]
        exact hs.toProxies.writes q

/-- The states of the two levels, and the wires in between. -/
theorem reachable_inStep {s : ByteSystem} (h : Reachable (machine codec env) (Whole codec) s) :
    s.InStep codec ∧ Reachable (System.machine env) (fun _ _ => True) s.system := by
  have hall (es : List System.Event) (t : System) :
      (System.machine env).Allows (fun _ _ => True) t es :=
    (System.machine env).allows_all (fun _ _ => trivial) es t
  refine h.simulation rfl (inStep_start codec)
    fun s e s' hs hr hg hrun => ?_
  cases e with
  | service e =>
      cases hstep : s.system.step env (.service e) with
      | error fault =>
          simp [machine, step, hstep, liftSystem] at hrun
      | ok system =>
          obtain rfl : { s with system := system } = s' := by
            simpa [machine, step, hstep, liftSystem] using hrun
          refine ⟨?_, [.service e], hall _ _, by simp [Machine.run, System.machine, hstep]⟩
          cases System.step_cases hstep with
          | nothing => exact hs
          | service _ hservice => exact ⟨hs.toServers.service hr hservice _, hs.toProxies.inStep,
              hs.toProxies.delivered, hs.toProxies.writes⟩
  | ui p e =>
      cases hrun
      exact ⟨⟨hs.toServers.ui p e, hs.toProxies.ui p e⟩, [.ui p e], hall _ _, rfl⟩
  | bytesToServer p n =>
      obtain ⟨t, count, ht, hstep, hreads⟩ := bytesToServer_spec env hs hr hg
      obtain rfl := Except.ok.inj (ht.symm.trans hrun)
      exact ⟨hstep, _, hall _ _, hreads⟩
  | bytesToProxy p n =>
      obtain ⟨hstep, count, hdelivers⟩ := (bytesToProxy_spec hs hr hg).2 s' hrun
      exact ⟨hstep, _, hall _ _, hdelivers⟩

/-- **The bytes can be forgotten**: a system whose sockets carry bytes is at any time in a state of
the system of operations, provided that no arrival ends inside a length.  The UI processes have read,
and the proxies have been given, exactly the operations whose bytes have all arrived; and the reading
loops return. -/
theorem byteSystem_refines {s : ByteSystem} (h : Reachable (machine codec env) (Whole codec) s) :
    Reachable (System.machine env) (fun _ _ => True) s.system ∧
      (∀ p proxy, s.system.service.proxies p = some proxy → (s.system.servers p).received =
        proxy.sent.take (whole (proxy.sent.map codec.payload) (s.toServer p).arrived)) ∧
      (∀ p, s.system.arrived p = (s.system.servers p).sent.take
        (whole ((s.system.servers p).sent.map codec.payload) (s.toProxy p).arrived)) ∧
      ∀ e, Whole codec s e → s.step codec env e ≠ .error .hangs := by
  obtain ⟨hs, hr⟩ := reachable_inStep h
  have hcount {operations : List Operation} {wire : Wire}
      (hstep : wire.InStep (operations.map codec.payload)) :
      operations.take wire.reader.emitted.length =
        operations.take (whole (operations.map codec.payload) wire.arrived) := by
    rw [hstep.emitted, ← List.map_take, List.length_map]
    exact (List.prefix_iff_eq_take.mp (List.take_prefix _ _)).symm
  refine ⟨hr, fun p proxy hp => ?_, fun p => ?_, fun e hg => ?_⟩
  · obtain ⟨hstep, hlength⟩ := hs.toServers.inStep p proxy hp
    have hread := (((System.reachable_linked hr).dispatches p).proxy proxy hp).read
    rw [← hcount hstep, ← hlength]
    exact List.prefix_iff_eq_take.mp hread
  · rw [System.arrived, hs.toProxies.delivered, hcount (hs.toProxies.inStep p)]
  · cases e with
    | service e =>
        rw [step]
        cases s.system.step env (.service e) <;> simp [liftSystem]
    | ui p e => simp [step, System.step, liftSystem]
    | bytesToServer p n =>
        obtain ⟨t, -, ht, -⟩ := bytesToServer_spec env hs hr hg
        rw [ht]
        simp
    | bytesToProxy p n => exact (bytesToProxy_spec hs hr hg).1

/-- The bytes that `QDataStream` writes for a short text: the number of the bytes in UTF-16, and two
bytes for each character. -/
def textBytes (text : String) : Bytes :=
  [0, 0, 0, UInt8.ofNat (2 * text.length)] ++
    text.toList.flatMap fun c => [0, UInt8.ofNat c.toNat]

/-- What `QDataStream` does with the map of a new handler: the number of the entries, and these from
the last one to the first, each value behind the number of its type and a byte that says whether it
is null. -/
def newHandlerCodec (handlerId : String) : Codec where
  write map := if map = (Operation.newHandler handlerId).toMap then bytes else []
  read data := if data = bytes then (Operation.newHandler handlerId).toMap else .nil
where
  bytes : Bytes := [0, 0, 0, 2] ++ textBytes OAU_OPERATION_HANDLER_ID ++ [0, 0, 0, 10, 0] ++
    textBytes handlerId ++ textBytes OAU_OPERATION_CODE ++ [0, 0, 0, 10, 0] ++
    textBytes OAU_OPERATION_CODE_REGISTER_HANDLER

/-- The registration of a handler arrives in two pieces. -/
def twoPieces : List Event :=
  [.service (.queryDialog 1 "a"), .service (.newConnection 0), .ui 0 (.newHandler "7-1"),
    .bytesToProxy 0 30, .bytesToProxy 0 100]

theorem byteSystem_refines_two_pieces :
    ∃ s, (machine (newHandlerCodec "7-1") fun _ => {}).run {} twoPieces = .ok s ∧
      Reachable (System.machine fun _ => {}) (fun _ _ => True) s.system ∧
      s.system.arrived 0 = (s.system.servers 0).sent.take (whole
        ((s.system.servers 0).sent.map (newHandlerCodec "7-1").payload) (s.toProxy 0).arrived) := by
  obtain ⟨s, hs, hr⟩ := exists_reachable (machine (newHandlerCodec "7-1") fun _ => {})
    (Whole (newHandlerCodec "7-1")) twoPieces (by decide) (by decide)
  obtain ⟨hsystem, -, harrived, -⟩ := byteSystem_refines hr
  exact ⟨s, hs, hsystem, harrived 0⟩

end ByteSystem

end OnlineAccounts
