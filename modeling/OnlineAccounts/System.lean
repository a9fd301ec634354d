import OnlineAccounts.Dispatch

/-! # The service and its UI processes

A `System` is the service with the UI processes of its proxies.  The socket between a proxy and
its UI process delivers what is written to it in order and without loss: the UI process reads the
operations of its proxy one after the other (`read`), and the proxy gets those of the UI process
(`deliver`).  Both happen at any time, between any other events.

`Linked` is what holds of every proxy and its UI process; it is carried by the runs of the system
(`reachable_linked`). -/

namespace OnlineAccounts

structure System where
  service : Service := {}
  servers : ProxyId → UiServer := fun _ => {}
  /-- How many operations of a UI process have been delivered. -/
  delivered : ProxyId → ℕ := fun _ => 0

namespace System

open Transition

inductive Event where
  /-- An event of the service; the operations of the UI processes are delivered by `deliver`. -/
  | service (e : OnlineAccounts.Event)
  /-- The UI process of a proxy reads the next operation. -/
  | read (p : ProxyId)
  /-- Something happens in the UI process. -/
  | ui (p : ProxyId) (e : UiEvent)
  /-- The next operation of the UI process is delivered to the proxy. -/
  | deliver (p : ProxyId)

/-- The operation that the UI process of proxy `p` reads next. -/
def unread (s : System) (p : ProxyId) : Option Operation :=
  (s.service.proxies p).bind fun proxy => proxy.sent[(s.servers p).received.length]?

/-- The operation that is delivered to proxy `p` next. -/
def undelivered (s : System) (p : ProxyId) : Option Operation :=
  (s.servers p).sent[s.delivered p]?

def setServer (p : ProxyId) (f : UiServer → UiServer) (s : System) : System :=
  { s with servers := Function.update s.servers p (f (s.servers p)) }

def step (env : ProxyId → Environment) (s : System) : Event → Except Fault System
  | .service (.dataReady _ _) => .ok s
  | .service e => (s.service.step env e).map fun service => { s with service := service }
  | .read p => match s.unread p with
    | none => .ok s
    | some operation => .ok (s.setServer p (·.onDataReady operation))
  | .ui p e => .ok (s.setServer p (·.handle e))
  | .deliver p => match s.undelivered p with
    | none => .ok s
    | some operation => (s.service.step env (.dataReady p operation)).map fun service =>
        { s with
          service := service
          delivered := Function.update s.delivered p (s.delivered p + 1) }

def machine (env : ProxyId → Environment) : Machine System Event Fault where
  start := {}
  step := step env

variable {env : ProxyId → Environment}

/-! ### What one step does -/

/-- The steps of the system, with what has happened in each. -/
inductive Step (env : ProxyId → Environment) (s : System) : Event → System → Prop where
  | nothing (e : Event) : Step env s e s
  | service {e : OnlineAccounts.Event} {service : Service} (he : ∀ p o, e ≠ .dataReady p o)
      (h : s.service.step env e = .ok service) :
      Step env s (.service e) { s with service := service }
  | read {p : ProxyId} {operation : Operation} (h : s.unread p = some operation) :
      Step env s (.read p) (s.setServer p (·.onDataReady operation))
  | ui (p : ProxyId) (e : UiEvent) : Step env s (.ui p e) (s.setServer p (·.handle e))
  | deliver {p : ProxyId} {operation : Operation} {service : Service}
      (hu : s.undelivered p = some operation)
      (h : s.service.step env (.dataReady p operation) = .ok service) :
      Step env s (.deliver p)
        { s with
          service := service
          delivered := Function.update s.delivered p (s.delivered p + 1) }

theorem step_cases {s s' : System} {e : Event} (h : s.step env e = .ok s') : Step env s e s' := by
  cases e with
  | read p =>
      cases hu : s.unread p with
      | none =>
          simp only [step, hu] at h
          obtain rfl := Except.ok.inj h
          exact .nothing _
      | some operation =>
          simp only [step, hu] at h
          obtain rfl := Except.ok.inj h
          exact .read hu
  | ui p e =>
      obtain rfl := Except.ok.inj h
      exact .ui p e
  | deliver p =>
      cases hu : s.undelivered p with
      | none =>
          simp only [step, hu] at h
          obtain rfl := Except.ok.inj h
          exact .nothing _
      | some operation =>
          simp only [step, hu] at h
          obtain ⟨service, hs, rfl⟩ := exists_of_map_ok h
          exact .deliver hu hs
  | service e =>
      cases e with
      | dataReady p operation =>
          obtain rfl := Except.ok.inj h
          exact .nothing _
      | _ =>
          obtain ⟨service, hs, rfl⟩ := exists_of_map_ok h
          exact .service (by simp) hs

/-- What the service starts with and every step of it keeps holds in every reachable state. -/
theorem Reachable.service {m : Machine System Event Fault} {guard : System → Event → Prop}
    {I : Service → Prop} {s : System} (h : Reachable m guard s) (hm : m.step = step env)
    (start : I m.start.service)
    (step : ∀ s e s', I s → s.step env e = .ok s' → I s') : I s.service := by
  refine h.invariant (I := fun s => I s.service) start fun s e s' hI _ hrun => ?_
  rw [hm] at hrun
  cases step_cases hrun with
  | nothing => exact hI
  | service _ hs => exact step _ _ _ hI hs
  | read => exact hI
  | ui => exact hI
  | deliver _ hs => exact step _ _ _ hI hs

theorem reachable_service {guard : System → Event → Prop} {s : System}
    (h : Reachable (machine env) guard s) :
    Reachable (Service.machine env) (fun _ _ => True) s.service :=
  Reachable.service (m := machine env) h rfl .start fun _ _ _ hr hs => .step hr trivial hs

/-! ### A proxy and its UI process -/

/-- Every proxy dispatches what it handles, and its UI process has read the beginning of that. -/
structure Linked (s : System) : Prop where
  dispatches : ∀ p, s.service.Dispatches (fun _ => False) (s.servers p).received p
  valid : ∀ p, (s.servers p).Valid

theorem linked_start : Linked {} := by
  refine ⟨fun p => ⟨List.nodup_nil, fun _ => ⟨rfl, rfl⟩, fun _ h => h.elim, fun proxy hp => ?_⟩,
    fun p => UiServer.valid_start⟩
  cases hp

theorem Linked.read {s : System} (h : s.Linked) (hi : s.service.Inv) {p : ProxyId}
    {operation : Operation} (hu : s.unread p = some operation) :
    (s.setServer p (·.onDataReady operation)).Linked := by
  obtain ⟨proxy, hp, ho⟩ := Option.bind_eq_some_iff.mp hu
  obtain ⟨hread, id, hid, hnew⟩ := ((h.dispatches p).proxy proxy hp).next_read ho
  have hreceived : ((s.servers p).onDataReady operation).received =
      (s.servers p).received ++ [operation] := by
    cases operation <;> rfl
  refine ⟨fun q => ?_, fun q => ?_⟩
  · by_cases hq : q = p
    · subst hq
      obtain ⟨hnd, -, hbound, hproxy⟩ := h.dispatches q
      refine ⟨hnd, fun hle => ?_, hbound, fun proxy' hp' => ?_⟩
      · rw [hi.fresh q hle] at hp
        cases hp
      · obtain rfl := Option.some.inj (hp.symm.trans hp')
        obtain ⟨hnext, hregistered, -, hready, hsent⟩ := hproxy proxy hp
        refine ⟨hnext, hregistered, ?_, hready, hsent⟩
        simp only [setServer, Function.update_self]
        rw [hreceived]
        exact hread
    · simpa [setServer, hq] using h.dispatches q
  · by_cases hq : q = p
    · subst hq
      simpa [setServer] using (h.valid q).onDataReady hid hnew
    · simpa [setServer, hq] using h.valid q

theorem Linked.ui {s : System} (h : s.Linked) (p : ProxyId) (e : UiEvent) :
    (s.setServer p (·.handle e)).Linked := by
  refine ⟨fun q => ?_, fun q => ?_⟩
  · by_cases hq : q = p
    · subst hq
      simpa [setServer, UiServer.handle_received] using h.dispatches q
    · simpa [setServer, hq] using h.dispatches q
  · by_cases hq : q = p
    · subst hq
      simpa [setServer] using (h.valid q).handle e
    · simpa [setServer, hq] using h.valid q

theorem Linked.service {s : System} (h : s.Linked)
    (hs : Reachable (Service.machine env) (fun _ _ => True) s.service) {e : OnlineAccounts.Event}
    {service : Service} (hrun : s.service.step env e = .ok service) (delivered : ProxyId → ℕ) :
    Linked { s with service := service, delivered := delivered } := by
  obtain ⟨hi, hsettled⟩ := Service.reachable_inv hs
  exact ⟨fun p => Service.step_dispatches hi hsettled (Service.reachable_history hs)
    (h.dispatches p) hrun, h.valid⟩

theorem reachable_linked {guard : System → Event → Prop} {s : System}
    (h : Reachable (machine env) guard s) : s.Linked := by
  induction h with
  | start => exact linked_start
  | @step s s' e h hg hrun ih =>
      have hs := reachable_service h
      cases step_cases hrun with
      | nothing => exact ih
      | service _ hstep => exact ih.service hs hstep s.delivered
      | read hu => exact ih.read (Service.reachable_inv hs).1 hu
      | ui p e => exact ih.ui p e
      | deliver _ hstep => exact ih.service hs hstep _

end System

end OnlineAccounts
