import OnlineAccounts.RequestManager
import OnlineAccounts.SharedPointers
import Mathlib.Data.List.AList

/-! # Prompt sessions

`mir-helper.cpp` keeps one Mir prompt session for each client process, and the `UiProxy`s of that
client share it: `m_promptSession` of a proxy is a strong pointer to the `PromptSession`, and
`m_sessions` has weak pointers.  The destructor of a `PromptSession` takes it out of `m_sessions`
and releases the session.  When Mir stops a session, the proxies that have it finish.

`Consistent` says how the table and the objects fit together, for the strong pointers there are.
From it, no event makes the helper follow a pointer to nothing, every valid session that Mir has made
for it is released once, when the last proxy lets go of it (`sessions_accounted`, `deleted_releases`),
and Mir stopping a session finishes exactly the proxies that have it (`stopped_finishes`).

The callbacks of Mir, which come from a thread of its own, are events here. -/

namespace OnlineAccounts

open SharedPointers Transition

structure PromptSession where
  mirSession : ℕ
  initiatorPid : ℕ
deriving DecidableEq

/-- What `mir_connection_create_prompt_session_sync` can give. -/
inductive MirSession where
  | null
  | invalid
  | valid (mirSession : ℕ)

inductive MirPromptSessionState where
  | stopped
  | started
  | suspended
deriving DecidableEq

/-- A proxy that has set `m_promptSession`. -/
structure Holder where
  proxy : ProxyId
  clientPid : ℕ
  session : ℕ
deriving DecidableEq

/-- The helper, with the proxies that have a session, the Mir sessions that have been made and
released, and the proxies that have finished because of their session. -/
structure MirHelper where
  heap : Heap PromptSession := .empty
  sessions : AList (fun _ : ℕ => ℕ) := ∅
  holders : List Holder := []
  /-- The valid sessions that have been made.  An invalid one is an object of Mir too; the code
  drops the pointer to it without releasing it. -/
  created : List ℕ := []
  released : List ℕ := []
  finished : List ProxyId := []

namespace MirHelper

inductive Fault where
  | dangling (address : ℕ)
  | null (initiatorPid : ℕ)
deriving DecidableEq

/-! ### The code -/

/-- `createPromptSession(initiatorPid)`: the pointer that is returned is a strong one. -/
def createPromptSession (initiatorPid : ℕ) (mir : MirSession) (h : MirHelper) :
    Option ℕ × MirHelper :=
  match (h.sessions.lookup initiatorPid).bind fun session =>
      (h.heap.lock session).map fun heap => (session, heap) with
  | some (session, heap) => (some session, { h with heap := heap })
  | none =>
      match mir with
      | .valid mirSession =>
          let (session, heap) := h.heap.make ⟨mirSession, initiatorPid⟩
          (some session, { h with
            heap := heap
            sessions := h.sessions.insert initiatorPid session
            created := h.created ++ [mirSession] })
      -- an invalid session is not counted as created: it stays behind, unreleased
      | .null | .invalid => (none, h)

/-- `~PromptSession()` and `~PromptSessionPrivate()`. -/
def destroy (session : PromptSession) (h : MirHelper) : MirHelper :=
  { h with
    sessions := h.sessions.erase session.initiatorPid
    released := h.released ++ [session.mirSession] }

/-- A strong pointer goes out of scope. -/
def dropSession (session : ℕ) (h : MirHelper) : Except Fault MirHelper :=
  match h.heap.drop session with
  | .ok (none, heap) => .ok { h with heap := heap }
  | .ok (some destroyed, heap) => .ok (destroy destroyed { h with heap := heap })
  | .error e => .error (.dangling e.address)

/-- `requestSocket()`, for the descriptors that Mir passes to the callback. -/
def requestSocket (fds : List ℕ) : String :=
  match fds with
  | fd :: _ => "fd://" ++ toString fd
  | [] => ""

/-- `UiProxyPrivate::setupPromptSession()`: the socket that is put into the environment, if the
proxy can be used.  The local pointer becomes that of the proxy, or goes out of scope. -/
def setupPromptSession (proxy : ProxyId) (clientPid : ℕ) (mir : MirSession) (fds : List ℕ)
    (h : MirHelper) : Except Fault (Option String × MirHelper) :=
  if clientPid = 0 then .ok (none, h)
  else match h.createPromptSession clientPid mir with
    | (none, h) => .ok (none, h)
    | (some session, h) =>
        if requestSocket fds = "" then (h.dropSession session).map fun h => (none, h)
        else .ok (some (requestSocket fds), { h with
          holders := h.holders ++ [⟨proxy, clientPid, session⟩] })

/-- `~UiProxyPrivate()`, as far as the session goes. -/
def deleteProxy (proxy : ProxyId) (h : MirHelper) : Except Fault MirHelper :=
  match h.holders.find? fun e => e.proxy = proxy with
  | some e => { h with holders := h.holders.erase e }.dropSession e.session
  | none => .ok h

def holdersOf (session : ℕ) (h : MirHelper) : List ProxyId :=
  (h.holders.filter fun e => e.session = session).map Holder.proxy

/-- `emitFinished()`: the signal is connected to those of the proxies that have the session. -/
def emitFinished (session : ℕ) (h : MirHelper) : MirHelper :=
  { h with finished := h.finished ++ h.holdersOf session }

/-- One round of the loop of `onSessionStopped(mirSession)`.  The strong pointer that the loop has
to the session keeps nothing alive that would go away meanwhile: proxies are deleted later. -/
def stopRound (mirSession : ℕ) (h : MirHelper) (e : Σ _ : ℕ, ℕ) : Except Fault MirHelper :=
  match h.heap.deref e.2 with
  | none => .error (.null e.1)
  | some session =>
      if mirSession = session.mirSession then .ok (h.emitFinished e.2) else .ok h

def onSessionStopped (mirSession : ℕ) (h : MirHelper) : Except Fault MirHelper :=
  h.sessions.entries.foldlM (stopRound mirSession) h

/-- `session_event_callback`. -/
def sessionEvent (mirSession : ℕ) (state : MirPromptSessionState) (h : MirHelper) :
    Except Fault MirHelper :=
  if state = .stopped then h.onSessionStopped mirSession else .ok h

inductive Event where
  | init (proxy : ProxyId) (clientPid : ℕ) (mir : MirSession) (fds : List ℕ)
  | deleted (proxy : ProxyId)
  | sessionEvent (mirSession : ℕ) (state : MirPromptSessionState)

def step (h : MirHelper) : Event → Except Fault MirHelper
  | .init proxy clientPid mir fds => (h.setupPromptSession proxy clientPid mir fds).map Prod.snd
  | .deleted proxy => h.deleteProxy proxy
  | .sessionEvent mirSession state => h.sessionEvent mirSession state

def machine : Machine MirHelper Event Fault := ⟨{}, step⟩

/-- A proxy is initialised once, right after it has been made. -/
def Fresh (h : MirHelper) : Event → Prop
  | .init proxy _ _ _ => proxy ∉ h.holders.map Holder.proxy
  | _ => True

instance : ∀ h e, Decidable (Fresh h e)
  | h, .init proxy _ _ _ => inferInstanceAs (Decidable (proxy ∉ h.holders.map Holder.proxy))
  | _, .deleted _ | _, .sessionEvent _ _ => .isTrue trivial

/-- What a proxy makes of `setupPromptSession()` is what it makes of the socket it gets. -/
theorem setupPromptSession_agrees {env : Environment} {proxy : UiProxy} {p : ProxyId}
    {mir : MirSession} {fds : List ℕ} {h h' : MirHelper} {mirSocket : Option String}
    (hrun : h.setupPromptSession p proxy.clientPid mir fds = .ok (mirSocket, h')) :
    (proxy.setupPromptSession { env with promptSession := mirSocket }).2 = mirSocket.isSome := by
  unfold setupPromptSession at hrun
  unfold UiProxy.setupPromptSession
  by_cases hpid : proxy.clientPid = 0
  · rw [if_pos hpid] at hrun ⊢
    cases hrun
    rfl
  · rw [if_neg hpid] at hrun ⊢
    rcases hcreate : h.createPromptSession proxy.clientPid mir with ⟨session, h₁⟩
    rw [hcreate] at hrun
    cases session with
    | none =>
        cases hrun
        rfl
    | some session =>
        simp only at hrun
        split_ifs at hrun with hempty
        · obtain ⟨h₂, _, heq⟩ := exists_of_map_ok hrun
          cases heq
          rfl
        · cases hrun
          simp [hempty]

/-! ### The table and the objects -/

/-- The sessions of Mir that are in the table. -/
def live (h : MirHelper) : List ℕ :=
  h.sessions.entries.filterMap fun e => (h.heap.deref e.2).map PromptSession.mirSession

/-- With the strong pointers of a list: the table has the sessions that there are, under their
client processes, and what Mir has made is in the table or released. -/
structure Consistent (h : MirHelper) (refs : List ℕ) : Prop where
  owned : Owned h.heap refs
  listed : ∀ pid a, h.sessions.lookup pid = some a ↔
    ∃ session, h.heap.deref a = some session ∧ session.initiatorPid = pid
  balanced : ∀ m, h.created.count m = h.released.count m + h.live.count m

/-- The strong pointers are those of the proxies, one each, to the session of their client. -/
structure Inv (h : MirHelper) : Prop where
  consistent : h.Consistent (h.holders.map Holder.session)
  once : (h.holders.map Holder.proxy).Nodup
  own : ∀ e ∈ h.holders, ∃ session, h.heap.deref e.session = some session ∧
    session.initiatorPid = e.clientPid

theorem consistent_empty : Consistent {} [] where
  owned := owned_empty
  listed := by
    intro pid a
    constructor
    · intro h
      cases h
    · rintro ⟨session, h, -⟩
      cases h
  balanced := fun _ => rfl

namespace Consistent

variable {h : MirHelper} {refs : List ℕ}

theorem of_entry (hc : h.Consistent refs) {e : Σ _ : ℕ, ℕ} (he : e ∈ h.sessions.entries) :
    ∃ session, h.heap.deref e.2 = some session ∧ session.initiatorPid = e.1 :=
  (hc.listed e.1 e.2).mp (AList.mem_lookup_iff.mpr he)

theorem unique (hc : h.Consistent refs) {a b : ℕ} {s t : PromptSession}
    (hs : h.heap.deref a = some s) (ht : h.heap.deref b = some t)
    (hpid : s.initiatorPid = t.initiatorPid) : a = b := by
  have ha := (hc.listed t.initiatorPid a).mpr ⟨s, hs, hpid⟩
  have hb := (hc.listed t.initiatorPid b).mpr ⟨t, ht, rfl⟩
  exact Option.some.inj (ha.symm.trans hb)

theorem createPromptSession_shared (hc : h.Consistent refs) {pid a : ℕ} (mir : MirSession)
    (hl : h.sessions.lookup pid = some a) : ∃ heap, h.heap.lock a = some heap ∧
      h.createPromptSession pid mir = (some a, { h with heap := heap }) := by
  obtain ⟨session, hsession, -⟩ := (hc.listed pid a).mp hl
  have hlock : (h.heap.lock a).isSome := by rw [Heap.lock_isSome, hsession]; rfl
  obtain ⟨heap, hheap⟩ := Option.isSome_iff_exists.mp hlock
  refine ⟨heap, hheap, ?_⟩
  unfold createPromptSession
  rw [hl, Option.bind_some, hheap]
  rfl

theorem of_deref {heap : Heap PromptSession} {refs' : List ℕ} (hc : h.Consistent refs)
    (howned : Owned heap refs') (hderef : ∀ a, heap.deref a = h.heap.deref a) :
    Consistent { h with heap := heap } refs' := by
  refine ⟨howned, ?_, ?_⟩
  · intro pid a
    simp only [hderef]
    exact hc.listed pid a
  · intro m
    have hlive : live { h with heap := heap } = h.live := by simp only [live, hderef]
    rw [hlive]
    exact hc.balanced m

theorem of_make (hc : h.Consistent refs) {pid : ℕ} (mirSession : ℕ)
    (hnone : h.sessions.lookup pid = none) :
    Consistent { h with
      heap := (h.heap.make ⟨mirSession, pid⟩).2
      sessions := h.sessions.insert pid h.heap.next
      created := h.created ++ [mirSession] } (h.heap.next :: refs) := by
  have hnext : h.heap.deref h.heap.next = none := by
    rw [← Option.not_isSome_iff_eq_none, hc.owned.alive_iff]
    exact hc.owned.next_notMem
  refine ⟨hc.owned.make _, ?_, ?_⟩
  · intro p a
    simp only [Heap.deref_make]
    by_cases hp : p = pid
    · subst hp
      rw [AList.lookup_insert]
      constructor
      · intro ha
        rw [Option.some.inj ha, if_pos rfl]
        exact ⟨_, rfl, rfl⟩
      · rintro ⟨session, hsession, hpid⟩
        split_ifs at hsession with ha
        · rw [ha]
        · have := (hc.listed p a).mpr ⟨session, hsession, hpid⟩
          rw [hnone] at this
          cases this
    · rw [AList.lookup_insert_ne hp, hc.listed p a]
      by_cases ha : a = h.heap.next
      · rw [ha, if_pos rfl, hnext]
        constructor
        · rintro ⟨_, hsession, -⟩
          cases hsession
        · rintro ⟨session, hsession, hpid⟩
          cases hsession
          exact absurd hpid (Ne.symm hp)
      · rw [if_neg ha]
  · intro m
    have hlive : live { h with
        heap := (h.heap.make ⟨mirSession, pid⟩).2
        sessions := h.sessions.insert pid h.heap.next
        created := h.created ++ [mirSession] } = mirSession :: h.live := by
      have hkeep : ∀ e ∈ h.sessions.entries,
          ((h.heap.make ⟨mirSession, pid⟩).2.deref e.2).map PromptSession.mirSession =
            (h.heap.deref e.2).map PromptSession.mirSession := by
        intro e he
        obtain ⟨session, hsession, -⟩ := hc.of_entry he
        rw [Heap.deref_make, if_neg]
        intro heq
        rw [heq, hnext] at hsession
        cases hsession
      unfold live
      rw [AList.entries_insert_of_notMem (AList.lookup_eq_none.mp hnone), List.filterMap_cons,
        Heap.deref_make, if_pos rfl, List.filterMap_congr hkeep]
      rfl
    have := hc.balanced m
    rw [hlive, List.count_append, List.count_singleton, List.count_cons]
    show _ = h.released.count m + _
    omega

/-- `createPromptSession` gives none and changes nothing, or gives a strong pointer to the session
of the client process. -/
theorem createPromptSession_spec (hc : h.Consistent refs) (pid : ℕ) (mir : MirSession) :
    h.createPromptSession pid mir = (none, h) ∨
    ∃ a h', h.createPromptSession pid mir = (some a, h') ∧ h'.Consistent (a :: refs) ∧
      h'.holders = h.holders ∧ h'.sessions.lookup pid = some a ∧
      ∀ b ∈ refs, h'.heap.deref b = h.heap.deref b := by
  cases hl : h.sessions.lookup pid with
  | some a =>
      obtain ⟨heap, hlock, heq⟩ := hc.createPromptSession_shared mir hl
      have hderef := Heap.deref_lock hlock
      exact .inr ⟨a, _, heq, hc.of_deref (hc.owned.lock hlock) hderef, rfl, hl,
        fun b _ => hderef b⟩
  | none =>
      unfold createPromptSession
      rw [hl, Option.bind_none]
      cases mir with
      | null | invalid => exact .inl rfl
      | valid mirSession =>
          refine .inr ⟨_, _, rfl, hc.of_make mirSession hl, rfl, AList.lookup_insert _, ?_⟩
          intro b hb
          show (h.heap.make _).2.deref b = _
          rw [Heap.deref_make, if_neg]
          rintro rfl
          exact hc.owned.next_notMem hb

theorem of_destroy {heap : Heap PromptSession} {refs' : List ℕ} {a : ℕ} {session : PromptSession}
    (hc : h.Consistent refs) (howned : Owned heap refs') (hsession : h.heap.deref a = some session)
    (hnone : heap.deref a = none) (hothers : ∀ b, b ≠ a → heap.deref b = h.heap.deref b) :
    (destroy session { h with heap := heap }).Consistent refs' := by
  have hlisted : h.sessions.lookup session.initiatorPid = some a :=
    (hc.listed _ a).mpr ⟨session, hsession, rfl⟩
  have htable : ∀ pid b, (h.sessions.erase session.initiatorPid).lookup pid = some b ↔
      b ≠ a ∧ h.sessions.lookup pid = some b := by
    intro pid b
    by_cases hpid : pid = session.initiatorPid
    · rw [hpid, AList.lookup_erase, hlisted]
      constructor
      · intro hl
        cases hl
      · rintro ⟨hne, hl⟩
        exact absurd (Option.some.inj hl).symm hne
    · rw [AList.lookup_erase_ne hpid]
      refine ⟨fun hl => ⟨?_, hl⟩, And.right⟩
      rintro rfl
      obtain ⟨s, hs, hspid⟩ := (hc.listed pid b).mp hl
      rw [hsession] at hs
      cases hs
      exact hpid hspid.symm
  refine ⟨howned, ?_, ?_⟩
  · intro pid b
    refine (htable pid b).trans ?_
    show _ ↔ ∃ s, heap.deref b = some s ∧ _
    rw [hc.listed pid b]
    by_cases hb : b = a
    · rw [hb, hnone]
      simp
    · rw [hothers b hb]
      simp [hb]
  · intro m
    have hmem : session.initiatorPid ∈ h.sessions := AList.lookup_isSome.mp (by rw [hlisted]; rfl)
    obtain ⟨b, before, after, -, hentries, herased⟩ := List.exists_of_kerase hmem
    have hb : b = a := by
      have hl : h.sessions.lookup session.initiatorPid = some b :=
        AList.mem_lookup_iff.mpr (by rw [hentries]; simp)
      exact Option.some.inj (hl.symm.trans hlisted)
    have hlive : h.live =
        before.filterMap (fun e => (h.heap.deref e.2).map PromptSession.mirSession) ++
          session.mirSession ::
            after.filterMap (fun e => (h.heap.deref e.2).map PromptSession.mirSession) := by
      unfold live
      rw [hentries, List.filterMap_append, List.filterMap_cons, hb, hsession]
      rfl
    have hkeep : ∀ e ∈ (h.sessions.erase session.initiatorPid).entries,
        (heap.deref e.2).map PromptSession.mirSession =
          (h.heap.deref e.2).map PromptSession.mirSession := by
      intro e he
      rw [hothers e.2 ((htable e.1 e.2).mp (AList.mem_lookup_iff.mpr he)).1]
    have hlive' : (destroy session { h with heap := heap }).live =
        (before ++ after).filterMap fun e => (h.heap.deref e.2).map PromptSession.mirSession := by
      rw [← herased]
      exact List.filterMap_congr hkeep
    have := hc.balanced m
    rw [hlive, List.count_append, List.count_cons] at this
    rw [hlive', List.filterMap_append, List.count_append]
    show _ = (h.released ++ [session.mirSession]).count m + _
    rw [List.count_append, List.count_singleton]
    show h.created.count m = _
    omega

/-- A pointer that there is can go out of scope.  With the last one the session goes. -/
theorem dropSession_spec (hc : h.Consistent refs) {a : ℕ} (ha : a ∈ refs) :
    ∃ session h', h.heap.deref a = some session ∧ h.dropSession a = .ok h' ∧
      h'.Consistent (refs.erase a) ∧ h'.holders = h.holders ∧
      (∀ b ∈ refs.erase a, h'.heap.deref b = h.heap.deref b) ∧
      h'.released = h.released ++ if a ∈ refs.erase a then [] else [session.mirSession] := by
  obtain ⟨session, hsession⟩ := Option.isSome_iff_exists.mp ((hc.owned.alive_iff a).mpr ha)
  obtain ⟨destroyed, heap, hdrop, howned, hothers, hlast⟩ := hc.owned.drop_spec ha
  refine ⟨session, ?_⟩
  unfold dropSession
  rw [hdrop]
  rcases hlast with ⟨hgone, rfl, hnone⟩ | ⟨hleft, rfl, hsame⟩
  · rw [hsession]
    refine ⟨_, rfl, rfl, hc.of_destroy howned hsession hnone hothers, rfl, ?_, ?_⟩
    · intro b hb
      refine hothers b ?_
      rintro rfl
      exact hgone hb
    · rw [if_neg hgone]
      rfl
  · have hderef : ∀ b, heap.deref b = h.heap.deref b := by
      intro b
      by_cases hb : b = a
      · rw [hb, hsame]
      · exact hothers b hb
    refine ⟨_, hsession, rfl, hc.of_deref howned hderef, rfl, fun b _ => hderef b, ?_⟩
    rw [if_pos hleft]
    exact (List.append_nil _).symm

end Consistent

/-! ### What the events keep -/

namespace Inv

variable {h : MirHelper}

theorem start : Inv {} := ⟨consistent_empty, List.nodup_nil, fun _ he => nomatch he⟩

theorem setupPromptSession (hi : h.Inv) {proxy : ProxyId}
    (hfresh : proxy ∉ h.holders.map Holder.proxy) (pid : ℕ) (mir : MirSession) (fds : List ℕ) :
    ∃ mirSocket h', h.setupPromptSession proxy pid mir fds = .ok (mirSocket, h') ∧ h'.Inv := by
  unfold MirHelper.setupPromptSession
  by_cases hpid : pid = 0
  · exact ⟨none, h, if_pos hpid, hi⟩
  · rw [if_neg hpid]
    rcases hi.consistent.createPromptSession_spec pid mir with
      hnone | ⟨a, h₁, hsome, hc, hholders, hlisted, hsame⟩
    · rw [hnone]
      exact ⟨none, h, rfl, hi⟩
    · have hown : ∀ e ∈ h.holders, ∃ session, h₁.heap.deref e.session = some session ∧
          session.initiatorPid = e.clientPid := by
        intro e he
        rw [hsame _ (List.mem_map_of_mem he)]
        exact hi.own e he
      rw [hsome]
      simp only
      by_cases hempty : requestSocket fds = ""
      · obtain ⟨session, h₂, -, hdrop, hc₂, hholders₂, hsame₂, -⟩ :=
          hc.dropSession_spec List.mem_cons_self
        rw [if_pos hempty, hdrop]
        rw [List.erase_cons_head] at hc₂ hsame₂
        refine ⟨none, h₂, rfl, ?_⟩
        rw [← hholders, ← hholders₂] at hc₂
        refine ⟨hc₂, ?_, ?_⟩
        · rw [hholders₂, hholders]
          exact hi.once
        · intro e he
          rw [hholders₂, hholders] at he
          rw [hsame₂ _ (List.mem_map_of_mem he)]
          exact hown e he
      · rw [if_neg hempty]
        refine ⟨_, _, rfl, ?_, ?_, ?_⟩
        · show Consistent _ ((h₁.holders ++ [(⟨proxy, pid, a⟩ : Holder)]).map Holder.session)
          rw [hholders, List.map_append]
          exact { hc with owned := hc.owned.perm (List.perm_append_singleton a _).symm }
        · show ((h₁.holders ++ [(⟨proxy, pid, a⟩ : Holder)]).map Holder.proxy).Nodup
          rw [hholders, List.map_append, List.map_singleton, ← List.concat_eq_append]
          exact List.Nodup.concat hfresh hi.once
        · intro e he
          rcases List.mem_append.mp he with he | he
          · rw [hholders] at he
            exact hown e he
          · rw [List.mem_singleton.mp he]
            exact (hc.listed pid a).mp hlisted

/-- A proxy that is deleted drops its session, which is released if no other proxy has it. -/
theorem deleteProxy_spec (hi : h.Inv) {e : Holder} (he : e ∈ h.holders) :
    ∃ session h', h.heap.deref e.session = some session ∧ h.deleteProxy e.proxy = .ok h' ∧ h'.Inv ∧
      h'.holders = h.holders.erase e ∧
      h'.released = h.released ++ if e.session ∈ (h.holders.erase e).map Holder.session then []
        else [session.mirSession] := by
  have hfind : h.holders.find? (fun e' => e'.proxy = e.proxy) = some e := by
    cases hfound : h.holders.find? fun e' => e'.proxy = e.proxy with
    | none => exact absurd (List.find?_eq_none.mp hfound e he) (by simp)
    | some e' =>
        have hproxy : e'.proxy = e.proxy := by simpa using List.find?_some hfound
        rw [List.inj_on_of_nodup_map hi.once (List.mem_of_find?_eq_some hfound) he hproxy]
  have hperm : ((h.holders.map Holder.session).erase e.session).Perm
      ((h.holders.erase e).map Holder.session) := by
    have := ((List.perm_cons_erase he).map Holder.session).erase e.session
    rwa [List.map_cons, List.erase_cons_head] at this
  have hc : Consistent { h with holders := h.holders.erase e } (h.holders.map Holder.session) :=
    { hi.consistent with }
  obtain ⟨session, h', hsession, hdrop, hc', hholders, hsame, hreleased⟩ :=
    hc.dropSession_spec (List.mem_map_of_mem he)
  refine ⟨session, h', hsession, ?_, ⟨?_, ?_, ?_⟩, hholders, ?_⟩
  · unfold MirHelper.deleteProxy
    rw [hfind]
    exact hdrop
  · rw [hholders]
    exact { hc' with owned := hc'.owned.perm hperm }
  · rw [hholders]
    exact hi.once.sublist ((List.erase_sublist).map _)
  · intro e' he'
    rw [hholders] at he'
    rw [hsame _ (hperm.mem_iff.mpr (List.mem_map_of_mem he'))]
    exact hi.own e' (List.mem_of_mem_erase he')
  · rw [hreleased]
    simp only [hperm.mem_iff]

theorem deleteProxy (hi : h.Inv) (proxy : ProxyId) :
    ∃ h', h.deleteProxy proxy = .ok h' ∧ h'.Inv := by
  cases hfind : h.holders.find? fun e => e.proxy = proxy with
  | none => exact ⟨h, by unfold MirHelper.deleteProxy; rw [hfind], hi⟩
  | some e =>
      have hproxy : e.proxy = proxy := by simpa using List.find?_some hfind
      obtain ⟨_, h', _, hrun, hi', _⟩ := hi.deleteProxy_spec (List.mem_of_find?_eq_some hfind)
      rw [hproxy] at hrun
      exact ⟨h', hrun, hi'⟩

end Inv

/-- The proxies that finish when the loop gets to an entry. -/
def reached (mirSession : ℕ) (h : MirHelper) (e : Σ _ : ℕ, ℕ) : List ProxyId :=
  if (h.heap.deref e.2).map PromptSession.mirSession = some mirSession then h.holdersOf e.2 else []

theorem mem_reached {mirSession : ℕ} {h : MirHelper} {e : Σ _ : ℕ, ℕ} {p : ProxyId} :
    p ∈ h.reached mirSession e ↔
      (h.heap.deref e.2).map PromptSession.mirSession = some mirSession ∧
        ∃ holder ∈ h.holders, holder.session = e.2 ∧ holder.proxy = p := by
  unfold reached holdersOf
  split_ifs with hmir <;> simp [hmir, and_assoc]

theorem foldlM_stopRound (mirSession : ℕ) (es : List (Σ _ : ℕ, ℕ)) :
    ∀ h : MirHelper, (∀ e ∈ es, (h.heap.deref e.2).isSome) →
      es.foldlM (stopRound mirSession) h =
        .ok { h with finished := h.finished ++ es.flatMap (h.reached mirSession) } := by
  induction es with
  | nil =>
      intro h _
      rw [List.flatMap_nil, List.append_nil]
      rfl
  | cons e es ih =>
      intro h halive
      obtain ⟨session, hsession⟩ := Option.isSome_iff_exists.mp (halive e List.mem_cons_self)
      have hround : stopRound mirSession h e =
          .ok { h with finished := h.finished ++ h.reached mirSession e } := by
        unfold stopRound reached
        rw [hsession, Option.map_some]
        by_cases heq : mirSession = session.mirSession
        · rw [if_pos (congrArg some heq.symm)]
          exact if_pos heq
        · rw [if_neg (fun h => heq (Option.some.inj h).symm), List.append_nil]
          exact if_neg heq
      have hrest := ih { h with finished := h.finished ++ h.reached mirSession e }
        fun e' he' => halive e' (List.mem_cons_of_mem _ he')
      rw [List.foldlM_cons, hround, List.flatMap_cons, ← List.append_assoc]
      exact hrest

/-- The proxies that finish are those that have a session of that handle, each once. -/
theorem Inv.onSessionStopped {h : MirHelper} (hi : h.Inv) (mirSession : ℕ) :
    ∃ proxies, h.onSessionStopped mirSession =
        .ok { h with finished := h.finished ++ proxies } ∧ proxies.Nodup ∧
      ∀ p, p ∈ proxies ↔ ∃ e ∈ h.holders, e.proxy = p ∧
        (h.heap.deref e.session).map PromptSession.mirSession = some mirSession := by
  refine ⟨_, foldlM_stopRound mirSession _ h ?_, ?_, ?_⟩
  · intro e he
    obtain ⟨session, hsession, -⟩ := hi.consistent.of_entry he
    rw [hsession]
    rfl
  · refine List.nodup_flatMap.mpr ⟨?_, ?_⟩
    · intro e _
      unfold reached
      split_ifs
      · exact hi.once.sublist ((List.filter_sublist).map _)
      · exact List.nodup_nil
    · refine (List.nodupKeys_iff_pairwise.mp h.sessions.nodupKeys).imp_of_mem ?_
      intro e e' he he' hne p hp hp'
      obtain ⟨holder, hholder, hsession, rfl⟩ := mem_reached.mp hp |>.2
      obtain ⟨holder', hholder', hsession', hproxy⟩ := mem_reached.mp hp' |>.2
      have hsame := List.inj_on_of_nodup_map hi.once hholder' hholder hproxy
      obtain ⟨s, hs, hpid⟩ := hi.consistent.of_entry he
      obtain ⟨s', hs', hpid'⟩ := hi.consistent.of_entry he'
      rw [← hsession] at hs
      rw [← hsession', hsame, hs] at hs'
      cases hs'
      exact hne (hpid.symm.trans hpid')
  · intro p
    rw [List.mem_flatMap]
    constructor
    · rintro ⟨e, _, hp⟩
      obtain ⟨hmir, holder, hholder, hsession, hproxy⟩ := mem_reached.mp hp
      exact ⟨holder, hholder, hproxy, by rw [hsession]; exact hmir⟩
    · rintro ⟨holder, hholder, hproxy, hmir⟩
      obtain ⟨session, hs, hpid⟩ := hi.own holder hholder
      refine ⟨⟨holder.clientPid, holder.session⟩, ?_, ?_⟩
      · exact AList.mem_lookup_iff.mp ((hi.consistent.listed _ _).mpr ⟨session, hs, hpid⟩)
      · exact mem_reached.mpr ⟨hmir, holder, hholder, rfl, hproxy⟩

/-! ### Every run -/

theorem step_spec {h : MirHelper} (hi : h.Inv) {e : Event} (hfresh : Fresh h e) :
    ∃ h', h.step e = .ok h' ∧ h'.Inv := by
  cases e with
  | init proxy pid mir fds =>
      obtain ⟨_, h', heq, hi'⟩ := hi.setupPromptSession hfresh pid mir fds
      exact ⟨h', congrArg (Except.map Prod.snd) heq, hi'⟩
  | deleted proxy => exact hi.deleteProxy proxy
  | sessionEvent mirSession state =>
      by_cases hstate : state = .stopped
      · obtain ⟨proxies, heq, -⟩ := hi.onSessionStopped mirSession
        refine ⟨_, (if_pos hstate).trans heq, ?_⟩
        exact ⟨{ hi.consistent with }, hi.once, hi.own⟩
      · exact ⟨h, if_neg hstate, hi⟩

theorem inv_of_reachable {h : MirHelper} (hr : Reachable machine Fresh h) : h.Inv := by
  refine hr.invariant .start ?_
  intro h e h' hi hfresh hrun
  obtain ⟨h'', heq, hi'⟩ := step_spec hi hfresh
  cases heq.symm.trans hrun
  exact hi'

/-- Two proxies have the same session if and only if they are for the same client process. -/
theorem Inv.same_session_iff {h : MirHelper} (hi : h.Inv) {e e' : Holder}
    (he : e ∈ h.holders) (he' : e' ∈ h.holders) :
    e.session = e'.session ↔ e.clientPid = e'.clientPid := by
  obtain ⟨session, hs, hpid⟩ := hi.own e he
  obtain ⟨session', hs', hpid'⟩ := hi.own e' he'
  constructor
  · intro heq
    rw [heq, hs'] at hs
    cases hs
    exact hpid.symm.trans hpid'
  · intro heq
    exact hi.consistent.unique hs hs' (hpid.trans (heq.trans hpid'.symm))

/-- In every run, no event makes the helper follow a pointer to nothing, a session is there as long
as a proxy has it, two proxies share one if and only if they are for the same client process, and
every session that Mir has made is in the table or has been released, once. -/
theorem sessions_accounted {h : MirHelper} (hr : Reachable machine Fresh h) :
    (∀ e, Fresh h e → ∃ h', h.step e = .ok h') ∧
    (∀ a, (h.heap.deref a).isSome ↔ ∃ e ∈ h.holders, e.session = a) ∧
    (∀ e ∈ h.holders, ∀ e' ∈ h.holders, e.session = e'.session ↔ e.clientPid = e'.clientPid) ∧
    h.created.Perm (h.released ++ h.live) ∧
    (h.holders = [] → h.created.Perm h.released) := by
  have hi := inv_of_reachable hr
  have hperm : h.created.Perm (h.released ++ h.live) := by
    rw [List.perm_iff_count]
    intro m
    rw [List.count_append]
    exact hi.consistent.balanced m
  refine ⟨?_, ?_, fun e he e' he' => hi.same_session_iff he he', hperm, ?_⟩
  · intro e hfresh
    obtain ⟨h', heq, -⟩ := step_spec hi hfresh
    exact ⟨h', heq⟩
  · intro a
    rw [hi.consistent.owned.alive_iff, List.mem_map]
  · intro hnone
    have hempty : h.live = [] := by
      unfold live
      rw [List.filterMap_eq_nil_iff]
      intro e _
      rw [Option.map_eq_none_iff, ← Option.not_isSome_iff_eq_none, hi.consistent.owned.alive_iff,
        hnone]
      exact List.not_mem_nil
    rw [hempty, List.append_nil] at hperm
    exact hperm

/-- Two proxies of one client, one of another, and one that Mir gives no socket to. -/
def twoClients : MirHelper :=
  ((machine.run {} [.init 0 7 (.valid 100) [5], .init 1 7 (.valid 101) [6],
    .init 2 9 (.valid 102) [8], .init 3 4 (.valid 103) []]).toOption).getD {}

theorem twoClients_reachable : Reachable machine Fresh twoClients := by
  obtain ⟨t, ht, hr⟩ := exists_reachable machine Fresh [.init 0 7 (.valid 100) [5],
    .init 1 7 (.valid 101) [6], .init 2 9 (.valid 102) [8], .init 3 4 (.valid 103) []]
    rfl (by decide)
  cases ht
  exact hr

theorem sessions_accounted_twoClients :
    (∀ e, Fresh twoClients e → ∃ h', twoClients.step e = .ok h') ∧
    [100, 102, 103].Perm ([103] ++ twoClients.live) :=
  have h := sessions_accounted twoClients_reachable
  ⟨h.1, h.2.2.2.1⟩

/-- A proxy that is deleted leaves the session to the other proxies of its client.  If it is the
last one of them, the session is released and a later proxy gets a new one. -/
theorem deleted_releases {h : MirHelper} (hr : Reachable machine Fresh h) {e : Holder}
    (he : e ∈ h.holders) :
    ∃ session h', h.heap.deref e.session = some session ∧ h.step (.deleted e.proxy) = .ok h' ∧
      ((∃ e' ∈ h.holders, e' ≠ e ∧ e'.clientPid = e.clientPid) → h'.released = h.released) ∧
      ((∀ e' ∈ h.holders, e'.clientPid = e.clientPid → e' = e) →
        h'.released = h.released ++ [session.mirSession] ∧
        h'.sessions.lookup e.clientPid = none) := by
  have hi := inv_of_reachable hr
  have hnodup : h.holders.Nodup := hi.once.of_map _
  obtain ⟨session, h', hs, hrun, hi', hholders, hreleased⟩ := hi.deleteProxy_spec he
  refine ⟨session, h', hs, hrun, ?_, ?_⟩
  · rintro ⟨e', he', hne, hpid⟩
    have hmem : e.session ∈ (h.holders.erase e).map Holder.session := by
      rw [← (hi.same_session_iff he' he).mpr hpid]
      exact List.mem_map_of_mem ((List.mem_erase_of_ne hne).mpr he')
    rw [hreleased, if_pos hmem, List.append_nil]
  · intro honly
    have hgone : ∀ e' ∈ h.holders.erase e, e'.clientPid ≠ e.clientPid := by
      intro e' he' hpid
      obtain ⟨hne, he'⟩ := hnodup.mem_erase_iff.mp he'
      exact hne (honly e' he' hpid)
    constructor
    · rw [hreleased, if_neg]
      intro hmem
      obtain ⟨e', he', heq⟩ := List.mem_map.mp hmem
      exact hgone e' he' ((hi.same_session_iff (List.mem_of_mem_erase he') he).mp heq)
    · rw [Option.eq_none_iff_forall_ne_some]
      intro a hl
      obtain ⟨s, hsome, hpid⟩ := (hi'.consistent.listed _ a).mp hl
      have halive : (h'.heap.deref a).isSome := by rw [hsome]; rfl
      obtain ⟨e', he', rfl⟩ := List.mem_map.mp ((hi'.consistent.owned.alive_iff a).mp halive)
      obtain ⟨s', hs', hpid'⟩ := hi'.own e' he'
      rw [hsome] at hs'
      cases hs'
      exact hgone e' (hholders ▸ he') (hpid'.symm.trans hpid)

/-- The first proxy leaves the session to the second one. -/
theorem deleted_releases_shared : ∃ h', twoClients.step (.deleted 0) = .ok h' ∧
    h'.released = twoClients.released := by
  obtain ⟨_, h', _, hrun, hshared, -⟩ := deleted_releases twoClients_reachable
    (show (⟨0, 7, 0⟩ : Holder) ∈ twoClients.holders by decide)
  exact ⟨h', hrun, hshared ⟨⟨1, 7, 0⟩, by decide, by decide, rfl⟩⟩

/-- When Mir stops a session, the proxies that have it finish, each of them once, and no others. -/
theorem stopped_finishes {h : MirHelper} (hr : Reachable machine Fresh h) (mirSession : ℕ) :
    ∃ proxies, h.step (.sessionEvent mirSession .stopped) =
        .ok { h with finished := h.finished ++ proxies } ∧ proxies.Nodup ∧
      ∀ p, p ∈ proxies ↔ ∃ e ∈ h.holders, e.proxy = p ∧
        (h.heap.deref e.session).map PromptSession.mirSession = some mirSession :=
  (inv_of_reachable hr).onSessionStopped mirSession

theorem stopped_finishes_twoClients : ∃ proxies h',
    twoClients.step (.sessionEvent 100 .stopped) = .ok h' ∧ h'.finished = [] ++ proxies ∧
      0 ∈ proxies ∧ 1 ∈ proxies ∧ 2 ∉ proxies := by
  obtain ⟨proxies, hrun, -, hmem⟩ := stopped_finishes twoClients_reachable 100
  refine ⟨proxies, _, hrun, rfl, ?_⟩
  rw [hmem, hmem, hmem]
  decide

end MirHelper

end OnlineAccounts
