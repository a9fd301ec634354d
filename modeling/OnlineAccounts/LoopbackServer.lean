import OnlineAccounts.Transition

/-! # The loopback server

A plugin that logs in with the external browser lets the browser come back to a
`LoopbackServer` (`loopback-server.cpp`) and takes the authorisation code from the `visited`
signal.  The sockets of all connections share one slot and one buffer, `m_data`, which nothing
ever clears.

Every connection is reported once and with its own path exactly as long as its own first line
says what the first line of everything that was ever received says (`visits_own_iff`). -/

namespace OnlineAccounts.OnlineAccountsPlugin

open Transition

abbrev Socket := ℕ

/-- `QString::fromUtf8`, and the page that is served. -/
structure Environment where
  fromUtf8 : List UInt8 → String
  servedHtml : List UInt8

/-- `http://localhost:<port><path>`. -/
structure Url where
  port : ℕ
  path : String
deriving DecidableEq

/-- What the log records: what was received, what was signalled and what was replied. -/
inductive Emission where
  | received (socket : Socket) (bytes : List UInt8)
  | visited (socket : Socket) (url : Url)
  | written (socket : Socket) (message : List UInt8)
deriving DecidableEq

structure LoopbackServer where
  serverPort : ℕ := 0
  /-- `m_data`. -/
  data : List UInt8 := []
  nextSocket : Socket := 0
  /-- The sockets that may still signal `readyRead`. -/
  connected : List Socket := []
  log : List Emission := []

inductive Event where
  /-- `listen` succeeds, or the server is closed (port 0). -/
  | listening (port : ℕ)
  | newConnection
  | readyRead (socket : Socket) (bytes : List UInt8)
  /-- The browser closes the connection. -/
  | disconnected (socket : Socket)

/-- `'\r'`. -/
def carriageReturn : UInt8 := 13

/-- `' '`. -/
def space : UInt8 := 32

namespace LoopbackServer

def emit (e : Emission) (s : LoopbackServer) : LoopbackServer := { s with log := e :: s.log }

def replyMessage (env : Environment) : List UInt8 :=
  let htmlSize := (toString env.servedHtml.length).toUTF8.toList
  ("HTTP/1.0 200 OK \r\n" ++ "Content-Type: text/html; charset=\"utf-8\"\r\n" ++
    "Content-Length: ").toUTF8.toList ++ htmlSize ++ "\r\n\r\n".toUTF8.toList ++ env.servedHtml

def respond (env : Environment) (socket : Socket) (s : LoopbackServer) : LoopbackServer :=
  s.emit (.written socket (replyMessage env))

/-- `disconnectFromHost`: nothing more is read from the socket. -/
def disconnect (socket : Socket) (s : LoopbackServer) : LoopbackServer :=
  { s with connected := s.connected.filter (· ≠ socket) }

def onReadyRead (env : Environment) (socket : Socket) (bytes : List UInt8) (s : LoopbackServer) :
    LoopbackServer :=
  let s := { s with data := s.data ++ bytes }.emit (.received socket bytes)
  match s.data.idxOf? carriageReturn with
  | none => s
  | some lineLength =>
      let firstLine := s.data.take lineLength
      let parts := firstLine.splitOn space
      let s := match parts with
        | _ :: path :: _ => s.emit (.visited socket ⟨s.serverPort, env.fromUtf8 path⟩)
        | _ => s
      (s.respond env socket).disconnect socket

def onNewConnection (s : LoopbackServer) : LoopbackServer :=
  { s with nextSocket := s.nextSocket + 1, connected := s.connected ++ [s.nextSocket] }

def step (env : Environment) (s : LoopbackServer) : Event → LoopbackServer
  | .listening port => { s with serverPort := port }
  | .newConnection => s.onNewConnection
  | .readyRead socket bytes =>
      if socket ∈ s.connected then s.onReadyRead env socket bytes else s
  | .disconnected socket => s.disconnect socket

/-- The server over its lifetime; no event faults. -/
def machine (env : Environment) : Machine LoopbackServer Event Empty where
  start := {}
  step s e := .ok (s.step env e)

end LoopbackServer

/-! ### What the connections request -/

/-- The path in a request: the second word of its first line, once this line is complete. -/
def requestedPath (env : Environment) (data : List UInt8) : Option String :=
  if carriageReturn ∈ data then
    ((data.takeWhile (· ≠ carriageReturn)).splitOn space)[1]?.map env.fromUtf8
  else none

/-- The bytes that a connection has sent, in their order. -/
def receivedFrom (socket : Socket) : List Emission → List UInt8
  | [] => []
  | .received socket' bytes :: log =>
      if socket' = socket then receivedFrom socket log ++ bytes else receivedFrom socket log
  | _ :: log => receivedFrom socket log

/-- The bytes that all connections have sent, in the order of their arrival. -/
def receivedFromAll : List Emission → List UInt8
  | [] => []
  | .received _ bytes :: log => receivedFromAll log ++ bytes
  | _ :: log => receivedFromAll log

/-- Each `visited` is the first of its connection, whose own first line is complete and asks for
the path in it. -/
def VisitsOwn (env : Environment) (log : List Emission) : Prop :=
  ∀ later socket url earlier, log = later ++ .visited socket url :: earlier →
    requestedPath env (receivedFrom socket earlier) = some url.path ∧
      ∀ url', .visited socket url' ∉ earlier

namespace LoopbackServer

/-- When data arrives: if everything that was ever received has a complete first line with a
second word, then this is the second word of the connection's own first line. -/
def Unmixed (env : Environment) (s : LoopbackServer) : Event → Prop
  | .readyRead socket bytes => socket ∈ s.connected →
      requestedPath env (receivedFromAll s.log ++ bytes) ≠ none →
        requestedPath env (receivedFrom socket s.log ++ bytes) =
          requestedPath env (receivedFromAll s.log ++ bytes)
  | _ => True

instance (env : Environment) (s : LoopbackServer) : (e : Event) → Decidable (s.Unmixed env e)
  | .readyRead socket bytes => inferInstanceAs (Decidable (socket ∈ s.connected →
      requestedPath env (receivedFromAll s.log ++ bytes) ≠ none →
        requestedPath env (receivedFrom socket s.log ++ bytes) =
          requestedPath env (receivedFromAll s.log ++ bytes)))
  | .listening _ | .newConnection | .disconnected _ => .isTrue trivial

variable {env : Environment}

/-! ### One event -/

/-- What is signalled when data arrives. -/
def visit (env : Environment) (s : LoopbackServer) (socket : Socket) (bytes : List UInt8) :
    List Emission :=
  ((requestedPath env (s.data ++ bytes)).map fun path =>
    .visited socket ⟨s.serverPort, path⟩).toList

/-- Without a complete line the data is kept; otherwise the connection is answered. -/
theorem onReadyRead_cases (env : Environment) (s : LoopbackServer) (socket : Socket)
    (bytes : List UInt8) :
    s.onReadyRead env socket bytes =
        { s with data := s.data ++ bytes, log := .received socket bytes :: s.log } ∧
      requestedPath env (s.data ++ bytes) = none ∨
    s.onReadyRead env socket bytes =
      { s with
        data := s.data ++ bytes
        connected := s.connected.filter (· ≠ socket)
        log := .written socket (replyMessage env) :: (s.visit env socket bytes ++
          .received socket bytes :: s.log) } := by
  by_cases hline : carriageReturn ∈ s.data ++ bytes
  · right
    have hindex : (s.data ++ bytes).idxOf? carriageReturn =
        some ((s.data ++ bytes).idxOf carriageReturn) := by
      apply List.findIdx?_eq_some_of_exists
      exact ⟨carriageReturn, hline, beq_self_eq_true _⟩
    have htake : (s.data ++ bytes).take ((s.data ++ bytes).idxOf carriageReturn) =
        (s.data ++ bytes).takeWhile (· ≠ carriageReturn) := by
      rw [List.takeWhile_eq_take_findIdx_not]
      unfold List.idxOf
      congr 2
      ext b
      rw [Bool.eq_iff_iff]
      simp
    unfold onReadyRead visit requestedPath
    simp only [emit]
    rw [hindex, if_pos hline]
    dsimp only
    rw [htake]
    rcases ((s.data ++ bytes).takeWhile (· ≠ carriageReturn)).splitOn space with
      _ | ⟨word, _ | ⟨path, words⟩⟩
    · rfl
    · rfl
    · rfl
  · left
    refine ⟨?_, if_neg hline⟩
    unfold onReadyRead
    simp only [emit]
    rw [List.idxOf?_eq_none_iff.mpr hline]

/-! ### What has been received, and who is connected -/

/-- The buffer is everything that was received; a connection that can still send was not
reported. -/
structure Inv (s : LoopbackServer) : Prop where
  data : s.data = receivedFromAll s.log
  connected : ∀ socket ∈ s.connected, ∀ url, .visited socket url ∉ s.log
  visited : ∀ socket url, .visited socket url ∈ s.log → socket < s.nextSocket
  fresh : ∀ socket ∈ s.connected, socket < s.nextSocket

theorem inv_start : ({} : LoopbackServer).Inv := by
  refine ⟨rfl, ?_, ?_, ?_⟩
  · exact fun _ hmem => absurd hmem List.not_mem_nil
  · exact fun _ _ hmem => absurd hmem List.not_mem_nil
  · exact fun _ hmem => absurd hmem List.not_mem_nil

theorem receivedFromAll_visit (s : LoopbackServer) (socket : Socket) (bytes : List UInt8)
    (log : List Emission) :
    receivedFromAll (s.visit env socket bytes ++ log) = receivedFromAll log := by
  unfold visit
  cases requestedPath env (s.data ++ bytes) <;> rfl

theorem mem_visit {s : LoopbackServer} {socket socket' : Socket} {bytes : List UInt8} {url : Url}
    (h : .visited socket' url ∈ s.visit env socket bytes) : socket' = socket := by
  unfold visit at h
  cases hpath : requestedPath env (s.data ++ bytes) with
  | none => simp [hpath] at h
  | some path =>
      simp only [hpath, Option.map_some, Option.toList_some, List.mem_singleton,
        Emission.visited.injEq] at h
      exact h.1

theorem Inv.onReadyRead {s : LoopbackServer} (hi : s.Inv) {socket : Socket}
    (h : socket ∈ s.connected) (bytes : List UInt8) : (s.onReadyRead env socket bytes).Inv := by
  rcases onReadyRead_cases env s socket bytes with ⟨hs, -⟩ | hs
  · rw [hs]
    refine ⟨?_, ?_, ?_, hi.fresh⟩
    · exact congrArg (· ++ bytes) hi.data
    · intro socket' hsocket url hmem
      exact hi.connected socket' hsocket url ((List.mem_cons.mp hmem).resolve_left (by simp))
    · intro socket' url hmem
      exact hi.visited socket' url ((List.mem_cons.mp hmem).resolve_left (by simp))
  · have hmem_log {socket' : Socket} {url : Url}
        (hmem : .visited socket' url ∈ .written socket (replyMessage env) ::
          (s.visit env socket bytes ++ .received socket bytes :: s.log)) :
        socket' = socket ∨ .visited socket' url ∈ s.log := by
      rcases List.mem_append.mp ((List.mem_cons.mp hmem).resolve_left (by simp)) with hnew | hold
      · exact Or.inl (mem_visit hnew)
      · exact Or.inr ((List.mem_cons.mp hold).resolve_left (by simp))
    rw [hs]
    refine ⟨?_, ?_, ?_, ?_⟩
    · change s.data ++ bytes = receivedFromAll (s.visit env socket bytes ++ _)
      rw [receivedFromAll_visit]
      exact congrArg (· ++ bytes) hi.data
    · intro socket' hsocket url hmem
      obtain ⟨hsocket, hne⟩ := List.mem_filter.mp hsocket
      rcases hmem_log hmem with rfl | hold
      · exact of_decide_eq_true hne rfl
      · exact hi.connected socket' hsocket url hold
    · intro socket' url hmem
      rcases hmem_log hmem with rfl | hold
      · exact hi.fresh socket' h
      · exact hi.visited socket' url hold
    · intro socket' hsocket
      exact hi.fresh socket' (List.mem_of_mem_filter hsocket)

theorem Inv.step {s : LoopbackServer} (hi : s.Inv) (e : Event) : (s.step env e).Inv := by
  cases e with
  | listening port => exact ⟨hi.data, hi.connected, hi.visited, hi.fresh⟩
  | newConnection =>
      refine ⟨hi.data, ?_, ?_, ?_⟩
      · intro socket hsocket url hmem
        rcases List.mem_append.mp hsocket with hsocket | hsocket
        · exact hi.connected socket hsocket url hmem
        · obtain rfl := List.mem_singleton.mp hsocket
          exact absurd (hi.visited _ url hmem) (lt_irrefl _)
      · intro socket url hmem
        exact Nat.lt_succ_of_lt (hi.visited socket url hmem)
      · intro socket hsocket
        rcases List.mem_append.mp hsocket with hsocket | hsocket
        · exact Nat.lt_succ_of_lt (hi.fresh socket hsocket)
        · obtain rfl := List.mem_singleton.mp hsocket
          exact Nat.lt_succ_self _
  | readyRead socket bytes =>
      unfold LoopbackServer.step
      dsimp only
      split_ifs with h
      · exact hi.onReadyRead h bytes
      · exact hi
  | disconnected socket =>
      refine ⟨hi.data, ?_, hi.visited, ?_⟩
      · intro socket' hsocket
        exact hi.connected socket' (List.mem_of_mem_filter hsocket)
      · intro socket' hsocket
        exact hi.fresh socket' (List.mem_of_mem_filter hsocket)

/-! ### What is signalled -/

theorem visitsOwn_nil : VisitsOwn env [] := by
  intro later socket url earlier h
  simp at h

theorem visitsOwn_cons {e : Emission} {log : List Emission} (he : ∀ socket url, e ≠ .visited socket url) :
    VisitsOwn env (e :: log) ↔ VisitsOwn env log := by
  constructor
  · intro h later socket url earlier hlog
    exact h (e :: later) socket url earlier (congrArg _ hlog)
  · rintro h (_ | ⟨e', later⟩) socket url earlier hlog
    · exact absurd (List.cons.inj hlog).1 (he socket url)
    · exact h later socket url earlier (List.cons.inj hlog).2

theorem visitsOwn_visited {socket : Socket} {url : Url} {log : List Emission} :
    VisitsOwn env (.visited socket url :: log) ↔ VisitsOwn env log ∧
      requestedPath env (receivedFrom socket log) = some url.path ∧
        ∀ url', .visited socket url' ∉ log := by
  constructor
  · intro h
    refine ⟨?_, h [] socket url log rfl⟩
    intro later socket' url' earlier hlog
    exact h (.visited socket url :: later) socket' url' earlier (congrArg _ hlog)
  · rintro ⟨h, hown⟩ (_ | ⟨e', later⟩) socket' url' earlier hlog
    · obtain ⟨he, rfl⟩ := List.cons.inj hlog
      cases he
      exact hown
    · exact h later socket' url' earlier (List.cons.inj hlog).2

/-- An event keeps the property exactly if it does not mix the connections. -/
theorem step_visitsOwn_iff {s : LoopbackServer} (hi : s.Inv) (hv : VisitsOwn env s.log) (e : Event) :
    VisitsOwn env (s.step env e).log ↔ s.Unmixed env e := by
  cases e with
  | listening port => exact iff_of_true hv trivial
  | newConnection => exact iff_of_true hv trivial
  | disconnected socket => exact iff_of_true hv trivial
  | readyRead socket bytes =>
      unfold LoopbackServer.step Unmixed
      dsimp only
      by_cases h : socket ∈ s.connected
      swap
      · rw [if_neg h]
        exact iff_of_true hv fun hmem => absurd hmem h
      rw [if_pos h, ← hi.data]
      rcases onReadyRead_cases env s socket bytes with ⟨hs, hnone⟩ | hs
      · rw [hs, hnone]
        refine iff_of_true ?_ fun _ hsome => absurd rfl hsome
        exact (visitsOwn_cons (by simp)).mpr hv
      · rw [hs, visitsOwn_cons (by simp)]
        have hreceived : VisitsOwn env (.received socket bytes :: s.log) :=
          (visitsOwn_cons (by simp)).mpr hv
        unfold visit
        cases hpath : requestedPath env (s.data ++ bytes) with
        | none => exact iff_of_true hreceived fun _ hsome => absurd rfl hsome
        | some path =>
            have hfirst : ∀ url, .visited socket url ∉ .received socket bytes :: s.log := by
              intro url hmem
              exact hi.connected socket h url ((List.mem_cons.mp hmem).resolve_left (by simp))
            have hown : receivedFrom socket (.received socket bytes :: s.log) =
                receivedFrom socket s.log ++ bytes := if_pos rfl
            change VisitsOwn env (.visited socket ⟨s.serverPort, path⟩ :: .received socket bytes ::
              s.log) ↔ _
            rw [visitsOwn_visited, hown]
            constructor
            · rintro ⟨-, hrequested, -⟩ - -
              exact hrequested
            · intro hunmixed
              exact ⟨hreceived, hunmixed h (Option.some_ne_none path), hfirst⟩

/-- **`visited` and the connections**: in a run whose events do not mix the connections each
connection is reported at most once, after its own first line and with the path in it; and the
next event keeps this so exactly if it does not mix them either. -/
theorem visits_own_iff (env : Environment) {s : LoopbackServer}
    (h : Reachable (machine env) (fun s e => s.Unmixed env e) s) : VisitsOwn env s.log ∧
      ∀ e, VisitsOwn env (s.step env e).log ↔ s.Unmixed env e := by
  have hv : s.Inv ∧ VisitsOwn env s.log := by
    refine h.invariant (I := fun s => s.Inv ∧ VisitsOwn env s.log)
      ⟨inv_start, visitsOwn_nil⟩ ?_
    rintro s e s' ⟨hi, hv⟩ hunmixed hrun
    obtain rfl := Except.ok.inj hrun
    exact ⟨hi.step e, (step_visitsOwn_iff hi hv e).mpr hunmixed⟩
  exact ⟨hv.2, fun e => step_visitsOwn_iff hv.1 hv.2 e⟩

/-- An environment that reads ASCII, and serves an empty page. -/
def ascii : Environment where
  fromUtf8 bytes := .ofList (bytes.map fun b => .ofNat b.toNat)
  servedHtml := []

/-- `GET /a` and the end of the line, for a path of one letter. -/
def get (a : UInt8) : List UInt8 := [71, 69, 84, 32, 47, a, 13]

/-- A request in two pieces, while another connection sends nothing. -/
def twoPieces : List Event :=
  [.listening 8080, .newConnection, .newConnection, .readyRead 1 ((get 97).take 3),
    .readyRead 1 ((get 97).drop 3)]

theorem visits_own_iff_pieces :
    ∃ s, (machine ascii).run {} twoPieces = .ok s ∧ .visited 1 ⟨8080, "/a"⟩ ∈ s.log ∧
      VisitsOwn ascii s.log ∧ ∀ e, VisitsOwn ascii (s.step ascii e).log ↔ s.Unmixed ascii e := by
  have hallows : (machine ascii).Allows (fun s e => s.Unmixed ascii e) {} twoPieces := by decide
  refine ⟨_, rfl, by decide, ?_⟩
  exact visits_own_iff ascii (reachable_of_run_from .start hallows rfl)

/-- The login that waits for the code `b` gets the code `a` of the login before it. -/
theorem old_code_visited :
    ∃ s, (machine ascii).run {} [.listening 8080, .newConnection, .readyRead 0 (get 97),
        .newConnection, .readyRead 1 (get 98)] = .ok s ∧
      .visited 1 ⟨8080, "/a"⟩ ∈ s.log ∧ ¬ VisitsOwn ascii s.log := by
  refine ⟨_, rfl, by decide, ?_⟩
  intro h
  obtain ⟨hown, -⟩ := h [.written 1 (replyMessage ascii)] 1 ⟨8080, "/a"⟩ _ rfl
  exact absurd hown (by decide)

end LoopbackServer

end OnlineAccounts.OnlineAccountsPlugin
