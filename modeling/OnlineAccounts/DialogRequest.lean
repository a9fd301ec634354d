import OnlineAccounts.SignOnUiRequest
import OnlineAccounts.FirstDecision

/-! # The outcome of a dialog request

A `DialogRequest` (`online-accounts-ui/dialog-request.cpp`) asks for a user name and a password, in
its dialog or in the page of a handler.  `start()` loads the page and then shows the dialog; the
page may accept or cancel, even while it is being loaded, and the user may close the dialog.

`Answers` is what the client can rely on: what was typed is handed out only when it was accepted.
Closing the dialog runs the same slot as accepting it, so that a dialog closed by the user hands
out what was typed (`answers_iff`). -/

namespace OnlineAccounts

/-- `QVariant::toBool()`. -/
def QVariant.toBool : QVariant → Bool
  | bool b => b
  | int n => n ≠ 0
  | uint n => n ≠ 0
  | string s => s.toLower ∉ ["", "0", "false"]
  | _ => false

namespace SignOnUi

open FirstDecision

structure DialogRequest extends Request where
  queryUserName : Bool
  queryPassword : Bool
  userName : String
  password : String
deriving DecidableEq

namespace DialogRequest

inductive Event where
  | setUserName (userName : String)
  | setPassword (password : String)
  /-- The page has been loaded, and `start()` shows the dialog. -/
  | setWindow
  | accept
  | cancel
  /-- The user closes the dialog. -/
  | closed
deriving DecidableEq

/-- The constructor, and `start()` up to the point where the page is loaded. -/
def start (mirSocket : String) (hasHandler : Bool) (parameters : QVariantMap) : DialogRequest :=
  { toRequest := Request.start { mirSocket := mirSocket, hasHandler := hasHandler }
    queryUserName := (parameters.value SSOUI_KEY_QUERYUSERNAME).toBool
    queryPassword := (parameters.value SSOUI_KEY_QUERYPASSWORD).toBool
    userName := (parameters.value SSOUI_KEY_USERNAME).toString
    password := (parameters.value SSOUI_KEY_PASSWORD).toString }

def setRequest (f : Request → Request) (d : DialogRequest) : DialogRequest :=
  { d with toRequest := f d.toRequest }

/-- The reply of `onFinished()`. -/
def reply (d : DialogRequest) : QVariantMap :=
  let reply := QVariantMap.nil
  let reply :=
    if d.queryUserName then reply.insert SSOUI_KEY_USERNAME (.string d.userName) else reply
  if d.queryPassword then reply.insert SSOUI_KEY_PASSWORD (.string d.password) else reply

def onFinished (d : DialogRequest) : DialogRequest := d.setRequest (·.onFinished d.reply)

def closeView (d : DialogRequest) : DialogRequest := d.setRequest (·.closeView d.reply)

def accept (d : DialogRequest) : DialogRequest := d.onFinished

def cancel (d : DialogRequest) : DialogRequest := (d.setRequest (·.setCanceled)).closeView

/-- With a handler, no dialog is shown; only a dialog that is shown can be closed. -/
def step (d : DialogRequest) : Event → DialogRequest
  | .setUserName userName => { d with userName := userName }
  | .setPassword password => { d with password := password }
  | .setWindow => if d.hasHandler then d else d.setRequest (·.setWindow)
  | .accept => d.accept
  | .cancel => d.cancel
  | .closed =>
      if d.dialog.any (·.visible) then d.setRequest (·.closeEvent (Request.onFinished d.reply))
      else d

/-! ### What decides the result -/

/-- A request that has not been decided. -/
structure Session where
  view : View
  queryUserName : Bool
  queryPassword : Bool
  userName : String
  password : String

/-- What the user did: accepted what was asked for and typed, canceled, or closed the dialog. -/
inductive Outcome where
  | accepted (userName password : Option String)
  | canceled
  | closed
deriving DecidableEq

/-- The entries that are given. -/
def credentials (userName password : Option String) : QVariantMap :=
  let reply := userName.elim .nil fun u => QVariantMap.nil.insert SSOUI_KEY_USERNAME (.string u)
  password.elim reply fun p => reply.insert SSOUI_KEY_PASSWORD (.string p)

def Outcome.result : Outcome → QVariantMap
  | accepted userName password => credentials userName password
  | canceled | closed => errorResult .QUERY_ERROR_CANCELED

namespace Session

def start (hasHandler : Bool) (parameters : QVariantMap) : Session :=
  { view := .start hasHandler
    queryUserName := (parameters.value SSOUI_KEY_QUERYUSERNAME).toBool
    queryPassword := (parameters.value SSOUI_KEY_QUERYPASSWORD).toBool
    userName := (parameters.value SSOUI_KEY_USERNAME).toString
    password := (parameters.value SSOUI_KEY_PASSWORD).toString }

def acceptance (s : Session) : Outcome :=
  .accepted (if s.queryUserName then some s.userName else none)
    (if s.queryPassword then some s.password else none)

def decides (s : Session) : Event → Option Outcome
  | .accept => some s.acceptance
  | .cancel => some .canceled
  | .closed => if s.view = .shown then some .closed else none
  | _ => none

def next (s : Session) : Event → Session
  | .setUserName userName => { s with userName := userName }
  | .setPassword password => { s with password := password }
  | .setWindow => if s.view = .hidden then { s with view := .shown } else s
  | _ => s

/-- The request of an undecided session. -/
def embed (mirSocket : String) (s : Session) : DialogRequest :=
  { toRequest := Request.inView mirSocket s.view
    queryUserName := s.queryUserName
    queryPassword := s.queryPassword
    userName := s.userName
    password := s.password }

end Session

/-- The first deciding event counts. -/
def contest : Contest Session Event Outcome := ⟨Session.decides, Session.next⟩

/-- The decision is that the user closes the dialog. -/
def ClosedByUser (_ : Session) (e : Event) : Prop := e = .closed

instance (s : Session) (e : Event) : Decidable (ClosedByUser s e) :=
  inferInstanceAs (Decidable (_ = _))

theorem start_eq (mirSocket : String) (hasHandler : Bool) (parameters : QVariantMap) :
    start mirSocket hasHandler parameters =
      (Session.start hasHandler parameters).embed mirSocket := by
  simp [start, Session.embed, Session.start, Request.start_eq_inView]

/-! ### The request implements the contest -/

theorem step_of_completed {d : DialogRequest} (h : d.progress.inProgress = false) (e : Event) :
    (d.step e).progress = d.progress := by
  cases e with
  | setUserName userName => rfl
  | setPassword password => rfl
  | setWindow =>
      simp only [step]
      split_ifs
      · rfl
      · exact Request.silent_setWindow _ h
  | accept => exact Request.silent_onFinished _ _ h
  | cancel => exact Request.silent_cancel _ _ h
  | closed =>
      simp only [step]
      split_ifs
      · exact Request.silent_closeEvent _ _ h
      · rfl

namespace Session

variable {mirSocket : String} {s : Session}

theorem embed_reply : (s.embed mirSocket).reply = s.acceptance.result := by
  obtain ⟨view, queryUserName, queryPassword, userName, password⟩ := s
  cases queryUserName <;> cases queryPassword <;> rfl

theorem embed_next (hmir : mirSocket ≠ "") {e : Event} (h : s.decides e = none) :
    (s.embed mirSocket).step e = (s.next e).embed mirSocket := by
  cases e with
  | setUserName userName => rfl
  | setPassword password => rfl
  | setWindow =>
      obtain ⟨view, queryUserName, queryPassword, userName, password⟩ := s
      cases view with
      | handler => rfl
      | hidden =>
          show setRequest _ _ = _
          simp [embed, setRequest, next, Request.setWindow_inView hmir]
      | shown =>
          show setRequest _ _ = _
          simp [embed, setRequest, next, Request.setWindow_shown hmir]
  | accept => cases h
  | cancel => cases h
  | closed =>
      obtain ⟨view, queryUserName, queryPassword, userName, password⟩ := s
      cases view with
      | shown => cases h
      | handler | hidden => rfl

theorem embed_decided {e : Event} {o : Outcome} (h : s.decides e = some o)
    (hclosed : ¬ ClosedByUser s e) :
    ((s.embed mirSocket).step e).progress = { results := [o.result] } := by
  cases e with
  | setUserName userName => cases h
  | setPassword password => cases h
  | setWindow => cases h
  | accept =>
      obtain rfl := Option.some.inj h
      rw [← embed_reply (s := s)]
      exact Request.onFinished_inView _
  | cancel =>
      obtain rfl := Option.some.inj h
      exact Request.cancel_inView _
  | closed => exact absurd rfl hclosed

/-- Closing the dialog has the outcome of accepting it. -/
theorem embed_closed (mirSocket : String) {e : Event} {o : Outcome} (h : s.decides e = some o)
    (hclosed : ClosedByUser s e) :
    o = .closed ∧ ((s.embed mirSocket).step e).progress = { results := [s.acceptance.result] } := by
  obtain rfl := hclosed
  obtain ⟨hview, ho⟩ := Option.ite_none_right_eq_some.mp h
  refine ⟨(Option.some.inj ho).symm, ?_⟩
  have hreply : (s.embed mirSocket).reply = s.acceptance.result := embed_reply
  rw [← hreply]
  obtain ⟨view, queryUserName, queryPassword, userName, password⟩ := s
  cases hview
  exact Request.closeEvent_inView _

theorem acceptance_ne_canceled (s : Session) :
    s.acceptance.result ≠ errorResult .QUERY_ERROR_CANCELED := by
  obtain ⟨view, queryUserName, queryPassword, userName, password⟩ := s
  cases queryUserName <;> cases queryPassword <;>
    simp [acceptance, Outcome.result, credentials, errorResult, QVariantMap.insert,
      SSOUI_KEY_USERNAME, SSOUI_KEY_PASSWORD, SSOUI_KEY_ERROR]

end Session

/-- Of what decides a dialog request, only that the user closes the dialog is not told. -/
theorem implements {mirSocket : String} (hmir : mirSocket ≠ "") :
    Implements contest step (·.progress.results) (Session.embed mirSocket) Outcome.result
      ClosedByUser (·.progress.inProgress = false) where
  undecided _ := rfl
  next _ _ h := Session.embed_next hmir h
  decided s e o h hclosed := by
    rw [Session.embed_decided h hclosed]
    exact ⟨rfl, rfl⟩
  spoilt s e o h hclosed := by
    obtain ⟨rfl, hprogress⟩ := Session.embed_closed mirSocket h hclosed
    rw [hprogress]
    intro heq
    exact s.acceptance_ne_canceled (List.singleton_inj.mp heq)
  closed_step d e h := by
    rw [step_of_completed h e]
    exact ⟨h, rfl⟩

/-! ### What the client can rely on -/

/-- What the results are like when this was the first deciding event. -/
structure Answers (first : Option Outcome) (results : List QVariantMap) : Prop where
  single : results.length = first.toList.length
  credentials : ∀ result ∈ results,
    result.contains SSOUI_KEY_USERNAME ∨ result.contains SSOUI_KEY_PASSWORD →
      ∃ userName password, first = some (.accepted userName password)
  canceled : first = some .canceled ∨ first = some .closed →
    results = [errorResult .QUERY_ERROR_CANCELED]

theorem answers_of_result (first : Option Outcome) :
    Answers first (first.map Outcome.result).toList := by
  cases first with
  | none => exact ⟨rfl, fun _ h => (List.not_mem_nil h).elim, fun h => by simp at h⟩
  | some o =>
      cases o with
      | accepted userName password =>
          exact ⟨rfl, fun _ _ _ => ⟨userName, password, rfl⟩, fun h => by simp at h⟩
      | canceled | closed =>
          refine ⟨rfl, fun result hresult hcontains => ?_, fun _ => rfl⟩
          obtain rfl := List.mem_singleton.mp hresult
          exact absurd hcontains (by decide)

/-- In a prompt session, the single result of a dialog request has what was typed only if it was
accepted first, and says that the request was canceled if that was first, at every moment of every
run, if and only if the deciding event is not that the user closes the dialog. -/
theorem answers_iff {mirSocket : String} (hmir : mirSocket ≠ "") (hasHandler : Bool)
    (parameters : QVariantMap) (es : List Event) :
    (∀ es', es' <+: es →
      Answers (contest.outcome (Session.start hasHandler parameters) es')
        (es'.foldl step (start mirSocket hasHandler parameters)).progress.results) ↔
      ¬ contest.DecidedBy ClosedByUser (Session.start hasHandler parameters) es := by
  rw [start_eq]
  constructor
  · intro hall hclosed
    obtain ⟨es', s', e, o, hprefix, ho, hd, he, hrun⟩ :=
      (implements hmir).exists_of_decidedBy es hclosed
    obtain ⟨rfl, hprogress⟩ := Session.embed_closed mirSocket hd he
    have hcanceled := (hall es' hprefix).canceled (.inr ho)
    rw [hrun, hprogress] at hcanceled
    exact s'.acceptance_ne_canceled (List.singleton_inj.mp hcanceled)
  · intro hclosed es' hprefix
    rw [(implements hmir).results_iff _ es |>.mpr hclosed es' hprefix]
    exact answers_of_result _

/-- A request for a user name and a password. -/
def signInForm : QVariantMap :=
  (QVariantMap.nil.insert SSOUI_KEY_QUERYUSERNAME (.bool true)).insert SSOUI_KEY_QUERYPASSWORD
    (.bool true)

/-- The user types, accepts, and then closes the dialog. -/
theorem answers_iff_accepted :
    Answers (some (.accepted (some "user") (some "secret")))
      ([.setWindow, .setUserName "user", .setPassword "secret", .accept, .closed].foldl step
        (start "/run/mir_socket" false signInForm)).progress.results :=
  (answers_iff (by decide) false signInForm
    [.setWindow, .setUserName "user", .setPassword "secret", .accept, .closed]).mpr (by decide) _
      List.prefix_rfl

/-- The user types, and then closes the dialog. The client gets what was typed. -/
theorem closed_dialog_hands_out_password :
    let es : List Event := [.setWindow, .setUserName "user", .setPassword "secret", .closed]
    contest.outcome (Session.start false signInForm) es = some .closed ∧
      (es.foldl step (start "/run/mir_socket" false signInForm)).progress.results =
        [credentials (some "user") (some "secret")] ∧
      ¬ Answers (contest.outcome (Session.start false signInForm) es)
        (es.foldl step (start "/run/mir_socket" false signInForm)).progress.results := by
  refine ⟨by decide, by decide, fun h => ?_⟩
  exact absurd (h.canceled (.inr (by decide))) (by decide)

end DialogRequest

end SignOnUi

end OnlineAccounts
