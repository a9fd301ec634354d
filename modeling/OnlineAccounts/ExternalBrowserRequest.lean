import OnlineAccounts.BrowserRequest

/-! # The outcome of a request for an external browser

When the final URL is on the local host, the user signs in with the system browser, and a loopback
server tells the page of the request what was visited (`ExternalBrowserRequest`,
`online-accounts-ui/external-browser-request.cpp`).  Without a handler a dialog is built to load the
page, but nothing ever shows it: the user can neither see nor close it, and the request ends
when the page reports a URL or cancels.

The first report or cancellation decides, whatever comes next and whatever becomes of the handler
(`first_decides`). -/

namespace OnlineAccounts.SignOnUi

open FirstDecision
open BrowserRequest (Outcome)

def SSOUI_KEY_OPENURL : String := "OpenUrl"
def SSOUI_KEY_FINALURL : String := "FinalUrl"

/-- The handler is deleted, and the request does not have it any more. -/
def Request.handlerDeleted (r : Request) : Request := { r with hasHandler := false }

structure ExternalBrowserRequest extends Request where
  startUrl : String
  responseUrl : Url := {}
deriving DecidableEq

namespace ExternalBrowserRequest

inductive Event where
  | urlVisited (url : Url)
  | cancel
  | handlerDeleted
  /-- The user closes the dialog. -/
  | closed
deriving DecidableEq

/-- The constructor and `start()`. -/
def start (mirSocket : String) (hasHandler : Bool) (parameters : QVariantMap) :
    ExternalBrowserRequest :=
  { toRequest := Request.start { mirSocket := mirSocket, hasHandler := hasHandler }
    startUrl := (parameters.value SSOUI_KEY_OPENURL).toString }

def setRequest (f : Request → Request) (x : ExternalBrowserRequest) : ExternalBrowserRequest :=
  { x with toRequest := f x.toRequest }

/-- The reply of `onFinished()`. -/
def reply (x : ExternalBrowserRequest) : QVariantMap :=
  QVariantMap.nil.insert SSOUI_KEY_URLRESPONSE (.string x.responseUrl.text)

def onFinished (x : ExternalBrowserRequest) : ExternalBrowserRequest :=
  x.setRequest (·.onFinished x.reply)

def closeView (x : ExternalBrowserRequest) : ExternalBrowserRequest :=
  x.setRequest (·.closeView x.reply)

def urlVisited (url : Url) (x : ExternalBrowserRequest) : ExternalBrowserRequest :=
  onFinished { x with responseUrl := url }

def cancel (x : ExternalBrowserRequest) : ExternalBrowserRequest :=
  (x.setRequest (·.setCanceled)).closeView

/-- Only a dialog that is shown can be closed. -/
def step (x : ExternalBrowserRequest) : Event → ExternalBrowserRequest
  | .urlVisited url => x.urlVisited url
  | .cancel => x.cancel
  | .handlerDeleted => x.setRequest (·.handlerDeleted)
  | .closed =>
      if x.dialog.any (·.visible) then x.setRequest (·.closeEvent (Request.onFinished x.reply))
      else x

/-! ### What decides the result -/

/-- A request that has not been decided. -/
structure Session where
  hasHandler : Bool
  /-- A dialog has been built. -/
  dialog : Bool
  startUrl : String

/-- What an event decides. -/
def decision : Event → Option Outcome
  | .urlVisited url => some (.response url)
  | .cancel => some .canceled
  | .handlerDeleted | .closed => none

namespace Session

def start (hasHandler : Bool) (parameters : QVariantMap) : Session :=
  { hasHandler := hasHandler
    dialog := !hasHandler
    startUrl := (parameters.value SSOUI_KEY_OPENURL).toString }

def next (s : Session) : Event → Session
  | .handlerDeleted => { s with hasHandler := false }
  | _ => s

/-- The request of an undecided session. -/
def embed (mirSocket : String) (s : Session) : ExternalBrowserRequest :=
  { mirSocket := mirSocket
    hasHandler := s.hasHandler
    dialog := if s.dialog then some { connected := true } else none
    progress := { inProgress := true }
    startUrl := s.startUrl }

end Session

/-- The first deciding event counts. -/
def contest : Contest Session Event Outcome := ⟨fun _ => decision, Session.next⟩

theorem start_eq (mirSocket : String) (hasHandler : Bool) (parameters : QVariantMap) :
    start mirSocket hasHandler parameters =
      (Session.start hasHandler parameters).embed mirSocket := by
  cases hasHandler <;> rfl

/-! ### The request implements the contest -/

theorem step_of_completed {x : ExternalBrowserRequest} (h : x.progress.inProgress = false)
    (e : Event) : (x.step e).progress = x.progress := by
  cases e with
  | urlVisited url => exact Request.silent_onFinished _ _ h
  | cancel => exact Request.silent_cancel _ _ h
  | handlerDeleted => rfl
  | closed =>
      simp only [step]
      split_ifs
      · exact Request.silent_closeEvent _ _ h
      · rfl

theorem embed_next (mirSocket : String) {s : Session} {e : Event} (h : decision e = none) :
    (s.embed mirSocket).step e = (s.next e).embed mirSocket := by
  cases e with
  | urlVisited url => cases h
  | cancel => cases h
  | handlerDeleted => rfl
  | closed =>
      obtain ⟨hasHandler, dialog, startUrl⟩ := s
      cases dialog <;> rfl

theorem embed_decided (mirSocket : String) {s : Session} {e : Event} {o : Outcome}
    (h : decision e = some o) :
    ((s.embed mirSocket).step e).progress = { results := [o.result] } := by
  cases e with
  | urlVisited url =>
      obtain rfl := Option.some.inj h
      exact Request.onFinished_progress _ _
  | cancel =>
      obtain rfl := Option.some.inj h
      exact Request.silent_closeView _ _ rfl
  | handlerDeleted => cases h
  | closed => cases h

/-- Nothing that decides is missed or spoilt. -/
theorem implements (mirSocket : String) :
    Implements contest step (·.progress.results) (Session.embed mirSocket) Outcome.result
      (fun _ _ => False) (·.progress.inProgress = false) where
  undecided _ := rfl
  next _ _ h := embed_next mirSocket h
  decided s e o h _ := by
    rw [embed_decided mirSocket h]
    exact ⟨rfl, rfl⟩
  spoilt _ _ _ _ h := h.elim
  closed_step x e h := by
    rw [step_of_completed h e]
    exact ⟨h, rfl⟩

/-- The client gets the URL that was reported first, unless the request was canceled before, and
nothing else, in a prompt session or not. -/
theorem first_decides (mirSocket : String) (hasHandler : Bool) (parameters : QVariantMap)
    (es : List Event) :
    (es.foldl step (start mirSocket hasHandler parameters)).progress.results =
      ((es.findSome? decision).map Outcome.result).toList := by
  rw [start_eq,
    (implements mirSocket).results_of_not_spoilt es (Contest.not_decidedBy (fun _ _ => id) es)]
  exact congrArg (fun o => (o.map Outcome.result).toList) (Contest.outcome_eq_findSome? _ _ _ es)

end ExternalBrowserRequest

end OnlineAccounts.SignOnUi
