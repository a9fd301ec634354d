import OnlineAccounts.SignOnUiRequest
import OnlineAccounts.FirstDecision
import OnlineAccounts.RegExp

/-! # The outcome of a browser request

A `BrowserRequest` (`online-accounts-ui/browser-request.cpp`) loads a web page for the user to sign
in, in its dialog or in the page of a handler.  The dialog is shown when a page has loaded, unless
the final URL was reached by then; loading may fail, and then a timer runs until the request gives
up; the user may close the dialog; a handler or the page may cancel, and delivers the cookies.

Which of these comes first decides the result (`contest`).  All of them close the view, too.  The
fail timer closes it before it sets the result: with the dialog shown, this runs `onFinished`, and
the client is told the current URL instead of the failure (`outcome_iff`). -/

namespace OnlineAccounts.SignOnUi

open FirstDecision

/-- The parts of a `QUrl` that are read. -/
structure Url where
  host : String := ""
  path : String := ""
  /-- `toString()`. -/
  text : String := ""
  isEmpty : Bool := true
deriving DecidableEq

structure BrowserRequest extends Request where
  finalUrl : Url
  currentUrl : Url := {}
  responseUrl : Url := {}
  /-- `m_failTimer.isActive()`. -/
  failTimer : Bool := false
  /-- The cookies in `cookies.json`, if they have been written. -/
  cookies : Option (List QVariant) := none
deriving DecidableEq

namespace BrowserRequest

/-- What happens to a request that has been started. -/
inductive Event where
  | loadStarted
  | loadFinished (ok : Bool)
  | urlChanged (url : Url)
  /-- The cookies are delivered; `opens` says whether the file can be opened. -/
  | cookies (cookies : List QVariant) (opens : Bool)
  | cancel
  | failTimeout
  /-- The user closes the dialog. -/
  | closed
deriving DecidableEq

/-- `start()`, with the handler and the final URL of the request. -/
def start (mirSocket : String) (hasHandler : Bool) (finalUrl : Url) : BrowserRequest :=
  { toRequest := Request.start { mirSocket := mirSocket, hasHandler := hasHandler }
    finalUrl := finalUrl }

def setRequest (f : Request → Request) (b : BrowserRequest) : BrowserRequest :=
  { b with toRequest := f b.toRequest }

/-- The reply of `onFinished()`. -/
def reply (b : BrowserRequest) : QVariantMap :=
  let url := if b.responseUrl.isEmpty then b.currentUrl else b.responseUrl
  QVariantMap.nil.insert SSOUI_KEY_URLRESPONSE (.string url.text)

def onFinished (b : BrowserRequest) : BrowserRequest := b.setRequest (·.onFinished b.reply)

def closeView (b : BrowserRequest) : BrowserRequest := b.setRequest (·.closeView b.reply)

/-- `m_pathRegExp`: `/*^`. -/
def pathRegExp : RegExp := .seq (.star (.char '/')) .bol

def pathsAreEqual (p1 p2 : String) : Bool := pathRegExp.remove p1 == pathRegExp.remove p2

/-- The URL is the final one. -/
def reaches (finalUrl url : Url) : Bool :=
  url.host == finalUrl.host && pathsAreEqual url.path finalUrl.path

/-- `setCurrentUrl(url)`; a timer that is active is started again. -/
def setCurrentUrl (url : Url) (b : BrowserRequest) : BrowserRequest :=
  let b := { b with currentUrl := url }
  if reaches b.finalUrl url then
    let b := { b with responseUrl := url }
    match b.dialog with
    | some dialog =>
        if dialog.visible then b  -- authenticated()
        else b.setRequest (·.done (Request.onFinished b.reply))
    | none => b  -- authenticated()
  else b

def setCookies (cookies : List QVariant) (opens : Bool) (b : BrowserRequest) : BrowserRequest :=
  onFinished (if opens then { b with cookies := some cookies } else b)

def cancel (b : BrowserRequest) : BrowserRequest := (b.setRequest (·.setCanceled)).closeView

def onLoadStarted (b : BrowserRequest) : BrowserRequest := { b with failTimer := false }

def onLoadFinished (ok : Bool) (b : BrowserRequest) : BrowserRequest :=
  if !ok then { b with failTimer := true }
  else if b.dialog.any (!·.visible) then
    if b.responseUrl.isEmpty then b.setRequest (·.setWindow)
    else b  -- authenticated()
  else b

def onFailTimer (b : BrowserRequest) : BrowserRequest :=
  b.closeView.setRequest (·.setResult (errorResult .QUERY_ERROR_NETWORK))

/-- The timer is single shot, and only an active timer expires; only a dialog that is shown can be
closed. -/
def step (b : BrowserRequest) : Event → BrowserRequest
  | .loadStarted => b.onLoadStarted
  | .loadFinished ok => b.onLoadFinished ok
  | .urlChanged url => b.setCurrentUrl url
  | .cookies cookies opens => b.setCookies cookies opens
  | .cancel => b.cancel
  | .failTimeout => if b.failTimer then { b with failTimer := false }.onFailTimer else b
  | .closed =>
      if b.dialog.any (·.visible) then b.setRequest (·.closeEvent (Request.onFinished b.reply))
      else b

/-! ### What decides the result -/

/-- A request that has not been decided. -/
structure Session where
  view : View
  finalUrl : Url
  currentUrl : Url := {}
  responseUrl : Url := {}
  failTimer : Bool := false

/-- A result: the request was canceled, the network failed, or this is the URL. -/
inductive Outcome where
  | canceled
  | network
  | response (url : Url)
deriving DecidableEq

/-- The result map of an outcome. -/
def Outcome.result : Outcome → QVariantMap
  | canceled => errorResult .QUERY_ERROR_CANCELED
  | network => errorResult .QUERY_ERROR_NETWORK
  | response url => QVariantMap.nil.insert SSOUI_KEY_URLRESPONSE (.string url.text)

namespace Session

def start (hasHandler : Bool) (finalUrl : Url) : Session :=
  { view := .start hasHandler, finalUrl := finalUrl }

/-- The response URL, or the current one if the final URL was not reached. -/
def url (s : Session) : Url := if s.responseUrl.isEmpty then s.currentUrl else s.responseUrl

/-- The page goes to a URL. -/
def visit (s : Session) (url : Url) : Session :=
  { s with
    currentUrl := url
    responseUrl := if reaches s.finalUrl url then url else s.responseUrl }

def decides (s : Session) : Event → Option Outcome
  | .cancel => some .canceled
  | .failTimeout => if s.failTimer then some .network else none
  | .cookies _ _ => some (.response s.url)
  | .urlChanged url =>
      if reaches s.finalUrl url ∧ s.view = .hidden then some (.response (s.visit url).url) else none
  | .closed => if s.view = .shown then some (.response s.url) else none
  | .loadStarted | .loadFinished _ => none

def next (s : Session) : Event → Session
  | .loadStarted => { s with failTimer := false }
  | .loadFinished false => { s with failTimer := true }
  | .loadFinished true =>
      if s.view = .hidden ∧ s.responseUrl.isEmpty then { s with view := .shown } else s
  | .urlChanged url => s.visit url
  | _ => s

/-- The page failed to load while the dialog is shown. -/
def FailsWhileShown (s : Session) (e : Event) : Prop := e = .failTimeout ∧ s.view = .shown

instance (s : Session) (e : Event) : Decidable (s.FailsWhileShown e) :=
  inferInstanceAs (Decidable (_ ∧ _))

/-- The request of an undecided session. -/
def embed (mirSocket : String) (s : Session) : BrowserRequest :=
  { toRequest := Request.inView mirSocket s.view
    finalUrl := s.finalUrl
    currentUrl := s.currentUrl
    responseUrl := s.responseUrl
    failTimer := s.failTimer }

end Session

/-- The first deciding event counts. -/
def contest : Contest Session Event Outcome := ⟨Session.decides, Session.next⟩

theorem start_eq (mirSocket : String) (hasHandler : Bool) (finalUrl : Url) :
    start mirSocket hasHandler finalUrl = (Session.start hasHandler finalUrl).embed mirSocket := by
  simp [start, Session.embed, Session.start, Request.start_eq_inView]

/-! ### The request implements the contest -/

@[simp] theorem setRequest_progress (f : Request → Request) (b : BrowserRequest) :
    (b.setRequest f).progress = (f b.toRequest).progress := rfl

@[simp] theorem onFinished_progress (b : BrowserRequest) :
    b.onFinished.progress = b.progress.setResult b.reply := Request.onFinished_progress _ _

theorem step_of_completed {b : BrowserRequest} (h : b.progress.inProgress = false) (e : Event) :
    (b.step e).progress = b.progress := by
  cases e with
  | loadStarted => rfl
  | loadFinished ok =>
      simp only [step, onLoadFinished]
      split_ifs
      · rfl
      · exact Request.silent_setWindow _ h
      · rfl
      · rfl
  | urlChanged url =>
      simp only [step, setCurrentUrl]
      split_ifs
      · split
        · split_ifs
          · rfl
          · exact Request.silent_done _ _ h
        · rfl
      · rfl
  | cookies cookies opens =>
      simp only [step, setCookies]
      split_ifs
      · exact Request.silent_onFinished _ _ h
      · exact Request.silent_onFinished _ _ h
  | cancel => exact Request.silent_cancel _ _ h
  | failTimeout =>
      simp only [step]
      split_ifs
      · exact ((Request.silent_setResult _).comp (Request.silent_closeView _)) _ h
      · rfl
  | closed =>
      simp only [step]
      split_ifs
      · exact Request.silent_closeEvent _ _ h
      · rfl

namespace Session

variable {mirSocket : String} {s : Session}

theorem embed_next (hmir : mirSocket ≠ "") {e : Event} (h : s.decides e = none) :
    (s.embed mirSocket).step e = (s.next e).embed mirSocket := by
  cases e with
  | loadStarted => rfl
  | loadFinished ok =>
      cases ok with
      | false => rfl
      | true =>
          obtain ⟨view, finalUrl, currentUrl, responseUrl, failTimer⟩ := s
          cases view with
          | hidden =>
              cases hempty : responseUrl.isEmpty with
              | true => simp [embed, next, step, onLoadFinished, setRequest, hempty,
                  Request.setWindow_inView hmir]
              | false => simp [embed, next, step, onLoadFinished, hempty]
          | handler | shown => simp [embed, next, step, onLoadFinished]
  | urlChanged url =>
      obtain ⟨view, finalUrl, currentUrl, responseUrl, failTimer⟩ := s
      cases hreach : reaches finalUrl url with
      | true =>
          cases view with
          | hidden => simp [decides, hreach] at h
          | handler | shown => simp [embed, next, step, setCurrentUrl, visit, hreach]
      | false => simp [embed, next, step, setCurrentUrl, visit, hreach]
  | cookies => cases h
  | cancel => cases h
  | failTimeout =>
      have hoff : s.failTimer = false := by simpa [decides] using h
      show (if s.failTimer = true then _ else s.embed mirSocket) = s.embed mirSocket
      rw [hoff]
      rfl
  | closed =>
      obtain ⟨view, finalUrl, currentUrl, responseUrl, failTimer⟩ := s
      cases view with
      | shown => simp [decides] at h
      | handler | hidden => rfl

/-- A hidden dialog is accepted when the final URL is reached, which runs the slot. -/
theorem setCurrentUrl_embed {url : Url} (hreach : reaches s.finalUrl url) (hview : s.view = .hidden) :
    ((s.embed mirSocket).setCurrentUrl url).progress =
      { results := [(Outcome.response (s.visit url).url).result] } := by
  have haccept : (s.embed mirSocket).setCurrentUrl url =
      ((s.visit url).embed mirSocket).setRequest
        (·.done (Request.onFinished (Outcome.response (s.visit url).url).result)) := by
    simp [setCurrentUrl, embed, visit, hreach, hview, reply, Session.url, Outcome.result]
  rw [haccept, setRequest_progress]
  show ((Request.inView mirSocket s.view).done _).progress = _
  rw [hview]
  exact Request.done_progress (Request.onFinished_progress _) _

/-- The timer closes the view before it sets its result; a dialog that is shown replies first. -/
theorem failTimeout_embed (hon : s.failTimer = true) :
    ((s.embed mirSocket).step .failTimeout).progress =
      { results := [(if s.view = .shown then Outcome.response s.url else .network).result] } := by
  have hclosed : ({ s.embed mirSocket with failTimer := false }).closeView.progress =
      if s.view = .shown then { results := [(Outcome.response s.url).result] }
      else { inProgress := true } := Request.closeView_inView _
  show (if s.failTimer = true then _ else s.embed mirSocket).progress = _
  rw [if_pos hon, onFailTimer, setRequest_progress]
  simp only [Request.setResult]
  rw [hclosed]
  split_ifs <;> rfl

theorem embed_decided {e : Event} {o : Outcome} (h : s.decides e = some o)
    (hfails : ¬ s.FailsWhileShown e) :
    ((s.embed mirSocket).step e).progress = { results := [o.result] } := by
  cases e with
  | loadStarted => cases h
  | loadFinished ok => cases h
  | urlChanged url =>
      obtain ⟨⟨hreach, hview⟩, ho⟩ := Option.ite_none_right_eq_some.mp h
      obtain rfl := Option.some.inj ho
      exact setCurrentUrl_embed hreach hview
  | cookies cookies opens =>
      obtain rfl := Option.some.inj h
      cases opens with
      | false => exact Request.onFinished_inView _
      | true => exact Request.onFinished_inView _
  | cancel =>
      obtain rfl := Option.some.inj h
      exact Request.cancel_inView _
  | failTimeout =>
      obtain ⟨hon, ho⟩ := Option.ite_none_right_eq_some.mp h
      obtain rfl := Option.some.inj ho
      rw [failTimeout_embed hon, if_neg fun hview => hfails ⟨rfl, hview⟩]
  | closed =>
      obtain ⟨hview, ho⟩ := Option.ite_none_right_eq_some.mp h
      obtain rfl := Option.some.inj ho
      obtain ⟨view, finalUrl, currentUrl, responseUrl, failTimer⟩ := s
      cases hview
      exact Request.closeEvent_inView _

/-- Behind the dialog, the failure of the network is reported as a URL. -/
theorem embed_fails {e : Event} {o : Outcome} (hon : s.decides e = some o)
    (h : s.FailsWhileShown e) :
    ((s.embed mirSocket).step e).progress = { results := [(Outcome.response s.url).result] } := by
  obtain ⟨rfl, hview⟩ := h
  have htimer : s.failTimer = true := (Option.ite_none_right_eq_some.mp hon).1
  rw [failTimeout_embed htimer, if_pos hview]

theorem response_ne_network (url : Url) :
    (Outcome.response url).result ≠ Outcome.network.result := by
  intro h
  have hkey : SSOUI_KEY_URLRESPONSE = SSOUI_KEY_ERROR := by
    injection h
  exact absurd hkey (by decide)

end Session

/-- Of what decides a browser request, only a failure behind the dialog is not told. -/
theorem implements {mirSocket : String} (hmir : mirSocket ≠ "") :
    Implements contest step (·.progress.results) (Session.embed mirSocket) Outcome.result
      Session.FailsWhileShown (·.progress.inProgress = false) where
  undecided _ := rfl
  next _ _ h := Session.embed_next hmir h
  decided s e o h hfails := by
    rw [Session.embed_decided h hfails]
    exact ⟨rfl, rfl⟩
  spoilt s e o h hfails := by
    have hnetwork : o = .network := by
      obtain ⟨rfl, -⟩ := hfails
      exact (Option.some.inj (Option.ite_none_right_eq_some.mp h).2).symm
    rw [Session.embed_fails h hfails, hnetwork]
    intro heq
    exact Session.response_ne_network _ (List.singleton_inj.mp heq)
  closed_step b e h := by
    rw [step_of_completed h e]
    exact ⟨h, rfl⟩

/-- In a prompt session, the first deciding event gives the single result of a browser request, at
every moment of every run, if and only if it is not the expiry of the fail timer while the dialog
is shown. -/
theorem outcome_iff {mirSocket : String} (hmir : mirSocket ≠ "") (hasHandler : Bool)
    (finalUrl : Url) (es : List Event) :
    (∀ es', es' <+: es →
      (es'.foldl step (start mirSocket hasHandler finalUrl)).progress.results =
        ((contest.outcome (Session.start hasHandler finalUrl) es').map Outcome.result).toList) ↔
      ¬ contest.DecidedBy Session.FailsWhileShown (Session.start hasHandler finalUrl) es := by
  rw [start_eq]
  exact (implements hmir).results_iff _ es

/-- A page on which the user signs in. -/
def signInPage : Url :=
  { host := "accounts.example.com", path := "/signin", text := "https://accounts.example.com/signin",
    isEmpty := false }

/-- The URL where the sign-in ends. -/
def callback : Url :=
  { host := "example.com", path := "/callback", text := "https://example.com/callback",
    isEmpty := false }

/-- The user closes the dialog on the sign-in page. -/
theorem outcome_iff_closed :
    ([.urlChanged signInPage, .loadFinished true, .closed, .cancel].foldl step
      (start "/run/mir_socket" false callback)).progress.results =
        [(Outcome.response signInPage).result] :=
  ((outcome_iff (by decide) false callback
    [.urlChanged signInPage, .loadFinished true, .closed, .cancel]).mpr (by decide) _
      List.prefix_rfl).trans (by decide)

/-- The dialog shows the sign-in page; the next page fails to load, and the timer expires.  The
client is told the URL of the sign-in page. -/
theorem failure_told_as_url :
    let es : List Event :=
      [.urlChanged signInPage, .loadFinished true, .loadStarted, .loadFinished false, .failTimeout]
    contest.outcome (Session.start false callback) es = some .network ∧
      (es.foldl step (start "/run/mir_socket" false callback)).progress.results =
        [(Outcome.response signInPage).result] ∧
      (es.foldl step (start "/run/mir_socket" false callback)).progress.results ≠
        [Outcome.network.result] := by
  decide

end BrowserRequest

end OnlineAccounts.SignOnUi
