import OnlineAccounts.DialogRequest
import OnlineAccounts.ExternalBrowserRequest
import OnlineAccounts.UiServer

/-! # Sign-on requests of any kind

`SignOnUi::Request::newRequest()` (`online-accounts-ui/signonui-request.cpp`) takes the parameters
of a request and makes a `BrowserRequest`, an `ExternalBrowserRequest` or a `DialogRequest` of it.
What is said here is true of all of them, in any order of events.

A window gets on the screen only in a prompt session and only for a request that no handler takes
(`shows_window_iff`).  A request sends one result at most, and the result has no answer to anything
that was not asked (`results_fit`).  This is what the server sends to the service
(`results_sent`). -/

namespace OnlineAccounts.SignOnUi

/-! ### What is added to the results -/

/-- Nothing was told to the client, or one result that is allowed, which ended the request. -/
inductive Extends (allowed : QVariantMap → Prop) (p : Progress) : Progress → Prop where
  | same : Extends allowed p p
  | told (hprogress : p.inProgress) (result : QVariantMap) (hresult : allowed result) :
      Extends allowed p { inProgress := false, results := p.results ++ [result] }

namespace Extends

variable {allowed : QVariantMap → Prop} {p q : Progress}

theorem setResult (h : Extends allowed p q) {result : QVariantMap} (hresult : allowed result) :
    Extends allowed p (q.setResult result) := by
  unfold Progress.setResult
  split_ifs with hprogress
  · cases h with
    | same => exact .told hprogress result hresult
    | told => exact absurd hprogress Bool.false_ne_true
  · exact h

theorem results_isPrefix (h : Extends allowed p q) : p.results <+: q.results := by
  cases h with
  | same => exact List.prefix_rfl
  | told => exact List.prefix_append _ _

/-- A request that has just been started tells its client one result at most. -/
theorem of_start (h : Extends allowed { inProgress := true } p) :
    (p.inProgress ↔ p.results = []) ∧ p.results.length ≤ 1 ∧
      ∀ result ∈ p.results, allowed result := by
  cases h with
  | same => exact ⟨by simp, by simp, by simp⟩
  | told hprogress result hresult => exact ⟨by simp, by simp, by simpa using hresult⟩

end Extends

/-! ### What a request keeps -/

namespace Request

def Keeps (P : Request → Prop) (f : Request → Request) : Prop := ∀ r, P r → P (f r)

/-- Hiding a dialog, and replying with what is allowed, keep the property. -/
structure Closable (allowed : QVariantMap → Prop) (P : Request → Prop) : Prop where
  setDialog : ∀ f, (∀ d, (f d).visible → d.visible) → Keeps P (Request.setDialog f)
  setResult : ∀ result, allowed result → Keeps P (Request.setResult result)

namespace Closable

variable {allowed : QVariantMap → Prop} {P : Request → Prop} (hP : Closable allowed P)

include hP in
theorem done {slot : Request → Request} (hslot : Keeps P slot) : Keeps P (Request.done slot) :=
  fun r hr => by
    have hhidden := hP.setDialog ({ · with visible := false })
      (fun _ h => absurd h Bool.false_ne_true) r hr
    unfold Request.done finished
    split_ifs
    · exact hslot _ hhidden
    · exact hhidden

include hP in
theorem closeEvent {slot : Request → Request} (hslot : Keeps P slot) :
    Keeps P (Request.closeEvent slot) := fun r hr =>
  hP.setDialog _ (fun _ h => absurd h Bool.false_ne_true) _ (hP.done hslot r hr)

include hP in
theorem closeViewWith {slot : Request → Request} (hslot : Keeps P slot) :
    Keeps P (Request.closeViewWith slot) := fun r hr => by
  unfold Request.closeViewWith close
  split_ifs
  · exact hr
  · exact hP.closeEvent hslot r hr
  · exact hr

variable {reply : QVariantMap} (hreply : allowed reply)

include hP hreply in
theorem onFinished : Keeps P (Request.onFinished reply) := fun r hr => by
  have hoff := hP.setDialog ({ · with connected := false }) (fun _ h => h) r hr
  exact hP.setResult reply hreply _ (hP.closeViewWith (fun _ h => h) _ hoff)

include hP hreply in
theorem closeView : Keeps P (Request.closeView reply) :=
  hP.closeViewWith (hP.onFinished hreply)

include hP hreply in
theorem userCloses : Keeps P (Request.closeEvent (Request.onFinished reply)) :=
  hP.closeEvent (hP.onFinished hreply)

end Closable

variable {allowed : QVariantMap → Prop}

/-- The dialog, if there is one, is not on the screen. -/
def Hidden (r : Request) : Prop := r.dialog.all (!·.visible)

/-- The dialog is not on the screen, and `setWindow` would not show it. -/
structure Sealed (r : Request) : Prop where
  hidden : r.Hidden
  noWindow : r.mirSocket = "" ∨ r.dialog = none

theorem closable_hidden : Closable allowed Hidden where
  setDialog f hf r hr := by
    unfold Hidden setDialog at *
    cases hd : r.dialog with
    | none => rfl
    | some d =>
        have hvisible := mt (hf d) (by simpa [hd] using hr)
        simpa using hvisible
  setResult _ _ _ hr := hr

theorem closable_sealed : Closable allowed Sealed where
  setDialog f hf r hr := by
    have hhidden := (closable_hidden : Closable allowed Hidden).setDialog f hf r hr.hidden
    refine ⟨hhidden, hr.noWindow.imp id fun hnone => ?_⟩
    simp [setDialog, hnone]
  setResult _ _ _ hr := ⟨hr.hidden, hr.noWindow⟩

theorem closable_extends (p : Progress) :
    Closable allowed fun r => Extends allowed p r.progress where
  setDialog _ _ _ hr := hr
  setResult _ hresult _ hr := hr.setResult hresult

theorem keeps_setWindow_sealed : Keeps Sealed setWindow := fun r hr => by
  unfold setWindow
  split_ifs with hmir hwindow
  · exact ⟨hr.hidden, hr.noWindow⟩
  · exact hr
  · have hnone : r.dialog = none := hr.noWindow.resolve_left hmir
    have hdialog : ∀ f, (r.setDialog f).dialog = none := by simp [setDialog, hnone]
    exact ⟨by simp [Hidden, hdialog], .inr (hdialog _)⟩

theorem keeps_setWindow_extends (hforbidden : allowed (errorResult .QUERY_ERROR_FORBIDDEN))
    (p : Progress) : Keeps (fun r => Extends allowed p r.progress) setWindow := fun r hr => by
  unfold setWindow
  split_ifs
  · exact hr.setResult hforbidden
  · exact hr
  · exact hr

end Request

open SignOnUi.Request (Keeps Closable)

section

variable {allowed : QVariantMap → Prop} {P : Request → Prop} (hP : Closable allowed P)
  (herror : ∀ error, allowed (errorResult error))

include hP herror in
theorem BrowserRequest.step_keeps
    (hurl : ∀ text, allowed (QVariantMap.nil.insert SSOUI_KEY_URLRESPONSE (.string text)))
    (hwindow : Keeps P Request.setWindow) {b : BrowserRequest} (hb : P b.toRequest) (e : Event) :
    P (b.step e).toRequest := by
  have hreply : ∀ b : BrowserRequest, allowed b.reply := fun _ => hurl _
  cases e with
  | loadStarted => exact hb
  | loadFinished ok =>
      simp only [step, onLoadFinished]
      split_ifs
      · exact hb
      · exact hwindow _ hb
      · exact hb
      · exact hb
  | urlChanged url =>
      simp only [step, setCurrentUrl]
      split_ifs
      · cases hd : b.dialog with
        | none => exact hb
        | some d =>
            simp only
            split_ifs
            · exact hb
            · exact hP.done (hP.onFinished (hreply _)) _ hb
      · exact hb
  | cookies cookies opens =>
      simp only [step, setCookies]
      split_ifs
      · exact hP.onFinished (hreply _) _ hb
      · exact hP.onFinished (hreply _) _ hb
  | cancel => exact hP.closeView (hreply _) _ (hP.setResult _ (herror _) _ hb)
  | failTimeout =>
      simp only [step]
      split_ifs
      · exact hP.setResult _ (herror _) _ (hP.closeView (hreply _) _ hb)
      · exact hb
  | closed =>
      simp only [step]
      split_ifs
      · exact hP.userCloses (hreply _) _ hb
      · exact hb

include hP herror in
theorem ExternalBrowserRequest.step_keeps
    (hurl : ∀ text, allowed (QVariantMap.nil.insert SSOUI_KEY_URLRESPONSE (.string text)))
    (hdeleted : Keeps P Request.handlerDeleted) {x : ExternalBrowserRequest} (hx : P x.toRequest)
    (e : Event) : P (x.step e).toRequest := by
  cases e with
  | urlVisited url => exact hP.onFinished (hurl _) _ hx
  | cancel => exact hP.closeView (hurl _) _ (hP.setResult _ (herror _) _ hx)
  | handlerDeleted => exact hdeleted _ hx
  | closed =>
      simp only [step]
      split_ifs
      · exact hP.userCloses (hurl _) _ hx
      · exact hx

include hP herror in
theorem DialogRequest.step_keeps (hwindow : Keeps P Request.setWindow) {d : DialogRequest}
    (hreply : allowed d.reply) (hd : P d.toRequest) (e : Event) : P (d.step e).toRequest := by
  cases e with
  | setUserName userName => exact hd
  | setPassword password => exact hd
  | setWindow =>
      simp only [step]
      split_ifs
      · exact hd
      · exact hwindow _ hd
  | accept => exact hP.onFinished hreply _ hd
  | cancel => exact hP.closeView hreply _ (hP.setResult _ (herror _) _ hd)
  | closed =>
      simp only [step]
      split_ifs
      · exact hP.userCloses hreply _ hd
      · exact hd

end

theorem DialogRequest.step_queries (d : DialogRequest) (e : Event) :
    (d.step e).queryUserName = d.queryUserName ∧ (d.step e).queryPassword = d.queryPassword := by
  cases e with
  | setUserName | setPassword | accept | cancel => exact ⟨rfl, rfl⟩
  | setWindow | closed =>
      simp only [step]
      split_ifs
      · exact ⟨rfl, rfl⟩
      · exact ⟨rfl, rfl⟩

/-! ### Requests of any kind -/

/-- What `QUrl` makes of a text, and what `QUrl::fromUserInput` does. -/
structure UrlParser where
  url : String → Url
  fromUserInput : String → Url

inductive SignOnRequest where
  | browser (b : BrowserRequest)
  | externalBrowser (x : ExternalBrowserRequest)
  | dialog (d : DialogRequest)

namespace SignOnRequest

inductive Event where
  | browser (e : BrowserRequest.Event)
  | externalBrowser (e : ExternalBrowserRequest.Event)
  | dialog (e : DialogRequest.Event)
  /-- The handler of the request is deleted. -/
  | handlerDeleted

def toRequest : SignOnRequest → Request
  | browser b => b.toRequest
  | externalBrowser x => x.toRequest
  | dialog d => d.toRequest

/-- The results for which the request has emitted `completed()`. -/
def results (s : SignOnRequest) : List QVariantMap := s.toRequest.progress.results

/-- A window of the request is on the screen. -/
def Shown (s : SignOnRequest) : Prop := s.toRequest.dialog.any (·.visible)

instance (s : SignOnRequest) : Decidable s.Shown := inferInstanceAs (Decidable (_ = true))

/-- `finalUrl.host() == "localhost"`: only then is the user sent to the system browser. -/
def UsesSystemBrowser (urls : UrlParser) (parameters : QVariantMap) : Prop :=
  (urls.fromUserInput (parameters.value SSOUI_KEY_FINALURL).toString).host = "localhost"

instance (urls : UrlParser) (parameters : QVariantMap) :
    Decidable (UsesSystemBrowser urls parameters) := inferInstanceAs (Decidable (_ = _))

/-- `newRequest(id, clientProfile, parameters, parent)`, and `start()`. -/
def newRequest (urls : UrlParser) (mirSocket : String) (hasHandler : Bool)
    (parameters : QVariantMap) : SignOnRequest :=
  if parameters.contains SSOUI_KEY_OPENURL then
    if UsesSystemBrowser urls parameters then
      externalBrowser (ExternalBrowserRequest.start mirSocket hasHandler parameters)
    else
      browser (BrowserRequest.start mirSocket hasHandler
        (urls.url (parameters.value SSOUI_KEY_FINALURL).toString))
  else dialog (DialogRequest.start mirSocket hasHandler parameters)

/-- Every request gets the events of its kind. -/
def step : SignOnRequest → Event → SignOnRequest
  | browser b, .browser e => browser (b.step e)
  | browser b, .handlerDeleted => browser (b.setRequest (·.handlerDeleted))
  | externalBrowser x, .externalBrowser e => externalBrowser (x.step e)
  | externalBrowser x, .handlerDeleted => externalBrowser (x.step .handlerDeleted)
  | dialog d, .dialog e => dialog (d.step e)
  | dialog d, .handlerDeleted => dialog (d.setRequest (·.handlerDeleted))
  | s, _ => s

def run (s : SignOnRequest) (es : List Event) : SignOnRequest := es.foldl step s

/-! ### Whole runs -/

/-- The replies that the request may give are allowed. -/
def MayReply (allowed : QVariantMap → Prop) : SignOnRequest → Prop
  | browser _ | externalBrowser _ =>
      ∀ text, allowed (QVariantMap.nil.insert SSOUI_KEY_URLRESPONSE (.string text))
  | dialog d => allowed d.reply

section

variable {allowed : QVariantMap → Prop} {P : Request → Prop} (hP : Closable allowed P)
  (herror : ∀ error, allowed (errorResult error)) (hwindow : Keeps P Request.setWindow)
  (hdeleted : Keeps P Request.handlerDeleted)

include hP herror hwindow hdeleted in
theorem step_keeps {s : SignOnRequest} (hreply : s.MayReply allowed) (hs : P s.toRequest)
    (e : Event) : P (s.step e).toRequest := by
  cases s with
  | browser b =>
      cases e with
      | browser e => exact BrowserRequest.step_keeps hP herror hreply hwindow hs e
      | handlerDeleted => exact hdeleted _ hs
      | externalBrowser | dialog => exact hs
  | externalBrowser x =>
      cases e with
      | externalBrowser e => exact ExternalBrowserRequest.step_keeps hP herror hreply hdeleted hs e
      | handlerDeleted => exact hdeleted _ hs
      | browser | dialog => exact hs
  | dialog d =>
      cases e with
      | dialog e => exact DialogRequest.step_keeps hP herror hwindow hreply hs e
      | handlerDeleted => exact hdeleted _ hs
      | browser | externalBrowser => exact hs

include hP herror hwindow hdeleted in
/-- What every step keeps, every run keeps, while the replies are allowed. -/
theorem run_keeps {I : SignOnRequest → Prop} (hI : ∀ s, I s → s.MayReply allowed)
    (hstep : ∀ s e, I s → I (s.step e)) (es : List Event) {s : SignOnRequest} (hs : I s)
    (hPs : P s.toRequest) : P (s.run es).toRequest := by
  induction es generalizing s with
  | nil => exact hPs
  | cons e es ih =>
      exact ih (hstep s e hs) (step_keeps hP herror hwindow hdeleted (hI s hs) hPs e)

end

/-! ### Windows -/

theorem mayReply_anything (s : SignOnRequest) : s.MayReply fun _ => True := by
  cases s with
  | browser | externalBrowser => exact fun _ => trivial
  | dialog => trivial

/-- The dialog of a request for the system browser is never on the screen. -/
theorem hidden_externalBrowser (es : List Event) : ∀ {x : ExternalBrowserRequest},
    x.toRequest.Hidden → ((externalBrowser x).run es).toRequest.Hidden := by
  induction es with
  | nil => exact id
  | cons e es ih =>
      intro x hx
      have hclosable : Closable (fun _ => True) Request.Hidden := Request.closable_hidden
      have hstep := ExternalBrowserRequest.step_keeps hclosable (fun _ => trivial)
        (fun _ => trivial) (fun _ h => h) hx
      cases e with
      | externalBrowser e => exact ih (hstep e)
      | handlerDeleted => exact ih (hstep .handlerDeleted)
      | browser | dialog => exact ih hx

theorem not_shown_of_hidden {s : SignOnRequest} (h : s.toRequest.Hidden) : ¬ s.Shown := by
  unfold Shown Request.Hidden at *
  cases hd : s.toRequest.dialog with
  | none => simp
  | some d => simpa [hd] using h

theorem newRequest_sealed (urls : UrlParser) {mirSocket : String} {hasHandler : Bool}
    (parameters : QVariantMap) (h : mirSocket = "" ∨ hasHandler) :
    (newRequest urls mirSocket hasHandler parameters).toRequest.Sealed := by
  have hstart : (Request.start { mirSocket := mirSocket, hasHandler := hasHandler }).Sealed := by
    cases hasHandler with
    | true => exact ⟨rfl, .inr rfl⟩
    | false => exact ⟨rfl, .inl (h.resolve_right Bool.false_ne_true)⟩
  unfold newRequest
  split_ifs
  · exact hstart
  · exact hstart
  · exact hstart

/-- Some run of the request shows a window exactly in a prompt session, without a handler, and when
the system browser is not used. -/
theorem shows_window_iff (urls : UrlParser) (mirSocket : String) (hasHandler : Bool)
    (parameters : QVariantMap) :
    (∃ es, ((newRequest urls mirSocket hasHandler parameters).run es).Shown) ↔
      mirSocket ≠ "" ∧ hasHandler = false ∧
        ¬ (parameters.contains SSOUI_KEY_OPENURL ∧ UsesSystemBrowser urls parameters) := by
  constructor
  · rintro ⟨es, hshown⟩
    by_contra hnot
    by_cases hsealed : mirSocket = "" ∨ hasHandler
    · have hrun := run_keeps Request.closable_sealed (fun _ => trivial)
        Request.keeps_setWindow_sealed (fun _ hr => ⟨hr.hidden, hr.noWindow⟩)
        (I := fun _ => True) (fun s _ => s.mayReply_anything) (fun _ _ h => h) es trivial
        (newRequest_sealed urls parameters hsealed)
      exact not_shown_of_hidden hrun.hidden hshown
    · obtain ⟨hmir, hhandler⟩ := not_or.mp hsealed
      obtain ⟨hopen, hbrowser⟩ : parameters.contains SSOUI_KEY_OPENURL ∧
          UsesSystemBrowser urls parameters := by
        by_contra hother
        exact hnot ⟨hmir, by simpa using hhandler, hother⟩
      rw [newRequest, if_pos hopen, if_pos hbrowser] at hshown
      refine not_shown_of_hidden (hidden_externalBrowser es ?_) hshown
      cases hasHandler <;> rfl
  · rintro ⟨hmir, rfl, hbrowser⟩
    by_cases hopen : parameters.contains SSOUI_KEY_OPENURL
    · have hother : ¬ UsesSystemBrowser urls parameters := fun h => hbrowser ⟨hopen, h⟩
      rw [newRequest, if_pos hopen, if_neg hother]
      refine ⟨[.browser (.loadFinished true)], ?_⟩
      show ((BrowserRequest.start mirSocket false _).step (.loadFinished true)).dialog.any
        (·.visible)
      rw [BrowserRequest.start_eq, BrowserRequest.Session.embed_next hmir rfl]
      rfl
    · rw [newRequest, if_neg hopen]
      refine ⟨[.dialog .setWindow], ?_⟩
      show ((DialogRequest.start mirSocket false parameters).step .setWindow).dialog.any (·.visible)
      rw [DialogRequest.start_eq, DialogRequest.Session.embed_next hmir rfl]
      rfl

/-! ### Results -/

/-- The result is an error, or it has exactly what the parameters ask for. -/
structure Fits (parameters result : QVariantMap) : Prop where
  url : result.contains SSOUI_KEY_URLRESPONSE ↔
    ¬ result.contains SSOUI_KEY_ERROR ∧ parameters.contains SSOUI_KEY_OPENURL
  userName : result.contains SSOUI_KEY_USERNAME ↔
    ¬ result.contains SSOUI_KEY_ERROR ∧ ¬ parameters.contains SSOUI_KEY_OPENURL ∧
      (parameters.value SSOUI_KEY_QUERYUSERNAME).toBool
  password : result.contains SSOUI_KEY_PASSWORD ↔
    ¬ result.contains SSOUI_KEY_ERROR ∧ ¬ parameters.contains SSOUI_KEY_OPENURL ∧
      (parameters.value SSOUI_KEY_QUERYPASSWORD).toBool

section

variable {parameters : QVariantMap}

theorem fits_error (error : QueryError) : Fits parameters (errorResult error) := by
  have herror : (errorResult error).contains SSOUI_KEY_ERROR := by cases error <;> decide
  have hno : ∀ key ∈ [SSOUI_KEY_URLRESPONSE, SSOUI_KEY_USERNAME, SSOUI_KEY_PASSWORD],
      ¬ (errorResult error).contains key := by cases error <;> decide
  refine ⟨iff_of_false (hno _ (by simp)) ?_, iff_of_false (hno _ (by simp)) ?_,
    iff_of_false (hno _ (by simp)) ?_⟩
  · exact fun h => h.1 herror
  · exact fun h => h.1 herror
  · exact fun h => h.1 herror

theorem fits_url (hopen : parameters.contains SSOUI_KEY_OPENURL) (text : String) :
    Fits parameters (QVariantMap.nil.insert SSOUI_KEY_URLRESPONSE (.string text)) := by
  have hkeys : ∀ key, (QVariantMap.nil.insert SSOUI_KEY_URLRESPONSE (.string text)).contains key =
      (SSOUI_KEY_URLRESPONSE == key) := fun key => Bool.or_false _
  refine ⟨?_, ?_, ?_⟩ <;> simp only [hkeys]
  · exact iff_of_true (by decide) ⟨by decide, hopen⟩
  · exact iff_of_false (by decide) fun h => h.2.1 hopen
  · exact iff_of_false (by decide) fun h => h.2.1 hopen

theorem contains_reply (d : DialogRequest) (key : String) :
    d.reply.contains key =
      (d.queryUserName && SSOUI_KEY_USERNAME == key ||
        d.queryPassword && SSOUI_KEY_PASSWORD == key) := by
  unfold DialogRequest.reply
  cases d.queryUserName <;> cases d.queryPassword <;>
    simp [QVariantMap.insert, QVariantMap.contains, SSOUI_KEY_USERNAME, SSOUI_KEY_PASSWORD]

theorem fits_reply (hopen : ¬ parameters.contains SSOUI_KEY_OPENURL) {d : DialogRequest}
    (huser : d.queryUserName = (parameters.value SSOUI_KEY_QUERYUSERNAME).toBool)
    (hpassword : d.queryPassword = (parameters.value SSOUI_KEY_QUERYPASSWORD).toBool) :
    Fits parameters d.reply := by
  have hkeys : (SSOUI_KEY_USERNAME == SSOUI_KEY_PASSWORD) = false ∧
      (SSOUI_KEY_PASSWORD == SSOUI_KEY_USERNAME) = false := by decide
  have hothers : ∀ key ∈ [SSOUI_KEY_ERROR, SSOUI_KEY_URLRESPONSE],
      (SSOUI_KEY_USERNAME == key) = false ∧ (SSOUI_KEY_PASSWORD == key) = false := by decide
  obtain ⟨huserError, hpasswordError⟩ := hothers SSOUI_KEY_ERROR (by simp)
  obtain ⟨huserUrl, hpasswordUrl⟩ := hothers SSOUI_KEY_URLRESPONSE (by simp)
  refine ⟨?_, ?_, ?_⟩
  · simp [contains_reply, *]
  · simp [contains_reply, *]
  · simp [contains_reply, *]

/-- The request is of the kind that the parameters ask for, and asks for what they do. -/
def Asks (parameters : QVariantMap) : SignOnRequest → Prop
  | browser _ | externalBrowser _ => parameters.contains SSOUI_KEY_OPENURL
  | dialog d => ¬ parameters.contains SSOUI_KEY_OPENURL ∧
      d.queryUserName = (parameters.value SSOUI_KEY_QUERYUSERNAME).toBool ∧
      d.queryPassword = (parameters.value SSOUI_KEY_QUERYPASSWORD).toBool

theorem newRequest_asks (urls : UrlParser) (mirSocket : String) (hasHandler : Bool) :
    (newRequest urls mirSocket hasHandler parameters).Asks parameters := by
  unfold newRequest
  split_ifs with hopen
  · exact hopen
  · exact hopen
  · exact ⟨hopen, rfl, rfl⟩

theorem step_asks {s : SignOnRequest} (hs : s.Asks parameters) (e : Event) :
    (s.step e).Asks parameters := by
  cases s with
  | browser | externalBrowser => cases e <;> exact hs
  | dialog d =>
      cases e with
      | dialog e =>
          obtain ⟨huser, hpassword⟩ := d.step_queries e
          exact ⟨hs.1, huser.trans hs.2.1, hpassword.trans hs.2.2⟩
      | browser | externalBrowser | handlerDeleted => exact hs

theorem Asks.mayReply {s : SignOnRequest} (hs : s.Asks parameters) :
    s.MayReply (Fits parameters) := by
  cases s with
  | browser | externalBrowser => exact fits_url hs
  | dialog d => exact fits_reply hs.1 hs.2.1 hs.2.2

theorem run_asks (es : List Event) : ∀ {s : SignOnRequest}, s.Asks parameters →
    (s.run es).Asks parameters := by
  induction es with
  | nil => exact id
  | cons e es ih => exact fun hs => ih (step_asks hs e)

theorem run_extends (es : List Event) {s : SignOnRequest} (hs : s.Asks parameters) :
    Extends (Fits parameters) s.toRequest.progress (s.run es).toRequest.progress :=
  run_keeps (Request.closable_extends s.toRequest.progress) fits_error
    (Request.keeps_setWindow_extends (fits_error _) s.toRequest.progress) (fun _ hr => hr)
    (I := Asks parameters) (fun _ h => h.mayReply) (fun _ e h => step_asks h e) es hs .same

end

theorem run_newRequest (urls : UrlParser) (mirSocket : String) (hasHandler : Bool)
    (parameters : QVariantMap) (es : List Event) :
    let s := (newRequest urls mirSocket hasHandler parameters).run es
    (s.toRequest.progress.inProgress ↔ s.results = []) ∧ s.results.length ≤ 1 ∧
      ∀ result ∈ s.results, Fits parameters result := by
  intro s
  have hstart : (newRequest urls mirSocket hasHandler parameters).toRequest.progress =
      { inProgress := true } := by
    unfold newRequest
    split_ifs
    · rfl
    · rfl
    · rfl
  have hasks : (newRequest urls mirSocket hasHandler parameters).Asks parameters :=
    newRequest_asks urls mirSocket hasHandler
  have hrun := run_extends es hasks
  rw [hstart] at hrun
  exact hrun.of_start

/-- Whatever happens, a request of any kind is in progress until it tells its client a result, and
this result is the only one and is not taken back; it is an error or has exactly what was asked
for. -/
theorem results_fit (urls : UrlParser) (mirSocket : String) (hasHandler : Bool)
    (parameters : QVariantMap) (es : List Event) :
    let s := (newRequest urls mirSocket hasHandler parameters).run es
    (s.toRequest.progress.inProgress ↔ s.results = []) ∧ s.results.length ≤ 1 ∧
      (∀ result ∈ s.results, Fits parameters result) ∧
        ∀ es', s.results <+: (s.run es').results := by
  intro s
  obtain ⟨hprogress, hlength, hfits⟩ := run_newRequest urls mirSocket hasHandler parameters es
  have hasks : s.Asks parameters := run_asks es (newRequest_asks urls mirSocket hasHandler)
  exact ⟨hprogress, hlength, hfits, fun es' => (run_extends es' hasks).results_isPrefix⟩

/-! ### What the server sends -/

/-- The server hands on the result of a request that it has started. -/
theorem setResult_sent {server : UiServer} {i : ℕ} {request : UiRequest}
    (hrequest : server.requests[i]? = some request) (hprogress : request.inProgress = true)
    (hopen : request.answer = none) (herror : request.errorName = "") (result : QVariantMap) :
    (server.setResult i result).sent =
      server.sent ++ [.finished request.id result request.delay request.interface] := by
  have hmodified : (server.setRequest i ({ · with result := result })).requests[i]? =
      some { request with result := result } := by
    simp [UiServer.setRequest, hrequest]
  have hin : server.inProgress i = true := by simp [UiServer.inProgress, hrequest, hprogress]
  unfold UiServer.setResult UiServer.completed
  rw [if_pos hin, hmodified]
  simp [hopen, UiServer.setRequest, UiServer.sendOperation, UiRequest.operation, herror]

/-- The results of a run, each handed to the server when the request completes, are sent to the
service as they are. -/
theorem results_sent (urls : UrlParser) (mirSocket : String) (hasHandler : Bool)
    (parameters : QVariantMap) (es : List Event) {server : UiServer} {i : ℕ} {request : UiRequest}
    (hrequest : server.requests[i]? = some request) (hprogress : request.inProgress = true)
    (hopen : request.answer = none) (herror : request.errorName = "") :
    let results := ((newRequest urls mirSocket hasHandler parameters).run es).results
    (results.foldl (fun server result => server.setResult i result) server).sent =
      server.sent ++ results.map fun result =>
        .finished request.id result request.delay request.interface := by
  intro results
  have hlength : results.length ≤ 1 := (run_newRequest urls mirSocket hasHandler parameters es).2.1
  match hresults : results, hlength with
  | [], _ => simp
  | [result], _ => exact setResult_sent hrequest hprogress hopen herror result

end SignOnRequest

end OnlineAccounts.SignOnUi
