import OnlineAccounts.Variant

/-! # Requests with a dialog

A `SignOnUi::Request` (`online-accounts-ui/signonui-request.cpp`) that no handler of an account
plugin takes is shown in a `Dialog` (`dialog.cpp`), a window that signals `finished` when it is
accepted, rejected or closed.  The request connects the signal to its slot `onFinished`, which
replies and closes the dialog; closing the dialog signals `finished` once more.  The recursion ends
because the slot disconnects the signal first.

`closeViewWith` is `closeView()` for a slot; the slot of a slot that has been disconnected does not
run, so it does not matter which one it is (`onFinished_eq`).  What the calls mean for the
client is in `Progress`, and `closeView_progress` and `onFinished_progress` say all that they do to
it. -/

namespace OnlineAccounts

/-- What a request of the UI process has told its client. -/
structure Progress where
  inProgress : Bool := false
  /-- The results for which `completed()` was emitted, in order. -/
  results : List QVariantMap := []
deriving DecidableEq

namespace Progress

def start (p : Progress) : Progress := { p with inProgress := true }

/-- `Request::setResult(result)`. -/
def setResult (result : QVariantMap) (p : Progress) : Progress :=
  if p.inProgress then { inProgress := false, results := p.results ++ [result] } else p

theorem setResult_of_not_inProgress {result : QVariantMap} {p : Progress}
    (h : p.inProgress = false) : p.setResult result = p := by
  simp [setResult, h]

end Progress

namespace SignOnUi

def SSOUI_KEY_ERROR : String := "QueryErrorCode"
def SSOUI_KEY_URLRESPONSE : String := "UrlResponse"
def SSOUI_KEY_USERNAME : String := "UserName"
def SSOUI_KEY_PASSWORD : String := "Secret"
def SSOUI_KEY_QUERYUSERNAME : String := "QueryUserName"
def SSOUI_KEY_QUERYPASSWORD : String := "QueryPassword"

/-- The errors of `SignOn::QueryError` that the requests reply with. -/
inductive QueryError where
  | QUERY_ERROR_CANCELED
  | QUERY_ERROR_FORBIDDEN
  | QUERY_ERROR_NETWORK
deriving DecidableEq

/-- The value of the constant in the header. -/
def QueryError.toInt : QueryError → ℤ
  | QUERY_ERROR_CANCELED => 4
  | QUERY_ERROR_FORBIDDEN => 10
  | QUERY_ERROR_NETWORK => 12

/-- `result[SSOUI_KEY_ERROR] = error`. -/
def errorResult (error : QueryError) : QVariantMap :=
  QVariantMap.nil.insert SSOUI_KEY_ERROR (.int error.toInt)

structure Dialog where
  visible : Bool := false
  /-- There is a platform window: the dialog has been shown, and not been closed since. -/
  created : Bool := false
  /-- `finished` is connected to the slot of the request. -/
  connected : Bool := false
deriving DecidableEq

/-- Where the page of a request is: with a handler, or in a dialog. -/
inductive View where
  | handler
  | hidden
  | shown
deriving DecidableEq

/-- Where it is when the request starts. -/
def View.start (hasHandler : Bool) : View := if hasHandler then .handler else .hidden

structure Request where
  /-- `qgetenv("MIR_SOCKET")`. -/
  mirSocket : String
  /-- A handler was found when the request arrived. -/
  hasHandler : Bool
  /-- `m_dialog`. -/
  dialog : Option Dialog := none
  /-- `m_window` is set. -/
  window : Bool := false
  progress : Progress := {}
deriving DecidableEq

namespace Request

def setResult (result : QVariantMap) (r : Request) : Request :=
  { r with progress := r.progress.setResult result }

def setCanceled (r : Request) : Request := r.setResult (errorResult .QUERY_ERROR_CANCELED)

def setDialog (f : Dialog → Dialog) (r : Request) : Request := { r with dialog := r.dialog.map f }

/-- `setWindow(m_dialog)`: the dialog is shown only in a prompt session. -/
def setWindow (r : Request) : Request :=
  if r.mirSocket = "" then r.setResult (errorResult .QUERY_ERROR_FORBIDDEN)
  else if r.window then r
  else { r.setDialog ({ · with visible := true, created := true }) with window := true }

/-- What `start()` does first: without a handler a dialog is built and connected. -/
def start (r : Request) : Request :=
  { r with
    progress := r.progress.start
    dialog := if r.hasHandler then none else some { connected := true } }

/-! ### Closing -/

/-- The signal `finished`. -/
def finished (slot : Request → Request) (r : Request) : Request :=
  if r.dialog.any (·.connected) then slot r else r

/-- `Dialog::done(result)`, for `accept()` and `reject()`: the slot ignores the result. -/
def done (slot : Request → Request) (r : Request) : Request :=
  (r.setDialog ({ · with visible := false })).finished slot

/-- `Dialog::event(e)` for a close event: rejected, and then the window is destroyed. -/
def closeEvent (slot : Request → Request) (r : Request) : Request :=
  (r.done slot).setDialog ({ · with visible := false, created := false })

/-- `QWindow::close()`: only a dialog with a platform window gets a close event. -/
def close (slot : Request → Request) (r : Request) : Request :=
  if r.dialog.any (·.created) then r.closeEvent slot else r

/-- `closeView()`, while `finished` is connected to `slot`; with a handler, it is the handler that
is told. -/
def closeViewWith (slot : Request → Request) (r : Request) : Request :=
  if r.hasHandler then r else r.close slot

/-- `QObject::disconnect(m_dialog, SIGNAL(finished(int)), this, SLOT(onFinished()))`. -/
def disconnect (r : Request) : Request := r.setDialog ({ · with connected := false })

/-- `onFinished()`, for the reply that the request has at this moment. -/
def onFinished (reply : QVariantMap) (r : Request) : Request :=
  (r.disconnect.closeViewWith id).setResult reply

def closeView (reply : QVariantMap) (r : Request) : Request := r.closeViewWith (onFinished reply)

/-- The slot is never called while it is disconnected. -/
theorem closeViewWith_congr {r : Request} (h : r.dialog.any (·.connected) = false)
    (slot slot' : Request → Request) : r.closeViewWith slot = r.closeViewWith slot' := by
  have hdone : r.done slot = r.done slot' := by
    unfold done finished
    have hoff : (r.setDialog ({ · with visible := false })).dialog.any (·.connected) = false := by
      cases hd : r.dialog <;> simp_all [setDialog]
    rw [hoff]
    rfl
  unfold closeViewWith close closeEvent
  rw [hdone]

/-- The slot closes the view with the slot itself disconnected. -/
theorem onFinished_eq (reply : QVariantMap) (r : Request) :
    r.onFinished reply = (r.disconnect.closeView reply).setResult reply := by
  have hoff : r.disconnect.dialog.any (·.connected) = false := by
    cases hd : r.dialog <;> simp [disconnect, setDialog, hd]
  rw [closeView, closeViewWith_congr hoff _ id]
  rfl

/-! ### What closing does to the progress -/

/-- Closing the view runs the slot. -/
def Reports (r : Request) : Bool :=
  !r.hasHandler && r.dialog.any fun d => d.created && d.connected

@[simp] theorem setDialog_progress (f : Dialog → Dialog) (r : Request) :
    (r.setDialog f).progress = r.progress := rfl

theorem done_progress {slot : Request → Request} {f : Progress → Progress}
    (hslot : ∀ r, (slot r).progress = f r.progress) (r : Request) :
    (r.done slot).progress = if r.dialog.any (·.connected) then f r.progress else r.progress := by
  unfold done finished
  have hon : (r.setDialog ({ · with visible := false })).dialog.any (·.connected) =
      r.dialog.any (·.connected) := by
    cases hd : r.dialog <;> simp [setDialog, hd]
  rw [hon]
  split_ifs
  · exact hslot _
  · rfl

theorem closeViewWith_progress (slot : Request → Request) {f : Progress → Progress}
    (hslot : ∀ r, (slot r).progress = f r.progress) (r : Request) :
    (r.closeViewWith slot).progress = if r.Reports then f r.progress else r.progress := by
  unfold closeViewWith close closeEvent Reports
  cases hh : r.hasHandler with
  | true => simp
  | false =>
      cases hd : r.dialog with
      | none => simp
      | some d =>
          cases hc : d.created with
          | false => simp [hc]
          | true =>
              have hdone := done_progress hslot r
              simpa [hd, hc] using hdone

/-- The slot replies, wherever it is called. -/
@[simp] theorem onFinished_progress (reply : QVariantMap) (r : Request) :
    (r.onFinished reply).progress = r.progress.setResult reply := by
  have hquiet : (r.disconnect.closeViewWith id).progress = r.progress := by
    rw [closeViewWith_progress id (f := id) fun _ => rfl]
    exact ite_self _
  unfold onFinished setResult
  rw [hquiet]

theorem closeView_progress (reply : QVariantMap) (r : Request) :
    (r.closeView reply).progress =
      if r.Reports then r.progress.setResult reply else r.progress :=
  closeViewWith_progress (onFinished reply) (onFinished_progress reply) r

/-! ### After completion -/

/-- A call that adds nothing to the results of a request that has completed. -/
def Silent (f : Request → Request) : Prop :=
  ∀ r, r.progress.inProgress = false → (f r).progress = r.progress

theorem Silent.comp {f g : Request → Request} (hf : Silent f) (hg : Silent g) :
    Silent (f ∘ g) := fun r h => by
  have hmid := hg r h
  exact (hf (g r) (hmid.symm ▸ h)).trans hmid

theorem silent_setResult (result : QVariantMap) : Silent (setResult result) := fun r h => by
  unfold setResult
  rw [Progress.setResult_of_not_inProgress h]

theorem silent_onFinished (reply : QVariantMap) : Silent (onFinished reply) := fun r h => by
  rw [onFinished_progress, Progress.setResult_of_not_inProgress h]

theorem silent_done (reply : QVariantMap) : Silent (done (onFinished reply)) := fun r h => by
  rw [done_progress (onFinished_progress reply), Progress.setResult_of_not_inProgress h]
  exact ite_self _

theorem silent_closeEvent (reply : QVariantMap) : Silent (closeEvent (onFinished reply)) :=
  silent_done reply

theorem silent_closeView (reply : QVariantMap) : Silent (closeView reply) := fun r h => by
  rw [closeView_progress, Progress.setResult_of_not_inProgress h]
  exact ite_self _

theorem silent_cancel (reply : QVariantMap) : Silent (closeView reply ∘ setCanceled) :=
  (silent_closeView reply).comp (silent_setResult _)

theorem silent_setWindow : Silent setWindow := fun r h => by
  unfold setWindow
  split_ifs
  · exact silent_setResult _ r h
  · rfl
  · rfl

/-! ### Where the page is -/

/-- The request has been started, and nothing has decided it. -/
def inView (mirSocket : String) (view : View) : Request :=
  { mirSocket := mirSocket
    hasHandler := view = .handler
    dialog := match view with
      | .handler => none
      | .hidden => some { connected := true }
      | .shown => some { visible := true, created := true, connected := true }
    window := view = .shown
    progress := { inProgress := true } }

variable {mirSocket : String} {view : View}

@[simp] theorem dialog_inView_handler : (inView mirSocket .handler).dialog = none := rfl

@[simp] theorem dialog_inView_hidden :
    (inView mirSocket .hidden).dialog = some { connected := true } := rfl

@[simp] theorem dialog_inView_shown :
    (inView mirSocket .shown).dialog =
      some { visible := true, created := true, connected := true } := rfl

theorem start_eq_inView (mirSocket : String) (hasHandler : Bool) :
    start { mirSocket := mirSocket, hasHandler := hasHandler } =
      inView mirSocket (.start hasHandler) := by
  cases hasHandler <;> rfl

theorem setWindow_inView (hmir : mirSocket ≠ "") :
    (inView mirSocket .hidden).setWindow = inView mirSocket .shown := by
  simp [setWindow, inView, setDialog, hmir]

theorem setWindow_shown (hmir : mirSocket ≠ "") :
    (inView mirSocket .shown).setWindow = inView mirSocket .shown := by
  simp [setWindow, inView, hmir]

theorem onFinished_inView (reply : QVariantMap) :
    ((inView mirSocket view).onFinished reply).progress = { results := [reply] } :=
  onFinished_progress reply _

/-- Closing the view of an undecided request replies, if the dialog is shown. -/
theorem closeView_inView (reply : QVariantMap) :
    ((inView mirSocket view).closeView reply).progress =
      if view = .shown then { results := [reply] } else { inProgress := true } := by
  rw [closeView_progress]
  cases view <;> rfl

/-- The user closes the dialog, and the slot replies. -/
theorem closeEvent_inView (reply : QVariantMap) :
    ((inView mirSocket .shown).closeEvent (onFinished reply)).progress =
      { results := [reply] } :=
  done_progress (onFinished_progress reply) _

theorem cancel_inView (reply : QVariantMap) :
    ((inView mirSocket view).setCanceled.closeView reply).progress =
      { results := [errorResult .QUERY_ERROR_CANCELED] } :=
  silent_closeView _ _ rfl

end Request

end SignOnUi

end OnlineAccounts
