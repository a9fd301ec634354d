import OnlineAccounts.ProviderRequest
import OnlineAccounts.SignOnUiRequest
import OnlineAccounts.FirstDecision

/-! # The outcome of a provider request

A `ProviderRequest` that has not failed loads a page (`provider-request.cpp`), which may call
`allow` and `deny` while it is being loaded; if it has not, its window is shown, and then the page
may call them and the user may close the window.

`deny` closes a window that is visible and leaves the reply to `onWindowVisibleChanged`.  This slot
runs when the window is shown, too, and disconnects itself each time.  So once the window is shown,
neither `deny` nor closing the window completes the request (`completes_iff`). -/

namespace OnlineAccounts

open FirstDecision

def OAU_KEY_ACCOUNT_ID : String := "accountId"

namespace ProviderRequest

/-- A request that has been started. -/
structure Running where
  started : Started
  /-- `m_view->isVisible()`. -/
  visible : Bool := false
  /-- There is a platform window: the view has been shown, and not been closed since. -/
  created : Bool := false
  /-- `visibleChanged` is connected to `onWindowVisibleChanged`. -/
  connected : Bool := true
  /-- `m_window` is set. -/
  window : Bool := false
  delay : ℕ := 0
  progress : Progress := Progress.start {}

inductive Event where
  | allow (accountId : ℤ)
  | deny
  /-- The page has been loaded, and `start()` goes on. -/
  | sourceLoaded
  /-- The user closes the window. -/
  | closed
deriving DecidableEq

namespace Running

def setResult (result : QVariantMap) (r : Running) : Running :=
  { r with progress := r.progress.setResult result }

def onWindowVisibleChanged (visible : Bool) (r : Running) : Running :=
  let r := { r with connected := false }
  if visible then r else r.setResult .nil

/-- The signal `visibleChanged`. -/
def visibleChanged (visible : Bool) (r : Running) : Running :=
  if r.connected then r.onWindowVisibleChanged visible else r

/-- `QWindow::setVisible(visible)`: a change is signalled. -/
def setVisible (visible : Bool) (r : Running) : Running :=
  if r.visible = visible then r else { r with visible := visible }.visibleChanged visible

def showWindow (r : Running) : Running := { r with created := true }.setVisible true

/-- `QWindow::close()`: a platform window is hidden and destroyed. -/
def close (r : Running) : Running :=
  if r.created then { r.setVisible false with created := false } else r

/-- `RequestPrivate::setWindow(window)`. -/
def setWindow (r : Running) : Running :=
  if r.window then r else { r with window := true }.showWindow

def deny (r : Running) : Running := if r.visible then r.close else r.setResult .nil

def allow (accountId : ℤ) (r : Running) : Running :=
  let r := if r.visible ∧ r.started.applicationInfo.id ≠ "system-settings" then
    { r with delay := 3000 } else r
  r.setResult (QVariantMap.nil.insert OAU_KEY_ACCOUNT_ID (.uint (accountId % 2 ^ 32).toNat))

/-- Only a window that is visible can be closed. -/
def step (r : Running) : Event → Running
  | .allow accountId => r.allow accountId
  | .deny => r.deny
  | .sourceLoaded => if r.progress.inProgress then r.setWindow else r
  | .closed => if r.visible then r.close else r

end Running

/-! ### What decides the result -/

inductive Outcome where
  | allowed (accountId : ℤ)
  | denied
  | closed
deriving DecidableEq

def Outcome.result : Outcome → QVariantMap
  | allowed accountId =>
      QVariantMap.nil.insert OAU_KEY_ACCOUNT_ID (.uint (accountId % 2 ^ 32).toNat)
  | denied | closed => .nil

/-- The first deciding event counts; the state says whether the window has been shown. -/
def contest : Contest Bool Event Outcome where
  decides shown
    | .allow accountId => some (.allowed accountId)
    | .deny => some .denied
    | .closed => if shown then some .closed else none
    | .sourceLoaded => none
  next shown
    | .sourceLoaded => true
    | _ => shown

/-- The access is refused after the window has been shown. -/
def RefusedWhenShown (shown : Bool) (e : Event) : Prop := shown ∧ (e = .deny ∨ e = .closed)

instance (shown : Bool) (e : Event) : Decidable (RefusedWhenShown shown e) :=
  inferInstanceAs (Decidable (_ ∧ _))

namespace Running

/-- The request before it is decided. -/
def undecided (started : Started) (shown : Bool) : Running :=
  { started := started
    visible := shown
    created := shown
    connected := !shown
    window := shown }

/-! ### The request implements the contest -/

theorem setVisible_of_completed (visible : Bool) {r : Running}
    (h : r.progress.inProgress = false) : (r.setVisible visible).progress = r.progress := by
  unfold setVisible visibleChanged
  split_ifs
  · rfl
  · cases visible with
    | true => rfl
    | false => exact Progress.setResult_of_not_inProgress h
  · rfl

theorem close_of_completed {r : Running} (h : r.progress.inProgress = false) :
    r.close.progress = r.progress := by
  unfold close
  split_ifs
  · exact setVisible_of_completed false h
  · rfl

theorem step_of_completed {r : Running} (h : r.progress.inProgress = false) (e : Event) :
    (r.step e).progress = r.progress := by
  cases e with
  | allow accountId =>
      simp only [step, allow]
      split_ifs
      · exact Progress.setResult_of_not_inProgress h
      · exact Progress.setResult_of_not_inProgress h
  | deny =>
      simp only [step, deny]
      split_ifs
      · exact close_of_completed h
      · exact Progress.setResult_of_not_inProgress h
  | sourceLoaded =>
      simp only [step]
      rw [if_neg (by simp [h])]
  | closed =>
      simp only [step]
      split_ifs
      · exact close_of_completed h
      · rfl

/-! ### What a request can reply -/

theorem results_setResult {r : Running} {result result' : QVariantMap}
    (h : result' ∈ (r.setResult result).progress.results) :
    result' ∈ r.progress.results ∨ result' = result := by
  unfold setResult Progress.setResult at h
  dsimp only at h
  split_ifs at h
  · simpa using h
  · exact .inl h

theorem results_setVisible {r : Running} {visible : Bool} {result : QVariantMap}
    (h : result ∈ (r.setVisible visible).progress.results) :
    result ∈ r.progress.results ∨ result = .nil := by
  unfold setVisible visibleChanged onWindowVisibleChanged at h
  dsimp only at h
  split_ifs at h
  · exact .inl h
  · exact .inl h
  · exact results_setResult h
  · exact .inl h

theorem results_close {r : Running} {result : QVariantMap}
    (h : result ∈ r.close.progress.results) :
    result ∈ r.progress.results ∨ result = .nil := by
  unfold close at h
  split_ifs at h
  · exact results_setVisible (r := r) h
  · exact .inl h

theorem results_deny {r : Running} {result : QVariantMap}
    (h : result ∈ r.deny.progress.results) : result ∈ r.progress.results ∨ result = .nil := by
  unfold deny at h
  split_ifs at h
  · exact results_close h
  · exact results_setResult h

theorem results_allow {r : Running} {accountId : ℤ} {result : QVariantMap}
    (h : result ∈ (r.allow accountId).progress.results) :
    result ∈ r.progress.results ∨ result = (Outcome.allowed accountId).result := by
  unfold allow at h
  split_ifs at h <;> exact results_setResult h

theorem results_allow_of_inProgress {r : Running} {accountId : ℤ}
    (h : r.progress.inProgress = true) :
    (r.allow accountId).progress.results =
      r.progress.results ++ [(Outcome.allowed accountId).result] := by
  unfold allow
  split_ifs <;> simp [setResult, Progress.setResult, h, Outcome.result]

theorem results_window {r : Running} {e : Event} (he : e = .sourceLoaded ∨ e = .closed)
    {result : QVariantMap} (h : result ∈ (r.step e).progress.results) :
    result ∈ r.progress.results ∨ result = .nil := by
  rcases he with rfl | rfl
  · simp only [step, setWindow, showWindow] at h
    split_ifs at h
    · exact .inl h
    · exact results_setVisible (r := { r with window := true, created := true }) h
    · exact .inl h
  · simp only [step] at h
    split_ifs at h
    · exact results_close h
    · exact .inl h

end Running

open Running

/-- Of what decides a provider request, only a refusal of the shown window is not told. -/
theorem implements (started : Started) :
    Implements contest step (·.progress.results) (undecided started) Outcome.result
      RefusedWhenShown (·.progress.inProgress = false) where
  undecided _ := rfl
  next shown e h := by
    cases e with
    | allow accountId => cases h
    | deny => cases h
    | sourceLoaded => cases shown <;> rfl
    | closed =>
        cases shown with
        | true => cases h
        | false => rfl
  decided shown e o h hrefused := by
    cases e with
    | allow accountId =>
        obtain rfl := Option.some.inj h
        simp only [step, allow]
        split_ifs <;> exact ⟨rfl, rfl⟩
    | deny =>
        obtain rfl := Option.some.inj h
        cases shown with
        | true => exact absurd ⟨rfl, .inl rfl⟩ hrefused
        | false => exact ⟨rfl, rfl⟩
    | sourceLoaded => cases h
    | closed =>
        cases shown with
        | true => exact absurd ⟨rfl, .inr rfl⟩ hrefused
        | false => cases h
  spoilt shown e o h hrefused := by
    -- the slot is disconnected since the window was shown, so that there is no result at all
    obtain ⟨rfl, rfl | rfl⟩ := hrefused
    · exact (List.cons_ne_nil _ _).symm
    · exact (List.cons_ne_nil _ _).symm
  closed_step r e h := by
    rw [step_of_completed h e]
    exact ⟨h, rfl⟩

/-- The first deciding event completes a provider request with its result, and nothing else does,
at every moment of every run, if and only if it is not a refusal after the window has been shown. -/
theorem completes_iff (started : Started) (es : List Event) :
    (∀ es', es' <+: es →
      (es'.foldl step { started := started }).progress.results =
        ((contest.outcome false es').map Outcome.result).toList) ↔
      ¬ contest.DecidedBy RefusedWhenShown false es :=
  (implements started).results_iff false es

/-- The window is shown, and the user denies the access.  The client gets no reply. -/
theorem denied_is_not_told :
    let started : Started :=
      { applicationInfo := { id := "mailer", profile := "unconfined" }
        providerId := "cool"
        providerInfo := none }
    let es : List Event := [.sourceLoaded, .deny]
    contest.outcome false es = some .denied ∧
      (es.foldl step { started := started }).progress = { inProgress := true } ∧
      (es.foldl step { started := started }).progress.results ≠ [Outcome.denied.result] := by
  decide

end ProviderRequest

end OnlineAccounts
