import OnlineAccounts.BrowserRequest
import Mathlib.Data.List.DropRight

/-! # When the final URL has been reached

A `BrowserRequest` is at its final URL when host and path are those of the final one.  The paths are
compared after a regular expression has been removed from both, which is meant to take off the
slashes at their ends.  It is `/*^`: the anchor at its end is that of the start, and nothing is
removed.  A visited path that differs from the final one in these slashes only is not recognised,
and that is the one way in which the comparison is wrong (`responseUrl_iff`). -/

namespace OnlineAccounts.SignOnUi.BrowserRequest

/-- Behind a slash no place is the start of the path, so no slash is removed. -/
theorem remove_pathRegExp (path : String) : pathRegExp.remove path = path :=
  RegExp.remove_seq_bol _ path

/-- The path without the slashes at its end. -/
def withoutSlashes (path : String) : List Char := path.toList.rdropWhile (· == '/')

/-- What a visit to `url` should leave as the response URL. -/
def expectedResponse (b : BrowserRequest) (url : Url) : Url :=
  if withoutSlashes url.path = withoutSlashes b.finalUrl.path then url else b.responseUrl

/-- The paths are the same, or they differ in more than the slashes at their ends. -/
def SlashesAgree (finalUrl url : Url) : Prop :=
  url.path = finalUrl.path ∨ withoutSlashes url.path ≠ withoutSlashes finalUrl.path

theorem setCurrentUrl_eq (url : Url) (b : BrowserRequest) :
    ∃ r : Request, b.setCurrentUrl url = { b with
      toRequest := r, currentUrl := url,
      responseUrl := if reaches b.finalUrl url then url else b.responseUrl } := by
  by_cases hr : reaches b.finalUrl url = true
  · simp only [setCurrentUrl, hr, if_true]
    cases hd : b.dialog with
    | none => exact ⟨b.toRequest, rfl⟩
    | some dialog =>
        dsimp only
        split
        · exact ⟨b.toRequest, rfl⟩
        · exact ⟨_, rfl⟩
  · simp only [setCurrentUrl, hr]
    exact ⟨b.toRequest, rfl⟩

theorem responseUrl_setCurrentUrl (url : Url) (b : BrowserRequest) :
    (b.setCurrentUrl url).responseUrl = if reaches b.finalUrl url then url else b.responseUrl := by
  obtain ⟨r, hr⟩ := setCurrentUrl_eq url b
  rw [hr]

theorem finalUrl_setCurrentUrl (url : Url) (b : BrowserRequest) :
    (b.setCurrentUrl url).finalUrl = b.finalUrl := by
  obtain ⟨r, hr⟩ := setCurrentUrl_eq url b
  rw [hr]

theorem reaches_iff {finalUrl url : Url} (hhost : url.host = finalUrl.host) :
    reaches finalUrl url = true ↔ url.path = finalUrl.path := by
  simp [reaches, hhost, pathsAreEqual, remove_pathRegExp]

/-- With the host of the final URL, a visit is recorded as it should be, whatever the state of the
request, exactly when the paths do not differ in the slashes at their ends only. -/
theorem responseUrl_iff {finalUrl url : Url} (hhost : url.host = finalUrl.host) :
    (∀ b : BrowserRequest, b.finalUrl = finalUrl →
      (b.setCurrentUrl url).responseUrl = b.expectedResponse url) ↔ SlashesAgree finalUrl url := by
  constructor
  · intro h
    by_contra hn
    obtain ⟨hne, heq⟩ : url.path ≠ finalUrl.path ∧
        withoutSlashes url.path = withoutSlashes finalUrl.path := by
      simpa [SlashesAgree, not_or] using hn
    -- a request that has been at its final URL already, which is another one
    let b := (start "" false finalUrl).setCurrentUrl finalUrl
    have hfinal : b.finalUrl = finalUrl := finalUrl_setCurrentUrl _ _
    have hreach : reaches (start "" false finalUrl).finalUrl finalUrl = true :=
      (reaches_iff rfl).2 rfl
    have hresponse : b.responseUrl = finalUrl := by
      rw [responseUrl_setCurrentUrl, if_pos hreach]
    have hb := h b hfinal
    rw [responseUrl_setCurrentUrl, expectedResponse, hfinal, if_pos heq,
      if_neg (mt (reaches_iff hhost).1 hne), hresponse] at hb
    exact hne (congrArg Url.path hb.symm)
  · intro h b hb
    subst hb
    rw [responseUrl_setCurrentUrl, expectedResponse]
    by_cases hp : url.path = b.finalUrl.path
    · rw [if_pos ((reaches_iff hhost).2 hp), if_pos (by rw [hp])]
    · rw [if_neg (mt (reaches_iff hhost).1 hp), if_neg (h.resolve_left hp)]

/-- The callback with a slash at its end. -/
def callbackSlash : Url :=
  { host := "example.com", path := "/callback/", text := "https://example.com/callback/",
    isEmpty := false }

theorem responseUrl_iff_callback :
    callbackSlash.host = callback.host ∧
    ((∀ b : BrowserRequest, b.finalUrl = callback →
      (b.setCurrentUrl callbackSlash).responseUrl = b.expectedResponse callbackSlash) ↔
        SlashesAgree callback callbackSlash) :=
  ⟨rfl, responseUrl_iff rfl⟩

/-- The other spelling of the callback is not recognised. -/
theorem callbackSlash_not_recorded :
    callbackSlash.host = callback.host ∧
    withoutSlashes callbackSlash.path = withoutSlashes callback.path ∧
    ((start "/tmp/mir" false callback).setCurrentUrl callbackSlash).responseUrl ≠
      callbackSlash := by
  decide

end OnlineAccounts.SignOnUi.BrowserRequest
