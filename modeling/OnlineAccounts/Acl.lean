import OnlineAccounts.ProviderRequest

/-! # Access control lists

The switches of the settings page add an application to the access control list of an account's
credentials and remove it again (`addApplicationToAcl` and `removeApplicationFromAcl` of
`application-manager.cpp`).  The entries of the list are the AppArmor profiles
`package_app_version` of applications, and an application may have entries of several versions.

`removeApplicationFromAcl` removes every entry that starts with the profile without its version,
and `package_app` is also the start of the entries of `package_apple`.  The switches are
independent of each other exactly as long as no application is removed while there is such an
entry (`toggles_independent_iff`). -/

namespace OnlineAccounts

namespace ApplicationManager

open Accounts

/-- `stripVersion` of `application-manager.cpp`: empty unless there are three components. -/
def stripVersion (appId : String) : String :=
  let components := split '_' appId
  if components.length ≠ 3 then "" else join '_' components.dropLast

/-- `QString::startsWith`. -/
def startsWith (s start : String) : Bool := start.toList.isPrefixOf s.toList

variable (manager : Manager)

def addApplicationToAcl (acl : List String) (applicationId : String) : List String :=
  let profile := applicationProfile manager applicationId
  if profile = "" then acl else acl ++ [profile]

def removeApplicationFromAcl (acl : List String) (applicationId : String) : List String :=
  let profile := applicationProfile manager applicationId
  if profile = "" then acl
  else
    let unversionedProfile := stripVersion profile
    acl.filter fun app =>
      app ≠ profile ∧ (unversionedProfile = "" ∨ !startsWith app unversionedProfile)

/-- A switch is turned. -/
inductive Toggle where
  | add (applicationId : String)
  | remove (applicationId : String)

def Toggle.applicationId : Toggle → String
  | .add applicationId | .remove applicationId => applicationId

def toggle (acl : List String) : Toggle → List String
  | .add applicationId => addApplicationToAcl manager acl applicationId
  | .remove applicationId => removeApplicationFromAcl manager acl applicationId

def toggles (acl : List String) (ts : List Toggle) : List String := ts.foldl (toggle manager) acl

/-! ### The entries of an application -/

/-- The application has the profile of a click package. -/
def IsClick (applicationId : String) : Prop :=
  (split '_' (applicationProfile manager applicationId)).length = 3

instance (applicationId : String) : Decidable (IsClick manager applicationId) :=
  inferInstanceAs (Decidable (_ = _))

/-- All but the version of the entry is as in the profile of the application. -/
def IsEntryOf (applicationId entry : String) : Prop :=
  OnlineAccounts.stripVersion entry =
    OnlineAccounts.stripVersion (applicationProfile manager applicationId)

instance (applicationId entry : String) : Decidable (IsEntryOf manager applicationId entry) :=
  inferInstanceAs (Decidable (_ = _))

def HasEntry (acl : List String) (applicationId : String) : Prop :=
  ∃ entry ∈ acl, IsEntryOf manager applicationId entry

/-- The entries that do not belong to the application, in order. -/
def others (acl : List String) (applicationId : String) : List String :=
  acl.filter fun entry => ¬ IsEntryOf manager applicationId entry

/-- If the call removes an application, then all entries that start with its profile without the
version are its own. -/
def Harmless (acl : List String) : Toggle → Prop
  | .add _ => True
  | .remove applicationId => ∀ entry ∈ acl,
      startsWith entry (stripVersion (applicationProfile manager applicationId)) →
        IsEntryOf manager applicationId entry

instance (acl : List String) : ∀ t : Toggle, Decidable (Harmless manager acl t)
  | .add _ => .isTrue trivial
  | .remove applicationId => inferInstanceAs (Decidable (∀ entry ∈ acl,
      startsWith entry (stripVersion (applicationProfile manager applicationId)) →
        IsEntryOf manager applicationId entry))

/-- The switches do not interfere: a call keeps the entries that belong to other applications, in
order, and whether there is an entry of an application depends only on the calls for it. -/
structure Independent (apps : Set String) (acl : List String) (ts : List Toggle) : Prop where
  kept : ∀ before t after, ts = before ++ t :: after →
    others manager (toggle manager (toggles manager acl before) t) t.applicationId =
      others manager (toggles manager acl before) t.applicationId
  own : ∀ a ∈ apps, HasEntry manager (toggles manager acl ts) a ↔
    HasEntry manager (toggles manager acl (ts.filter (·.applicationId = a))) a

variable {manager} {a b : String} {acl : List String}

theorem IsClick.ne_empty (h : IsClick manager a) : applicationProfile manager a ≠ "" := by
  intro hempty
  rw [IsClick, hempty] at h
  revert h
  decide

/-- The two functions that strip the version agree on the profiles of click packages. -/
theorem IsClick.stripVersion (h : IsClick manager a) :
    stripVersion (applicationProfile manager a) =
      OnlineAccounts.stripVersion (applicationProfile manager a) := by
  unfold IsClick at h
  unfold ApplicationManager.stripVersion OnlineAccounts.stripVersion
  simp only [h, ne_eq, not_true_eq_false, if_false]

theorem IsClick.unversioned_ne_empty (h : IsClick manager a) :
    ApplicationManager.stripVersion (applicationProfile manager a) ≠ "" := by
  obtain ⟨package, app, version, hsplit⟩ := List.length_eq_three.mp h
  unfold ApplicationManager.stripVersion
  rw [if_neg (by simp [hsplit]), hsplit]
  intro hempty
  have hlist := congrArg String.toList hempty
  simp [join, List.intercalate] at hlist

theorem startsWith_iff {s start : String} : startsWith s start = true ↔ start.toList <+: s.toList :=
  List.isPrefixOf_iff_prefix

theorem IsEntryOf.startsWith {entry : String} (h : IsEntryOf manager a entry)
    (ha : IsClick manager a) :
    startsWith entry (ApplicationManager.stripVersion (applicationProfile manager a)) = true := by
  rw [startsWith_iff, ha.stripVersion, ← h]
  exact stripVersion_prefix entry

theorem removeApplicationFromAcl_eq (ha : IsClick manager a) (acl : List String) :
    removeApplicationFromAcl manager acl a = acl.filter fun entry =>
      !startsWith entry (ApplicationManager.stripVersion (applicationProfile manager a)) := by
  unfold removeApplicationFromAcl
  rw [if_neg ha.ne_empty]
  refine List.filter_congr fun entry _ => ?_
  have hown : entry = applicationProfile manager a →
      ApplicationManager.startsWith entry
        (ApplicationManager.stripVersion (applicationProfile manager a)) = true := by
    rintro rfl
    exact IsEntryOf.startsWith rfl ha
  simp only [ha.unversioned_ne_empty, false_or]
  by_cases he : entry = applicationProfile manager a
  · rw [hown he]
    simp [he]
  · simp [he]

/-! ### One call -/

theorem others_add (ha : IsClick manager a) (acl : List String) :
    others manager (addApplicationToAcl manager acl a) a = others manager acl a := by
  unfold addApplicationToAcl others
  rw [if_neg ha.ne_empty, List.filter_append]
  simp [IsEntryOf]

theorem others_remove_iff (ha : IsClick manager a) (acl : List String) :
    others manager (removeApplicationFromAcl manager acl a) a = others manager acl a ↔
      Harmless manager acl (.remove a) := by
  unfold others Harmless
  rw [removeApplicationFromAcl_eq ha, List.filter_comm, List.filter_eq_self]
  simp only [List.mem_filter, decide_eq_true_eq, Bool.not_eq_true', and_imp]
  refine forall_congr' fun entry => forall_congr' fun _ => ?_
  rw [← not_imp_not]
  simp

theorem others_toggle_iff {t : Toggle} (ha : IsClick manager t.applicationId) (acl : List String) :
    others manager (toggle manager acl t) t.applicationId = others manager acl t.applicationId ↔
      Harmless manager acl t := by
  cases t with
  | add a => exact iff_of_true (others_add ha acl) trivial
  | remove a => exact others_remove_iff ha acl

theorem hasEntry_own {t : Toggle} (ha : IsClick manager t.applicationId) (acl : List String) :
    HasEntry manager (toggle manager acl t) t.applicationId ↔ ∃ a, t = .add a := by
  cases t with
  | add a =>
      have ha' : IsClick manager a := ha
      refine iff_of_true ⟨applicationProfile manager a, ?_, rfl⟩ ⟨a, rfl⟩
      simp [toggle, addApplicationToAcl, ha'.ne_empty]
  | remove a =>
      have ha' : IsClick manager a := ha
      refine iff_of_false ?_ (by simp)
      rintro ⟨entry, hentry, hown⟩
      rw [toggle, removeApplicationFromAcl_eq ha', List.mem_filter] at hentry
      have hstarts := IsEntryOf.startsWith hown ha'
      simp [Toggle.applicationId] at hstarts
      simp [hstarts] at hentry

theorem hasEntry_of_others {acl acl' : List String}
    (hne : OnlineAccounts.stripVersion (applicationProfile manager a) ≠
      OnlineAccounts.stripVersion (applicationProfile manager b))
    (h : others manager acl' b = others manager acl b) :
    HasEntry manager acl' a ↔ HasEntry manager acl a := by
  have hmem (acl : List String) : HasEntry manager acl a ↔
      ∃ entry ∈ others manager acl b, IsEntryOf manager a entry := by
    refine exists_congr fun entry => ⟨?_, ?_⟩
    · rintro ⟨hentry, hown⟩
      refine ⟨?_, hown⟩
      unfold others
      rw [List.mem_filter]
      refine ⟨hentry, ?_⟩
      simp only [decide_eq_true_eq]
      intro hother
      exact hne (hown.symm.trans hother)
    · rintro ⟨hentry, hown⟩
      exact ⟨(List.mem_filter.mp hentry).1, hown⟩
  rw [hmem, hmem, h]

/-! ### Sequences of calls -/

theorem toggles_append (acl : List String) (ts us : List Toggle) :
    toggles manager acl (ts ++ us) = toggles manager (toggles manager acl ts) us :=
  List.foldl_append

/-- Every call of the sequence is harmless when it is made. -/
def AllHarmless (manager : Manager) (acl : List String) (ts : List Toggle) : Prop :=
  ∀ before t after, ts = before ++ t :: after → Harmless manager (toggles manager acl before) t

/-- As long as the calls are harmless, the calls for other applications do not matter. -/
theorem hasEntry_toggles {apps : Set String} (hclick : ∀ a ∈ apps, IsClick manager a)
    (hdistinct : ∀ a ∈ apps, ∀ b ∈ apps,
      OnlineAccounts.stripVersion (applicationProfile manager a) =
        OnlineAccounts.stripVersion (applicationProfile manager b) → a = b)
    (ha : a ∈ apps) (ts : List Toggle) (hts : ∀ t ∈ ts, t.applicationId ∈ apps)
    (h : AllHarmless manager acl ts) : HasEntry manager (toggles manager acl ts) a ↔
      HasEntry manager (toggles manager acl (ts.filter (·.applicationId = a))) a := by
  induction ts using List.reverseRecOn with
  | nil => rfl
  | append_singleton ts t ih =>
      have ht : t.applicationId ∈ apps := hts t (by simp)
      have hsingle (acl : List String) : toggles manager acl [t] = toggle manager acl t := rfl
      rw [List.filter_append, toggles_append, toggles_append, hsingle]
      by_cases hown : t.applicationId = a
      · -- the last call decides
        subst hown
        rw [List.filter_cons_of_pos (by simp), List.filter_nil, hsingle,
          hasEntry_own (hclick _ ht), hasEntry_own (hclick _ ht)]
      · rw [List.filter_cons_of_neg (by simpa using hown), List.filter_nil]
        have hkept := (others_toggle_iff (hclick _ ht) (toggles manager acl ts)).mpr
          (h ts t [] rfl)
        rw [hasEntry_of_others (fun he => hown (hdistinct a ha _ ht he).symm) hkept]
        refine ih (fun u hu => hts u (by simp [hu])) fun before u after he => ?_
        exact h before u (after ++ [t]) (by simp [he])

/-- **Independent switches**: for applications with different profiles of click packages, the
calls do not interfere exactly if no application is removed while the list has an entry of
another one that starts with its profile without the version. -/
theorem toggles_independent_iff (manager : Manager) (apps : Set String)
    (hclick : ∀ a ∈ apps, IsClick manager a)
    (hdistinct : ∀ a ∈ apps, ∀ b ∈ apps,
      OnlineAccounts.stripVersion (applicationProfile manager a) =
        OnlineAccounts.stripVersion (applicationProfile manager b) → a = b)
    (acl : List String) (ts : List Toggle) (hts : ∀ t ∈ ts, t.applicationId ∈ apps) :
    Independent manager apps acl ts ↔ AllHarmless manager acl ts := by
  constructor
  · intro h before t after he
    refine (others_toggle_iff (hclick _ (hts t ?_)) _).mp (h.kept before t after he)
    simp [he]
  · intro h
    refine ⟨fun before t after he => ?_, fun a ha => hasEntry_toggles hclick hdistinct ha ts hts h⟩
    refine (others_toggle_iff (hclick _ (hts t ?_)) _).mpr (h before t after he)
    simp [he]

/-- Applications that all have the profile `<id>_0.1`. -/
def clickManager : Manager where
  applicationFile id := some
    { root := { tag := "application"
                children := [(Markup.Element.ofText "profile" (id ++ "_0.1")).toNode] } }

theorem toggles_independent_iff_two :
    Independent clickManager {"com.ubuntu.test_One", "com.ubuntu.test_Two"}
        ["com.ubuntu.test_Two_0.2"] [.add "com.ubuntu.test_One", .remove "com.ubuntu.test_Two"] ↔
      AllHarmless clickManager ["com.ubuntu.test_Two_0.2"]
        [.add "com.ubuntu.test_One", .remove "com.ubuntu.test_Two"] := by
  refine toggles_independent_iff clickManager _ ?_ ?_ _ _ ?_
  · rintro a (rfl | rfl)
    · decide
    · decide
  · rintro a (rfl | rfl) b (rfl | rfl) h
    · rfl
    · revert h
      decide
    · revert h
      decide
    · rfl
  · simp [Toggle.applicationId]

/-- The removal of `com.ubuntu.test_One` revokes the access of `com.ubuntu.test_OneMore`. -/
theorem removal_revokes_another :
    ¬ Independent clickManager {"com.ubuntu.test_One", "com.ubuntu.test_OneMore"}
      ["com.ubuntu.test_OneMore_0.1"] [.remove "com.ubuntu.test_One"] := by
  intro h
  have hkept := h.kept [] _ [] rfl
  revert hkept
  decide

end ApplicationManager

end OnlineAccounts
