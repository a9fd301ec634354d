import OnlineAccounts.UiProxy

/-! # Two readings of `requestAccess`

A `requestAccess` call names a provider, or a service of one, in its parameters.  The service
process reads them in `Request::providerId`, to choose the AppArmor profile of the UI process
(`UiProxy.handleRequest`, `UiProxy.findAppArmorProfile`).  The UI process reads them again in
`ProviderRequest::start` (`provider-request.cpp`), to choose the plugin that it loads.

The service process prefers the provider, the UI process prefers the service.  They agree
exactly on the parameters of `Agree` (`provider_agreement_iff`).

`ApplicationManager` (`application-manager.cpp`) decides which client applications a request is
accepted from. -/

namespace OnlineAccounts

open Accounts

/-! ### The application manager -/

namespace ApplicationManager

variable (manager : Manager)

/-- `applicationProfile(applicationId)`, read from the application file. -/
def applicationProfile (applicationId : String) : String :=
  match manager.applicationFile applicationId with
  | none => ""
  | some doc => doc.root.childText "profile"

/-- `application.name()`, empty for an application that is not valid. -/
def nameOf (application : Option Application) : String := (application.map (·.name)).getD ""

def applicationMatchesProfile (application : Option Application) (profile : String) : Bool :=
  if profile = "unconfined" then true
  else if profile = "unity8-dash" then true
  else applicationProfile manager (nameOf application) = profile

def displayId (appId : String) : String :=
  let components := (split '_' appId).take 2
  if components.length ≠ 2 then appId else join '/' components

def applicationFromProfile (profile : String) : Option Application :=
  match split '_' profile with
  | [package, app, _] =>
      (manager.application profile).or
        ((manager.application (package ++ "_" ++ app)).or (manager.application package))
  | _ => none

/-- What `applicationInfo` returns when the map is not empty. -/
structure ApplicationInfo where
  id : String
  displayId : String := ""
  displayName : String := ""
  icon : String := ""
  profile : String
  services : List String := []
deriving DecidableEq

/-- `applicationInfo(claimedAppId, profile)`; the empty map is `none`. -/
def applicationInfo (claimedAppId profile : String) : Option ApplicationInfo :=
  if profile = "" then none
  else if claimedAppId = "system-settings" then some { id := claimedAppId, profile := profile }
  else
    let claimed := manager.application claimedAppId
    let application := if claimed.isSome then claimed else applicationFromProfile manager profile
    let applicationId := if claimed.isSome then claimedAppId else nameOf application
    if applicationMatchesProfile manager application profile then
      let targetProfile := applicationProfile manager (nameOf application)
      some {
        id := applicationId
        displayId := displayId applicationId
        displayName := (application.map (·.displayName)).getD ""
        icon := (application.map (·.iconName)).getD ""
        profile := if targetProfile = "" then profile else targetProfile
        services := (manager.serviceList.filter fun service =>
          ((application.map (·.serviceUsage service)).getD "") ≠ "").map (·.name) }
    else none

/-- What `providerInfo` returns for a valid provider. -/
structure ProviderInfo where
  id : String
  displayName : String := ""
  icon : String := ""
  isSingleAccount : Bool := false
  profile : String := ""
  packageDir : String := ""
deriving DecidableEq

/-- `providerInfo(providerId)`; the empty map is `none`. -/
def providerInfo (providerId : String) : Option ProviderInfo :=
  (manager.provider providerId).map fun provider =>
    { id := providerId
      displayName := provider.displayName
      icon := provider.iconName
      isSingleAccount := provider.isSingleAccount
      profile := provider.domDocument.root.childText "profile"
      packageDir := provider.domDocument.root.childText "package-dir" }

variable {manager}

/-! ### Who the returned application is -/

theorem applicationMatchesProfile_iff (application : Option Application) (profile : String) :
    applicationMatchesProfile manager application profile = true ↔
      profile = "unconfined" ∨ profile = "unity8-dash" ∨
        applicationProfile manager (nameOf application) = profile := by
  unfold applicationMatchesProfile
  split_ifs with hunconfined hdash
  · simp [hunconfined]
  · simp [hdash]
  · simp [hunconfined, hdash]

variable (manager) in
/-- The accounts library gives each application the id it was looked up with as its name. -/
def NamesById : Prop :=
  ∀ id application, manager.application id = some application → application.name = id

/-- Without the special case of the system settings, the returned data is that of one application,
which matches the profile. -/
theorem exists_of_applicationInfo (hnames : NamesById manager) {claimedAppId profile : String}
    {info : ApplicationInfo} (h : applicationInfo manager claimedAppId profile = some info)
    (hclaimed : claimedAppId ≠ "system-settings") :
    ∃ application, applicationMatchesProfile manager application profile = true ∧
      info.id = nameOf application ∧
      info.profile = if applicationProfile manager info.id = "" then profile
        else applicationProfile manager info.id := by
  unfold applicationInfo at h
  rw [if_neg hclaimed] at h
  cases hvalid : manager.application claimedAppId with
  | some application =>
      have hid : nameOf (some application) = claimedAppId := hnames _ _ hvalid
      simp only [hvalid, Option.isSome_some, if_true, hid] at h
      split_ifs at h with hprofile hmatch
      all_goals
        obtain rfl := Option.some.inj h
        refine ⟨some application, hmatch, hid.symm, ?_⟩
        simp [*]
  | none =>
      simp only [hvalid, Option.isSome_none, Bool.false_eq_true, if_false] at h
      split_ifs at h with hprofile hmatch
      all_goals
        obtain rfl := Option.some.inj h
        refine ⟨applicationFromProfile manager profile, hmatch, rfl, ?_⟩
        simp [*]

/-- Nothing is returned to a peer without a profile; and otherwise only the system settings, or what
a peer asks for that is not confined, or the application whose file declares the profile of the
peer. -/
theorem no_impersonation (hnames : NamesById manager) {claimedAppId profile : String}
    {info : ApplicationInfo} (h : applicationInfo manager claimedAppId profile = some info) :
    profile ≠ "" ∧
      (claimedAppId = "system-settings" ∨
        (profile = "unconfined" ∨ profile = "unity8-dash") ∨
        (applicationProfile manager info.id = profile ∧ info.profile = profile)) := by
  have hprofile : profile ≠ "" := by
    rintro rfl
    simp [applicationInfo] at h
  refine ⟨hprofile, ?_⟩
  by_cases hclaimed : claimedAppId = "system-settings"
  · exact .inl hclaimed
  obtain ⟨application, hmatch, hid, htarget⟩ := exists_of_applicationInfo hnames h hclaimed
  obtain hunconfined | hdash | hdeclared := (applicationMatchesProfile_iff _ _).1 hmatch
  · exact .inr (.inl (.inl hunconfined))
  · exact .inr (.inl (.inr hdash))
  · rw [← hid] at hdeclared
    rw [hdeclared, if_neg hprofile] at htarget
    exact .inr (.inr ⟨hdeclared, htarget⟩)

/-- A click application, with the profile in its file. -/
def readerManager : Manager where
  application := fun id =>
    if id = "com.example_reader" then some { name := "com.example_reader" } else none
  applicationFile := fun id =>
    if id = "com.example_reader" then
      some {
        root := {
          tag := "application"
          children := [(Markup.Element.ofText "profile" "com.example_reader_1.0").toNode] } }
    else none

/-- The claimed id is unknown, and the application is found from the profile without its version. -/
theorem no_impersonation_reader :
    ∃ info, applicationInfo readerManager "unknown" "com.example_reader_1.0" = some info ∧
      info.id = "com.example_reader" ∧ "com.example_reader_1.0" ≠ "" ∧
      ("unknown" = "system-settings" ∨
        ("com.example_reader_1.0" = "unconfined" ∨ "com.example_reader_1.0" = "unity8-dash") ∨
        (applicationProfile readerManager info.id = "com.example_reader_1.0" ∧
          info.profile = "com.example_reader_1.0")) := by
  have hnames : NamesById readerManager := by
    intro id application h
    by_cases hid : id = "com.example_reader"
    · have e : some { name := "com.example_reader" } = some application := by
        rw [← h, hid]
        rfl
      exact hid ▸ (congrArg (·.name) (Option.some.inj e)).symm
    · simp [readerManager, hid] at h
  have h : applicationInfo readerManager "unknown" "com.example_reader_1.0" =
      some { id := "com.example_reader", displayId := "com.example/reader",
             profile := "com.example_reader_1.0" } := by decide
  exact ⟨_, h, rfl, no_impersonation hnames h⟩

end ApplicationManager

/-! ### Starting a provider request -/

namespace ProviderRequest

variable (manager : Manager)

/-- A provider request that has not failed: whose plugin is loaded, and for whom. -/
structure Started where
  applicationInfo : ApplicationManager.ApplicationInfo
  providerId : String
  providerInfo : Option ApplicationManager.ProviderInfo
deriving DecidableEq

/-- `ProviderRequestPrivate::start()`, up to the point where the plugin is loaded; an error
carries the name and the message the request fails with. -/
def start (parameters : QVariantMap) (clientApparmorProfile : String) :
    Except (String × String) Started :=
  let applicationId := (parameters.value OAU_KEY_APPLICATION).toString
  match ApplicationManager.applicationInfo manager applicationId clientApparmorProfile with
  | none => .error (OAU_ERROR_INVALID_APPLICATION, "Invalid client application")
  | some applicationInfo =>
      let serviceId := (parameters.value OAU_KEY_SERVICE_ID).toString
      if serviceId ≠ "" then
        match manager.service serviceId with
        | none => .error (OAU_ERROR_INVALID_SERVICE, "Service " ++ serviceId ++ " not found")
        | some service => .ok ⟨applicationInfo, service.provider,
            ApplicationManager.providerInfo manager service.provider⟩
      else
        let providerId := (parameters.value OAU_KEY_PROVIDER).toString
        .ok ⟨applicationInfo, providerId, ApplicationManager.providerInfo manager providerId⟩

end ProviderRequest

/-! ### The two readings -/

/-- The request object of a `requestAccess` call. -/
def requestAccess (options : QVariantMap) (clientApparmorProfile : String) : Request :=
  { interface := OAU_INTERFACE
    parameters := options
    clientApparmorProfile := clientApparmorProfile }

/-- The provider whose profile the service process chooses for a request: the one that a new
proxy has after it was handed the request. -/
def confinedAs (env : Environment) (request : Request) : String :=
  (UiProxy.handleRequest env 0 request { clientPid := request.clientPid }).providerId

theorem confinedAs_eq (env : Environment) (request : Request) :
    confinedAs env request = request.providerId env.accounts := by
  simp [confinedAs]

/-- The parameters for which both processes name the same provider, or the UI process fails the
request.  With a service id, the provider id must be left out or name the provider of the
service; without one, no service may be registered under the empty id for another provider. -/
def Agree (manager : Manager) (options : QVariantMap) (clientApparmorProfile : String) : Prop :=
  let applicationId := (options.value OAU_KEY_APPLICATION).toString
  let serviceId := (options.value OAU_KEY_SERVICE_ID).toString
  let providerId := (options.value OAU_KEY_PROVIDER).toString
  ApplicationManager.applicationInfo manager applicationId clientApparmorProfile = none ∨
    if serviceId = "" then
      providerId ≠ "" ∨ options.contains OAU_KEY_SERVICE_ID = false ∨
        ∀ service, manager.service "" = some service → service.provider = ""
    else ∀ service, manager.service serviceId = some service →
      providerId = "" ∨ providerId = service.provider

theorem requestAccess_providerId (manager : Manager) (options : QVariantMap) (profile : String) :
    (requestAccess options profile).providerId manager =
      let serviceId := (options.value OAU_KEY_SERVICE_ID).toString
      let providerId := (options.value OAU_KEY_PROVIDER).toString
      if providerId = "" ∧ options.contains OAU_KEY_SERVICE_ID then
        ((manager.service serviceId).map (·.provider)).getD ""
      else providerId := by
  unfold Request.providerId requestAccess
  simp only [if_true]
  split_ifs with h
  · rw [h.1]
    cases manager.service (options.value OAU_KEY_SERVICE_ID).toString <;> rfl
  · rfl

theorem contains_serviceId {options : QVariantMap}
    (h : (options.value OAU_KEY_SERVICE_ID).toString ≠ "") :
    options.contains OAU_KEY_SERVICE_ID = true :=
  options.contains_of_value_ne _ fun hv => h (by rw [hv]; rfl)

/-- **The provider that confines and the provider that is loaded**: a `requestAccess` call runs
the plugin of the provider it is confined as, unless it fails, exactly if `Agree` holds. -/
theorem provider_agreement_iff (env : Environment) (options : QVariantMap) (profile : String) :
    (∀ started, ProviderRequest.start env.accounts options profile = .ok started →
      confinedAs env (requestAccess options profile) = started.providerId) ↔
        Agree env.accounts options profile := by
  rw [confinedAs_eq, requestAccess_providerId]
  unfold ProviderRequest.start Agree
  cases ha : ApplicationManager.applicationInfo env.accounts
      (options.value OAU_KEY_APPLICATION).toString profile with
  | none => simp [ha]
  | some info =>
      simp only [ha]
      by_cases hs : (options.value OAU_KEY_SERVICE_ID).toString = ""
      · simp only [hs, ne_eq, not_true_eq_false, if_false, Except.ok.injEq, forall_eq', if_true,
          reduceCtorEq, false_or]
        by_cases hp : (options.value OAU_KEY_PROVIDER).toString = ""
        · simp only [hp, true_and, not_true_eq_false, false_or]
          cases options.contains OAU_KEY_SERVICE_ID <;>
            cases env.accounts.service "" <;> simp
        · simp [hp]
      · have hc := contains_serviceId hs
        cases hm : env.accounts.service (options.value OAU_KEY_SERVICE_ID).toString with
        | none => simp [hs]
        | some service =>
            simp only [hs, ne_eq, not_false_eq_true, if_true, Except.ok.injEq, forall_eq', hc,
              and_true, Option.map_some, Option.getD_some, if_false, reduceCtorEq,
              Option.some.injEq, false_or]
            by_cases hp : (options.value OAU_KEY_PROVIDER).toString = "" <;> simp [hp]

/-- Two providers, each with a service, and the options that name one provider and the service
of the other. -/
def twoProviders : Manager where
  service := fun id =>
    if id = "attacker-service" then some ⟨"attacker-service", "attacker_plugin"⟩ else none

def crossedOptions : QVariantMap :=
  .cons OAU_KEY_APPLICATION (.string "system-settings")
    (.cons OAU_KEY_PROVIDER (.string "google")
      (.cons OAU_KEY_SERVICE_ID (.string "attacker-service") .nil))

/-- The plugin of `attacker_plugin` is loaded, in a process confined as `google`, or not at all
if `google` declares no profile. -/
theorem crossed_options_disagree :
    ¬ ∀ started, ProviderRequest.start twoProviders crossedOptions "client_app_1.0" = .ok started →
      confinedAs { accounts := twoProviders } (requestAccess crossedOptions "client_app_1.0") =
        started.providerId := by
  intro h
  have hs : ProviderRequest.start twoProviders crossedOptions "client_app_1.0" =
      .ok ⟨{ id := "system-settings", profile := "client_app_1.0" }, "attacker_plugin", none⟩ := by
    decide
  have := h _ hs
  rw [confinedAs_eq] at this
  revert this
  decide

end OnlineAccounts
