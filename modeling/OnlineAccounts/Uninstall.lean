import OnlineAccounts.DisabledService
import OnlineAccounts.HookHistory
import OnlineAccounts.HookRerun

/-! # Applications that have gone

When a run finds files of an application whose manifest is no longer there, it disables the services
of the application on the enabled accounts, takes its tokens off the access control lists of their
credentials, and removes the accounts of its providers.  The files are met in any order, and each is
met with what has been done for those before it.

`Clears` says what the whole should come to, as a set of services that have gone, all at once
(`Loses`, `Revoked`).  One more service adds to the set (`Clears.disable`), so the loop comes to
that in any order (`removeStaleFiles_clears`).  Then nothing of an application that has gone is left
(`uninstalled`), and the applications whose manifests are there keep their tokens
(`installed_keep_tokens`). -/

namespace OnlineAccounts

open Accounts Accounts.Database

namespace AccountsHook

/-! ### What the removal should come to -/

section

variable (env : Environment) (gone : String → String → String → Prop)

/-- A service that has gone is enabled on the account, and disabling it is stored. -/
def Loses (id : ℕ) (a : StoredAccount) (serviceId : String) : Prop :=
  ∃ provider profile, gone serviceId provider profile ∧ ServiceEnabled serviceId provider a ∧
    env.disables serviceId id = true

/-- The token starts like those of an application whose service has gone, and the credentials are
those of an account with that service. -/
def Revoked (db : Database) (c : ℕ) (token : String) : Prop :=
  ∃ serviceId provider profile, gone serviceId provider profile ∧
    Credentials env serviceId provider db c ∧
    ApplicationManager.startsWith token (stripVersion profile) = true

open Classical in
noncomputable def withoutServices (id : ℕ) (a : StoredAccount) : StoredAccount :=
  { a with
    settings := fun key =>
      if ∃ serviceId, Loses env gone id a serviceId ∧ key = (some serviceId, "enabled") then
        some (.bool false)
      else a.settings key }

open Classical in
noncomputable def withoutRevoked (db : Database) (c : ℕ) (acl : List String) : List String :=
  acl.filter fun token => ¬ Revoked env gone db c token

/-- From `s` to `t`, the services that have gone have been disabled, and their applications' tokens
are off the lists. -/
structure Clears (s t : State) : Prop where
  accounts : ∀ id,
    t.database.accounts id = (s.database.accounts id).map (withoutServices env gone id)
  identities : ∀ c, t.identities c = (s.identities c).map (withoutRevoked env gone s.database c)

end

section

variable {env : Environment} {gone : String → String → String → Prop}

theorem withoutServices_settings_of_loses {id : ℕ} {a : StoredAccount} {serviceId : String}
    (h : Loses env gone id a serviceId) :
    (withoutServices env gone id a).settings (some serviceId, "enabled") = some (.bool false) :=
  if_pos ⟨serviceId, h, rfl⟩

theorem withoutServices_settings_of_not {id : ℕ} {a : StoredAccount} {key : Option String × String}
    (h : ∀ serviceId, Loses env gone id a serviceId → key ≠ (some serviceId, "enabled")) :
    (withoutServices env gone id a).settings key = a.settings key :=
  if_neg fun ⟨serviceId, hloses, heq⟩ => h serviceId hloses heq

theorem withoutServices_congr {gone' : String → String → String → Prop} {id : ℕ} {a : StoredAccount}
    (h : ∀ serviceId, Loses env gone' id a serviceId ↔ Loses env gone id a serviceId) :
    withoutServices env gone' id a = withoutServices env gone id a := by
  have hloses : Loses env gone' id a = Loses env gone id a :=
    funext fun serviceId => propext (h serviceId)
  unfold withoutServices
  rw [hloses]

theorem mem_withoutRevoked {db : Database} {c : ℕ} {acl : List String} {token : String} :
    token ∈ withoutRevoked env gone db c acl ↔ token ∈ acl ∧ ¬ Revoked env gone db c token := by
  simp [withoutRevoked]

theorem withoutServices_of_none {id : ℕ} {a : StoredAccount}
    (h : ∀ serviceId, ¬ Loses env gone id a serviceId) : withoutServices env gone id a = a := by
  have hsettings : (withoutServices env gone id a).settings = a.settings :=
    funext fun key => withoutServices_settings_of_not fun serviceId hloses =>
      absurd hloses (h serviceId)
  calc withoutServices env gone id a
      = { a with settings := (withoutServices env gone id a).settings } := rfl
    _ = a := by rw [hsettings]

theorem clears_refl (h : ∀ serviceId provider profile, ¬ gone serviceId provider profile)
    (s : State) : Clears env gone s s where
  accounts := by
    intro id
    have hsame : withoutServices env gone id = fun a => a := by
      funext a
      apply withoutServices_of_none
      rintro serviceId ⟨provider, profile, hgone, -⟩
      exact h serviceId provider profile hgone
    rw [hsame, Option.map_id']
  identities := by
    intro c
    have hsame : withoutRevoked env gone s.database c = fun acl => acl := by
      funext acl
      unfold withoutRevoked
      rw [List.filter_eq_self]
      intro token _
      simp only [decide_eq_true_eq]
      rintro ⟨serviceId, provider, profile, hgone, -⟩
      exact h serviceId provider profile hgone
    rw [hsame, Option.map_id']

/-- A service is left on an account if it has not gone, or disabling it was not stored. -/
theorem serviceEnabled_withoutServices {id : ℕ} {a : StoredAccount} {serviceId provider : String} :
    ServiceEnabled serviceId provider (withoutServices env gone id a) ↔
      ServiceEnabled serviceId provider a ∧ ¬ Loses env gone id a serviceId := by
  have henabled : (withoutServices env gone id a).settings (none, "enabled") =
      a.settings (none, "enabled") := by
    unfold withoutServices
    simp
  unfold ServiceEnabled OnAccount
  rw [henabled]
  by_cases hloses : Loses env gone id a serviceId
  · rw [withoutServices_settings_of_loses hloses]
    simp [hloses]
  · have hsame : (withoutServices env gone id a).settings (some serviceId, "enabled") =
        a.settings (some serviceId, "enabled") := by
      apply withoutServices_settings_of_not
      rintro serviceId' hloses' heq
      cases heq
      exact hloses hloses'
    rw [hsame]
    exact (and_iff_left hloses).symm

theorem credentialsOf_withoutServices (id : ℕ) (a : StoredAccount) :
    credentialsOf (withoutServices env gone id a) = credentialsOf a := by
  unfold credentialsOf withoutServices
  simp

/-! ### One more service -/

variable (gone) in
/-- One more service. -/
def AlsoGone (serviceId provider profile : String) (x p q : String) : Prop :=
  gone x p q ∨ x = serviceId ∧ p = provider ∧ q = profile

variable {serviceId provider profile : String}

theorem loses_alsoGone {id : ℕ} {a : StoredAccount} {x : String} :
    Loses env (AlsoGone gone serviceId provider profile) id a x ↔ Loses env gone id a x ∨
      x = serviceId ∧ ServiceEnabled serviceId provider a ∧ env.disables serviceId id = true := by
  constructor
  · rintro ⟨p, q, hgone | ⟨rfl, rfl, rfl⟩, henabled, hdisables⟩
    · exact .inl ⟨p, q, hgone, henabled, hdisables⟩
    · exact .inr ⟨rfl, henabled, hdisables⟩
  · rintro (⟨p, q, hgone, h⟩ | ⟨rfl, h⟩)
    · exact ⟨p, q, .inl hgone, h⟩
    · exact ⟨provider, profile, .inr ⟨rfl, rfl, rfl⟩, h⟩

theorem revoked_alsoGone {db : Database} {c : ℕ} {token : String} :
    Revoked env (AlsoGone gone serviceId provider profile) db c token ↔
      Revoked env gone db c token ∨ Credentials env serviceId provider db c ∧
        ApplicationManager.startsWith token (stripVersion profile) = true := by
  constructor
  · rintro ⟨x, p, q, hgone | ⟨rfl, rfl, rfl⟩, h⟩
    · exact .inl ⟨x, p, q, hgone, h⟩
    · exact .inr h
  · rintro (⟨x, p, q, hgone, h⟩ | h)
    · exact ⟨x, p, q, .inl hgone, h⟩
    · exact ⟨serviceId, provider, profile, .inr ⟨rfl, rfl, rfl⟩, h⟩

theorem withoutServices_alsoGone (id : ℕ) (a : StoredAccount) :
    withoutServices env (AlsoGone gone serviceId provider profile) id a =
      if ServiceEnabled serviceId provider (withoutServices env gone id a) ∧
          env.disables serviceId id = true then
        withoutService serviceId (withoutServices env gone id a)
      else withoutServices env gone id a := by
  have hleft : ServiceEnabled serviceId provider (withoutServices env gone id a) ↔ _ :=
    serviceEnabled_withoutServices
  by_cases hon : ServiceEnabled serviceId provider (withoutServices env gone id a) ∧
      env.disables serviceId id = true
  · rw [if_pos hon]
    rw [hleft] at hon
    have hsettings :
        (withoutServices env (AlsoGone gone serviceId provider profile) id a).settings =
          Function.update (withoutServices env gone id a).settings (some serviceId, "enabled")
            (some (.bool false)) := by
      funext key
      by_cases hkey : key = (some serviceId, "enabled")
      · rw [hkey, Function.update_self]
        exact withoutServices_settings_of_loses
          (loses_alsoGone.mpr (.inr ⟨rfl, hon.1.1, hon.2⟩))
      · rw [Function.update_of_ne hkey]
        by_cases hloses : ∃ x, Loses env gone id a x ∧ key = (some x, "enabled")
        · obtain ⟨x, hx, rfl⟩ := hloses
          rw [withoutServices_settings_of_loses hx]
          exact withoutServices_settings_of_loses (loses_alsoGone.mpr (.inl hx))
        · rw [withoutServices_settings_of_not fun x hx heq => hloses ⟨x, hx, heq⟩]
          apply withoutServices_settings_of_not
          intro x hx heq
          rcases loses_alsoGone.mp hx with hx | ⟨rfl, -⟩
          · exact hloses ⟨x, hx, heq⟩
          · exact hkey heq
    unfold withoutService
    rw [← hsettings]
    rfl
  · rw [if_neg hon]
    apply withoutServices_congr
    intro x
    rw [loses_alsoGone, or_iff_left_iff_imp]
    rintro ⟨rfl, henabled, hdisables⟩
    by_contra hloses
    exact hon ⟨hleft.mpr ⟨henabled, hloses⟩, hdisables⟩

theorem Clears.credentials {s t : State} (h : Clears env gone s t) {c : ℕ} :
    Credentials env serviceId provider t.database c →
      Credentials env serviceId provider s.database c := by
  rintro ⟨hne, hsignond, id, a', ha', henabled, hc⟩
  rw [h.accounts] at ha'
  obtain ⟨a, ha, rfl⟩ := Option.map_eq_some_iff.mp ha'
  rw [credentialsOf_withoutServices] at hc
  exact ⟨hne, hsignond, id, a, ha, (serviceEnabled_withoutServices.mp henabled).1, hc⟩

/-- An access control list that should be changed is, unless it has been. -/
theorem Clears.credentials_left {s t : State} (h : Clears env gone s t) {c : ℕ}
    (hc : Credentials env serviceId provider s.database c)
    (hfirst : ∀ p q, ¬ gone serviceId p q) : Credentials env serviceId provider t.database c := by
  obtain ⟨hne, hsignond, id, a, ha, henabled, hcredentials⟩ := hc
  refine ⟨hne, hsignond, id, withoutServices env gone id a, ?_, ?_, ?_⟩
  · rw [h.accounts, ha]
    rfl
  · refine serviceEnabled_withoutServices.mpr ⟨henabled, ?_⟩
    rintro ⟨p, q, hgone, -⟩
    exact hfirst p q hgone
  · rw [credentialsOf_withoutServices]
    exact hcredentials

theorem Clears.disable {s t u : State} (h : Clears env gone s t)
    (hu : Disabled env serviceId provider profile (env.library.accountListEnabled t.database) t u)
    (hsame : ∀ p q, gone serviceId p q → p = provider ∧ q = profile) :
    Clears env (AlsoGone gone serviceId provider profile) s u where
  accounts := by
    intro id
    rw [hu.database, h.accounts]
    cases ha : s.database.accounts id with
    | none => simp
    | some a =>
        have ht : t.database.accounts id = some (withoutServices env gone id a) := by
          rw [h.accounts, ha]
          rfl
        have hlisted : id ∈ env.library.accountListEnabled t.database ↔
            (withoutServices env gone id a).settings (none, "enabled") = some (.bool true) := by
          rw [env.library.mem_accountListEnabled, ht]
          simp
        simp only [Option.map_some]
        rw [withoutServices_alsoGone, ← apply_ite some]
        congr 1
        unfold afterDisable ServiceEnabled
        by_cases hid : id ∈ env.library.accountListEnabled t.database
        · rw [if_pos hid]
          exact if_congr (by rw [← hlisted]; simp [hid]) rfl rfl
        · rw [if_neg hid, if_neg]
          exact fun hon => hid (hlisted.mpr hon.1.1)
  identities := by
    intro c
    have hrevoked : ∀ token, Revoked env (AlsoGone gone serviceId provider profile) s.database c
        token ↔ Revoked env gone s.database c token ∨
          Credentials env serviceId provider s.database c ∧
            ApplicationManager.startsWith token (stripVersion profile) = true :=
      fun token => revoked_alsoGone
    by_cases hc : Credentials env serviceId provider t.database c
    · rw [hu.concerned c ((concerned_iff _ c).mpr hc), h.identities, Option.map_map]
      congr 1
      funext acl
      unfold withoutRevoked withoutApp
      rw [Function.comp_apply, List.filter_filter]
      apply List.filter_congr
      intro token _
      rw [Bool.eq_iff_iff]
      simp only [Bool.and_eq_true, Bool.not_eq_true', Bool.eq_false_iff, decide_eq_true_eq,
        hrevoked, not_or, h.credentials hc, true_and]
      exact and_comm
    · rw [hu.others c (mt (concerned_iff _ c).mp hc), h.identities]
      congr 1
      funext acl
      unfold withoutRevoked
      apply List.filter_congr
      intro token _
      rw [decide_eq_decide, not_iff_not, hrevoked, iff_self_or]
      rintro ⟨hcredentials, hstarts⟩
      -- the credentials are those of an account that has lost the service before
      by_cases hgone : ∃ p q, gone serviceId p q
      · obtain ⟨p, q, hgone⟩ := hgone
        obtain ⟨rfl, rfl⟩ := hsame p q hgone
        exact ⟨serviceId, p, q, hgone, hcredentials, hstarts⟩
      · exact absurd (h.credentials_left hcredentials fun p q hpq => hgone ⟨p, q, hpq⟩) hc

theorem Clears.congr {gone' : String → String → String → Prop} {s t : State}
    (h : Clears env gone s t) (hsame : ∀ x p q, gone' x p q ↔ gone x p q) :
    Clears env gone' s t := by
  have heq : gone' = gone := funext fun x => funext fun p => funext fun q => propext (hsame x p q)
  rw [heq]
  exact h

theorem Clears.of_eq {s t t' : State} (h : Clears env gone s t)
    (hdatabase : t'.database = t.database) (hidentities : t'.identities = t.identities) : Clears env gone s t' where
  accounts := fun id => by rw [hdatabase]; exact h.accounts id
  identities := fun c => by rw [hidentities]; exact h.identities c

end

/-! ### The services -/

/-- A service whose file is stale, with its provider and the profile that the file names. -/
structure GoneService (env : Environment) (hooksDirIn : HooksDir) (content : File → Option Content)
    (serviceId provider profile : String) : Prop where
  stale : StaleFile env hooksDirIn content .service (serviceId ++ ".service")
  service : env.service serviceId (content ⟨"services", serviceId ++ ".service"⟩) = some provider
  own : AccountsHook.profile (nodesAt content ⟨"services", serviceId ++ ".service"⟩) = profile

/-- The stale service files have names and profiles like those that the program writes. -/
def WellNamed (env : Environment) (hooksDirIn : HooksDir) (content : File → Option Content) :
    Prop :=
  ∀ name, StaleFile env hooksDirIn content .service name →
    name = completeBaseName name ++ ".service" ∧
      (split '_' (profile (nodesAt content ⟨"services", name⟩))).length = 3

section

variable {env : Environment} {hooksDirIn : HooksDir}

theorem staleFile_of_foldl {fileType : FileType} {names : List String} {name : String} {s : State}
    (hname : Eligible env fileType name)
    (hstale : isStale env hooksDirIn (nodesAt (names.foldl (removeStaleFile env hooksDirIn fileType)
      s).accounts.content ⟨fileType.dir, name⟩) = true) :
    StaleFile env hooksDirIn s.accounts.content fileType name ∧
      (names.foldl (removeStaleFile env hooksDirIn fileType) s).accounts.content
        ⟨fileType.dir, name⟩ = s.accounts.content ⟨fileType.dir, name⟩ := by
  unfold nodesAt at hstale
  rw [foldl_removeStaleFile_content] at hstale ⊢
  split_ifs at hstale ⊢ with hgone
  · exact absurd hstale Bool.false_ne_true
  · refine ⟨⟨hname.1, hname.2.1, hname.2.2, ?_⟩, rfl⟩
    cases hc : s.accounts.content ⟨fileType.dir, name⟩ with
    | none =>
        rw [hc] at hstale
        exact absurd hstale Bool.false_ne_true
    | some c =>
        rw [hc] at hstale
        exact ⟨c, rfl, hstale⟩

/-- A stale file that is not found stale any more has been met before. -/
theorem mem_of_not_isStale {fileType : FileType} {names : List String} {name : String} {s : State}
    (h : StaleFile env hooksDirIn s.accounts.content fileType name)
    (hstale : ¬ isStale env hooksDirIn (nodesAt (names.foldl
      (removeStaleFile env hooksDirIn fileType) s).accounts.content
        ⟨fileType.dir, name⟩) = true) : name ∈ names := by
  by_contra hmem
  apply hstale
  unfold nodesAt
  rw [foldl_removeStaleFile_content, if_neg fun hgone => hmem hgone.1.2]
  obtain ⟨c, hc, hstale⟩ := h.stale
  rw [hc]
  exact hstale

/-- One round changes no account and no list, apart from what is forgotten. -/
theorem removeStaleFile_of_isStale {fileType : FileType} {name : String} {s : State}
    (hstale : isStale env hooksDirIn (nodesAt s.accounts.content ⟨fileType.dir, name⟩) = true) :
    (removeStaleFile env hooksDirIn fileType s name).database =
        (forget env fileType name (profile (nodesAt s.accounts.content ⟨fileType.dir, name⟩))
          s).database ∧
      (removeStaleFile env hooksDirIn fileType s name).identities =
        (forget env fileType name (profile (nodesAt s.accounts.content ⟨fileType.dir, name⟩))
          s).identities := by
  rw [removeStaleFile_cases, if_pos hstale]
  split_ifs <;> exact ⟨rfl, rfl⟩

theorem service_append_inj {x y : String} (h : x ++ ".service" = y ++ ".service") : x = y := by
  have heq := congrArg String.toList h
  rw [String.toList_append, String.toList_append, List.append_left_inj] at heq
  exact String.toList_inj.mp heq

theorem Clears.met {s t : State} {names : List String} {serviceId : String}
    (h : Clears env (fun x p q => GoneService env hooksDirIn s.accounts.content x p q ∧
      x ++ ".service" ∈ names) s t)
    (hstale : StaleFile env hooksDirIn s.accounts.content .service (serviceId ++ ".service"))
    (hsame : t.accounts.content ⟨"services", serviceId ++ ".service"⟩ =
      s.accounts.content ⟨"services", serviceId ++ ".service"⟩)
    {profile : String}
    (hown : AccountsHook.profile (nodesAt s.accounts.content
      ⟨"services", serviceId ++ ".service"⟩) = profile)
    (hprofile : (split '_' profile).length = 3) :
    Clears env (fun x p q => GoneService env hooksDirIn s.accounts.content x p q ∧
        x ++ ".service" ∈ names ++ [serviceId ++ ".service"]) s
      (disableService env serviceId profile t) := by
  have hmem : ∀ x, x ++ ".service" ∈ names ++ [serviceId ++ ".service"] ↔
      x ++ ".service" ∈ names ∨ x = serviceId := by
    intro x
    rw [List.mem_append, List.mem_singleton]
    exact or_congr_right ⟨service_append_inj, fun heq => by rw [heq]⟩
  cases hservice : env.service serviceId
      (t.accounts.content ⟨"services", serviceId ++ ".service"⟩) with
  | none =>
      have hidle : disableService env serviceId profile t = t := by
        unfold disableService
        rw [hservice]
      rw [hidle]
      refine h.congr fun x p q => and_congr_right fun hgone => ?_
      rw [hmem, or_iff_left_iff_imp]
      rintro rfl
      rw [hsame, hgone.service] at hservice
      cases hservice
  | some provider =>
      have hfound : GoneService env hooksDirIn s.accounts.content serviceId provider profile :=
        ⟨hstale, by rw [← hsame, hservice], hown⟩
      have hunique : ∀ p q, GoneService env hooksDirIn s.accounts.content serviceId p q →
          p = provider ∧ q = profile := by
        intro p q hgone
        exact ⟨Option.some.inj (hgone.service.symm.trans hfound.service),
          hgone.own.symm.trans hfound.own⟩
      refine (h.disable (disableService_disabled hprofile t hservice)
        fun p q hgone => hunique p q hgone.1).congr fun x p q => ?_
      unfold AlsoGone
      rw [hmem]
      constructor
      · rintro ⟨hgone, hmem | rfl⟩
        · exact .inl ⟨hgone, hmem⟩
        · exact .inr ⟨rfl, hunique p q hgone⟩
      · rintro (⟨hgone, hmem⟩ | ⟨rfl, rfl, rfl⟩)
        · exact ⟨hgone, .inl hmem⟩
        · exact ⟨hfound, .inr rfl⟩

theorem foldl_services_clears {s : State}
    (hnamed : WellNamed env hooksDirIn s.accounts.content) (names : List String)
    (hnames : ∀ name ∈ names, Eligible env .service name) :
    Clears env (fun x p q => GoneService env hooksDirIn s.accounts.content x p q ∧
        x ++ ".service" ∈ names) s
      (names.foldl (removeStaleFile env hooksDirIn .service) s) := by
  induction names using List.reverseRecOn with
  | nil => exact clears_refl (fun _ _ _ h => absurd h.2 List.not_mem_nil) s
  | append_singleton names name ih =>
      have hrest := ih fun n hn => hnames n (List.mem_append_left _ hn)
      have hname := hnames name (List.mem_append_right _ List.mem_cons_self)
      rw [List.foldl_append, List.foldl_cons, List.foldl_nil]
      by_cases hstale : isStale env hooksDirIn (nodesAt (names.foldl
          (removeStaleFile env hooksDirIn .service) s).accounts.content
            ⟨FileType.service.dir, name⟩) = true
      · obtain ⟨hfile, hsame⟩ := staleFile_of_foldl hname hstale
        obtain ⟨hbase, hprofile⟩ := hnamed name hfile
        obtain ⟨hdatabase, hidentities⟩ := removeStaleFile_of_isStale hstale
        refine Clears.of_eq ?_ hdatabase hidentities
        have hnodes : nodesAt (names.foldl (removeStaleFile env hooksDirIn .service)
            s).accounts.content ⟨FileType.service.dir, name⟩ =
              nodesAt s.accounts.content ⟨FileType.service.dir, name⟩ :=
          congrArg (fun c => (c.map Content.nodes).getD []) hsame
        rw [hnodes]
        show Clears env _ s (disableService env (completeBaseName name) _ _)
        generalize completeBaseName name = serviceId at hbase ⊢
        subst hbase
        exact hrest.met hfile hsame rfl hprofile
      · have hround : removeStaleFile env hooksDirIn .service
            (names.foldl (removeStaleFile env hooksDirIn .service) s) name =
              names.foldl (removeStaleFile env hooksDirIn .service) s := by
          rw [removeStaleFile_cases]
          exact if_neg hstale
        rw [hround]
        refine hrest.congr fun x p q => and_congr_right fun hgone => ?_
        rw [List.mem_append, List.mem_singleton, or_iff_left_iff_imp]
        rintro rfl
        exact mem_of_not_isStale hgone.stale hstale

/-! ### The names of the services

The service files that the program writes are named and marked as it expects them later. -/

/-- The service files with the program's mark are named like a service, and their profile is that of
a click application. -/
def OwnNamed (env : Environment) (content : File → Option Content) : Prop :=
  ∀ name c, content ⟨"services", name⟩ = some c → createdByUs env c.nodes = true →
    (∃ serviceId, name = serviceId ++ ".service") ∧ (split '_' (profile c.nodes)).length = 3

theorem OwnNamed.wellNamed {content : File → Option Content} (h : OwnNamed env content) :
    WellNamed env hooksDirIn content := by
  intro name hstale
  obtain ⟨c, hc, hnodes⟩ := hstale.stale
  unfold isStale at hnodes
  obtain ⟨⟨serviceId, rfl⟩, hprofile⟩ := h name c hc (Bool.and_eq_true_iff.mp hnodes).1
  have hbase : completeBaseName (serviceId ++ ".service") = serviceId := by
    have heq := completeBaseName_append serviceId (show '.' ∉ "service".toList by decide)
    rwa [String.append_assoc] at heq
  refine ⟨by rw [hbase], ?_⟩
  unfold nodesAt
  rw [show content ⟨"services", serviceId ++ ".service"⟩ = some c from hc]
  exact hprofile

section

variable {P : File → Prop} {m : ManifestFile}

theorem forall_mem_writeXmlFile (outcome : WriteOutcome) (nodes : List Markup.Node) {file : File}
    (h : P file) : ∀ c ∈ (ManifestFile.writeXmlFile outcome nodes file).1, P c.1 := by
  intro c hc
  cases outcome with
  | notOpened => cases hc
  | notWritten removed => cases removed <;> (obtain rfl := List.mem_singleton.mp hc; exact h)
  | written =>
      obtain rfl := List.mem_singleton.mp hc
      exact h

theorem forall_mem_writeServiceFiles (h : ∀ json, P (m.serviceFile env.toSurroundings json))
    (outcomes : Outcomes) (services : List QJsonValue) (i : ℕ) :
    ∀ c ∈ (m.writeServiceFiles env.toSurroundings outcomes i services).1, P c.1 := by
  induction services generalizing i with
  | nil => exact fun c hc => absurd hc List.not_mem_nil
  | cons v services ih =>
      have hfirst := forall_mem_writeXmlFile (outcomes.service i)
        (m.serviceDocument env.toSurroundings v.toObject) (h v.toObject)
      unfold ManifestFile.writeServiceFiles
      dsimp only
      split_ifs
      · exact List.forall_mem_append.mpr ⟨hfirst, ih (i + 1)⟩
      · exact hfirst

variable (env m) in
theorem forall_mem_writePlugins (hothers : ∀ file : File, file.dir ≠ "services" → P file)
    (outcomes : Outcomes) :
    ∀ c ∈ (m.writePlugins env.toSurroundings outcomes).1, P c.1 := by
  have hlink : P m.qmlDestination := hothers _ (show "qml-plugins" ≠ "services" by decide)
  have hunlinked :
      ∀ c ∈ (if outcomes.unlinks then [(m.qmlDestination, none)] else [] : List Change), P c.1 := by
    intro c hc
    split_ifs at hc
    · obtain rfl := List.mem_singleton.mp hc
      exact hlink
    · cases hc
  have hprovider : ∀ c ∈ (m.writeProviderFile env.toSurroundings outcomes).1, P c.1 := by
    unfold ManifestFile.writeProviderFile
    dsimp only
    split_ifs
    · exact fun c hc => absurd hc List.not_mem_nil
    · exact fun c hc => absurd hc List.not_mem_nil
    · exact forall_mem_writeXmlFile _ _ (hothers _ (show "providers" ≠ "services" by decide))
  unfold ManifestFile.writePlugins
  dsimp only
  generalize (if outcomes.unlinks then [(m.qmlDestination, none)] else []) = unlinked
    at hunlinked ⊢
  split_ifs
  · exact fun c hc => absurd hc List.not_mem_nil
  · exact fun c hc => absurd hc List.not_mem_nil
  · exact fun c hc => absurd hc List.not_mem_nil
  · rw [List.forall_mem_append, List.forall_mem_append, List.forall_mem_singleton]
    exact ⟨⟨hunlinked, hlink⟩, hprovider⟩
  · exact hunlinked

/-- What holds of the service files, and of all files in other directories, holds of every file that
a manifest changes. -/
theorem forall_mem_writeFiles (h : ∀ json, P (m.serviceFile env.toSurroundings json))
    (hothers : ∀ file : File, file.dir ≠ "services" → P file) (outcomes : Outcomes) :
    ∀ c ∈ (m.writeFiles env.toSurroundings outcomes).1, P c.1 := by
  have hservices := forall_mem_writeServiceFiles h outcomes m.services 0
  have hplugins := forall_mem_writePlugins env m hothers outcomes
  unfold ManifestFile.writeFiles
  dsimp only
  split_ifs
  · exact List.forall_mem_append.mpr ⟨List.forall_mem_append.mpr ⟨hservices, hplugins⟩,
      forall_mem_writeXmlFile _ _ (hothers _ (show "applications" ≠ "services" by decide))⟩
  · exact List.forall_mem_append.mpr ⟨hservices, hplugins⟩

variable (env) in
theorem forall_mem_changes {hook : HookFile}
    (h : ∀ json,
      P ((ManifestFile.ofHook env.toSurroundings hook).serviceFile env.toSurroundings json))
    (hothers : ∀ file : File, file.dir ≠ "services" → P file) :
    ∀ c ∈ changes env hook, P c.1 := by
  unfold changes
  dsimp only
  split_ifs
  · exact forall_mem_writeFiles h hothers _
  · exact fun c hc => absurd hc List.not_mem_nil

end

end

/-! ### The providers -/

section

variable (env : Environment) (gone : String → Prop)

open Classical in
/-- The account, unless its provider has gone and removing it is stored. -/
noncomputable def unlessRemoved (id : ℕ) (a : StoredAccount) : Option StoredAccount :=
  if gone a.provider ∧ env.removesAccount id = true then none else some a

/-- From `s` to `t`, the accounts of the providers that have gone have been removed. -/
structure Deletes (s t : State) : Prop where
  accounts : ∀ id,
    t.database.accounts id = (s.database.accounts id).bind (unlessRemoved env gone id)
  identities : t.identities = s.identities

end

section

variable {env : Environment} {hooksDirIn : HooksDir} {gone : String → Prop}

theorem unlessRemoved_of_gone {id : ℕ} {a : StoredAccount} (h : gone a.provider)
    (hremoves : env.removesAccount id = true) : unlessRemoved env gone id a = none :=
  if_pos ⟨h, hremoves⟩

theorem unlessRemoved_of_not {id : ℕ} {a : StoredAccount}
    (h : ¬ (gone a.provider ∧ env.removesAccount id = true)) :
    unlessRemoved env gone id a = some a := if_neg h

theorem deletes_refl (h : ∀ provider, ¬ gone provider) {s t : State}
    (hdatabase : t.database = s.database) (hidentities : t.identities = s.identities) :
    Deletes env gone s t where
  accounts := by
    intro id
    rw [hdatabase]
    cases s.database.accounts id with
    | none => rfl
    | some a => exact (unlessRemoved_of_not fun hgone => h _ hgone.1).symm
  identities := hidentities

theorem Deletes.trans {gone' : String → Prop} {s t u : State} (h : Deletes env gone s t)
    (h' : Deletes env gone' t u) : Deletes env (fun p => gone p ∨ gone' p) s u where
  accounts := by
    intro id
    rw [h'.accounts, h.accounts]
    cases s.database.accounts id with
    | none => rfl
    | some a =>
        simp only [Option.bind_some]
        by_cases hfirst : gone a.provider ∧ env.removesAccount id = true
        · rw [unlessRemoved_of_gone hfirst.1 hfirst.2]
          exact (unlessRemoved_of_gone (.inl hfirst.1) hfirst.2).symm
        · rw [unlessRemoved_of_not hfirst, Option.bind_some]
          by_cases hsecond : gone' a.provider ∧ env.removesAccount id = true
          · rw [unlessRemoved_of_gone hsecond.1 hsecond.2]
            exact (unlessRemoved_of_gone (.inr hsecond.1) hsecond.2).symm
          · rw [unlessRemoved_of_not hsecond]
            refine (unlessRemoved_of_not ?_).symm
            rintro ⟨hgone | hgone, hremoves⟩
            · exact hfirst ⟨hgone, hremoves⟩
            · exact hsecond ⟨hgone, hremoves⟩
  identities := h'.identities.trans h.identities

theorem Deletes.congr {gone' : String → Prop} {s t : State} (h : Deletes env gone s t)
    (hsame : ∀ p, gone' p ↔ gone p) : Deletes env gone' s t := by
  have heq : gone' = gone := funext fun p => propext (hsame p)
  rw [heq]
  exact h

theorem removeAccount_identities (providerName : String) (s : State) (id : ℕ) :
    (removeAccount env providerName s id).identities = s.identities := by
  unfold removeAccount
  cases env.library.account s.database id with
  | none => rfl
  | some account =>
      dsimp only
      split_ifs <;> rfl

theorem Deletes.of_eq {s t t' : State} (h : Deletes env gone s t)
    (hdatabase : t'.database = t.database) (hidentities : t'.identities = t.identities) :
    Deletes env gone s t' where
  accounts := fun id => by rw [hdatabase]; exact h.accounts id
  identities := hidentities.trans h.identities

theorem removeAccount_spec (providerName : String) (s : State) (id : ℕ) :
    (removeAccount env providerName s id).database.accounts = Function.update s.database.accounts id
      ((s.database.accounts id).bind (unlessRemoved env (· = providerName) id)) := by
  rcases removeAccount_cases env providerName s id with ⟨hsame, hremoved⟩ | ⟨⟨a, ha⟩, hupdate, hnot⟩
  · rw [hsame, eq_comm, Function.update_eq_self_iff]
    cases ha : s.database.accounts id with
    | none => rfl
    | some a =>
        rw [Option.bind_some]
        apply unlessRemoved_of_not
        rintro ⟨hprovider, hremoves⟩
        exact Bool.false_ne_true ((hremoved a ha hprovider).symm.trans hremoves)
  · have hgone : a.provider = providerName ∧ env.removesAccount id = true := by
      by_contra hkept
      apply hnot
      intro a' ha' hprovider
      rw [ha] at ha'
      cases ha'
      exact Bool.eq_false_iff.mpr fun hremoves => hkept ⟨hprovider, hremoves⟩
    rw [hupdate, ha, Option.bind_some, unlessRemoved_of_gone hgone.1 hgone.2]

variable (env) in
theorem foldl_removeAccount (providerName : String) (ids : List ℕ) (s : State) :
    (∀ id, (ids.foldl (removeAccount env providerName) s).database.accounts id =
      if id ∈ ids then (s.database.accounts id).bind (unlessRemoved env (· = providerName) id)
      else s.database.accounts id) ∧
    (ids.foldl (removeAccount env providerName) s).identities = s.identities := by
  induction ids using List.reverseRecOn with
  | nil => exact ⟨fun _ => rfl, rfl⟩
  | append_singleton ids id' ih =>
      obtain ⟨haccounts, hidentities⟩ := ih
      rw [List.foldl_append, List.foldl_cons, List.foldl_nil]
      refine ⟨?_, (removeAccount_identities _ _ _).trans hidentities⟩
      intro id
      rw [removeAccount_spec]
      by_cases hid : id = id'
      · subst hid
        rw [Function.update_self, if_pos (by simp), haccounts]
        split_ifs
        · -- the account has been looked at before
          cases s.database.accounts id with
          | none => rfl
          | some a =>
              rw [Option.bind_some]
              by_cases hgone : a.provider = providerName ∧ env.removesAccount id = true
              · rw [unlessRemoved_of_gone hgone.1 hgone.2]
                rfl
              · rw [unlessRemoved_of_not hgone, Option.bind_some]
                exact unlessRemoved_of_not hgone
        · rfl
      · rw [Function.update_of_ne hid, haccounts]
        simp [hid]

theorem removeStaleAccounts_deletes (providerName : String) (s : State) :
    Deletes env (· = providerName) s (removeStaleAccounts env providerName s) := by
  obtain ⟨haccounts, hidentities⟩ :=
    foldl_removeAccount env providerName (env.library.accountList s.database) s
  refine ⟨fun id => ?_, hidentities⟩
  refine (haccounts id).trans ?_
  split_ifs with hid
  · rfl
  · rw [env.library.mem_accountList, Option.not_isSome_iff_eq_none] at hid
    rw [hid]
    rfl

/-- A provider whose file is stale. -/
def GoneProvider (env : Environment) (hooksDirIn : HooksDir) (content : File → Option Content)
    (provider : String) : Prop :=
  ∃ name, StaleFile env hooksDirIn content .provider name ∧ completeBaseName name = provider

variable (env hooksDirIn) in
theorem foldl_providers_deletes (s : State) (names : List String)
    (hnames : ∀ name ∈ names, Eligible env .provider name) :
    Deletes env (fun provider => ∃ name ∈ names,
        StaleFile env hooksDirIn s.accounts.content .provider name ∧
          completeBaseName name = provider) s
      (names.foldl (removeStaleFile env hooksDirIn .provider) s) := by
  induction names using List.reverseRecOn with
  | nil => exact deletes_refl (fun _ h => absurd h.choose_spec.1 List.not_mem_nil) rfl rfl
  | append_singleton names name ih =>
      have hrest := ih fun n hn => hnames n (List.mem_append_left _ hn)
      have hname := hnames name (List.mem_append_right _ List.mem_cons_self)
      rw [List.foldl_append, List.foldl_cons, List.foldl_nil]
      by_cases hstale : isStale env hooksDirIn (nodesAt (names.foldl
          (removeStaleFile env hooksDirIn .provider) s).accounts.content
            ⟨FileType.provider.dir, name⟩) = true
      · obtain ⟨hfile, -⟩ := staleFile_of_foldl hname hstale
        obtain ⟨hdatabase, hidentities⟩ := removeStaleFile_of_isStale hstale
        refine Deletes.of_eq ?_ hdatabase hidentities
        refine (hrest.trans (removeStaleAccounts_deletes (completeBaseName name) _)).congr
          fun p => ?_
        constructor
        · rintro ⟨n, hn, hgone, heq⟩
          rcases List.mem_append.mp hn with hn | hn
          · exact .inl ⟨n, hn, hgone, heq⟩
          · rw [List.mem_singleton.mp hn] at heq
            exact .inr heq.symm
        · rintro (⟨n, hn, h⟩ | rfl)
          · exact ⟨n, List.mem_append_left _ hn, h⟩
          · exact ⟨name, List.mem_append_right _ List.mem_cons_self, hfile, rfl⟩
      · have hround : removeStaleFile env hooksDirIn .provider
            (names.foldl (removeStaleFile env hooksDirIn .provider) s) name =
              names.foldl (removeStaleFile env hooksDirIn .provider) s := by
          rw [removeStaleFile_cases]
          exact if_neg hstale
        rw [hround]
        refine hrest.congr fun p => ?_
        constructor
        · rintro ⟨n, hn, hgone, heq⟩
          rcases List.mem_append.mp hn with hn | hn
          · exact ⟨n, hn, hgone, heq⟩
          · rw [List.mem_singleton.mp hn] at hgone heq
            exact ⟨name, mem_of_not_isStale hgone hstale, hgone, heq⟩
        · rintro ⟨n, hn, h⟩
          exact ⟨n, List.mem_append_left _ hn, h⟩

variable (env hooksDirIn) in
theorem foldl_applications (names : List String) (s : State) :
    (names.foldl (removeStaleFile env hooksDirIn .application) s).database = s.database ∧
      (names.foldl (removeStaleFile env hooksDirIn .application) s).identities = s.identities := by
  induction names generalizing s with
  | nil => exact ⟨rfl, rfl⟩
  | cons name names ih =>
      obtain ⟨hdatabase, hidentities⟩ := ih (removeStaleFile env hooksDirIn .application s name)
      have hround : (removeStaleFile env hooksDirIn .application s name).database = s.database ∧
          (removeStaleFile env hooksDirIn .application s name).identities = s.identities := by
        rw [removeStaleFile_cases]
        split_ifs <;> exact ⟨rfl, rfl⟩
      exact ⟨hdatabase.trans hround.1, hidentities.trans hround.2⟩

/-! ### A whole run -/

/-- The removal of stale files, whatever the order in which they are met: the services that have
gone are disabled, then the accounts of the providers that have gone are removed. -/
theorem removeStaleFiles_clears {s : State}
    (hnamed : WellNamed env hooksDirIn s.accounts.content) :
    ∃ t, Clears env (GoneService env hooksDirIn s.accounts.content) s t ∧
      Deletes env (GoneProvider env hooksDirIn s.accounts.content) t
        (removeStaleFiles env hooksDirIn s) := by
  have hservices := foldl_services_clears hnamed (entryInfoList env s.accounts .service)
    fun name hname => eligible_of_mem hname
  refine ⟨removeStaleFilesOf env hooksDirIn s .service, hservices.congr fun x p q => ?_, ?_⟩
  · exact ⟨fun hgone => ⟨hgone, (staleFile_iff.mp hgone.stale).1⟩, And.left⟩
  · generalize ht : removeStaleFilesOf env hooksDirIn s .service = t
    have hstale : ∀ name, StaleFile env hooksDirIn t.accounts.content .provider name ↔
        StaleFile env hooksDirIn s.accounts.content .provider name := by
      intro name
      refine StaleFile.congr ⟨FileType.provider.dir, name⟩ rfl ?_
      rw [← ht, removeStaleFilesOf_content, if_neg]
      rintro ⟨-, hdir, -⟩
      exact absurd (FileType.dir_injective hdir) (by decide)
    have hproviders := foldl_providers_deletes env hooksDirIn t
      (entryInfoList env t.accounts .provider) fun name hname => eligible_of_mem hname
    obtain ⟨hdatabase, hidentities⟩ := foldl_applications env hooksDirIn
      (entryInfoList env (removeStaleFilesOf env hooksDirIn t .provider).accounts .application)
      (removeStaleFilesOf env hooksDirIn t .provider)
    have hlast : removeStaleFiles env hooksDirIn s = removeStaleFilesOf env hooksDirIn
        (removeStaleFilesOf env hooksDirIn t .provider) .application := by
      rw [← ht]
      rfl
    rw [hlast]
    refine (hproviders.congr fun p => ?_).of_eq hdatabase hidentities
    constructor
    · rintro ⟨name, hgone, heq⟩
      have hfound := (hstale name).mpr hgone
      exact ⟨name, (staleFile_iff.mp hfound).1, hfound, heq⟩
    · rintro ⟨name, -, hfound, heq⟩
      exact ⟨name, (hstale name).mp hfound, heq⟩

theorem process_identities (s : State) (hook : HookFile) :
    (process env s hook).identities = s.identities := by
  unfold process
  dsimp only
  split_ifs <;> rfl

theorem run_identities (s : State) :
    (run env hooksDirIn s).identities = (removeStaleFiles env hooksDirIn s).identities := by
  have hloop (hooks : List HookFile) (t : State) :
      (hooks.foldl (process env) t).identities = t.identities := by
    induction hooks generalizing t with
    | nil => rfl
    | cons hook hooks ih => exact (ih _).trans (process_identities t hook)
  exact hloop hooksDirIn.hooks _

theorem run_clears {s : State} (hnamed : WellNamed env hooksDirIn s.accounts.content) :
    ∃ t, Clears env (GoneService env hooksDirIn s.accounts.content) s t ∧
      Deletes env (GoneProvider env hooksDirIn s.accounts.content) t (run env hooksDirIn s) := by
  obtain ⟨t, hclears, hdeletes⟩ := removeStaleFiles_clears hnamed
  exact ⟨t, hclears, hdeletes.of_eq (run_cases s).2.1 (run_identities s)⟩

/-- A run keeps the service files named as the program names them, if paths lead to files with the
suffix that they end in. -/
theorem OwnNamed.run (hlocate : ∀ path : String, ∃ serviceId,
      env.locate (path ++ ".service") = serviceId ++ ".service") {s : State}
    (h : OwnNamed env s.accounts.content) :
    OwnNamed env (run env hooksDirIn s).accounts.content := by
  intro name c hc hown
  rw [run_content] at hc
  cases hwrite : Writes.lastWrite ((pending s.processed hooksDirIn.hooks).flatMap (changes env))
      ⟨"services", name⟩ with
  | none =>
      rw [hwrite, Option.getD_none] at hc
      rcases removeStaleFiles_content_cases env hooksDirIn s ⟨"services", name⟩ with
        ⟨-, hnone⟩ | ⟨-, hsame⟩
      · rw [hnone] at hc
        cases hc
      · rw [hsame] at hc
        exact h name c hc hown
  | some written =>
      rw [hwrite, Option.getD_some] at hc
      subst hc
      obtain ⟨hook, hpending, hchange⟩ :=
        List.mem_flatMap.mp (Writes.mem_of_lastWrite hwrite)
      have hhook : hook ∈ hooksDirIn.hooks := List.mem_of_mem_filter hpending
      refine ⟨?_, ?_⟩
      · have hname := forall_mem_changes env (P := fun file => file.dir = "services" →
          ∃ serviceId, file.name = serviceId ++ ".service")
          (fun json _ => hlocate _) (fun file hdir hservices => absurd hservices hdir) _ hchange
        exact hname rfl
      · obtain ⟨ok, -, hchange⟩ := changeOf_of_mem hchange
        rcases hchange with ⟨hlink, -⟩ | ⟨-, ⟨nodes, hnodes, hmarked⟩ | ⟨-, hnone | hempty⟩⟩
        · exact absurd (congrArg File.dir hlink) (show "services" ≠ "qml-plugins" by decide)
        · obtain rfl := Option.some.inj hnodes
          rw [show profile (Content.document nodes).nodes = hook.appId from hmarked.1]
          exact hooksDirIn.named hook hhook
        · cases hnone
        · obtain rfl := Option.some.inj hempty
          exact absurd hown Bool.false_ne_true

/-- So they are after any history of packages, if none of them was there at the start. -/
theorem wellNamed_of_reachable (hlocate : ∀ path : String, ∃ serviceId,
      env.locate (path ++ ".service") = serviceId ++ ".service") {start : State}
    (hstart : Blank env start) {guard : Session → HooksDir → Prop} {session : Session}
    (hr : Transition.Reachable (machine env start) guard session) (new : HooksDir) :
    WellNamed env new session.state.accounts.content := by
  have hown : OwnNamed env session.state.accounts.content := by
    refine hr.invariant (I := fun session => OwnNamed env session.state.accounts.content) ?_ ?_
    · intro name c hc hmark
      have hnone := hstart.files ⟨"services", name⟩
      unfold generated at hnone
      rw [show start.accounts.content ⟨"services", name⟩ = some c from hc] at hnone
      cases c with
      | document nodes =>
          have hgenerated : isGenerated env (.document nodes) = true := hmark
          simp [hgenerated] at hnone
      | link target => exact absurd hmark Bool.false_ne_true
    · rintro session dir session' h - hrun
      cases hrun
      exact h.run hlocate
  exact hown.wellNamed

/-! An application with one service has gone, and another one is there. -/

def oldApplication : HooksDir where
  hooks := [servicesFor "com.ubuntu.test_MyAcl_3.0" 10 ["example"]]
  named := by decide
  single := by decide
  foreign := foreign_nil

def newApplication : HooksDir where
  hooks := [servicesFor "com.ubuntu.other_Reader_1.0" 20 ["example"]]
  named := by decide
  single := by decide
  foreign := foreign_nil

/-- The files of the old application, and an account with its service. -/
def leftBehind : State :=
  { oneAccount ["com.ubuntu.test_MyAcl_3.0", "com.ubuntu.other_Reader_1.0"] with
    accounts := (run exampleServices oldApplication {}).accounts }

theorem wellNamed_leftBehind :
    WellNamed exampleServices newApplication leftBehind.accounts.content := by
  apply OwnNamed.wellNamed
  refine OwnNamed.run (s := {}) (fun path => ⟨path, rfl⟩) ?_
  intro name c hc _
  cases hc

theorem goneService_leftBehind : GoneService exampleServices newApplication
    leftBehind.accounts.content "com.ubuntu.test_MyAcl_example" "example"
    "com.ubuntu.test_MyAcl_3.0" where
  stale := staleFile_iff.mpr ⟨by decide +kernel, by decide +kernel⟩
  service := rfl
  own := by decide +kernel

/-- **What a run does to accounts and access control lists**, in whatever order it meets the files:
the services that have gone are disabled on every account that has them, the accounts of providers
that have gone are removed, and the tokens of the applications whose services have gone leave the
lists of the accounts that had the services. -/
theorem run_effects {s : State} (hnamed : WellNamed env hooksDirIn s.accounts.content) :
    (∀ id, (run env hooksDirIn s).database.accounts id = ((s.database.accounts id).map
      (withoutServices env (GoneService env hooksDirIn s.accounts.content) id)).bind
        (unlessRemoved env (GoneProvider env hooksDirIn s.accounts.content) id)) ∧
    ∀ c, (run env hooksDirIn s).identities c = (s.identities c).map
      (withoutRevoked env (GoneService env hooksDirIn s.accounts.content) s.database c) := by
  obtain ⟨t, hclears, hdeletes⟩ := run_clears hnamed
  refine ⟨?_, ?_⟩
  · intro id
    rw [hdeletes.accounts, hclears.accounts]
  · intro c
    rw [hdeletes.identities, hclears.identities]

theorem run_effects_leftBehind :
    (run exampleServices newApplication leftBehind).identities 25 =
      (leftBehind.identities 25).map (withoutRevoked exampleServices
        (GoneService exampleServices newApplication leftBehind.accounts.content)
        leftBehind.database 25) :=
  (run_effects wellNamed_leftBehind).2 25

/-- **Uninstalling**: after a run there is no stale file that can be removed, a service whose file
was stale is enabled on no account (unless that was not stored), the lists that were concerned have
no token of its application, and no account of a provider whose file was stale is left. -/
theorem uninstalled (hliteral : ∀ hook ∈ hooksDirIn.hooks, Wildcard.Literal hook.appId.toList)
    {s : State} (hnamed : WellNamed env hooksDirIn s.accounts.content) :
    (∀ file, ¬ Removed env hooksDirIn (run env hooksDirIn s).accounts.content file) ∧
    (∀ serviceId provider profile,
      GoneService env hooksDirIn s.accounts.content serviceId provider profile →
        (∀ id a, (run env hooksDirIn s).database.accounts id = some a →
          env.disables serviceId id = true → ¬ ServiceEnabled serviceId provider a) ∧
        ∀ c acl, Credentials env serviceId provider s.database c →
          (run env hooksDirIn s).identities c = some acl → ∀ token ∈ acl,
            ¬ IsTokenOf profile token) ∧
    ∀ provider, GoneProvider env hooksDirIn s.accounts.content provider → ∀ id a,
      (run env hooksDirIn s).database.accounts id = some a → env.removesAccount id = true →
        a.provider ≠ provider := by
  obtain ⟨t, hclears, hdeletes⟩ := run_clears hnamed
  have hkept : ∀ id a, (run env hooksDirIn s).database.accounts id = some a →
      t.database.accounts id = some a ∧
        ¬ (GoneProvider env hooksDirIn s.accounts.content a.provider ∧
          env.removesAccount id = true) := by
    intro id a ha
    rw [hdeletes.accounts] at ha
    obtain ⟨b, hb, hba⟩ := Option.bind_eq_some_iff.mp ha
    by_cases hgone : GoneProvider env hooksDirIn s.accounts.content b.provider ∧
        env.removesAccount id = true
    · rw [unlessRemoved_of_gone hgone.1 hgone.2] at hba
      cases hba
    · rw [unlessRemoved_of_not hgone] at hba
      cases hba
      exact ⟨hb, hgone⟩
  refine ⟨(removeStaleFiles_run hliteral s).1, ?_, ?_⟩
  · intro serviceId provider profile hgone
    refine ⟨?_, ?_⟩
    · intro id a ha hdisables henabled
      obtain ⟨hat, -⟩ := hkept id a ha
      rw [hclears.accounts] at hat
      obtain ⟨b, -, rfl⟩ := Option.map_eq_some_iff.mp hat
      obtain ⟨hbefore, hnot⟩ := serviceEnabled_withoutServices.mp henabled
      exact hnot ⟨provider, profile, hgone, hbefore, hdisables⟩
    · intro c acl hc hacl token htoken hown
      rw [hdeletes.identities, hclears.identities] at hacl
      obtain ⟨before, -, rfl⟩ := Option.map_eq_some_iff.mp hacl
      exact (mem_withoutRevoked.mp htoken).2
        ⟨serviceId, provider, profile, hgone, hc, hown.startsWith⟩
  · intro provider hgone id a ha hremoves hprovider
    exact (hkept id a ha).2 ⟨hprovider ▸ hgone, hremoves⟩

theorem uninstalled_leftBehind :
    ¬ ∃ acl, (run exampleServices newApplication leftBehind).identities 25 = some acl ∧
      "com.ubuntu.test_MyAcl_3.0" ∈ acl := by
  rintro ⟨acl, hacl, hmem⟩
  obtain ⟨-, hservices, -⟩ := uninstalled (by decide) wellNamed_leftBehind
  have hcredentials := credentials_oneAccount
    ["com.ubuntu.test_MyAcl_3.0", "com.ubuntu.other_Reader_1.0"]
  exact (hservices _ _ _ goneService_leftBehind).2 25 acl hcredentials hacl _ hmem rfl

/-- The manifest that is there is found by the files of any version of its application. -/
theorem any_accepts_hookFileName {hook : HookFile} (h : hook ∈ hooksDirIn.hooks)
    (hliteral : Wildcard.Literal hook.appId.toList) :
    hooksDirIn.entryList.any (Wildcard.accepts (hookFileName hook.appId)) = true := by
  -- the environment does not matter
  let env : Environment := {}
  have hmarked := (ManifestFile.ofHook env.toSurroundings hook).isMarked_applicationDocument env
  have hfound := not_isStale env h hliteral hmarked.1
  unfold isStale at hfound
  rw [hmarked.2, hmarked.1, Bool.true_and, Bool.not_eq_false'] at hfound
  exact hfound

/-- No service of an application that is there has gone. -/
theorem GoneService.ne_shortAppId {content : File → Option Content}
    {serviceId provider profile : String}
    (hgone : GoneService env hooksDirIn content serviceId provider profile) {hook : HookFile}
    (h : hook ∈ hooksDirIn.hooks) (hliteral : Wildcard.Literal hook.appId.toList) :
    stripVersion profile ≠ hook.shortAppId := by
  intro heq
  obtain ⟨c, hc, hstale⟩ := hgone.stale.stale
  have hown : AccountsHook.profile c.nodes = profile := by
    rw [← hgone.own]
    unfold nodesAt
    rw [show content ⟨"services", serviceId ++ ".service"⟩ = some c from hc]
    rfl
  have hname : hookFileName profile = hookFileName hook.appId := by
    unfold hookFileName
    rw [heq]
    rfl
  unfold isStale at hstale
  rw [hown, hname, any_accepts_hookFileName h hliteral, Bool.not_true, Bool.and_false] at hstale
  exact Bool.false_ne_true hstale

/-- **The applications that are there** keep their tokens in all lists, if no application that has
gone has an id that continues to one of theirs. -/
theorem installed_keep_tokens
    (hliteral : ∀ hook ∈ hooksDirIn.hooks, Wildcard.Literal hook.appId.toList)
    {s : State} (hnamed : WellNamed env hooksDirIn s.accounts.content) {hook : HookFile}
    (h : hook ∈ hooksDirIn.hooks)
    (hcontinues : ∀ serviceId provider profile,
      GoneService env hooksDirIn s.accounts.content serviceId provider profile →
        (stripVersion profile).toList <+: hook.shortAppId.toList →
          stripVersion profile = hook.shortAppId)
    {c : ℕ} {acl : List String} (hacl : s.identities c = some acl) {token : String}
    (htoken : token ∈ acl) (hown : IsTokenOf hook.appId token) :
    ∃ acl', (run env hooksDirIn s).identities c = some acl' ∧ token ∈ acl' := by
  obtain ⟨t, hclears, hdeletes⟩ := run_clears hnamed
  have hleft : (run env hooksDirIn s).identities c = some (withoutRevoked env
      (GoneService env hooksDirIn s.accounts.content) s.database c acl) := by
    rw [hdeletes.identities, hclears.identities, hacl]
    rfl
  refine ⟨_, hleft, mem_withoutRevoked.mpr ⟨htoken, ?_⟩⟩
  rintro ⟨serviceId, provider, profile, hgone, -, hstarts⟩
  have hprofile : (split '_' profile).length = 3 := by
    rw [← hgone.own]
    exact (hnamed _ hgone.stale).2
  apply hgone.ne_shortAppId h (hliteral hook h)
  apply hcontinues serviceId provider profile hgone
  exact prefix_of_prefix_token (count_stripVersion hprofile).1 (hooksDirIn.named hook h) hown
    (ApplicationManager.startsWith_iff.mp hstarts)

theorem installed_keep_tokens_leftBehind : ∃ acl',
    (run exampleServices newApplication leftBehind).identities 25 = some acl' ∧
      "com.ubuntu.other_Reader_1.0" ∈ acl' := by
  refine installed_keep_tokens (by decide) wellNamed_leftBehind (List.mem_singleton.mpr rfl) ?_ rfl
    (show _ ∈ ["com.ubuntu.test_MyAcl_3.0", "com.ubuntu.other_Reader_1.0"] by decide) rfl
  intro serviceId provider profile hgone hstarts
  have hname : serviceId ++ ".service" ∈ ["com.ubuntu.test_MyAcl_example.service"] := by
    have hlisted := (staleFile_iff.mp hgone.stale).1
    have hall : entryInfoList exampleServices leftBehind.accounts .service =
        ["com.ubuntu.test_MyAcl_example.service"] := by decide +kernel
    rwa [hall] at hlisted
  have hprofile : profile = "com.ubuntu.test_MyAcl_3.0" := by
    rw [← hgone.own, List.mem_singleton.mp hname]
    exact goneService_leftBehind.own
  rw [hprofile] at hstarts
  exact absurd hstarts (by decide)

end

end AccountsHook

end OnlineAccounts
