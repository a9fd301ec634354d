import OnlineAccounts.AccountsHook

/-! # Disabling a service

When an application has gone, `disableService` disables its service on the accounts, and
`AclUpdater` takes the application out of the access control lists of their credentials.  The
tokens of the application with the profile `package_app_version` are `package_app` and
`package_app_<version>`.

`AclUpdater::onInfo` takes every token that starts with `package_app`, and so the tokens of
`package_apple` too.  Only the application is touched exactly if the lists have no such token
(`disables_only_iff`). -/

namespace OnlineAccounts

/-! ### Tokens -/

theorem splitOn_length (sep : Char) (cs : List Char) :
    (cs.splitOn sep).length = cs.count sep + 1 := by
  induction cs with
  | nil => rfl
  | cons c cs ih =>
      rw [List.splitOn_cons_eq_if_modifyHead]
      by_cases hc : c = sep
      · simp [hc, ih]
      · simp [hc, ih]

theorem split_length (sep : Char) (s : String) :
    (split sep s).length = s.toList.count sep + 1 := by
  rw [split, List.length_map, splitOn_length]

theorem count_stripVersion {profile : String} (h : (split '_' profile).length = 3) :
    (stripVersion profile).toList.count '_' = 1 ∧
      ∃ version, '_' ∉ version ∧ profile.toList = (stripVersion profile).toList ++ '_' :: version := by
  obtain ⟨version, hversion⟩ := exists_of_components h
  have htwo : profile.toList.count '_' = 2 := by
    rw [split_length] at h
    omega
  have hone : 0 < (stripVersion profile).toList.count '_' := by
    obtain ⟨package, app, version', hsplit⟩ := List.length_eq_three.mp h
    unfold stripVersion
    rw [if_neg (by simp [h]), hsplit]
    simp [join, List.intercalate]
  rw [hversion, List.count_append, List.count_cons_self] at htwo
  refine ⟨by omega, version, ?_, hversion⟩
  exact List.count_eq_zero.mp (by omega)

theorem stripVersion_append {shortAppId version : String}
    (hshort : shortAppId.toList.count '_' = 1) (hversion : '_' ∉ version.toList) :
    stripVersion (shortAppId ++ "_" ++ version) = shortAppId := by
  have hsplit : split '_' (shortAppId ++ "_" ++ version) = split '_' shortAppId ++ [version] := by
    have hlist : (shortAppId ++ "_" ++ version).toList =
        shortAppId.toList ++ '_' :: version.toList := by simp
    unfold split
    rw [hlist, List.splitOn_append_cons_self, List.splitOn_eq_singleton hversion]
    simp
  have hlength : (split '_' shortAppId).length = 2 := by rw [split_length, hshort]
  unfold stripVersion
  rw [hsplit, if_neg (by simp [hlength]), List.dropLast_concat, join_split]

/-- The token is one of the application with this profile. -/
def IsTokenOf (profile token : String) : Prop := stripVersion token = stripVersion profile

instance (profile token : String) : Decidable (IsTokenOf profile token) :=
  inferInstanceAs (Decidable (_ = _))

/-- The tokens of an application are `package_app` and `package_app_<version>`. -/
theorem isTokenOf_iff {profile : String} (h : (split '_' profile).length = 3) (token : String) :
    IsTokenOf profile token ↔ token = stripVersion profile ∨
      ∃ version : String, '_' ∉ version.toList ∧ token = stripVersion profile ++ "_" ++ version := by
  obtain ⟨hshort, -⟩ := count_stripVersion h
  unfold IsTokenOf
  constructor
  · intro htoken
    by_cases hparts : (split '_' token).length = 3
    · obtain ⟨-, version, hversion, hlist⟩ := count_stripVersion hparts
      rw [htoken] at hlist
      refine .inr ⟨String.ofList version, by simpa using hversion, ?_⟩
      apply String.toList_injective
      rw [hlist]
      simp
    · left
      rw [← htoken, stripVersion, if_pos hparts]
  · rintro (rfl | ⟨version, hversion, rfl⟩)
    · rw [stripVersion, if_pos]
      rw [split_length, hshort]
      decide
    · exact stripVersion_append hshort hversion

theorem IsTokenOf.startsWith {profile token : String} (h : IsTokenOf profile token) :
    ApplicationManager.startsWith token (stripVersion profile) = true := by
  rw [ApplicationManager.startsWith_iff, ← h]
  exact stripVersion_prefix token

/-- The id of an application that a token starts with is where the token's own id starts. -/
theorem prefix_of_prefix_token {start appId token : String} (hstart : start.toList.count '_' = 1)
    (happId : (split '_' appId).length = 3) (hown : IsTokenOf appId token)
    (h : start.toList <+: token.toList) : start.toList <+: (stripVersion appId).toList := by
  rcases (isTokenOf_iff happId token).mp hown with rfl | ⟨version, -, rfl⟩
  · exact h
  · have hshort : (stripVersion appId).toList <+:
        (stripVersion appId ++ "_" ++ version).toList := by
      rw [String.toList_append, String.toList_append, List.append_assoc]
      exact List.prefix_append _ _
    rcases List.prefix_or_prefix_of_prefix h hshort with hstarts | ⟨rest, hrest⟩
    · exact hstarts
    · rw [← hrest, String.toList_append, String.toList_append, List.append_assoc,
        List.prefix_append_right_inj] at h
      cases rest with
      | nil =>
          rw [← hrest, List.append_nil]
      | cons c rest =>
          -- the id would have two underscores
          have hc : c = '_' := (List.cons_prefix_cons.mp h).1
          have hone := (count_stripVersion happId).1
          rw [← hrest, List.count_append, hc, List.count_cons_self] at hstart
          omega

namespace AccountsHook

open Accounts

variable {env : Environment} {serviceId provider profile : String}

/-! ### One account -/

/-- The service is enabled on an account of its provider. -/
def OnAccount (serviceId provider : String) (a : StoredAccount) : Prop :=
  a.provider = provider ∧ a.settings (some serviceId, "enabled") = some (.bool true)

instance (a : StoredAccount) : Decidable (OnAccount serviceId provider a) :=
  inferInstanceAs (Decidable (_ ∧ _))

/-- The account with the service disabled. -/
def withoutService (serviceId : String) (a : StoredAccount) : StoredAccount :=
  { a with settings := Function.update a.settings (some serviceId, "enabled") (some (.bool false)) }

/-- The account after the loop: the service is disabled if it was enabled, and that is stored. -/
def afterDisable (env : Environment) (serviceId provider : String) (id : ℕ) (a : StoredAccount) :
    StoredAccount :=
  if OnAccount serviceId provider a ∧ env.disables serviceId id = true then
    withoutService serviceId a
  else a

/-- `credentialsId()` of a stored account. -/
def credentialsOf (a : StoredAccount) : ℕ :=
  ((a.settings (none, "CredentialsId")).map QVariant.toUInt).getD 0

/-- What `AclUpdater::onInfo` leaves of an access control list. -/
def withoutApp (profile : String) (acl : List String) : List String :=
  acl.filter fun token => !ApplicationManager.startsWith token (stripVersion profile)

theorem withoutApp_withoutApp (acl : List String) :
    withoutApp profile (withoutApp profile acl) = withoutApp profile acl := by
  simp [withoutApp, List.filter_filter]

/-- The credentials are those of an account in the list, and signond has the last word. -/
def Concerned (env : Environment) (serviceId provider : String) (db : Database) (ids : List ℕ)
    (c : ℕ) : Prop :=
  c ≠ 0 ∧ env.signond c = true ∧
    ∃ id ∈ ids, ∃ a, db.accounts id = some a ∧ OnAccount serviceId provider a ∧ credentialsOf a = c

/-- What the loop has done for the accounts of the list. -/
structure Disabled (env : Environment) (serviceId provider profile : String) (ids : List ℕ)
    (s t : State) : Prop where
  database : ∀ id, t.database.accounts id =
    if id ∈ ids then (s.database.accounts id).map (afterDisable env serviceId provider id)
    else s.database.accounts id
  concerned : ∀ c, Concerned env serviceId provider s.database ids c →
    t.identities c = (s.identities c).map (withoutApp profile)
  others : ∀ c, ¬ Concerned env serviceId provider s.database ids c →
    t.identities c = s.identities c
  accounts : t.accounts = s.accounts
  processed : t.processed = s.processed

theorem Disabled.nil (s : State) : Disabled env serviceId provider profile [] s s where
  database _ := rfl
  concerned _ h := by
    obtain ⟨-, -, id, hid, -⟩ := h
    cases hid
  others _ _ := rfl
  accounts := rfl
  processed := rfl

theorem disableOn_skip {s : State} {id : ℕ}
    (h : ∀ a, s.database.accounts id = some a → ¬ OnAccount serviceId provider a) :
    disableOn env serviceId provider profile s id = s := by
  cases ha : s.database.accounts id with
  | none => exact disableOn_none ha
  | some a => exact (disableOn_some ha).trans (if_neg (h a ha))

/-- `removeApp` filters the list of an identity that signond has. -/
theorem removeApp_eq (hshort : '_' ∈ (stripVersion profile).toList) (credentialsId c : ℕ)
    (identities : ℕ → Option (List String)) :
    removeApp env (stripVersion profile) credentialsId identities c =
      if c = credentialsId ∧ c ≠ 0 ∧ env.signond c = true then
        (identities c).map (withoutApp profile)
      else identities c := by
  unfold removeApp
  by_cases hskip : credentialsId = 0 ∨ '_' ∉ (stripVersion profile).toList ∨
      env.signond credentialsId = false
  · rw [if_pos hskip, if_neg]
    rintro ⟨rfl, hne, hsignond⟩
    simp [hne, hshort, hsignond] at hskip
  · rw [if_neg hskip]
    simp only [not_or, Bool.not_eq_false] at hskip
    by_cases hc : c = credentialsId
    · subst hc
      rw [if_pos ⟨rfl, hskip.1, hskip.2.2⟩]
      cases hacl : identities c with
      | none => simp [hacl]
      | some acl => simp [withoutApp]
    · rw [if_neg (fun h => hc h.1)]
      cases identities credentialsId with
      | none => rfl
      | some acl => exact Function.update_of_ne hc _ _

theorem disabled_single (hshort : '_' ∈ (stripVersion profile).toList) (s : State) (id : ℕ) :
    Disabled env serviceId provider profile [id] s
      (disableOn env serviceId provider profile s id) := by
  by_cases hon : ∃ a, s.database.accounts id = some a ∧ OnAccount serviceId provider a
  · obtain ⟨a, ha, hon⟩ := hon
    have hconcerned (c : ℕ) : Concerned env serviceId provider s.database [id] c ↔
        c = credentialsOf a ∧ c ≠ 0 ∧ env.signond c = true := by
      unfold Concerned
      simp only [List.mem_singleton, exists_eq_left, ha, Option.some.injEq]
      constructor
      · rintro ⟨hne, hsignond, b, rfl, -, hc⟩
        exact ⟨hc.symm, hne, hsignond⟩
      · rintro ⟨hc, hne, hsignond⟩
        exact ⟨hne, hsignond, a, rfl, hon, hc.symm⟩
    have hround : disableOn env serviceId provider profile s id = _ :=
      (disableOn_some ha).trans (if_pos hon)
    rw [hround]
    refine ⟨?_, ?_, ?_, rfl, rfl⟩
    · intro id'
      dsimp only
      by_cases hid : id' = id
      · subst hid
        rw [if_pos (List.mem_singleton.mpr rfl), ha, Option.map_some, afterDisable]
        by_cases hstored : env.disables serviceId id' = true
        · rw [if_pos hstored, if_pos ⟨hon, hstored⟩, env.library.sync_setEnabled ha,
            Function.update_self]
          rfl
        · rw [if_neg hstored, if_neg (fun h => hstored h.2), ha]
      · rw [if_neg (fun h => hid (List.mem_singleton.mp h))]
        split_ifs
        · rw [env.library.sync_setEnabled ha, Function.update_of_ne hid]
        · rfl
    · intro c hc
      dsimp only
      rw [removeApp_eq hshort]
      exact if_pos ((hconcerned c).mp hc)
    · intro c hc
      dsimp only
      rw [removeApp_eq hshort]
      exact if_neg fun h => hc ((hconcerned c).mpr h)
  · have hskip : ∀ a, s.database.accounts id = some a → ¬ OnAccount serviceId provider a :=
      fun a ha h => hon ⟨a, ha, h⟩
    rw [disableOn_skip hskip]
    refine ⟨?_, ?_, fun _ _ => rfl, rfl, rfl⟩
    · intro id'
      split_ifs with hid
      · rw [List.mem_singleton.mp hid]
        cases ha : s.database.accounts id with
        | none => rfl
        | some a =>
            rw [Option.map_some, afterDisable, if_neg]
            exact fun h => hskip a ha h.1
      · rfl
    · rintro c ⟨-, -, id', hid, a, ha, h, -⟩
      rw [List.mem_singleton.mp hid] at ha
      exact absurd h (hskip a ha)

/-! ### The loop -/

theorem Disabled.append {ids ids' : List ℕ} {s t u : State} (hdisjoint : ∀ id ∈ ids', id ∉ ids)
    (h : Disabled env serviceId provider profile ids s t)
    (h' : Disabled env serviceId provider profile ids' t u) :
    Disabled env serviceId provider profile (ids ++ ids') s u := by
  have hlater (c : ℕ) : Concerned env serviceId provider t.database ids' c ↔
      Concerned env serviceId provider s.database ids' c := by
    refine and_congr_right fun _ => and_congr_right fun _ => exists_congr fun id =>
      and_congr_right fun hid => ?_
    rw [h.database, if_neg (hdisjoint id hid)]
  have happend (c : ℕ) : Concerned env serviceId provider s.database (ids ++ ids') c ↔
      Concerned env serviceId provider s.database ids c ∨
        Concerned env serviceId provider s.database ids' c := by
    unfold Concerned
    simp only [List.mem_append, or_and_right, exists_or, and_or_left]
  refine ⟨?_, ?_, ?_, h'.accounts.trans h.accounts, h'.processed.trans h.processed⟩
  · intro id
    rw [h'.database, h.database]
    by_cases hid : id ∈ ids'
    · simp [hid, hdisjoint id hid]
    · simp [hid]
  · intro c hc
    by_cases hconcerned' : Concerned env serviceId provider s.database ids' c
    · rw [h'.concerned c ((hlater c).mpr hconcerned')]
      by_cases hconcerned : Concerned env serviceId provider s.database ids c
      · -- the credentials of two accounts: the second time changes nothing
        rw [h.concerned c hconcerned, Option.map_map]
        congr 1
        funext acl
        exact withoutApp_withoutApp acl
      · rw [h.others c hconcerned]
    · rw [h'.others c (mt (hlater c).mp hconcerned')]
      obtain hconcerned | hconcerned := (happend c).mp hc
      · exact h.concerned c hconcerned
      · exact absurd hconcerned hconcerned'
  · intro c hc
    rw [happend, not_or] at hc
    rw [h'.others c (mt (hlater c).mp hc.2), h.others c hc.1]

theorem disabled_foldl (hshort : '_' ∈ (stripVersion profile).toList) (s : State) (ids : List ℕ)
    (hnd : ids.Nodup) : Disabled env serviceId provider profile ids s
      (ids.foldl (disableOn env serviceId provider profile) s) := by
  induction ids using List.reverseRecOn with
  | nil => exact .nil s
  | append_singleton ids id ih =>
      rw [List.nodup_append] at hnd
      rw [List.foldl_append]
      refine Disabled.append ?_ (ih hnd.1) (disabled_single hshort _ id)
      intro id' hid' hmem
      exact hnd.2.2 id' hmem id' hid' rfl

/-! ### The whole program step -/

/-- An enabled account of the provider of the service, with the service enabled. -/
def ServiceEnabled (serviceId provider : String) (a : StoredAccount) : Prop :=
  a.settings (none, "enabled") = some (.bool true) ∧ OnAccount serviceId provider a

instance (a : StoredAccount) : Decidable (ServiceEnabled serviceId provider a) :=
  inferInstanceAs (Decidable (_ ∧ _))

/-- The access control lists to be changed: those of the credentials of such an account, if
signond answers. -/
def Credentials (env : Environment) (serviceId provider : String) (db : Database) (c : ℕ) : Prop :=
  c ≠ 0 ∧ env.signond c = true ∧
    ∃ id a, db.accounts id = some a ∧ ServiceEnabled serviceId provider a ∧ credentialsOf a = c

/-- From `s` to `t`, the service was disabled where it was enabled (and where that is stored), and
the tokens of its application have left the lists of the credentials; all else is as it was. -/
structure DisablesOnly (env : Environment) (serviceId provider profile : String) (s t : State) :
    Prop where
  database : ∀ id, t.database.accounts id = (s.database.accounts id).map fun a =>
    if ServiceEnabled serviceId provider a ∧ env.disables serviceId id = true then
      withoutService serviceId a
    else a
  credentials : ∀ c, Credentials env serviceId provider s.database c →
    t.identities c = (s.identities c).map fun acl => acl.filter fun token => ¬ IsTokenOf profile token
  others : ∀ c, ¬ Credentials env serviceId provider s.database c → t.identities c = s.identities c
  accounts : t.accounts = s.accounts
  processed : t.processed = s.processed

/-- Every token that starts like those of the application is its own. -/
def OwnTokens (env : Environment) (serviceId provider profile : String) (s : State) : Prop :=
  ∀ c acl, Credentials env serviceId provider s.database c → s.identities c = some acl →
    ∀ token ∈ acl, ApplicationManager.startsWith token (stripVersion profile) = true →
      IsTokenOf profile token

theorem concerned_iff (db : Database) (c : ℕ) :
    Concerned env serviceId provider db (env.library.accountListEnabled db) c ↔
      Credentials env serviceId provider db c := by
  refine and_congr_right fun _ => and_congr_right fun _ => exists_congr fun id => ?_
  rw [env.library.mem_accountListEnabled]
  constructor
  · rintro ⟨⟨b, hb, henabled⟩, a, ha, hon, hc⟩
    obtain rfl := Option.some.inj (hb.symm.trans ha)
    exact ⟨b, ha, ⟨henabled, hon⟩, hc⟩
  · rintro ⟨a, ha, ⟨henabled, hon⟩, hc⟩
    exact ⟨⟨a, ha, henabled⟩, a, ha, hon, hc⟩

theorem disableService_disabled (hprofile : (split '_' profile).length = 3) (s : State)
    (hservice : env.service serviceId (s.accounts.content ⟨"services", serviceId ++ ".service"⟩) =
      some provider) :
    Disabled env serviceId provider profile (env.library.accountListEnabled s.database) s
      (disableService env serviceId profile s) := by
  have hshort : '_' ∈ (stripVersion profile).toList := by
    rw [← List.count_pos_iff, (count_stripVersion hprofile).1]
    exact Nat.one_pos
  unfold disableService
  rw [hservice]
  exact disabled_foldl hshort s _ (env.library.nodup_accountListEnabled s.database)

/-- The list without the tokens of the application is the one that the updater leaves exactly if
the tokens that start like them are among them. -/
theorem withoutApp_eq_iff (acl : List String) :
    withoutApp profile acl = acl.filter (fun token => ¬ IsTokenOf profile token) ↔
      ∀ token ∈ acl, ApplicationManager.startsWith token (stripVersion profile) = true →
        IsTokenOf profile token := by
  unfold withoutApp
  constructor
  · intro heq token hmem hstarts
    by_contra hforeign
    have hkept : token ∈ acl.filter fun token => ¬ IsTokenOf profile token := by
      rw [List.mem_filter]
      exact ⟨hmem, decide_eq_true hforeign⟩
    rw [← heq, List.mem_filter, hstarts] at hkept
    exact Bool.false_ne_true hkept.2
  · intro hown
    refine List.filter_congr fun token hmem => ?_
    by_cases htoken : IsTokenOf profile token
    · simp [htoken, htoken.startsWith]
    · have hnot := mt (hown token hmem) htoken
      simp [htoken, hnot]

theorem DisablesOnly.ownTokens {s t : State} (h : DisablesOnly env serviceId provider profile s t)
    (hdisabled :
      Disabled env serviceId provider profile (env.library.accountListEnabled s.database) s t) :
    OwnTokens env serviceId provider profile s := by
  intro c acl hc hacl
  have hleft := (hdisabled.concerned c ((concerned_iff _ c).mpr hc)).symm.trans (h.credentials c hc)
  rw [hacl] at hleft
  exact (withoutApp_eq_iff acl).mp (Option.some.inj hleft)

/-- **Disabling a service** of the application with the profile `package_app_version` touches only
the application exactly if all tokens that start with `package_app` in the lists of the credentials
are its own. -/
theorem disables_only_iff (env : Environment) (serviceId : String) {provider profile : String}
    (hprofile : (split '_' profile).length = 3) (s : State)
    (hservice : env.service serviceId (s.accounts.content ⟨"services", serviceId ++ ".service"⟩) =
      some provider) :
    DisablesOnly env serviceId provider profile s (disableService env serviceId profile s) ↔
      OwnTokens env serviceId provider profile s := by
  have hdisabled := disableService_disabled hprofile s hservice
  constructor
  · exact fun h => h.ownTokens hdisabled
  · intro hown
    refine ⟨?_, ?_, ?_, hdisabled.accounts, hdisabled.processed⟩
    · intro id
      rw [hdisabled.database]
      cases ha : s.database.accounts id with
      | none => simp
      | some a =>
          have hlisted : id ∈ env.library.accountListEnabled s.database ↔
              a.settings (none, "enabled") = some (.bool true) := by
            rw [env.library.mem_accountListEnabled]
            simp [ha]
          by_cases henabled : a.settings (none, "enabled") = some (.bool true)
          · rw [if_pos (hlisted.mpr henabled)]
            simp [afterDisable, ServiceEnabled, henabled]
          · rw [if_neg (mt hlisted.mp henabled), Option.map_some, if_neg (fun h => henabled h.1.1)]
    · intro c hc
      rw [hdisabled.concerned c ((concerned_iff _ c).mpr hc)]
      cases hacl : s.identities c with
      | none => rfl
      | some acl =>
          rw [Option.map_some, Option.map_some, (withoutApp_eq_iff acl).mpr (hown c acl hc hacl)]
    · intro c hc
      exact hdisabled.others c (mt (concerned_iff _ c).mp hc)

/-- An enabled account with the credentials 25, and the given list for these. -/
def oneAccount (acl : List String) : State where
  database := .ofList [{
    provider := "example"
    settings := fun key =>
      if key = (none, "CredentialsId") then some (.uint 25)
      else if key = (none, "enabled") ∨ key = (some "com.ubuntu.test_MyAcl_example", "enabled") then
        some (.bool true)
      else none }]
  identities := fun c => if c = 25 then some acl else none

/-- All services are those of one provider. -/
def exampleServices : Environment where
  service := fun _ _ => some "example"

theorem credentials_oneAccount (acl : List String) :
    Credentials exampleServices "com.ubuntu.test_MyAcl_example" "example"
      (oneAccount acl).database 25 := by
  refine ⟨by decide, rfl, 1, _, rfl, ⟨?_, rfl, ?_⟩, ?_⟩
  · decide
  · decide
  · decide

/-- Two tokens of the application among others. -/
theorem disables_only_iff_old_tokens :
    DisablesOnly exampleServices "com.ubuntu.test_MyAcl_example" "example"
        "com.ubuntu.test_MyAcl_3.0"
        (oneAccount ["one", "com.ubuntu.test_MyAcl_0.1", "two_click", "com.ubuntu.test_MyAcl"])
        (disableService exampleServices "com.ubuntu.test_MyAcl_example" "com.ubuntu.test_MyAcl_3.0"
          (oneAccount ["one", "com.ubuntu.test_MyAcl_0.1", "two_click", "com.ubuntu.test_MyAcl"])) ↔
      OwnTokens exampleServices "com.ubuntu.test_MyAcl_example" "example"
        "com.ubuntu.test_MyAcl_3.0"
        (oneAccount ["one", "com.ubuntu.test_MyAcl_0.1", "two_click", "com.ubuntu.test_MyAcl"]) :=
  disables_only_iff exampleServices "com.ubuntu.test_MyAcl_example" (by decide) _ rfl

/-- The removal of `com.ubuntu.test_MyAcl` revokes the access of `com.ubuntu.test_MyAclPlus`. -/
theorem disabling_revokes_another :
    ¬ DisablesOnly exampleServices "com.ubuntu.test_MyAcl_example" "example"
      "com.ubuntu.test_MyAcl_3.0" (oneAccount ["com.ubuntu.test_MyAclPlus_1.0"])
      (disableService exampleServices "com.ubuntu.test_MyAcl_example" "com.ubuntu.test_MyAcl_3.0"
        (oneAccount ["com.ubuntu.test_MyAclPlus_1.0"])) := by
  intro h
  have hown := h.ownTokens (disableService_disabled (by decide) _ rfl)
  have htoken := hown 25 ["com.ubuntu.test_MyAclPlus_1.0"] (credentials_oneAccount _) rfl
    "com.ubuntu.test_MyAclPlus_1.0" List.mem_cons_self (by decide)
  revert htoken
  decide

end AccountsHook

end OnlineAccounts
