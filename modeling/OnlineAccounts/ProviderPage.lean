import OnlineAccounts.ProviderOutcome
import OnlineAccounts.Transition

/-! # The page of a provider request

`ProviderRequest.qml` asks the user for an account and then prepares it for the application: the
profile of the application is put into the access control list of the credentials, the services of
the application are enabled on the account, and only then `request.allow` is called.  Each of these
writes is answered later, and the user goes on clicking in between.

The elements `Account`, `AccountService`, `Credentials` and `AccountServiceModel` come from outside.
What the page relies on: `credentialsSynced` ends a load or a store of the credentials, and another
credentials id starts a new load in place of what was under way, while a store that had been sent
may still arrive; `accountSynced` ends a store of an account.  The lists belong to credentials,
which accounts may share.

`consent_before_change` says that nothing is changed for an account that the user has not chosen,
and `allowed_is_prepared` that an account is only handed out when everything has been stored,
provided that no second account is taken while the first one is being stored.  An account without
credentials never gets there (`choice_completes_iff`). -/

namespace OnlineAccounts

open Transition

/-- What the page shows is about. -/
structure ProviderPage.Subject where
  /-- The request has been started for this application and this provider. -/
  started : ProviderRequest.Started
  isSingleAccount : Bool := false
  /-- The credentials id of the global service of an account, `0` if there is none. -/
  credentialsId : ℕ → ℕ
  /-- The services of an account, as the `AccountServiceModel` lists them. -/
  services : ℕ → List String
  /-- The rows that the access model lists for an application with an id. -/
  accepts : ℕ → Bool := fun _ => true

/-- What is stored outside of the page. -/
structure ProviderPage.Stored where
  /-- The access control list of credentials. -/
  acl : ℕ → List String := fun _ => []
  /-- Whether a service is enabled on an account. -/
  enabled : ℕ → String → Bool := fun _ _ => false

namespace ProviderPage

/-- What the loader of the main page has loaded. -/
inductive Component where
  | none | accountCreationPage | authorizationPage | spinner
deriving DecidableEq

/-- What the `Credentials` element is doing. -/
inductive Pending where
  | load | store
deriving DecidableEq

end ProviderPage

structure ProviderPage where
  running : ProviderRequest.Running
  /-- The rows of `accountsModel` when `Component.onCompleted` has run. -/
  completed : Option (List ℕ) := none
  /-- The rows of `accountsModel`. -/
  accounts : List ℕ := []
  createdAccountId : ℕ := 0
  component : ProviderPage.Component := .none
  /-- A second page for a new account has been pushed. -/
  creating : Bool := false
  /-- The account of the handle. -/
  account : Option ℕ := none
  /-- `acl` of the credentials. -/
  acl : List String := []
  pending : Option ProviderPage.Pending := none
  /-- Lists of other credentials that were being stored when these were taken. -/
  overtaken : List (ℕ × List String) := []
  /-- The services that are enabled in the account objects, whether this is stored or not. -/
  enabled : ℕ → String → Bool
  /-- The accounts that are being stored. -/
  syncing : List ℕ := []
  stored : ProviderPage.Stored
  /-- The accounts that the user has chosen or created here. -/
  chosen : List ℕ := []

namespace ProviderPage

inductive Event where
  /-- `Component.onCompleted`. -/
  | completed
  | sourceLoaded
  /-- The user closes the window. -/
  | closed
  /-- The rows of `accountsModel` change, and their number. -/
  | accountsChanged (accounts : List ℕ)
  | allowClicked (accountId : ℕ)
  /-- The user clicks on Allow when the selected row is not there (any more). -/
  | allowClickedWithoutRow
  | denyClicked
  | createClicked
  /-- A page for a new account has finished. -/
  | creationFinished (accountId : ℕ)
  | credentialsSynced
  /-- A store that nobody waits for any more arrives. -/
  | overtakenStored (credentialsId : ℕ) (acl : List String)
  | accountSynced (accountId : ℕ)

variable (subject : Subject)

namespace Subject

def applicationInfo : ApplicationManager.ApplicationInfo := subject.started.applicationInfo

/-- The rows of the access model. -/
def accessible (accounts : List ℕ) : List ℕ :=
  if subject.applicationInfo.id = "" then accounts else accounts.filter subject.accepts

def canCreateAccounts (accounts : List ℕ) : Bool := !subject.isSingleAccount || accounts.isEmpty

/-- The credentials id of the account of the handle. -/
def credentialsOf (account : Option ℕ) : ℕ := (account.map subject.credentialsId).getD 0

end Subject

/-- `request.allow(accountId)`. -/
def allow (accountId : ℕ) (page : ProviderPage) : ProviderPage :=
  { page with running := page.running.allow accountId }

def deny (page : ProviderPage) : ProviderPage := { page with running := page.running.deny }

/-- `account.objectHandle = handle`: other credentials are loaded. -/
def setAccount (accountId : ℕ) (page : ProviderPage) : ProviderPage :=
  let old := subject.credentialsOf page.account
  let new := subject.credentialsId accountId
  if new = old then { page with account := some accountId }
  else { page with
    account := some accountId
    pending := if new = 0 then none else some .load
    overtaken :=
      if page.pending = some .store then (old, page.acl) :: page.overtaken else page.overtaken }

def grantAccess (accountId : ℕ) (page : ProviderPage) : ProviderPage :=
  if accountId ∈ page.accounts then page.setAccount subject accountId else page.deny

def grantAccessIfReady (page : ProviderPage) : ProviderPage :=
  if page.createdAccountId ≠ 0 then
    if subject.applicationInfo.id = "system-settings" then
      { page.allow page.createdAccountId with component := .spinner }
    else if page.createdAccountId ∈ page.accounts then
      { page.grantAccess subject page.createdAccountId with createdAccountId := 0 }
    else page
  else page

/-- `aclDone()`, for the account of the handle. -/
def aclDone (page : ProviderPage) : ProviderPage :=
  match page.account with
  | none => page
  | some accountId =>
      { page with
        enabled := Function.update page.enabled accountId fun service =>
          page.enabled accountId service ||
            (subject.services accountId).contains service &&
              subject.applicationInfo.services.contains service
        syncing := page.syncing ++ [accountId] }

/-- `onSynced` of the credentials. -/
def onCredentialsSynced (page : ProviderPage) : ProviderPage :=
  if subject.applicationInfo.profile ∈ page.acl then page.aclDone subject
  else { page with
    acl := page.acl ++ [subject.applicationInfo.profile]
    pending := some .store }

/-- `Component.onCompleted`. -/
def onCompleted (page : ProviderPage) : ProviderPage :=
  let count := (subject.accessible page.accounts).length
  let canCreateAccounts := subject.canCreateAccounts page.accounts
  if count = 0 ∧ !canCreateAccounts then page.deny
  else if subject.applicationInfo.id = "" ∧ count = 1 ∧
      subject.applicationInfo.profile = "unconfined" then page.allow (page.accounts.headD 0)
  else { page with
    component := if (count = 0 ∧ canCreateAccounts) ∨
        subject.applicationInfo.id = "system-settings" then .accountCreationPage
      else .authorizationPage }

/-- `accountEnablingDone()`. -/
def accountEnablingDone (page : ProviderPage) : ProviderPage :=
  { page.allow (page.account.getD 0) with component := .spinner }

/-- The list of some credentials is replaced. -/
def storeAcl (credentialsId : ℕ) (acl : List String) (page : ProviderPage) : ProviderPage :=
  { page with
    stored := { page.stored with acl := Function.update page.stored.acl credentialsId acl } }

/-- An event that cannot happen in a state changes nothing. -/
def step (page : ProviderPage) : Event → ProviderPage
  | .completed => match page.completed with
    | none => { page with completed := some page.accounts }.onCompleted subject
    | some _ => page
  | .sourceLoaded => { page with running := page.running.step .sourceLoaded }
  | .closed => { page with running := page.running.step .closed }
  | .accountsChanged accounts => { page with accounts := accounts }.grantAccessIfReady subject
  | .allowClicked accountId =>
      if page.component = .authorizationPage ∧ accountId ∈ subject.accessible page.accounts then
        { page with chosen := accountId :: page.chosen }.grantAccess subject accountId
      else page
  -- `get` gives `undefined`, which is the id 0 of no account
  | .allowClickedWithoutRow =>
      if page.component = .authorizationPage ∧ 0 ∉ page.accounts then page.grantAccess subject 0
      else page
  | .denyClicked => if page.component = .authorizationPage then page.deny else page
  | .createClicked =>
      if page.component = .authorizationPage ∧ subject.canCreateAccounts page.accounts then
        { page with creating := true }
      else page
  | .creationFinished accountId =>
      if page.component = .accountCreationPage ∨ page.creating then
        if accountId = 0 then page.deny
        else if accountId = page.createdAccountId then page
        else
          { page with
            chosen := accountId :: page.chosen
            createdAccountId := accountId }.grantAccessIfReady subject
      else page
  | .credentialsSynced => match page.pending with
    | none => page
    | some .load =>
        { page with
          acl := page.stored.acl (subject.credentialsOf page.account)
          pending := none }.onCredentialsSynced subject
    | some .store =>
        { page.storeAcl (subject.credentialsOf page.account) page.acl with
          pending := none }.onCredentialsSynced subject
  | .overtakenStored credentialsId acl =>
      if (credentialsId, acl) ∈ page.overtaken then
        { page.storeAcl credentialsId acl with
          overtaken := page.overtaken.erase (credentialsId, acl) }
      else page
  | .accountSynced accountId =>
      if accountId ∈ page.syncing then
        { page with
          stored := { page.stored with
            enabled := Function.update page.stored.enabled accountId (page.enabled accountId) }
          syncing := page.syncing.erase accountId }.accountEnablingDone
      else page

/-- The page when it is loaded, with what is stored then. -/
def start (accounts : List ℕ) (stored : Stored) : ProviderPage where
  running := { started := subject.started }
  accounts := accounts
  enabled := stored.enabled
  stored := stored

/-- No event fails. -/
def machine (accounts : List ℕ) (stored : Stored) : Machine ProviderPage Event Empty :=
  ⟨start subject accounts stored, fun page e => .ok (page.step subject e)⟩

/-! ### What is changed -/

/-- A list of credentials differs from the initial one by the application only, which the user has
chosen an account for. -/
structure Granted (initial : Stored) (chosen : List ℕ) (credentialsId : ℕ) (acl : List String) :
    Prop where
  absent : subject.applicationInfo.profile ∉ initial.acl credentialsId
  added : acl = initial.acl credentialsId ++ [subject.applicationInfo.profile]
  chosen : ∃ accountId ∈ chosen, subject.credentialsId accountId = credentialsId

/-- All that has been added to the lists has been granted. -/
def AclAdds (initial : Stored) (chosen : List ℕ) (acl : ℕ → List String) : Prop :=
  ∀ id, acl id = initial.acl id ∨ Granted subject initial chosen id (acl id)

/-- More services are enabled than initially, all of the application and on chosen accounts. -/
def EnabledAdds (initial : Stored) (chosen : List ℕ) (enabled : ℕ → String → Bool) : Prop :=
  ∀ accountId service, enabled accountId service = initial.enabled accountId service ∨
    (enabled accountId service = true ∧ accountId ∈ chosen ∧
      service ∈ subject.services accountId ∧ service ∈ subject.applicationInfo.services)

/-- What holds while the page works. -/
structure Sound (initial : Stored) (page : ProviderPage) : Prop where
  account : ∀ accountId ∈ page.account, accountId ∈ page.chosen
  created : page.createdAccountId ≠ 0 → page.createdAccountId ∈ page.chosen
  busy : page.pending.isSome → subject.credentialsOf page.account ≠ 0
  store : page.pending = some .store →
    Granted subject initial page.chosen (subject.credentialsOf page.account) page.acl
  overtaken : ∀ w ∈ page.overtaken, Granted subject initial page.chosen w.1 w.2
  aclAdds : AclAdds subject initial page.chosen page.stored.acl
  enabledAdds : EnabledAdds subject initial page.chosen page.enabled
  storedAdds : EnabledAdds subject initial page.chosen page.stored.enabled

variable {subject} {initial : Stored} {page : ProviderPage}

theorem Granted.mono {chosen chosen' : List ℕ} {credentialsId : ℕ} {acl : List String}
    (h : Granted subject initial chosen credentialsId acl) (hle : chosen ⊆ chosen') :
    Granted subject initial chosen' credentialsId acl where
  absent := h.absent
  added := h.added
  chosen := by
    obtain ⟨accountId, hmem, hid⟩ := h.chosen
    exact ⟨accountId, hle hmem, hid⟩

theorem Granted.profile_mem {chosen : List ℕ} {credentialsId : ℕ} {acl : List String}
    (h : Granted subject initial chosen credentialsId acl) :
    subject.applicationInfo.profile ∈ acl := by
  rw [h.added]
  exact List.mem_append_right _ List.mem_cons_self

theorem AclAdds.update {chosen : List ℕ} {acl : ℕ → List String} {credentialsId : ℕ}
    {granted : List String} (h : AclAdds subject initial chosen acl)
    (hgranted : Granted subject initial chosen credentialsId granted) :
    AclAdds subject initial chosen (Function.update acl credentialsId granted) := by
  intro id
  by_cases hid : id = credentialsId
  · subst hid
    rw [Function.update_self]
    exact .inr hgranted
  · rw [Function.update_of_ne hid]
    exact h id

theorem EnabledAdds.mono {chosen chosen' : List ℕ} {enabled : ℕ → String → Bool}
    (h : EnabledAdds subject initial chosen enabled) (hle : chosen ⊆ chosen') :
    EnabledAdds subject initial chosen' enabled := by
  intro accountId service
  refine (h accountId service).imp_right ?_
  rintro ⟨htrue, hmem, hservices⟩
  exact ⟨htrue, hle hmem, hservices⟩

theorem sound_start (subject : Subject) (accounts : List ℕ) (stored : Stored) :
    Sound subject stored (start subject accounts stored) where
  account _ h := by cases h
  created h := absurd rfl h
  busy h := by cases h
  store h := by cases h
  overtaken _ h := by cases h
  aclAdds _ := .inl rfl
  enabledAdds _ _ := .inl rfl
  storedAdds _ _ := .inl rfl

theorem Sound.choose (h : Sound subject initial page) (accountId : ℕ) :
    Sound subject initial { page with chosen := accountId :: page.chosen } :=
  have hle : page.chosen ⊆ accountId :: page.chosen := List.subset_cons_self _ _
  { account a ha := hle (h.account a ha)
    created hne := hle (h.created hne)
    busy := h.busy
    store hpending := (h.store hpending).mono hle
    overtaken w hw := (h.overtaken w hw).mono hle
    aclAdds id := (h.aclAdds id).imp_right fun hgranted => hgranted.mono hle
    enabledAdds := h.enabledAdds.mono hle
    storedAdds := h.storedAdds.mono hle }

theorem Sound.created_choose (h : Sound subject initial page) (accountId : ℕ) :
    Sound subject initial
      { page with chosen := accountId :: page.chosen, createdAccountId := accountId } :=
  { h.choose accountId with created := fun _ => List.mem_cons_self }

/-- Only a chosen account is taken. -/
theorem Sound.setAccount (h : Sound subject initial page) {accountId : ℕ}
    (hmem : accountId ∈ page.chosen) :
    Sound subject initial (page.setAccount subject accountId) := by
  have hchosen : ∀ a ∈ some accountId, a ∈ page.chosen := by
    rintro a ⟨⟩
    exact hmem
  unfold ProviderPage.setAccount
  dsimp only
  by_cases hsame : subject.credentialsId accountId = subject.credentialsOf page.account
  · rw [if_pos hsame]
    have hid : subject.credentialsOf (some accountId) = subject.credentialsOf page.account := hsame
    exact { h with account := hchosen, busy := hid ▸ h.busy, store := hid ▸ h.store }
  · rw [if_neg hsame]
    refine { h with
      account := hchosen
      busy := fun hpending hzero => ?_
      store := fun hpending => ?_
      overtaken := ?_ }
    · have hnew : subject.credentialsId accountId = 0 := hzero
      simp [hnew] at hpending
    · dsimp only at hpending
      split_ifs at hpending
      cases hpending
    · -- a store that was under way is overtaken
      dsimp only
      split_ifs with hstore
      · exact List.forall_mem_cons.mpr ⟨h.store hstore, h.overtaken⟩
      · exact h.overtaken

theorem Sound.grantAccess (h : Sound subject initial page) {accountId : ℕ}
    (hmem : accountId ∈ page.chosen) :
    Sound subject initial (page.grantAccess subject accountId) := by
  unfold ProviderPage.grantAccess
  split_ifs
  · exact h.setAccount hmem
  · exact { h with }

theorem Sound.grantAccessIfReady (h : Sound subject initial page) :
    Sound subject initial (page.grantAccessIfReady subject) := by
  unfold ProviderPage.grantAccessIfReady
  split_ifs with hcreated
  · exact { h with }
  · exact { h.grantAccess (h.created hcreated) with created := fun hne => absurd rfl hne }
  · exact h
  · exact h

theorem Sound.enabledAdds_update (h : Sound subject initial page) {accountId : ℕ}
    (hmem : accountId ∈ page.chosen) :
    EnabledAdds subject initial page.chosen
      (Function.update page.enabled accountId fun service =>
        page.enabled accountId service || (subject.services accountId).contains service &&
          subject.applicationInfo.services.contains service) := by
  intro a service
  by_cases ha : a = accountId
  · subst ha
    rw [Function.update_self]
    by_cases hnew : service ∈ subject.services a ∧ service ∈ subject.applicationInfo.services
    · exact .inr ⟨by simp [hnew], hmem, hnew⟩
    · refine (h.enabledAdds a service).imp (fun hold => ?_) fun ⟨htrue, hrest⟩ => ?_
      · simpa [hold] using fun hservice happlication => absurd ⟨hservice, happlication⟩ hnew
      · exact ⟨by simp [htrue], hrest⟩
  · rw [Function.update_of_ne ha]
    exact h.enabledAdds a service

theorem Sound.aclDone (h : Sound subject initial page) :
    Sound subject initial (page.aclDone subject) := by
  cases haccount : page.account with
  | none => simpa only [ProviderPage.aclDone, haccount] using h
  | some accountId =>
      have henabled := h.enabledAdds_update (h.account accountId haccount)
      simp only [ProviderPage.aclDone, haccount]
      exact { h with
        account := haccount ▸ h.account
        busy := haccount ▸ h.busy
        store := haccount ▸ h.store
        enabledAdds := henabled }

theorem exists_account {account : Option ℕ} (h : subject.credentialsOf account ≠ 0) :
    ∃ accountId, account = some accountId :=
  match account with
  | none => absurd rfl h
  | some accountId => ⟨accountId, rfl⟩

theorem Sound.onCredentialsSynced (h : Sound subject initial page)
    (hcredentials : subject.credentialsOf page.account ≠ 0)
    (hacl : page.acl = page.stored.acl (subject.credentialsOf page.account)) :
    Sound subject initial (page.onCredentialsSynced subject) := by
  unfold ProviderPage.onCredentialsSynced
  split_ifs with hmem
  · exact h.aclDone
  · refine { h with busy := fun _ => hcredentials, store := fun _ => ?_ }
    rw [hacl] at hmem
    obtain ⟨accountId, hid⟩ := exists_account hcredentials
    -- the application is not in the list, so nothing has been added to it
    have hold := (h.aclAdds _).resolve_right fun hgranted => hmem hgranted.profile_mem
    refine ⟨hold ▸ hmem, by rw [hacl, hold], accountId, h.account accountId hid, ?_⟩
    simp [Subject.credentialsOf, hid]

/-- The rows of `accountsModel` are replaced. -/
theorem Sound.relist (h : Sound subject initial page) (accounts : List ℕ) :
    Sound subject initial { page with accounts := accounts } :=
  { h with }

theorem Sound.loaded (h : Sound subject initial page) :
    Sound subject initial
      { page with acl := page.stored.acl (subject.credentialsOf page.account), pending := none } :=
  { h with busy := nofun, store := nofun }

theorem Sound.stored (h : Sound subject initial page) (hpending : page.pending = some .store) :
    Sound subject initial
      { page.storeAcl (subject.credentialsOf page.account) page.acl with pending := none } :=
  { h with busy := nofun, store := nofun, aclAdds := h.aclAdds.update (h.store hpending) }

theorem Sound.step (h : Sound subject initial page) (e : Event) :
    Sound subject initial (page.step subject e) := by
  have hsame (running : ProviderRequest.Running) :
      Sound subject initial { page with running := running } := { h with }
  cases e with
  | completed =>
      simp only [ProviderPage.step]
      cases page.completed with
      | none =>
          simp only [ProviderPage.onCompleted]
          split_ifs <;> exact { h with }
      | some accounts => exact h
  | sourceLoaded | closed => exact hsame _
  | accountsChanged accounts =>
      exact (h.relist accounts).grantAccessIfReady
  | allowClicked accountId =>
      simp only [ProviderPage.step]
      split_ifs
      · exact (h.choose accountId).grantAccess List.mem_cons_self
      · exact h
  | allowClickedWithoutRow =>
      simp only [ProviderPage.step]
      split_ifs with hclicked
      · rw [ProviderPage.grantAccess, if_neg hclicked.2]
        exact hsame _
      · exact h
  | denyClicked =>
      simp only [ProviderPage.step]
      split_ifs
      · exact hsame _
      · exact h
  | createClicked =>
      simp only [ProviderPage.step]
      split_ifs
      · exact { h with }
      · exact h
  | creationFinished accountId =>
      simp only [ProviderPage.step]
      split_ifs
      · exact hsame _
      · exact h
      · exact (h.created_choose accountId).grantAccessIfReady
      · exact h
  | credentialsSynced =>
      simp only [ProviderPage.step]
      cases hpending : page.pending with
      | none => exact h
      | some pending =>
          have hcredentials := h.busy (by simp [hpending])
          cases pending with
          | load => exact h.loaded.onCredentialsSynced hcredentials rfl
          | store =>
              exact (h.stored hpending).onCredentialsSynced hcredentials (by simp [storeAcl])
  | overtakenStored credentialsId acl =>
      simp only [ProviderPage.step]
      split_ifs with hmem
      · exact { h with
          overtaken := fun w hw => h.overtaken w (List.mem_of_mem_erase hw)
          aclAdds := h.aclAdds.update (h.overtaken _ hmem) }
      · exact h
  | accountSynced accountId =>
      simp only [ProviderPage.step]
      split_ifs
      · refine { h with storedAdds := fun a service => ?_ }
        by_cases ha : a = accountId
        · subst ha
          simpa [accountEnablingDone, allow] using h.enabledAdds a service
        · simpa [accountEnablingDone, allow, ha] using h.storedAdds a service
      · exact h

theorem reachable_sound {accounts : List ℕ} {guard : ProviderPage → Event → Prop}
    (h : Reachable (machine subject accounts initial) guard page) : Sound subject initial page := by
  refine h.invariant (sound_start subject accounts initial) fun page e page' hpage _ hrun => ?_
  obtain rfl := Except.ok.inj hrun
  exact hpage.step e

/-- **Nothing changes without consent**: whatever the order of the clicks and the answers, the
access control lists and the services that are stored differ from the initial ones only for accounts
that the user has chosen or created on the page, and only by the profile of the application and by
services that it uses. -/
theorem consent_before_change {accounts : List ℕ}
    (h : Reachable (machine subject accounts initial) (fun _ _ => True) page) :
    AclAdds subject initial page.chosen page.stored.acl ∧
      EnabledAdds subject initial page.chosen page.stored.enabled :=
  ⟨(reachable_sound h).aclAdds, (reachable_sound h).storedAdds⟩

/-! ### What is handed out -/

/-- All that the application needs of an account is there, with these services enabled. -/
structure Prepared (subject : Subject) (page : ProviderPage) (enabled : ℕ → String → Bool)
    (accountId : ℕ) : Prop where
  chosen : accountId ∈ page.chosen
  credentials : subject.credentialsId accountId ≠ 0
  acl : subject.applicationInfo.profile ∈ page.stored.acl (subject.credentialsId accountId)
  services : ∀ service ∈ subject.services accountId, service ∈ subject.applicationInfo.services →
    enabled accountId service = true

/-- Why an account may be handed out. -/
inductive Justified (subject : Subject) (page : ProviderPage) (accountId : ℕ) : Prop where
  | created (settings : subject.applicationInfo.id = "system-settings")
      (chosen : accountId ∈ page.chosen)
  | unconfined (id : subject.applicationInfo.id = "")
      (profile : subject.applicationInfo.profile = "unconfined")
      (only : page.completed = some [accountId])
  | prepared (prepared : Prepared subject page page.stored.enabled accountId)

/-- Nothing that has been granted is lost. -/
structure Grows (subject : Subject) (page page' : ProviderPage) : Prop where
  chosen : page.chosen ⊆ page'.chosen
  completed : ∀ accounts, page.completed = some accounts → page'.completed = some accounts
  acl : ∀ id, subject.applicationInfo.profile ∈ page.stored.acl id →
    subject.applicationInfo.profile ∈ page'.stored.acl id
  enabled : ∀ accountId service, page.enabled accountId service = true →
    page'.enabled accountId service = true
  stored : ∀ accountId service, page.stored.enabled accountId service = true →
    page'.stored.enabled accountId service = true

/-- No other account is taken while one is being stored. -/
def OneAtATime (subject : Subject) (page : ProviderPage) (e : Event) : Prop :=
  (page.step subject e).account = page.account ∨ page.syncing = []

instance (page : ProviderPage) (e : Event) : Decidable (OneAtATime subject page e) :=
  inferInstanceAs (Decidable (_ ∨ _))

/-- What holds of the accounts when they are taken one at a time. -/
structure Settled (subject : Subject) (page : ProviderPage) : Prop where
  syncing : ∀ accountId ∈ page.syncing,
    page.account = some accountId ∧ Prepared subject page page.enabled accountId
  storedLe : ∀ accountId service, page.stored.enabled accountId service = true →
    page.enabled accountId service = true
  results : ∀ result ∈ page.running.progress.results, result = .nil ∨
    ∃ accountId : ℕ, result = (ProviderRequest.Outcome.allowed accountId).result ∧
      Justified subject page accountId

variable {page' : ProviderPage}

theorem Grows.prepared (h : Grows subject page page') {enabled enabled' : ℕ → String → Bool}
    (hle : ∀ accountId service, enabled accountId service = true →
      enabled' accountId service = true) {accountId : ℕ}
    (hprepared : Prepared subject page enabled accountId) :
    Prepared subject page' enabled' accountId where
  chosen := h.chosen hprepared.chosen
  credentials := hprepared.credentials
  acl := h.acl _ hprepared.acl
  services service hservice happlication :=
    hle accountId service (hprepared.services service hservice happlication)

theorem Grows.justified (h : Grows subject page page') {accountId : ℕ}
    (hjustified : Justified subject page accountId) : Justified subject page' accountId := by
  cases hjustified with
  | created hsettings hchosen => exact .created hsettings (h.chosen hchosen)
  | unconfined hid hprofile honly => exact .unconfined hid hprofile (h.completed _ honly)
  | prepared hprepared => exact .prepared (h.prepared h.stored hprepared)

/-! ### Steps that store nothing -/

/-- Nothing is stored and no account gets ready, and a new reply is justified. -/
structure Quiet (subject : Subject) (page page' : ProviderPage) : Prop where
  chosen : page.chosen ⊆ page'.chosen
  completed : ∀ accounts, page.completed = some accounts → page'.completed = some accounts
  enabled : page'.enabled = page.enabled
  stored : page'.stored = page.stored
  syncing : page'.syncing = page.syncing
  results : ∀ result ∈ page'.running.progress.results,
    result ∈ page.running.progress.results ∨ result = .nil ∨
      ∃ accountId : ℕ, result = (ProviderRequest.Outcome.allowed accountId).result ∧
        Justified subject page' accountId

theorem Quiet.grows (h : Quiet subject page page') : Grows subject page page' where
  chosen := h.chosen
  completed := h.completed
  acl id hmem := by rwa [h.stored]
  enabled accountId service htrue := by rwa [h.enabled]
  stored accountId service htrue := by rwa [h.stored]

theorem Quiet.trans {page'' : ProviderPage} (h : Quiet subject page page')
    (h' : Quiet subject page' page'') : Quiet subject page page'' where
  chosen := List.Subset.trans h.chosen h'.chosen
  completed accounts haccounts := h'.completed accounts (h.completed accounts haccounts)
  enabled := h'.enabled.trans h.enabled
  stored := h'.stored.trans h.stored
  syncing := h'.syncing.trans h.syncing
  results result hresult := by
    rcases h'.results result hresult with hmem | hnew
    · refine (h.results result hmem).imp_right fun hnew => hnew.imp_right ?_
      rintro ⟨accountId, heq, hjustified⟩
      exact ⟨accountId, heq, h'.grows.justified hjustified⟩
    · exact .inr hnew

theorem Quiet.of_running (hrunning : page'.running = page.running)
    (hchosen : page.chosen ⊆ page'.chosen)
    (hcompleted : ∀ accounts, page.completed = some accounts → page'.completed = some accounts)
    (henabled : page'.enabled = page.enabled) (hstored : page'.stored = page.stored)
    (hsyncing : page'.syncing = page.syncing) : Quiet subject page page' :=
  ⟨hchosen, hcompleted, henabled, hstored, hsyncing, fun _ h => .inl (hrunning ▸ h)⟩

theorem quiet_refl (subject : Subject) (page : ProviderPage) : Quiet subject page page :=
  .of_running rfl (List.Subset.refl _) (fun _ => id) rfl rfl rfl

theorem quiet_deny (subject : Subject) (page : ProviderPage) : Quiet subject page page.deny :=
  ⟨List.Subset.refl _, fun _ => id, rfl, rfl, rfl, fun _ h =>
    (ProviderRequest.Running.results_deny h).imp_right .inl⟩

theorem quiet_allow {accountId : ℕ} (h : Justified subject page accountId) :
    Quiet subject page (page.allow accountId) where
  chosen := List.Subset.refl _
  completed _ := id
  enabled := rfl
  stored := rfl
  syncing := rfl
  results _ hresult := by
    have hgrows : Grows subject page (page.allow accountId) :=
      ⟨List.Subset.refl _, fun _ => id, fun _ => id, fun _ _ => id, fun _ _ => id⟩
    exact (ProviderRequest.Running.results_allow hresult).imp_right fun heq =>
      .inr ⟨accountId, heq, hgrows.justified h⟩

theorem quiet_setAccount (accountId : ℕ) (page : ProviderPage) :
    Quiet subject page (page.setAccount subject accountId) := by
  unfold setAccount
  dsimp only
  split_ifs <;> exact .of_running rfl (List.Subset.refl _) (fun _ => id) rfl rfl rfl

theorem quiet_grantAccess (accountId : ℕ) (page : ProviderPage) :
    Quiet subject page (page.grantAccess subject accountId) := by
  unfold grantAccess
  split_ifs
  · exact quiet_setAccount accountId page
  · exact quiet_deny subject page

theorem Sound.quiet_grantAccessIfReady (h : Sound subject initial page) :
    Quiet subject page (page.grantAccessIfReady subject) := by
  unfold ProviderPage.grantAccessIfReady
  split_ifs with hcreated hsettings
  · exact (quiet_allow (.created hsettings (h.created hcreated))).trans
      (.of_running rfl (List.Subset.refl _) (fun _ => id) rfl rfl rfl)
  · exact (quiet_grantAccess page.createdAccountId page).trans
      (.of_running rfl (List.Subset.refl _) (fun _ => id) rfl rfl rfl)
  · exact quiet_refl subject page
  · exact quiet_refl subject page

theorem quiet_onCompleted (h : page.completed = some page.accounts) :
    Quiet subject page (page.onCompleted subject) := by
  unfold onCompleted
  dsimp only
  split_ifs with hnone hunconfined
  · exact quiet_deny subject page
  · obtain ⟨hid, hcount, hprofile⟩ := hunconfined
    rw [Subject.accessible, if_pos hid, List.length_eq_one_iff] at hcount
    obtain ⟨accountId, haccounts⟩ := hcount
    rw [haccounts] at h ⊢
    exact quiet_allow (.unconfined hid hprofile h)
  all_goals exact .of_running rfl (List.Subset.refl _) (fun _ => id) rfl rfl rfl

/-- The answers of the elements. -/
def Event.isAnswer : Event → Bool
  | .credentialsSynced | .overtakenStored _ _ | .accountSynced _ => true
  | _ => false

/-- Only the answers change what is stored, or make an account ready. -/
theorem Sound.quiet_step (h : Sound subject initial page) {e : Event} (he : e.isAnswer = false) :
    Quiet subject page (page.step subject e) := by
  cases e with
  | completed =>
      simp only [ProviderPage.step]
      cases hcompleted : page.completed with
      | some accounts => exact quiet_refl subject page
      | none =>
          refine Quiet.trans ?_ (quiet_onCompleted rfl)
          refine .of_running rfl (List.Subset.refl _) (fun accounts haccounts => ?_) rfl rfl rfl
          rw [hcompleted] at haccounts
          cases haccounts
  | sourceLoaded =>
      exact ⟨List.Subset.refl _, fun _ => id, rfl, rfl, rfl, fun _ hresult =>
        (ProviderRequest.Running.results_window (.inl rfl) hresult).imp_right .inl⟩
  | closed =>
      exact ⟨List.Subset.refl _, fun _ => id, rfl, rfl, rfl, fun _ hresult =>
        (ProviderRequest.Running.results_window (.inr rfl) hresult).imp_right .inl⟩
  | accountsChanged accounts =>
      refine Quiet.trans ?_ (h.relist accounts).quiet_grantAccessIfReady
      exact .of_running rfl (List.Subset.refl _) (fun _ => id) rfl rfl rfl
  | allowClicked accountId =>
      simp only [ProviderPage.step]
      split_ifs
      · refine Quiet.trans ?_ (quiet_grantAccess accountId _)
        exact .of_running rfl (List.subset_cons_self _ _) (fun _ => id) rfl rfl rfl
      · exact quiet_refl subject page
  | allowClickedWithoutRow =>
      simp only [ProviderPage.step]
      split_ifs
      · exact quiet_grantAccess 0 page
      · exact quiet_refl subject page
  | denyClicked =>
      simp only [ProviderPage.step]
      split_ifs
      · exact quiet_deny subject page
      · exact quiet_refl subject page
  | createClicked =>
      simp only [ProviderPage.step]
      split_ifs
      · exact .of_running rfl (List.Subset.refl _) (fun _ => id) rfl rfl rfl
      · exact quiet_refl subject page
  | creationFinished accountId =>
      simp only [ProviderPage.step]
      split_ifs
      · exact quiet_deny subject page
      · exact quiet_refl subject page
      · refine Quiet.trans ?_ (h.created_choose accountId).quiet_grantAccessIfReady
        exact .of_running rfl (List.subset_cons_self _ _) (fun _ => id) rfl rfl rfl
      · exact quiet_refl subject page
  | credentialsSynced | overtakenStored | accountSynced => cases he

/-! ### The answers -/

theorem Settled.quiet (h : Settled subject page) (hquiet : Quiet subject page page')
    (hone : page'.account = page.account ∨ page.syncing = []) : Settled subject page' where
  syncing accountId hmem := by
    rw [hquiet.syncing] at hmem
    obtain ⟨haccount, hprepared⟩ := h.syncing accountId hmem
    have hsame := hone.resolve_right (List.ne_nil_of_mem hmem)
    exact ⟨hsame.trans haccount, hquiet.grows.prepared hquiet.grows.enabled hprepared⟩
  storedLe := by
    rw [hquiet.stored, hquiet.enabled]
    exact h.storedLe
  results result hresult := by
    rcases hquiet.results result hresult with hmem | hnew
    · refine (h.results result hmem).imp_right ?_
      rintro ⟨accountId, heq, hjustified⟩
      exact ⟨accountId, heq, hquiet.grows.justified hjustified⟩
    · exact hnew

/-- Something is stored, and no account gets ready. -/
theorem Settled.grows (h : Settled subject page) (hgrows : Grows subject page page')
    (haccount : page'.account = page.account) (hsyncing : page'.syncing ⊆ page.syncing)
    (hrunning : page'.running = page.running)
    (hstored : ∀ accountId service, page'.stored.enabled accountId service = true →
      page'.enabled accountId service = true) : Settled subject page' where
  syncing accountId hmem := by
    obtain ⟨hold, hprepared⟩ := h.syncing accountId (hsyncing hmem)
    exact ⟨haccount.trans hold, hgrows.prepared hgrows.enabled hprepared⟩
  storedLe := hstored
  results result hresult := by
    rw [hrunning] at hresult
    refine (h.results result hresult).imp_right ?_
    rintro ⟨accountId, heq, hjustified⟩
    exact ⟨accountId, heq, hgrows.justified hjustified⟩

theorem Settled.storeAcl (h : Settled subject page) {credentialsId : ℕ} {acl : List String}
    (hacl : subject.applicationInfo.profile ∈ acl) :
    Settled subject (page.storeAcl credentialsId acl) := by
  refine h.grows ⟨List.Subset.refl _, fun _ => id, fun id hmem => ?_, fun _ _ => id,
    fun _ _ => id⟩ rfl (List.Subset.refl _) rfl h.storedLe
  by_cases hid : id = credentialsId
  · simpa [ProviderPage.storeAcl, hid] using hacl
  · simpa [ProviderPage.storeAcl, hid] using hmem

theorem grows_aclDone (subject : Subject) (page : ProviderPage) :
    Grows subject page (page.aclDone subject) := by
  cases haccount : page.account with
  | none =>
      simp only [aclDone, haccount]
      exact (quiet_refl subject page).grows
  | some accountId =>
      simp only [aclDone, haccount]
      refine ⟨List.Subset.refl _, by simp, fun _ => id, fun a service htrue => ?_,
        fun _ _ => id⟩
      by_cases ha : a = accountId
      · subst ha
        simp [htrue]
      · simpa [ha] using htrue

theorem Settled.aclDone (h : Settled subject page) (hsound : Sound subject initial page)
    (hcredentials : subject.credentialsOf page.account ≠ 0)
    (hacl : subject.applicationInfo.profile ∈
      page.stored.acl (subject.credentialsOf page.account)) :
    Settled subject (page.aclDone subject) := by
  obtain ⟨accountId, haccount⟩ := exists_account hcredentials
  have hgrows := grows_aclDone subject page
  rw [haccount] at hcredentials hacl
  simp only [ProviderPage.aclDone, haccount] at hgrows ⊢
  refine ⟨fun a hmem => ?_,
    fun a service htrue => hgrows.enabled a service (h.storedLe a service htrue),
    fun result hresult => ?_⟩
  · rcases List.mem_append.mp hmem with hold | hnew
    · obtain ⟨hsame, hprepared⟩ := h.syncing a hold
      exact ⟨haccount.symm.trans hsame, hgrows.prepared hgrows.enabled hprepared⟩
    · obtain rfl := List.mem_singleton.mp hnew
      exact ⟨rfl, hsound.account a haccount, hcredentials, hacl,
        fun service hservice happlication => by simp [hservice, happlication]⟩
  · refine (h.results result hresult).imp_right ?_
    rintro ⟨a, heq, hjustified⟩
    exact ⟨a, heq, hgrows.justified hjustified⟩

theorem Settled.onCredentialsSynced (h : Settled subject page) (hsound : Sound subject initial page)
    (hcredentials : subject.credentialsOf page.account ≠ 0)
    (hacl : page.acl = page.stored.acl (subject.credentialsOf page.account)) :
    Settled subject (page.onCredentialsSynced subject) := by
  unfold ProviderPage.onCredentialsSynced
  split_ifs with hmem
  · exact h.aclDone hsound hcredentials (hacl ▸ hmem)
  · exact h.quiet (.of_running rfl (List.Subset.refl _) (fun _ => id) rfl rfl rfl) (.inl rfl)

theorem Settled.accountSynced (h : Settled subject page) {accountId : ℕ}
    (hmem : accountId ∈ page.syncing) :
    Settled subject (page.step subject (.accountSynced accountId)) := by
  obtain ⟨haccount, hprepared⟩ := h.syncing accountId hmem
  simp only [ProviderPage.step, if_pos hmem]
  set stored : ProviderPage := { page with
    stored := { page.stored with
      enabled := Function.update page.stored.enabled accountId (page.enabled accountId) }
    syncing := page.syncing.erase accountId } with hstored
  have hgrows : Grows subject page stored := by
    refine ⟨List.Subset.refl _, fun _ => id, fun _ => id, fun _ _ => id, fun a service htrue => ?_⟩
    by_cases ha : a = accountId
    · subst ha
      simpa [hstored] using h.storedLe a service htrue
    · simpa [hstored, ha] using htrue
  have hsettled : Settled subject stored := by
    refine h.grows hgrows rfl (fun a => List.mem_of_mem_erase) rfl fun a service htrue => ?_
    by_cases ha : a = accountId
    · subst ha
      simpa [hstored] using htrue
    · exact h.storedLe a service (by simpa [hstored, ha] using htrue)
  have hjustified : Justified subject stored accountId := by
    refine .prepared (hgrows.prepared (fun _ _ => id) ⟨hprepared.chosen, hprepared.credentials,
      hprepared.acl, fun service hservice happlication => ?_⟩)
    simpa [hstored] using hprepared.services service hservice happlication
  have hid : stored.account.getD 0 = accountId := by simp [hstored, haccount]
  unfold accountEnablingDone
  rw [hid]
  exact (hsettled.quiet (quiet_allow hjustified) (.inl rfl)).quiet
    (.of_running rfl (List.Subset.refl _) (fun _ => id) rfl rfl rfl) (.inl rfl)

theorem Settled.step (h : Settled subject page) (hsound : Sound subject initial page) {e : Event}
    (hone : OneAtATime subject page e) : Settled subject (page.step subject e) := by
  cases e with
  | credentialsSynced =>
      simp only [ProviderPage.step]
      cases hpending : page.pending with
      | none => exact h
      | some pending =>
          have hcredentials := hsound.busy (by simp [hpending])
          cases pending with
          | load =>
              refine Settled.onCredentialsSynced ?_ hsound.loaded hcredentials rfl
              exact h.quiet (.of_running rfl (List.Subset.refl _) (fun _ => id) rfl rfl rfl) (.inl rfl)
          | store =>
              refine Settled.onCredentialsSynced ?_ (hsound.stored hpending) hcredentials
                (by simp [ProviderPage.storeAcl])
              exact (h.storeAcl (hsound.store hpending).profile_mem).quiet
                (.of_running rfl (List.Subset.refl _) (fun _ => id) rfl rfl rfl) (.inl rfl)
  | overtakenStored credentialsId acl =>
      simp only [ProviderPage.step]
      split_ifs with hmem
      · exact (h.storeAcl (hsound.overtaken _ hmem).profile_mem).quiet
          (.of_running rfl (List.Subset.refl _) (fun _ => id) rfl rfl rfl) (.inl rfl)
      · exact h
  | accountSynced accountId =>
      by_cases hmem : accountId ∈ page.syncing
      · exact h.accountSynced hmem
      · simpa only [ProviderPage.step, if_neg hmem] using h
  | _ => exact h.quiet (hsound.quiet_step rfl) hone

theorem settled_start (subject : Subject) (accounts : List ℕ) (stored : Stored) :
    Settled subject (start subject accounts stored) where
  syncing _ h := by cases h
  storedLe _ _ h := h
  results _ h := by cases h

/-- **An account is only handed out when it is ready**: in every run in which no other account is
taken while one is being stored, the request only replies with nothing or with an account that was
created for the system settings, or with the only one that there was when an unconfined client
without an id asked, or with one that the user has chosen, whose credentials list the application by
now and on which the services of the application are enabled by now. -/
theorem allowed_is_prepared {accounts : List ℕ}
    (h : Reachable (machine subject accounts initial) (OneAtATime subject) page) :
    ∀ result ∈ page.running.progress.results, result = .nil ∨
      ∃ accountId : ℕ, result = (ProviderRequest.Outcome.allowed accountId).result ∧
        Justified subject page accountId := by
  have hboth : Sound subject initial page ∧ Settled subject page := by
    refine h.invariant (I := fun page => Sound subject initial page ∧ Settled subject page)
      ⟨sound_start subject accounts initial, settled_start subject accounts initial⟩ ?_
    rintro page e page' ⟨hsound, hsettled⟩ hone hrun
    obtain rfl := Except.ok.inj hrun
    exact ⟨hsound.step e, hsettled.step hsound hone⟩
  exact hboth.2.results

/-- A reader with mail on an account whose credentials list another application. -/
def readerSubject : Subject where
  started :=
    { applicationInfo :=
        { id := "reader", profile := "reader_1", services := ["mail"] }
      providerId := "cool"
      providerInfo := none }
  credentialsId accountId := if accountId = 7 then 3 else 0
  services _ := ["mail", "chat"]

def readerStored : Stored where
  acl _ := ["other"]

def readerEvents : List Event :=
  [.completed, .sourceLoaded, .allowClicked 7, .credentialsSynced, .credentialsSynced,
    .accountSynced 7]

theorem consent_before_change_reader : ∃ page : ProviderPage,
    page.stored.acl 3 = ["other", "reader_1"] ∧
      AclAdds readerSubject readerStored page.chosen page.stored.acl ∧
        EnabledAdds readerSubject readerStored page.chosen page.stored.enabled := by
  have hrun : ((machine readerSubject [7] readerStored).run
      (start readerSubject [7] readerStored) readerEvents).map (·.stored.acl 3) =
        .ok ["other", "reader_1"] := by decide
  obtain ⟨page, hpage, hacl⟩ := exists_of_map_ok hrun
  exact ⟨page, hacl, consent_before_change
    (reachable_of_run_from .start (Machine.allows_all _ (fun _ _ => trivial) _ _) hpage)⟩

theorem allowed_is_prepared_reader : ∃ page : ProviderPage,
    page.running.progress.results = [(ProviderRequest.Outcome.allowed 7).result] ∧
      ∀ result ∈ page.running.progress.results, result = .nil ∨
        ∃ accountId : ℕ, result = (ProviderRequest.Outcome.allowed accountId).result ∧
          Justified readerSubject page accountId := by
  have hrun : ((machine readerSubject [7] readerStored).run
      (start readerSubject [7] readerStored) readerEvents).map (·.running.progress.results) =
        .ok [(ProviderRequest.Outcome.allowed 7).result] := by decide
  obtain ⟨page, hpage, hresults⟩ := exists_of_map_ok hrun
  exact ⟨page, hresults, allowed_is_prepared (reachable_of_run_from .start (by decide) hpage)⟩

/-! ### Which choices are answered -/

/-- No account has been chosen yet. -/
structure Untouched (page : ProviderPage) : Prop where
  account : page.account = none
  pending : page.pending = none
  syncing : page.syncing = []

/-- An account without credentials waits for nothing, and nothing is reported to the request. -/
theorem answers_of_not_waiting {es : List Event} (hes : ∀ e ∈ es, e.isAnswer = true)
    (hpending : page.pending = none) (hsyncing : page.syncing = []) :
    (es.foldl (step subject) page).running = page.running := by
  induction es generalizing page with
  | nil => rfl
  | cons e es ih =>
      obtain ⟨he, htail⟩ := List.forall_mem_cons.mp hes
      clear hes
      rw [List.foldl_cons]
      cases e with
      | credentialsSynced =>
          have hstep : page.step subject .credentialsSynced = page := by
            simp only [ProviderPage.step, hpending]
          rw [hstep]
          exact ih htail hpending hsyncing
      | overtakenStored credentialsId acl =>
          by_cases hmem : (credentialsId, acl) ∈ page.overtaken
          · simp only [ProviderPage.step, if_pos hmem]
            exact ih htail hpending hsyncing
          · simp only [ProviderPage.step, if_neg hmem]
            exact ih htail hpending hsyncing
      | accountSynced accountId =>
          have hstep : page.step subject (.accountSynced accountId) = page := by
            simp [ProviderPage.step, hsyncing]
          rw [hstep]
          exact ih htail hpending hsyncing
      | _ => cases he

theorem onCredentialsSynced_of_mem (h : subject.applicationInfo.profile ∈ page.acl) :
    page.onCredentialsSynced subject = page.aclDone subject :=
  if_pos h

theorem results_aclDone {accountId : ℕ} (haccount : page.account = some accountId)
    (hprogress : page.running.progress.inProgress = true) :
    ((page.aclDone subject).step subject (.accountSynced accountId)).running.progress.results =
      page.running.progress.results ++ [(ProviderRequest.Outcome.allowed accountId).result] := by
  have hsyncing : accountId ∈ (page.aclDone subject).syncing := by simp [aclDone, haccount]
  simp only [step, if_pos hsyncing]
  simp only [aclDone, haccount, accountEnablingDone, allow, Option.getD_some]
  exact ProviderRequest.Running.results_allow_of_inProgress hprogress

/-- The application is put into the list if it is not there, and then the account is stored. -/
theorem answers_of_load {accountId : ℕ} (haccount : page.account = some accountId)
    (hpending : page.pending = some .load) (hprogress : page.running.progress.inProgress = true) :
    ∃ es : List Event, (∀ e ∈ es, e.isAnswer = true) ∧
      (es.foldl (step subject) page).running.progress.results =
        page.running.progress.results ++ [(ProviderRequest.Outcome.allowed accountId).result] := by
  by_cases hmem : subject.applicationInfo.profile ∈
      page.stored.acl (subject.credentialsOf page.account)
  · refine ⟨[.credentialsSynced, .accountSynced accountId], by simp [Event.isAnswer], ?_⟩
    have hloaded : page.step subject .credentialsSynced = aclDone subject
        { page with
          acl := page.stored.acl (subject.credentialsOf page.account)
          pending := none } := by
      simp only [step, hpending, onCredentialsSynced, if_pos hmem]
    rw [List.foldl_cons, hloaded]
    exact results_aclDone haccount hprogress
  · refine ⟨[.credentialsSynced, .credentialsSynced, .accountSynced accountId],
      by simp [Event.isAnswer], ?_⟩
    have hloaded : page.step subject .credentialsSynced =
        { page with
          acl := page.stored.acl (subject.credentialsOf page.account) ++
            [subject.applicationInfo.profile]
          pending := some .store } := by
      simp only [step, hpending, onCredentialsSynced, if_neg hmem]
    have hadded : subject.applicationInfo.profile ∈
        page.stored.acl (subject.credentialsOf page.account) ++
          [subject.applicationInfo.profile] := by simp
    rw [List.foldl_cons, hloaded, List.foldl_cons]
    simp only [step]
    rw [onCredentialsSynced_of_mem hadded]
    exact results_aclDone haccount hprogress

/-- **An account that is chosen is handed out if and only if it has credentials**: when the user
allows the access to a first account, some answers complete the request with the account if it has
credentials, and none do otherwise. -/
theorem choice_completes_iff {accountId : ℕ} (huntouched : Untouched page)
    (hprogress : page.running.progress.inProgress = true)
    (hcomponent : page.component = .authorizationPage)
    (hmem : accountId ∈ subject.accessible page.accounts) :
    (∃ es : List Event, (∀ e ∈ es, e.isAnswer = true) ∧
        (es.foldl (step subject)
          (page.step subject (.allowClicked accountId))).running.progress.results =
            page.running.progress.results ++
              [(ProviderRequest.Outcome.allowed accountId).result]) ↔
      subject.credentialsId accountId ≠ 0 := by
  have haccounts : accountId ∈ page.accounts := by
    unfold Subject.accessible at hmem
    split_ifs at hmem
    · exact hmem
    · exact (List.mem_filter.mp hmem).1
  have hold : subject.credentialsOf page.account = 0 := by
    rw [huntouched.account]
    rfl
  simp only [step, if_pos (And.intro hcomponent hmem), grantAccess, if_pos haccounts, setAccount,
    hold]
  by_cases hzero : subject.credentialsId accountId = 0
  · refine iff_of_false ?_ (not_not_intro hzero)
    rintro ⟨es, hes, hresults⟩
    rw [if_pos hzero, answers_of_not_waiting hes (by exact huntouched.pending)
      (by exact huntouched.syncing)] at hresults
    simp at hresults
  · refine iff_of_true ?_ hzero
    rw [if_neg hzero]
    exact answers_of_load rfl (if_neg hzero) hprogress

/-- The reader asks for one of two accounts. -/
def readerPage : ProviderPage :=
  ((start readerSubject [7, 8] readerStored).step readerSubject .completed).step readerSubject
    .sourceLoaded

theorem choice_completes_iff_reader :
    (∃ es : List Event, (∀ e ∈ es, e.isAnswer = true) ∧
        (es.foldl (step readerSubject)
          (readerPage.step readerSubject (.allowClicked 7))).running.progress.results =
            readerPage.running.progress.results ++
              [(ProviderRequest.Outcome.allowed (7 : ℕ)).result]) ∧
      ¬ ∃ es : List Event, (∀ e ∈ es, e.isAnswer = true) ∧
        (es.foldl (step readerSubject)
          (readerPage.step readerSubject (.allowClicked 8))).running.progress.results =
            readerPage.running.progress.results ++
              [(ProviderRequest.Outcome.allowed (8 : ℕ)).result] :=
  ⟨(choice_completes_iff ⟨rfl, rfl, rfl⟩ (by decide) (by decide) (by decide)).mpr (by decide),
    (choice_completes_iff ⟨rfl, rfl, rfl⟩ (by decide) (by decide) (by decide)).not.mpr
      (by decide)⟩

end ProviderPage

end OnlineAccounts
