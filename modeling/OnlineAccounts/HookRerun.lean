import OnlineAccounts.HookRuns

/-! # The second hook program, run twice

The hook program runs at every start of a session, and a second run should find nothing to do: it
would otherwise delete accounts or overwrite files.

A file that is stale is forgotten by the first run, whether it can be removed or not, so that
nothing is left to be disabled or deleted for it (`removeStaleFiles_forgotten`).  What the first
run writes stays as it is, unless a manifest that could not be processed completely has written a
file of another one, which wrote it later and is marked (`run_twice_iff`). -/

namespace OnlineAccounts

open Accounts Writes

namespace Accounts.Database

/-- Accounts have been removed and services disabled. -/
def Fewer (db' db : Database) : Prop :=
  ∀ id a', db'.accounts id = some a' → ∃ a, db.accounts id = some a ∧
    a'.provider = a.provider ∧ ∀ service, a'.settings (service, "enabled") = some (.bool true) →
      a.settings (service, "enabled") = some (.bool true)

theorem Fewer.refl (db : Database) : Fewer db db :=
  fun _ a ha => ⟨a, ha, rfl, fun _ h => h⟩

theorem Fewer.trans {db db' db'' : Database} (h : Fewer db'' db') (h' : Fewer db' db) :
    Fewer db'' db := by
  intro id a'' ha''
  obtain ⟨a', ha', hprovider', henabled'⟩ := h id a'' ha''
  obtain ⟨a, ha, hprovider, henabled⟩ := h' id a' ha'
  exact ⟨a, ha, hprovider'.trans hprovider, fun service hs => henabled service (henabled' service hs)⟩

theorem Fewer.mem_accountListEnabled {db db' : Database} (h : Fewer db' db) (lib : Library) {id : ℕ}
    (hid : id ∈ lib.accountListEnabled db') : id ∈ lib.accountListEnabled db := by
  rw [lib.mem_accountListEnabled] at hid ⊢
  obtain ⟨a', ha', henabled'⟩ := hid
  obtain ⟨a, ha, -, henabled⟩ := h id a' ha'
  exact ⟨a, ha, henabled none henabled'⟩

theorem fewer_update {db db' : Database} {id : ℕ} {a : StoredAccount} {a'? : Option StoredAccount}
    (ha : db.accounts id = some a) (h : db'.accounts = Function.update db.accounts id a'?)
    (ha' : ∀ a', a'? = some a' → a'.provider = a.provider ∧
      ∀ service, a'.settings (service, "enabled") = some (.bool true) →
        a.settings (service, "enabled") = some (.bool true)) : Fewer db' db := by
  intro id' b' hb'
  rw [h] at hb'
  by_cases hid : id' = id
  · subst hid
    rw [Function.update_self] at hb'
    exact ⟨a, ha, ha' b' hb'⟩
  · rw [Function.update_of_ne hid] at hb'
    exact ⟨b', hb', rfl, fun _ hs => hs⟩

end Accounts.Database

namespace AccountsHook

open Accounts.Database

variable {env : Environment} {hooksDirIn : HooksDir}

/-! ### Accounts of services that have gone -/

section Loop

variable {f : State → ℕ → State} {P : Database → ℕ → Prop}

/-- A loop over accounts whose rounds settle one account each settles all of them. -/
theorem foldl_settles (hfewer : ∀ s id, Fewer (f s id).database s.database)
    (hdone : ∀ s id, P (f s id).database id)
    (hkept : ∀ {db db' : Database} {id : ℕ}, Fewer db' db → P db id → P db' id) (ids : List ℕ)
    (s : State) : Fewer (ids.foldl f s).database s.database ∧
      ∀ id ∈ ids, P (ids.foldl f s).database id := by
  induction ids generalizing s with
  | nil => exact ⟨Fewer.refl _, fun id hid => absurd hid List.not_mem_nil⟩
  | cons id ids ih =>
      obtain ⟨hrest, hsettled⟩ := ih (f s id)
      refine ⟨hrest.trans (hfewer s id), ?_⟩
      intro id' hid'
      rcases List.mem_cons.mp hid' with rfl | hid'
      · exact hkept hrest (hdone s id')
      · exact hsettled id' hid'

theorem foldl_of_settled (hidle : ∀ s id, P s.database id → (f s id).database = s.database)
    (ids : List ℕ) (s : State) (h : ∀ id ∈ ids, P s.database id) :
    (ids.foldl f s).database = s.database := by
  induction ids generalizing s with
  | nil => rfl
  | cons id ids ih =>
      have hround := hidle s id (h id List.mem_cons_self)
      rw [List.foldl_cons, ih, hround]
      intro id' hid'
      rw [hround]
      exact h id' (List.mem_cons_of_mem id hid')

end Loop

/-- The service is not enabled on the account, or disabling it is not stored. -/
def DisabledOn (env : Environment) (serviceId provider : String) (db : Database) (id : ℕ) : Prop :=
  ∀ a, db.accounts id = some a → a.provider = provider →
    a.settings (some serviceId, "enabled") = some (.bool true) → env.disables serviceId id = false

/-- The account is not one of the provider, or removing it is not stored. -/
def RemovedOn (env : Environment) (providerName : String) (db : Database) (id : ℕ) : Prop :=
  ∀ a, db.accounts id = some a → a.provider = providerName → env.removesAccount id = false

theorem DisabledOn.fewer {serviceId provider : String} {db db' : Database} {id : ℕ}
    (h : Fewer db' db) (hdisabled : DisabledOn env serviceId provider db id) :
    DisabledOn env serviceId provider db' id := by
  intro a' ha' hprovider henabled
  obtain ⟨a, ha, hsame, hless⟩ := h id a' ha'
  exact hdisabled a ha (hsame.symm.trans hprovider) (hless _ henabled)

theorem RemovedOn.fewer {providerName : String} {db db' : Database} {id : ℕ} (h : Fewer db' db)
    (hremoved : RemovedOn env providerName db id) : RemovedOn env providerName db' id := by
  intro a' ha' hprovider
  obtain ⟨a, ha, hsame, -⟩ := h id a' ha'
  exact hremoved a ha (hsame.symm.trans hprovider)

variable (env) in
/-- One round of `disableService`: nothing, or the service is disabled on the account. -/
theorem disableOn_cases (serviceId provider profile : String) (s : State) (id : ℕ) :
    (disableOn env serviceId provider profile s id).database = s.database ∧
        DisabledOn env serviceId provider s.database id ∨
      ∃ a, s.database.accounts id = some a ∧
        (disableOn env serviceId provider profile s id).database.accounts =
          Function.update s.database.accounts id (some { a with
            settings := Function.update a.settings (some serviceId, "enabled") (some (.bool false)) }) ∧
        ¬ DisabledOn env serviceId provider s.database id := by
  cases ha : s.database.accounts id with
  | none =>
      left
      rw [disableOn_none ha]
      refine ⟨rfl, ?_⟩
      intro a ha'
      rw [ha] at ha'
      cases ha'
  | some a =>
      rw [disableOn_some ha]
      by_cases hon : a.provider = provider ∧
          a.settings (some serviceId, "enabled") = some (.bool true)
      · rw [if_pos hon]
        by_cases hdisables : env.disables serviceId id = true
        · right
          refine ⟨a, rfl, ?_, ?_⟩
          · rw [if_pos hdisables]
            exact env.library.sync_setEnabled ha _ _
          · intro h
            exact Bool.false_ne_true ((h a ha hon.1 hon.2).symm.trans hdisables)
        · left
          rw [if_neg hdisables]
          exact ⟨rfl, fun _ _ _ _ => Bool.eq_false_iff.mpr hdisables⟩
      · left
        rw [if_neg hon]
        refine ⟨rfl, ?_⟩
        intro a' ha' hprovider henabled
        obtain rfl := Option.some.inj (ha'.symm.trans ha)
        exact absurd ⟨hprovider, henabled⟩ hon

variable (env) in
theorem disableOn_fewer (serviceId provider profile : String) (s : State) (id : ℕ) :
    Fewer (disableOn env serviceId provider profile s id).database s.database := by
  rcases disableOn_cases env serviceId provider profile s id with ⟨hsame, -⟩ | ⟨a, ha, hupdate, -⟩
  · rw [hsame]
    exact Fewer.refl _
  · refine fewer_update ha hupdate ?_
    intro a' ha'
    obtain rfl := Option.some.inj ha'
    refine ⟨rfl, ?_⟩
    intro service henabled
    by_cases hservice : service = some serviceId
    · subst hservice
      simp at henabled
    · have hne : (service, "enabled") ≠ (some serviceId, "enabled") := by simp [hservice]
      dsimp only at henabled
      rw [Function.update_of_ne hne] at henabled
      exact henabled

theorem disableOn_disabled (serviceId provider profile : String) (s : State) (id : ℕ) :
    DisabledOn env serviceId provider (disableOn env serviceId provider profile s id).database
      id := by
  rcases disableOn_cases env serviceId provider profile s id with
    ⟨hsame, hdisabled⟩ | ⟨a, ha, hupdate, -⟩
  · rw [hsame]
    exact hdisabled
  · intro a' ha' _ henabled
    rw [hupdate, Function.update_self] at ha'
    obtain rfl := Option.some.inj ha'
    simp at henabled

theorem disableOn_of_disabled (serviceId provider profile : String) (s : State) (id : ℕ)
    (h : DisabledOn env serviceId provider s.database id) :
    (disableOn env serviceId provider profile s id).database = s.database := by
  rcases disableOn_cases env serviceId provider profile s id with
    ⟨hsame, -⟩ | ⟨a, -, -, hnot⟩
  · exact hsame
  · exact absurd h hnot

variable (env) in
/-- One round of `removeStaleAccounts`: nothing, or the account is removed. -/
theorem removeAccount_cases (providerName : String) (s : State) (id : ℕ) :
    (removeAccount env providerName s id).database = s.database ∧
        RemovedOn env providerName s.database id ∨
      (∃ a, s.database.accounts id = some a) ∧
        (removeAccount env providerName s id).database.accounts =
          Function.update s.database.accounts id none ∧
        ¬ RemovedOn env providerName s.database id := by
  cases ha : s.database.accounts id with
  | none =>
      left
      rw [removeAccount_none ha]
      refine ⟨rfl, ?_⟩
      intro a ha'
      rw [ha] at ha'
      cases ha'
  | some a =>
      rw [removeAccount_some ha]
      by_cases hprovider : a.provider = providerName
      · rw [if_pos hprovider]
        by_cases hremoves : env.removesAccount id = true
        · right
          refine ⟨⟨a, rfl⟩, ?_, ?_⟩
          · rw [if_pos hremoves]
            exact env.library.sync_remove ha
          · intro h
            exact Bool.false_ne_true ((h a ha hprovider).symm.trans hremoves)
        · left
          rw [if_neg hremoves]
          exact ⟨rfl, fun _ _ _ => Bool.eq_false_iff.mpr hremoves⟩
      · left
        rw [if_neg hprovider]
        refine ⟨rfl, ?_⟩
        intro a' ha' hprovider'
        obtain rfl := Option.some.inj (ha'.symm.trans ha)
        exact absurd hprovider' hprovider

variable (env) in
theorem removeAccount_fewer (providerName : String) (s : State) (id : ℕ) :
    Fewer (removeAccount env providerName s id).database s.database := by
  rcases removeAccount_cases env providerName s id with ⟨hsame, -⟩ | ⟨⟨a, ha⟩, hupdate, -⟩
  · rw [hsame]
    exact Fewer.refl _
  · exact fewer_update ha hupdate fun a' ha' => absurd ha' (by simp)

theorem removeAccount_removed (providerName : String) (s : State) (id : ℕ) :
    RemovedOn env providerName (removeAccount env providerName s id).database id := by
  rcases removeAccount_cases env providerName s id with ⟨hsame, hremoved⟩ | ⟨-, hupdate, -⟩
  · rw [hsame]
    exact hremoved
  · intro a' ha'
    rw [hupdate, Function.update_self] at ha'
    cases ha'

theorem removeAccount_of_removed (providerName : String) (s : State) (id : ℕ)
    (h : RemovedOn env providerName s.database id) :
    (removeAccount env providerName s id).database = s.database := by
  rcases removeAccount_cases env providerName s id with ⟨hsame, -⟩ | ⟨-, -, hnot⟩
  · exact hsame
  · exact absurd h hnot

/-- The provider of the service that a stale service file is taken for. -/
def serviceOf (env : Environment) (content : File → Option Content) (name : String) :
    Option String :=
  env.service (completeBaseName name) (content ⟨"services", completeBaseName name ++ ".service"⟩)

/-- Nothing is left to be disabled or deleted for a stale file. -/
def Forgotten (env : Environment) (provider? : Option String) (fileType : FileType) (name : String)
    (db : Database) : Prop :=
  match fileType with
  | .service => ∀ provider, provider? = some provider → ∀ id ∈ env.library.accountListEnabled db,
      DisabledOn env (completeBaseName name) provider db id
  | .provider => ∀ id ∈ env.library.accountList db, RemovedOn env (completeBaseName name) db id
  | .application => True

theorem Forgotten.fewer {provider? : Option String} {fileType : FileType} {name : String}
    {db db' : Database} (h : Fewer db' db) (hforgotten : Forgotten env provider? fileType name db) :
    Forgotten env provider? fileType name db' := by
  cases fileType with
  | service =>
      intro provider hprovider id hid
      exact (hforgotten provider hprovider id (h.mem_accountListEnabled env.library hid)).fewer h
  | provider =>
      intro id hid a' ha' hprovider
      obtain ⟨a, ha, hsame, -⟩ := h id a' ha'
      have hlisted := env.library.mem_accountList.mpr (Option.isSome_of_eq_some ha)
      exact hforgotten id hlisted a ha (hsame.symm.trans hprovider)
  | application => trivial

variable (env) in
theorem forget_forgotten (fileType : FileType) (name profile : String) (s : State) :
    Fewer (forget env fileType name profile s).database s.database ∧
      Forgotten env (serviceOf env s.accounts.content name) fileType name
        (forget env fileType name profile s).database := by
  cases fileType with
  | service =>
      change Fewer (disableService env _ profile s).database _ ∧
        Forgotten _ _ _ _ (disableService env _ profile s).database
      unfold disableService serviceOf
      cases env.service (completeBaseName name)
          (s.accounts.content ⟨"services", completeBaseName name ++ ".service"⟩) with
      | none => exact ⟨Fewer.refl _, fun provider hprovider => absurd hprovider (by simp)⟩
      | some provider =>
          obtain ⟨hfewer, hdisabled⟩ := foldl_settles
            (disableOn_fewer env (completeBaseName name) provider profile)
            (disableOn_disabled (completeBaseName name) provider profile)
            (fun h hdisabled => hdisabled.fewer h) (env.library.accountListEnabled s.database) s
          refine ⟨hfewer, ?_⟩
          intro provider' hprovider id hid
          obtain rfl := Option.some.inj hprovider
          exact hdisabled id (hfewer.mem_accountListEnabled env.library hid)
  | provider =>
      obtain ⟨hfewer, hremoved⟩ := foldl_settles
        (removeAccount_fewer env (completeBaseName name))
        (removeAccount_removed (completeBaseName name))
        (fun h hremoved => hremoved.fewer h) (env.library.accountList s.database) s
      refine ⟨hfewer, ?_⟩
      intro id hid
      apply hremoved id
      rw [env.library.mem_accountList, Option.isSome_iff_exists] at hid ⊢
      obtain ⟨a', ha'⟩ := hid
      obtain ⟨a, ha, -⟩ := hfewer id a' ha'
      exact ⟨a, ha⟩
  | application => exact ⟨Fewer.refl _, trivial⟩

theorem forget_of_forgotten (fileType : FileType) (name profile : String) (s : State)
    (h : Forgotten env (serviceOf env s.accounts.content name) fileType name s.database) :
    (forget env fileType name profile s).database = s.database := by
  cases fileType with
  | service =>
      change (disableService env _ profile s).database = _
      unfold disableService
      unfold serviceOf at h
      cases hservice : env.service (completeBaseName name)
          (s.accounts.content ⟨"services", completeBaseName name ++ ".service"⟩) with
      | none => rfl
      | some provider =>
          exact foldl_of_settled (disableOn_of_disabled (completeBaseName name) provider profile) _ s
            (h provider hservice)
  | provider => exact foldl_of_settled (removeAccount_of_removed (completeBaseName name)) _ s h
  | application => rfl

/-! ### The removal of stale files -/

/-- Some of the files that are to be removed have been removed. -/
def Between (env : Environment) (hooksDirIn : HooksDir) (content content' : File → Option Content) :
    Prop :=
  ∀ file, content' file = content file ∨
    content' file = none ∧ Removed env hooksDirIn content file

/-- The name passes the filters for the files of a type. -/
def Eligible (env : Environment) (fileType : FileType) (name : String) : Prop :=
  '/' ∉ name.toList ∧ env.readable ⟨fileType.dir, name⟩ = true ∧
    Wildcard.accepts ("*." ++ fileType.name) name = true

theorem eligible_of_mem {d : AccountsDir} {fileType : FileType} {name : String}
    (h : name ∈ entryInfoList env d fileType) : Eligible env fileType name := by
  unfold entryInfoList at h
  rw [List.mem_filter, d.listed, Bool.and_eq_true] at h
  exact ⟨h.1.1, h.2⟩

theorem Between.removeStaleFile {content : File → Option Content} {fileType : FileType}
    {name : String} (hname : Eligible env fileType name) {s : State}
    (h : Between env hooksDirIn content s.accounts.content) :
    Between env hooksDirIn content
      (removeStaleFile env hooksDirIn fileType s name).accounts.content := by
  intro file
  rw [removeStaleFile_content]
  by_cases hgoes : file = ⟨fileType.dir, name⟩ ∧
      goes env hooksDirIn s.accounts.content file = true
  · rw [if_pos hgoes]
    refine Or.inr ⟨rfl, ?_⟩
    obtain ⟨rfl, hgoes⟩ := hgoes
    unfold goes at hgoes
    rw [Bool.and_eq_true] at hgoes
    obtain ⟨hremoves, hstale⟩ := hgoes
    rcases h ⟨fileType.dir, name⟩ with hsame | ⟨-, hremoved⟩
    · refine ⟨hremoves, fileType, rfl, ⟨hname.1, hname.2.1, hname.2.2, ?_⟩⟩
      unfold nodesAt at hstale
      rw [hsame] at hstale
      cases hc : content ⟨fileType.dir, name⟩ with
      | none =>
          rw [hc] at hstale
          exact absurd hstale Bool.false_ne_true
      | some c =>
          rw [hc] at hstale
          exact ⟨c, rfl, hstale⟩
    · exact hremoved
  · rw [if_neg hgoes]
    exact h file

theorem removeStaleFile_fewer (fileType : FileType) (s : State) (name : String) :
    Fewer (removeStaleFile env hooksDirIn fileType s name).database s.database := by
  rw [removeStaleFile_cases]
  split_ifs
  · exact (forget_forgotten env fileType name _ s).1
  · exact (forget_forgotten env fileType name _ s).1
  · exact Fewer.refl _

theorem between_removeStaleFilesOf {content : File → Option Content} {fileType : FileType}
    {names : List String} (hnames : ∀ name ∈ names, Eligible env fileType name) {s : State}
    (h : Between env hooksDirIn content s.accounts.content) :
    Between env hooksDirIn content
        (names.foldl (removeStaleFile env hooksDirIn fileType) s).accounts.content ∧
      Fewer (names.foldl (removeStaleFile env hooksDirIn fileType) s).database s.database := by
  induction names generalizing s with
  | nil => exact ⟨h, Fewer.refl _⟩
  | cons name names ih =>
      obtain ⟨hname, hnames⟩ := List.forall_mem_cons.mp hnames
      obtain ⟨hbetween, hfewer⟩ := ih hnames (h.removeStaleFile hname)
      exact ⟨hbetween, hfewer.trans (removeStaleFile_fewer fileType s name)⟩

/-- A stale file of the directory is forgotten, with the service that it was taken for. -/
def ForgottenFile (env : Environment) (hooksDirIn : HooksDir) (content : File → Option Content)
    (fileType : FileType) (name : String) (db : Database) : Prop :=
  ∃ content', Between env hooksDirIn content content' ∧
    content' ⟨fileType.dir, name⟩ = content ⟨fileType.dir, name⟩ ∧
      Forgotten env (serviceOf env content' name) fileType name db

theorem foldl_forgotten {content : File → Option Content} {fileType : FileType} {name : String}
    (hstale : isStale env hooksDirIn (nodesAt content ⟨fileType.dir, name⟩) = true)
    {names : List String} (hnames : ∀ name ∈ names, Eligible env fileType name)
    (hmem : name ∈ names) {s : State} (h : Between env hooksDirIn content s.accounts.content)
    (hs : s.accounts.content ⟨fileType.dir, name⟩ = content ⟨fileType.dir, name⟩) :
    ForgottenFile env hooksDirIn content fileType name
      (names.foldl (removeStaleFile env hooksDirIn fileType) s).database := by
  induction names generalizing s with
  | nil => exact absurd hmem List.not_mem_nil
  | cons name' names ih =>
      obtain ⟨hname', hothers⟩ := List.forall_mem_cons.mp hnames
      have hround := h.removeStaleFile hname'
      by_cases he : name = name'
      · subst he
        refine ⟨s.accounts.content, h, hs, ?_⟩
        apply Forgotten.fewer (between_removeStaleFilesOf hothers hround).2
        have hfound : isStale env hooksDirIn
            (nodesAt s.accounts.content ⟨fileType.dir, name⟩) = true := by
          unfold nodesAt at hstale ⊢
          rw [hs]
          exact hstale
        have hforgotten := (forget_forgotten env fileType name
          (profile (nodesAt s.accounts.content ⟨fileType.dir, name⟩)) s).2
        rw [removeStaleFile_cases, if_pos hfound]
        split_ifs
        · exact hforgotten
        · exact hforgotten
      · refine ih hothers ((List.mem_cons.mp hmem).resolve_left he) hround ?_
        rw [removeStaleFile_content, if_neg]
        · exact hs
        · intro hfile
          exact he (congrArg File.name hfile.1)

/-- **Forgetting**: when the stale files have been removed as far as possible, nothing is left to
be disabled or deleted for any of them. -/
theorem removeStaleFiles_forgotten {s : State} {fileType : FileType} {name : String}
    (hstale : StaleFile env hooksDirIn s.accounts.content fileType name) :
    ForgottenFile env hooksDirIn s.accounts.content fileType name
      (removeStaleFiles env hooksDirIn s).database := by
  obtain ⟨hplain, hreadable, haccepted, c, hc, hnodes⟩ := hstale
  have hstale : isStale env hooksDirIn
      (nodesAt s.accounts.content ⟨fileType.dir, name⟩) = true := by
    unfold nodesAt
    rw [hc]
    exact hnodes
  have hloop (types : List FileType) (t : State)
      (h : Between env hooksDirIn s.accounts.content t.accounts.content) :
      Fewer (types.foldl (removeStaleFilesOf env hooksDirIn) t).database t.database ∧
        (fileType ∈ types →
          t.accounts.content ⟨fileType.dir, name⟩ = s.accounts.content ⟨fileType.dir, name⟩ →
          ForgottenFile env hooksDirIn s.accounts.content fileType name
            (types.foldl (removeStaleFilesOf env hooksDirIn) t).database) := by
    induction types generalizing t with
    | nil => exact ⟨Fewer.refl _, fun hmem => absurd hmem List.not_mem_nil⟩
    | cons fileType' types ih =>
        have hnames : ∀ n ∈ entryInfoList env t.accounts fileType', Eligible env fileType' n :=
          fun n hn => eligible_of_mem hn
        obtain ⟨hbetween, hround⟩ := between_removeStaleFilesOf hnames h
        obtain ⟨hfewer, hrest⟩ := ih (removeStaleFilesOf env hooksDirIn t fileType') hbetween
        refine ⟨hfewer.trans hround, ?_⟩
        intro hmem ht
        by_cases he : fileType = fileType'
        · subst he
          have hlisted : name ∈ entryInfoList env t.accounts fileType := by
            unfold entryInfoList
            rw [List.mem_filter, t.accounts.listed, ht, hc, Bool.and_eq_true]
            exact ⟨⟨hplain, rfl⟩, hreadable, haccepted⟩
          obtain ⟨content', hcontent', hsame, hforgotten⟩ :=
            foldl_forgotten hstale hnames hlisted h ht
          exact ⟨content', hcontent', hsame, hforgotten.fewer hfewer⟩
        · refine hrest ((List.mem_cons.mp hmem).resolve_left he) ?_
          rw [removeStaleFilesOf_content, if_neg]
          · exact ht
          · rintro ⟨-, hdir, -⟩
            exact he (FileType.dir_injective hdir)
  have hmem : fileType ∈ fileTypes := by cases fileType <;> simp [fileTypes]
  exact (hloop fileTypes s fun file => Or.inl rfl).2 hmem rfl

/-- Stale files that cannot be removed and have been forgotten change no account. -/
theorem removeStaleFiles_of_forgotten {s : State}
    (h : ∀ fileType name, StaleFile env hooksDirIn s.accounts.content fileType name →
      env.removes ⟨fileType.dir, name⟩ = false ∧
        Forgotten env (serviceOf env s.accounts.content name) fileType name s.database) :
    (removeStaleFiles env hooksDirIn s).database = s.database := by
  have hnames (fileType : FileType) (names : List String)
      (hlisted : ∀ name ∈ names, name ∈ entryInfoList env s.accounts fileType) (t : State)
      (ht : t.accounts = s.accounts ∧ t.database = s.database) :
      (names.foldl (removeStaleFile env hooksDirIn fileType) t).accounts = s.accounts ∧
        (names.foldl (removeStaleFile env hooksDirIn fileType) t).database = s.database := by
    induction names generalizing t with
    | nil => exact ht
    | cons name names ih =>
        obtain ⟨hname, hothers⟩ := List.forall_mem_cons.mp hlisted
        apply ih hothers
        rw [removeStaleFile_cases, ht.1]
        by_cases hstale : isStale env hooksDirIn
            (nodesAt s.accounts.content ⟨fileType.dir, name⟩) = true
        · obtain ⟨hstays, hforgotten⟩ := h fileType name (staleFile_iff.mpr ⟨hname, hstale⟩)
          rw [← ht.1, ← ht.2] at hforgotten
          rw [if_pos hstale, if_neg (by rw [hstays]; exact Bool.false_ne_true)]
          exact ⟨(forget_accounts env fileType name _ t).1.trans ht.1,
            (forget_of_forgotten fileType name _ t hforgotten).trans ht.2⟩
        · rw [if_neg hstale]
          exact ht
  have htypes (types : List FileType) (t : State)
      (ht : t.accounts = s.accounts ∧ t.database = s.database) :
      (types.foldl (removeStaleFilesOf env hooksDirIn) t).database = s.database := by
    induction types generalizing t with
    | nil => exact ht.2
    | cons fileType types ih =>
        apply ih
        apply hnames fileType _ _ t ht
        rw [ht.1]
        exact fun name hname => hname
  exact htypes fileTypes s ⟨rfl, rfl⟩

/-! ### The second run -/

/-- A run from this state removes no file and no marker, changes no account and leaves all files
and links with their contents. -/
structure Idle (env : Environment) (hooksDirIn : HooksDir) (s : State) : Prop where
  files : (removeStaleFiles env hooksDirIn s).accounts.content = s.accounts.content
  markers : (removeStaleTimestampFiles env hooksDirIn s).processed = s.processed
  accounts : (run env hooksDirIn s).database = s.database
  contents : (run env hooksDirIn s).accounts.content = s.accounts.content

/-- The last manifest that writes a file is completely processed only if all that write the file
are. -/
def CompleteTogether (env : Environment) (hooks : List HookFile) : Prop :=
  ∀ file hook, lastWriter (changes env) hooks file = some hook → completes env hook = true →
    ∀ other ∈ hooks, completes env other = false → lastWrite (changes env other) file = none

/-- A stale service file `X.SERVICE`, with a suffix that is not in lower case, is taken for the
service of another file: no account is left for which it would be disabled. -/
def OthersForgotten (env : Environment) (hooksDirIn : HooksDir) (s : State) : Prop :=
  ∀ name, StaleFile env hooksDirIn s.accounts.content .service name →
    name ≠ completeBaseName name ++ ".service" →
      Forgotten env (serviceOf env s.accounts.content name) .service name s.database

theorem pending_run (s : State) :
    pending (run env hooksDirIn s).processed hooksDirIn.hooks =
      (pending s.processed hooksDirIn.hooks).filter fun hook => !completes env hook := by
  unfold pending
  rw [List.filter_filter]
  apply List.filter_congr
  intro hook h
  rw [(run_cases s).2.2 hook h, Bool.not_or, Bool.and_comm]

/-- What is stale after a run was so before, and cannot be removed. -/
theorem staleFile_of_run (hliteral : ∀ hook ∈ hooksDirIn.hooks, Wildcard.Literal hook.appId.toList)
    {s : State} {fileType : FileType} {name : String}
    (h : StaleFile env hooksDirIn (run env hooksDirIn s).accounts.content fileType name) :
    StaleFile env hooksDirIn s.accounts.content fileType name ∧
      env.removes ⟨fileType.dir, name⟩ = false ∧
      (run env hooksDirIn s).accounts.content ⟨fileType.dir, name⟩ =
        s.accounts.content ⟨fileType.dir, name⟩ := by
  obtain ⟨c, hc, hstale⟩ := h.stale
  have hsame : (run env hooksDirIn s).accounts.content ⟨fileType.dir, name⟩ =
      (removeStaleFiles env hooksDirIn s).accounts.content ⟨fileType.dir, name⟩ := by
    rw [run_content] at hc ⊢
    cases hwrite : lastWrite ((pending s.processed hooksDirIn.hooks).flatMap (changes env))
        ⟨fileType.dir, name⟩ with
    | none => rfl
    | some v =>
        rw [hwrite, Option.getD_some] at hc
        subst hc
        obtain ⟨hook, hpending, hchange⟩ := List.mem_flatMap.mp (mem_of_lastWrite hwrite)
        have hhook : hook ∈ hooksDirIn.hooks := List.mem_of_mem_filter hpending
        obtain ⟨ok, -, hchange⟩ := changeOf_of_mem hchange
        rcases hchange with ⟨hlink, -⟩ | ⟨-, ⟨nodes, hnodes, hmarked⟩ | ⟨-, hnone | hempty⟩⟩
        · exact absurd (congrArg File.dir hlink) fileType.dir_ne
        · obtain rfl := Option.some.inj hnodes
          have hfound := not_isStale env hhook (hliteral hook hhook) hmarked.1
          exact absurd (hfound.symm.trans hstale) Bool.false_ne_true
        · cases hnone
        · obtain rfl := Option.some.inj hempty
          exact absurd hstale Bool.false_ne_true
  rcases removeStaleFiles_content_cases env hooksDirIn s ⟨fileType.dir, name⟩ with ⟨-, hnone⟩ | ⟨hstays, hold⟩
  · rw [hsame, hnone] at hc
    cases hc
  · have hbefore : StaleFile env hooksDirIn s.accounts.content fileType name :=
      (StaleFile.congr ⟨fileType.dir, name⟩ rfl (hsame.trans hold)).mp h
    refine ⟨hbefore, ?_, hsame.trans hold⟩
    rw [← Bool.not_eq_true]
    intro hremoves
    exact hstays ⟨hremoves, fileType, rfl, hbefore⟩

theorem removeStaleFiles_run (hliteral : ∀ hook ∈ hooksDirIn.hooks, Wildcard.Literal hook.appId.toList)
    (s : State) : (∀ file, ¬ Removed env hooksDirIn (run env hooksDirIn s).accounts.content file) ∧
      (removeStaleFiles env hooksDirIn (run env hooksDirIn s)).accounts.content =
        (run env hooksDirIn s).accounts.content := by
  have hstays (file : File) :
      ¬ Removed env hooksDirIn (run env hooksDirIn s).accounts.content file := by
    rintro ⟨hremoves, fileType, hdir, hstale⟩
    obtain ⟨-, hfails, -⟩ := staleFile_of_run hliteral hstale
    rw [← hdir] at hfails
    exact Bool.false_ne_true (hfails.symm.trans hremoves)
  refine ⟨hstays, ?_⟩
  funext file
  rcases removeStaleFiles_content_cases env hooksDirIn (run env hooksDirIn s) file with ⟨hremoved, -⟩ | ⟨-, hsame⟩
  · exact absurd hremoved (hstays file)
  · exact hsame

theorem forgotten_run (hliteral : ∀ hook ∈ hooksDirIn.hooks, Wildcard.Literal hook.appId.toList)
    {s : State} {fileType : FileType} {name : String}
    (h : StaleFile env hooksDirIn (run env hooksDirIn s).accounts.content fileType name)
    (hname : fileType = .service → name = completeBaseName name ++ ".service") :
    Forgotten env (serviceOf env (run env hooksDirIn s).accounts.content name) fileType name
      (run env hooksDirIn s).database := by
  obtain ⟨hbefore, -, hsame⟩ := staleFile_of_run hliteral h
  obtain ⟨content', -, hcontent', hforgotten⟩ := removeStaleFiles_forgotten hbefore
  rw [(run_cases s).2.1]
  cases fileType with
  | service =>
      have hservice : serviceOf env (run env hooksDirIn s).accounts.content name =
          serviceOf env content' name := by
        unfold serviceOf
        rw [← hname rfl]
        exact congrArg _ (hsame.trans hcontent'.symm)
      rw [hservice]
      exact hforgotten
  | provider => exact hforgotten
  | application => trivial

/-- The second run changes no account exactly if the services of other files are forgotten. -/
theorem database_run_iff (hliteral : ∀ hook ∈ hooksDirIn.hooks, Wildcard.Literal hook.appId.toList)
    (s : State) :
    (run env hooksDirIn (run env hooksDirIn s)).database = (run env hooksDirIn s).database ↔
      OthersForgotten env hooksDirIn (run env hooksDirIn s) := by
  have hstays (file : File) :
      ¬ Removed env hooksDirIn (run env hooksDirIn s).accounts.content file :=
    (removeStaleFiles_run hliteral s).1 file
  rw [(run_cases (run env hooksDirIn s)).2.1]
  constructor
  · intro hsame name hstale _
    obtain ⟨content', hbetween, -, hforgotten⟩ := removeStaleFiles_forgotten hstale
    have hcontent : content' = (run env hooksDirIn s).accounts.content := by
      funext file
      rcases hbetween file with hfile | ⟨-, hremoved⟩
      · exact hfile
      · exact absurd hremoved (hstays file)
    rw [hcontent, hsame] at hforgotten
    exact hforgotten
  · intro hothers
    apply removeStaleFiles_of_forgotten
    intro fileType name hstale
    refine ⟨(staleFile_of_run hliteral hstale).2.1, ?_⟩
    by_cases hname : fileType = .service → name = completeBaseName name ++ ".service"
    · exact forgotten_run hliteral hstale hname
    · obtain ⟨hservice, hother⟩ := Classical.not_imp.mp hname
      subst hservice
      exact hothers name hstale hother

/-- The second run leaves the files as they are exactly if no manifest that is processed again
comes back over one that is not. -/
theorem content_run_iff (hliteral : ∀ hook ∈ hooksDirIn.hooks, Wildcard.Literal hook.appId.toList)
    (s : State) :
    (run env hooksDirIn (run env hooksDirIn s)).accounts.content =
        (run env hooksDirIn s).accounts.content ↔
      CompleteTogether env (pending s.processed hooksDirIn.hooks) := by
  have hfiles : (removeStaleFiles env hooksDirIn (run env hooksDirIn s)).accounts.content =
      (run env hooksDirIn s).accounts.content :=
    (removeStaleFiles_run hliteral s).2
  have hdistinct : ∀ hook ∈ pending s.processed hooksDirIn.hooks,
      ∀ other ∈ pending s.processed hooksDirIn.hooks, ∀ file c?,
      (!completes env hook) = false → (!completes env other) = true →
      lastWrite (changes env hook) file = some c? → lastWrite (changes env other) file ≠ some c? := by
    intro hook hhook other hother file c? hcompletes hfails hwrite hwrite'
    rw [Bool.not_eq_false'] at hcompletes
    rw [Bool.not_eq_true'] at hfails
    have hne : hook ≠ other := by
      rintro rfl
      exact Bool.false_ne_true (hfails.symm.trans hcompletes)
    exact changes_distinct (List.mem_of_mem_filter hhook) (List.mem_of_mem_filter hother) hne
      hcompletes (mem_of_lastWrite hwrite) (mem_of_lastWrite hwrite')
  rw [(run_cases (run env hooksDirIn s)).1, hfiles, pending_run, (run_cases s).1,
    rewrite_eq_self_iff _ _ _ hdistinct]
  unfold CompleteTogether
  simp only [Bool.not_eq_false', Bool.not_eq_true']

theorem removeStaleTimestampFiles_run (s : State) :
    (removeStaleTimestampFiles env hooksDirIn (run env hooksDirIn s)).processed =
      (run env hooksDirIn s).processed := by
  funext name
  by_cases hgone : name ∉ hooksDirIn.entryList ∧ env.removesMarker name = true
  · have hhooks : name ∉ hooksDirIn.hooks.map HookFile.fileName :=
      fun hmem => hgone.1 (List.mem_append_left _ hmem)
    rw [run_processed s hhooks]
    unfold removeStaleTimestampFiles
    dsimp only
    rw [if_pos hgone, if_pos hgone]
  · exact if_neg hgone

/-- **The hook program, run twice**: the second run does nothing exactly if the last of the
manifests that write a file is processed completely only together with the others, and no stale
file with a suffix in capitals stands for a service that an account still has. -/
theorem run_twice_iff (env : Environment) (hooksDirIn : HooksDir)
    (hliteral : ∀ hook ∈ hooksDirIn.hooks, Wildcard.Literal hook.appId.toList) (s : State) :
    Idle env hooksDirIn (run env hooksDirIn s) ↔
      CompleteTogether env (pending s.processed hooksDirIn.hooks) ∧
        OthersForgotten env hooksDirIn (run env hooksDirIn s) := by
  rw [← content_run_iff hliteral, ← database_run_iff hliteral]
  constructor
  · rintro ⟨-, -, haccounts, hcontents⟩
    exact ⟨hcontents, haccounts⟩
  · rintro ⟨hcontents, haccounts⟩
    exact ⟨(removeStaleFiles_run hliteral s).2, removeStaleTimestampFiles_run s, haccounts,
      hcontents⟩

/-- Two applications, and a place marker in the name of one of them: the services of `p%1_a` for
`x` and of `px_a` for `%2` have one id. -/
def placeMarkers : HooksDir where
  hooks := [servicesFor "p%1_a_1" 10 ["x", "y"], servicesFor "px_a_1" 20 ["%2"]]
  named := by decide
  single := by decide
  foreign := foreign_nil

/-- The second file of the first application cannot be written. -/
def secondFails : Environment where
  outcomes appId :=
    if appId = "p%1_a_1" then { service := fun i => if i = 1 then .notOpened else .written } else {}

theorem run_twice_iff_completed :
    Idle {} placeMarkers (run {} placeMarkers {}) ↔
      CompleteTogether {} (pending (fun _ => none) placeMarkers.hooks) ∧
        OthersForgotten {} placeMarkers (run {} placeMarkers {}) :=
  run_twice_iff {} placeMarkers (by decide) {}

/-- The second run gives the file that the second application has written last back to the first
one. -/
theorem second_run_overwrites : ¬ Idle secondFails placeMarkers (run secondFails placeMarkers {}) := by
  intro h
  have hfirst : profile (nodesAt (run secondFails placeMarkers {}).accounts.content
      ⟨"services", "px_a_%2.service"⟩) = "px_a_1" := by
    decide +kernel
  have hsecond : profile (nodesAt (run secondFails placeMarkers
      (run secondFails placeMarkers {})).accounts.content ⟨"services", "px_a_%2.service"⟩) =
      "p%1_a_1" := by
    decide +kernel
  have hsame := congrArg (fun content =>
    profile (nodesAt content ⟨"services", "px_a_%2.service"⟩)) h.contents
  exact absurd (hsecond.symm.trans (hsame.trans hfirst)) (by decide)

end AccountsHook

end OnlineAccounts
