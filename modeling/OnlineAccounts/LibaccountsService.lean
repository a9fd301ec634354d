import OnlineAccounts.Accounts
import OnlineAccounts.Writes

/-! # Storing accounts for confined plugins

`LibaccountsService::store` (`libaccounts-service.cpp`) edits the accounts database on behalf
of a peer.  It compares the provider that the message claims with the AppArmor profile of the
peer, and then lets `writeChanges` create, load, edit or delete an account.  The message is
given demarshalled (`AccountChanges`); the outcome of `Account::sync` is an input.

The check looks at the claimed provider only, while the account to edit is chosen by its id.
The call respects the accounts of other providers exactly under `Harmless`
(`store_respects_iff`). -/

namespace OnlineAccounts.LibaccountsService

open Accounts Writes

structure ServiceChanges where
  service : String
  serviceType : String := ""
  serviceId : ℕ := 0
  settings : QVariantMap := .nil
  removedKeys : List String := []

structure AccountChanges where
  accountId : ℕ
  created : Bool
  deleted : Bool
  provider : String
  serviceChanges : List ServiceChanges := []

/-- The settings and the removed keys of one entry, written to the selected service. -/
def writeSettings (lib : Library) (account : Account) (sc : ServiceChanges) : Account :=
  sc.removedKeys.foldl lib.removeKey
    (sc.settings.entries.foldl (fun a e => lib.setValue a e.1 e.2) account)

/-- One round of the loop over the service changes; an invalid service is skipped. -/
def writeServiceChanges (manager : Manager) (account : Account) (sc : ServiceChanges) : Account :=
  let lib := manager.library
  if sc.service = "global" then writeSettings lib (lib.selectService account none) sc
  else match manager.service sc.service with
    | none => account
    | some service => writeSettings lib (lib.selectService account (some service.name)) sc

/-- `writeChanges`: the account object that is going to be synced, if there is one. -/
def writeChanges (manager : Manager) (db : Database) (changes : AccountChanges) : Option Account :=
  let account? :=
    if changes.created then some (manager.library.createAccount changes.provider)
    else manager.library.account db changes.accountId
  account?.map fun account =>
    if changes.deleted then manager.library.remove account
    else changes.serviceChanges.foldl (writeServiceChanges manager) account

/-- How `store` ends: with an error, without an answer, or waiting for a sync. -/
inductive Outcome where
  | accessDenied
  | notLoaded
  | syncing (account : Account)

/-- `LibaccountsService::store`, for a peer with AppArmor profile `profile`. -/
def store (manager : Manager) (db : Database) (profile : String) (changes : AccountChanges) : Outcome :=
  if stripVersion profile ≠ changes.provider then .accessDenied
  else match writeChanges manager db changes with
    | none => .notLoaded
    | some account => .syncing account

/-- The database after the call and after the sync it started, if the sync succeeds. -/
def stored (manager : Manager) (db : Database) (profile : String) (changes : AccountChanges)
    (synced : Bool) : Database :=
  match store manager db profile changes with
  | .syncing account => if synced then manager.library.sync db account else db
  | _ => db

/-! ### What an entry writes -/

/-- Where the values of an entry go: nowhere when it names an invalid service. -/
def target (manager : Manager) (sc : ServiceChanges) : Option (Option String) :=
  if sc.service = "global" then some none
  else (manager.service sc.service).map fun service => some service.name

/-- The settings of a service with an entry applied: first its settings, then its removed keys. -/
def ServiceChanges.apply (sc : ServiceChanges) (lib : Library) (values : String → Option QVariant) :
    String → Option QVariant :=
  sc.removedKeys.foldl
    (fun values key key' => if lib.removes key key' then none else values key')
    (sc.settings.entries.foldl
      (fun values e => if lib.stores e.2 then Function.update values e.1 (some e.2) else values)
      values)

/-- The settings of an account with an entry applied to the service that it names. -/
def applyEntry (manager : Manager) (settings : Settings) (sc : ServiceChanges) : Settings :=
  match target manager sc with
  | none => settings
  | some service => fun k =>
      if k.1 = service then sc.apply manager.library (fun key => settings (service, key)) k.2
      else settings k

theorem writeSettings_eq (lib : Library) (a : Account) (sc : ServiceChanges) :
    writeSettings lib a sc = a.changeSelected (sc.apply lib) := by
  unfold writeSettings
  rw [Account.foldl_changeSelected lib.removeKey_eq_changeSelected,
    Account.foldl_changeSelected fun a (e : String × QVariant) =>
      lib.setValue_eq_changeSelected a e.1 e.2,
    Account.changeSelected_changeSelected]
  rfl

theorem writeServiceChanges_eq (manager : Manager) (a : Account) (sc : ServiceChanges) :
    ∃ s, writeServiceChanges manager a sc =
      { a with selectedService := s, settings := applyEntry manager a.settings sc } := by
  unfold writeServiceChanges applyEntry target
  by_cases hg : sc.service = "global"
  · refine ⟨none, ?_⟩
    simp only [hg, if_true, writeSettings_eq, manager.library.selectService_eq]
    rfl
  · cases hs : manager.service sc.service with
    | none => exact ⟨a.selectedService, by simp [hg]⟩
    | some service =>
        refine ⟨some service.name, ?_⟩
        simp only [hg, if_false, writeSettings_eq, manager.library.selectService_eq,
          Option.map_some]
        rfl

/-- The loop applies the entries in list order. -/
theorem foldl_writeServiceChanges (manager : Manager) (scs : List ServiceChanges) (a : Account) :
    ∃ s, scs.foldl (writeServiceChanges manager) a =
      { a with selectedService := s, settings := scs.foldl (applyEntry manager) a.settings } := by
  induction scs generalizing a with
  | nil => exact ⟨a.selectedService, rfl⟩
  | cons sc scs ih =>
      obtain ⟨s, hs⟩ := writeServiceChanges_eq manager a sc
      obtain ⟨s', hs'⟩ := ih (writeServiceChanges manager a sc)
      refine ⟨s', ?_⟩
      rw [List.foldl_cons, hs', hs]
      rfl

/-! ### The settings after a call -/

/-- The account object that is edited: a new one, or the one that is named. -/
def opened (manager : Manager) (db : Database) (changes : AccountChanges) : Option Account :=
  if changes.created then some (manager.library.createAccount changes.provider)
  else manager.library.account db changes.accountId

/-- The values that an entry gives to a key, in order. -/
def ServiceChanges.values (sc : ServiceChanges) (lib : Library) (key : String) :
    List (Option QVariant) :=
  (sc.settings.entries.flatMap fun e => if e.1 = key ∧ lib.stores e.2 then [some e.2] else []) ++
    sc.removedKeys.flatMap fun removed => if lib.removes removed key then [none] else []

/-- The values that a message gives to a setting, in order. -/
def values (manager : Manager) (scs : List ServiceChanges) (k : Option String × String) :
    List (Option QVariant) :=
  scs.flatMap fun sc => if target manager sc = some k.1 then sc.values manager.library k.2 else []

/-- The entry sets or removes this setting of this service. -/
def Names (manager : Manager) (sc : ServiceChanges) (k : Option String × String) : Prop :=
  target manager sc = some k.1 ∧ (k.2 ∈ sc.settings.entries.map (·.1) ∨
    ∃ removed ∈ sc.removedKeys, manager.library.removes removed k.2 = true)

theorem ServiceChanges.apply_apply (sc : ServiceChanges) (lib : Library)
    (settings : String → Option QVariant) (key : String) :
    sc.apply lib settings key = (sc.values lib key).getLast?.getD (settings key) := by
  have hset (f : String → Option QVariant) (e : String × QVariant) (key : String) :
      (if lib.stores e.2 then Function.update f e.1 (some e.2) else f) key =
        (if e.1 = key ∧ lib.stores e.2 then [some e.2] else []).getLast?.getD (f key) := by
    by_cases hstores : lib.stores e.2 = true
    · by_cases hkey : e.1 = key
      · simp [hstores, ← hkey]
      · simp [hstores, hkey, Function.update_of_ne (Ne.symm hkey)]
    · simp [hstores]
  have hremove (f : String → Option QVariant) (removed key : String) :
      (if lib.removes removed key then none else f key) =
        (if lib.removes removed key then [none] else []).getLast?.getD (f key) := by
    by_cases hremoves : lib.removes removed key = true <;> simp [hremoves]
  unfold apply values
  rw [foldl_apply hremove, foldl_apply hset, List.getLast?_append]
  cases (sc.removedKeys.flatMap fun removed =>
    if lib.removes removed key then [none] else []).getLast? <;> rfl

theorem foldl_applyEntry (manager : Manager) (scs : List ServiceChanges) (settings : Settings)
    (k : Option String × String) :
    scs.foldl (applyEntry manager) settings k =
      (values manager scs k).getLast?.getD (settings k) := by
  have hentry (settings : Settings) (sc : ServiceChanges) (k : Option String × String) :
      applyEntry manager settings sc k =
        (if target manager sc = some k.1 then sc.values manager.library k.2 else []).getLast?.getD
          (settings k) := by
    unfold applyEntry
    cases target manager sc with
    | none => simp
    | some service =>
        by_cases hk : k.1 = service
        · simp [← hk, sc.apply_apply]
        · simp [hk, Ne.symm hk]
  exact foldl_apply hentry scs settings k

theorem values_eq_nil {manager : Manager} {scs : List ServiceChanges} {k : Option String × String}
    (h : ∀ sc ∈ scs, ¬ Names manager sc k) : values manager scs k = [] := by
  unfold values
  rw [List.flatMap_eq_nil_iff]
  intro sc hsc
  rw [ite_eq_right_iff]
  intro htarget
  unfold ServiceChanges.values
  rw [List.append_eq_nil_iff, List.flatMap_eq_nil_iff, List.flatMap_eq_nil_iff]
  constructor
  · intro e he
    rw [if_neg]
    rintro ⟨hkey, -⟩
    exact h sc hsc ⟨htarget, .inl (hkey ▸ List.mem_map_of_mem he)⟩
  · intro removed hremoved
    rw [if_neg]
    exact fun hremoves => h sc hsc ⟨htarget, .inr ⟨removed, hremoved, hremoves⟩⟩

/-- A message that does not delete the account applies its entries in list order to the settings of
the account.  The entries for invalid services may be left out, and what no entry for a valid
service names stays as it was. -/
theorem writeChanges_settings (manager : Manager) {db : Database} {changes : AccountChanges}
    {account : Account} (hdeleted : changes.deleted = false)
    (hopened : opened manager db changes = some account) :
    ∃ written, writeChanges manager db changes = some written ∧
      written.settings = changes.serviceChanges.foldl (applyEntry manager) account.settings ∧
      written.settings =
        (changes.serviceChanges.filter fun sc => (target manager sc).isSome).foldl
          (applyEntry manager) account.settings ∧
      ∀ k, (∀ sc ∈ changes.serviceChanges, ¬ Names manager sc k) →
        written.settings k = account.settings k := by
  obtain ⟨s, hs⟩ := foldl_writeServiceChanges manager changes.serviceChanges account
  refine ⟨{ account with
    selectedService := s
    settings := changes.serviceChanges.foldl (applyEntry manager) account.settings },
    ?_, rfl, ?_, ?_⟩
  · have hwrite : writeChanges manager db changes = (opened manager db changes).map fun account =>
        if changes.deleted then manager.library.remove account
        else changes.serviceChanges.foldl (writeServiceChanges manager) account := rfl
    rw [hwrite, hopened, Option.map_some, hdeleted, if_neg Bool.false_ne_true, hs]
  · show changes.serviceChanges.foldl (applyEntry manager) account.settings = _
    rw [List.foldl_filter]
    congr 1
    funext settings sc
    unfold applyEntry
    cases target manager sc <;> rfl
  · intro k hk
    show changes.serviceChanges.foldl (applyEntry manager) account.settings k = _
    rw [foldl_applyEntry, values_eq_nil hk]
    rfl

/-- The services of the messages below, by name. -/
def oneService : Manager where
  service := fun id => if id = "mail" then some ⟨"mail", "google"⟩ else none

/-- An entry for an invalid service stands between one for a service and one for the account. -/
def mixedChanges : AccountChanges where
  accountId := 0
  created := true
  deleted := false
  provider := "google"
  serviceChanges :=
    [{ service := "mail", settings := .cons "color" (.string "red") .nil },
      { service := "unknown", settings := .cons "color" (.string "blue") .nil,
        removedKeys := ["color"] },
      { service := "global", settings := .cons "name" (.string "me") .nil,
        removedKeys := ["color", "name", ""] }]

theorem writeChanges_settings_mixed :
    ∃ written, writeChanges oneService (.ofList []) mixedChanges = some written ∧
      written.settings = mixedChanges.serviceChanges.foldl (applyEntry oneService) (fun _ => none) ∧
      written.settings =
        (mixedChanges.serviceChanges.filter fun sc => (target oneService sc).isSome).foldl
          (applyEntry oneService) (fun _ => none) ∧
      ∀ k, (∀ sc ∈ mixedChanges.serviceChanges, ¬ Names oneService sc k) →
        written.settings k = none := by
  have hopened : opened oneService (.ofList []) mixedChanges =
      some { id := 0, provider := "google" } := rfl
  exact writeChanges_settings oneService rfl hopened

/-- One account, which has a colour for the service. -/
def coloredAccount : Database :=
  .ofList [⟨"google", fun k => if k = (some "mail", "color") then some (.string "red") else none⟩]

/-- All settings of the service are removed, and a picture is set. -/
def emptyKeyChanges : AccountChanges where
  accountId := 1
  created := false
  deleted := false
  provider := "google"
  serviceChanges :=
    [{ service := "mail", removedKeys := [""] },
      { service := "mail", settings := .cons "picture" (.map .nil) .nil }]

/-- The colour is gone, though no entry has its key, and the picture is not stored. -/
theorem empty_key_removes_color :
    (∀ sc ∈ emptyKeyChanges.serviceChanges,
      "color" ∉ sc.settings.entries.map (·.1) ∧ "color" ∉ sc.removedKeys) ∧
      ∃ account written, opened oneService coloredAccount emptyKeyChanges = some account ∧
        writeChanges oneService coloredAccount emptyKeyChanges = some written ∧
        account.settings (some "mail", "color") = some (.string "red") ∧
        written.settings (some "mail", "color") ≠ some (.string "red") ∧
        written.settings (some "mail", "picture") ≠ some (.map .nil) :=
  ⟨by decide, _, _, rfl, rfl, by decide, by decide, by decide⟩

/-! ### The accounts of other providers -/

/-- The accounts that a change of the database creates, modifies or deletes all belong to
`provider`, before and after. -/
def Respects (provider : String) (db db' : Database) : Prop :=
  ∀ id, db'.accounts id ≠ db.accounts id →
    (∀ a, db.accounts id = some a → a.provider = provider) ∧
      ∀ a, db'.accounts id = some a → a.provider = provider

theorem Respects.refl (provider : String) (db : Database) : Respects provider db db :=
  fun _ h => absurd rfl h

theorem respects_update_iff {provider : String} {db db' : Database} {id : ℕ}
    {a? : Option StoredAccount} (h : db'.accounts = Function.update db.accounts id a?) :
    Respects provider db db' ↔ (a? = db.accounts id ∨
      (∀ a, db.accounts id = some a → a.provider = provider) ∧
        ∀ a, a? = some a → a.provider = provider) := by
  unfold Respects
  rw [h]
  constructor
  · intro hr
    by_cases he : a? = db.accounts id
    · exact .inl he
    · have := hr id
      simp only [Function.update_self] at this
      exact .inr (this he)
  · rintro hr i hi
    by_cases hid : i = id
    · subst hid
      rw [Function.update_self] at hi ⊢
      exact hr.resolve_left hi
    · exact absurd (Function.update_of_ne hid _ _) hi

/-- The message leaves the account alone: it does not delete it, and the last value it gives
each setting, removals included, is the value the setting has. -/
def Idle (manager : Manager) (changes : AccountChanges) (a : StoredAccount) : Prop :=
  changes.deleted = false ∧
    ∀ k v, (values manager changes.serviceChanges k).getLast? = some v → a.settings k = v

/-- The messages that do not reach an account of another provider: the sync fails, or the call
is denied, or it creates the account, or the account it names does not exist, is the peer's own
or is left alone. -/
def Harmless (manager : Manager) (db : Database) (profile : String) (changes : AccountChanges)
    (synced : Bool) : Prop :=
  synced = false ∨ stripVersion profile ≠ changes.provider ∨ changes.created = true ∨
    ∀ a, db.accounts changes.accountId = some a →
      a.provider = stripVersion profile ∨ Idle manager changes a

theorem created_respects (manager : Manager) (db : Database) (changes : AccountChanges)
    (account : Account) (hc : changes.created = true)
    (h : writeChanges manager db changes = some account) :
    Respects changes.provider db (manager.library.sync db account) := by
  simp only [writeChanges, hc, if_true, Option.map_some, Option.some.injEq,
    manager.library.createAccount_eq] at h
  obtain ⟨s, hs⟩ := foldl_writeServiceChanges manager changes.serviceChanges
    { id := 0, provider := changes.provider }
  subst h
  cases hd : changes.deleted with
  | true =>
      rw [if_pos rfl, manager.library.remove_eq]
      intro id hid
      exact absurd (by rw [manager.library.sync_new _ _ rfl]; rfl) hid
  | false =>
      simp only [Bool.false_eq_true, if_false, hs]
      rw [respects_update_iff (manager.library.sync_new _ _ rfl)]
      right
      rw [(manager.library.newId_unused db).2]
      simp

/-- The entries leave the settings as they are if the last values are those that they have. -/
theorem foldl_applyEntry_eq_self_iff (manager : Manager) (scs : List ServiceChanges)
    (settings : Settings) : scs.foldl (applyEntry manager) settings = settings ↔
      ∀ k v, (values manager scs k).getLast? = some v → settings k = v := by
  rw [funext_iff]
  refine forall_congr' fun k => ?_
  rw [foldl_applyEntry]
  cases (values manager scs k).getLast? with
  | none => simp
  | some v => simp [eq_comm]

/-- An edit of a stored account respects the other providers only if the account is the
provider's own or is left alone. -/
theorem edited_respects_iff (manager : Manager) (db : Database) (provider : String)
    (changes : AccountChanges) (a : StoredAccount) (account : Account)
    (hc : changes.created = false) (ha : db.accounts changes.accountId = some a)
    (h : writeChanges manager db changes = some account) :
    Respects provider db (manager.library.sync db account) ↔
      a.provider = provider ∨ Idle manager changes a := by
  simp only [writeChanges, hc, Bool.false_eq_true, if_false, manager.library.account_eq, ha,
    Option.map_some, Option.some.injEq] at h
  obtain ⟨s, hs⟩ := foldl_writeServiceChanges manager changes.serviceChanges
    (a.load changes.accountId)
  subst h
  cases hd : changes.deleted with
  | true =>
      rw [if_pos rfl, manager.library.remove_eq,
        respects_update_iff (manager.library.sync_loaded ha rfl)]
      simp [StoredAccount.load, ha, Idle, hd]
  | false =>
      simp only [Bool.false_eq_true, if_false, hs]
      rw [respects_update_iff (manager.library.sync_loaded ha rfl)]
      simp only [StoredAccount.load, ha, Bool.false_eq_true, if_false, Option.some.injEq,
        forall_eq', and_self, Idle, hd, true_and, ← foldl_applyEntry_eq_self_iff]
      cases a with
      | mk p settings =>
          simp only [StoredAccount.mk.injEq, true_and]
          exact or_comm

/-- **`store` and the accounts of other providers**: exactly the harmless messages leave every
account of another provider as it was. -/
theorem store_respects_iff (manager : Manager) (db : Database) (profile : String)
    (changes : AccountChanges) (synced : Bool) :
    Respects (stripVersion profile) db (stored manager db profile changes synced) ↔
      Harmless manager db profile changes synced := by
  unfold stored store Harmless
  by_cases hp : stripVersion profile = changes.provider
  · simp only [hp, ne_eq, not_true_eq_false, if_false, false_or]
    cases hw : writeChanges manager db changes with
    | none =>
        simp only [Respects.refl, true_iff]
        by_cases hc : changes.created = true
        · exact .inr (.inl hc)
        · refine .inr (.inr fun a ha => ?_)
          simp [writeChanges, hc, manager.library.account_eq, ha] at hw
    | some account =>
        cases synced with
        | false => simp [Respects.refl]
        | true =>
            simp only [if_true, Bool.true_eq_false, false_or]
            cases hc : changes.created with
            | true => simpa using created_respects manager db changes account hc hw
            | false =>
                simp only [Bool.false_eq_true, false_or]
                cases ha : db.accounts changes.accountId with
                | none => simp [writeChanges, hc, manager.library.account_eq, ha] at hw
                | some a =>
                    rw [edited_respects_iff manager db changes.provider changes a account hc ha hw]
                    simp
  · simp [hp, Respects.refl]

/-- A plugin confined as `com.ubuntu.evil_plugin` claims its own provider id, and deletes
account `1` of the provider `google`. -/
theorem store_deletes_foreign_account :
    ¬ Respects (stripVersion "com.ubuntu.evil_plugin_1.0") (.ofList [⟨"google", fun _ => none⟩])
      (stored {} (.ofList [⟨"google", fun _ => none⟩]) "com.ubuntu.evil_plugin_1.0"
        { accountId := 1, created := false, deleted := true, provider := "com.ubuntu.evil_plugin" }
        true) := by
  intro h
  have hp : stripVersion "com.ubuntu.evil_plugin_1.0" = "com.ubuntu.evil_plugin" := by decide
  rw [hp] at h
  have hgone : (stored {} (.ofList [⟨"google", fun _ => none⟩]) "com.ubuntu.evil_plugin_1.0"
      { accountId := 1, created := false, deleted := true, provider := "com.ubuntu.evil_plugin" }
      true).accounts 1 = none := by
    simp only [stored, store, hp, ne_eq, not_true_eq_false, if_false]
    rfl
  obtain ⟨h, -⟩ := h 1 (by rw [hgone]; exact Option.some_ne_none _ ∘ Eq.symm)
  have := h _ rfl
  simp at this

end OnlineAccounts.LibaccountsService
