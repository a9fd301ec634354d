import OnlineAccounts.Markup
import OnlineAccounts.Variant

/-! # The accounts library, as far as the programs use it

`Database` holds the stored accounts, and an `Account` is what can be read of the object that a
client edits in memory.  The operations on them are those of libaccounts-qt: a `Library` is any
implementation whose operations follow their documentation, which is given by the laws among its
fields.  Every model that edits accounts takes a library as a parameter; `Library.inMemory` is one.

`Manager` answers the lookups of `Accounts::Manager`: an object that is not valid is `none`.
The files in which providers and applications are declared are kept as documents, since the
code reads the AppArmor profile of a package from them. -/

namespace OnlineAccounts.Accounts

open Markup

structure Service where
  name : String
  provider : String

structure Provider where
  displayName : String := ""
  iconName : String := ""
  isSingleAccount : Bool := false
  /-- The parsed provider file. -/
  domDocument : Document

structure Application where
  name : String
  displayName : String := ""
  iconName : String := ""
  /-- How the application says it uses a service, empty when it does not use it. -/
  serviceUsage : Service → String := fun _ => ""

/-- The settings of an account, for the account itself (`none`) and for each of its services. -/
abbrev Settings := Option String × String → Option QVariant

/-- An account as it is stored. -/
structure StoredAccount where
  provider : String
  settings : Settings := fun _ => none

/-- The stored accounts.  An id above `lastId` has never been used, and `0` is no id. -/
structure Database where
  accounts : ℕ → Option StoredAccount
  lastId : ℕ
  unused : ∀ id, lastId < id → accounts id = none
  zero : accounts 0 = none

/-- An account object: `id` is `0` until it is first stored, and `loaded` are the settings that it
had when it was loaded. -/
structure Account where
  id : ℕ
  provider : String
  selectedService : Option String := none
  settings : Settings := fun _ => none
  loaded : Settings := fun _ => none
  removed : Bool := false

/-- The object of a stored account, as it is loaded. -/
def StoredAccount.load (id : ℕ) (a : StoredAccount) : Account where
  id := id
  provider := a.provider
  settings := a.settings
  loaded := a.settings

/-- A stored account with the settings of its object that differ from those it was loaded with. -/
def StoredAccount.update (stored : StoredAccount) (a : Account) : StoredAccount where
  provider := stored.provider
  settings := fun k => if a.settings k = a.loaded k then stored.settings k else a.settings k

theorem StoredAccount.update_of_loaded {stored : StoredAccount} {a : Account}
    (h : a.loaded = stored.settings) : stored.update a = ⟨stored.provider, a.settings⟩ := by
  unfold update
  congr
  funext k
  split_ifs with hk
  · rw [hk, h]
  · rfl

namespace Account

/-- The settings of the selected service change. -/
def changeSelected (a : Account) (f : (String → Option QVariant) → String → Option QVariant) :
    Account :=
  { a with
    settings := fun k =>
      if k.1 = a.selectedService then f (fun key => a.settings (a.selectedService, key)) k.2
      else a.settings k }

theorem changeSelected_id (a : Account) : (a.changeSelected fun values => values) = a := by
  have hsettings : (fun k : Option String × String =>
      if k.1 = a.selectedService then a.settings (a.selectedService, k.2) else a.settings k) =
      a.settings := by
    funext ⟨service, key⟩
    split_ifs with hk
    · rw [← hk]
    · rfl
  exact congrArg (fun settings => { a with settings := settings }) hsettings

theorem changeSelected_changeSelected (a : Account)
    (f g : (String → Option QVariant) → String → Option QVariant) :
    (a.changeSelected f).changeSelected g = a.changeSelected (g ∘ f) := by
  unfold changeSelected
  congr
  funext k
  by_cases hk : k.1 = a.selectedService
  · simp [hk]
  · simp [hk]

theorem foldl_changeSelected {ε : Type*} {op : Account → ε → Account}
    {f : ε → (String → Option QVariant) → String → Option QVariant}
    (hop : ∀ a e, op a e = a.changeSelected (f e)) (es : List ε) (a : Account) :
    es.foldl op a =
      a.changeSelected fun values => es.foldl (fun values e => f e values) values := by
  induction es generalizing a with
  | nil => exact (changeSelected_id a).symm
  | cons e es ih =>
      rw [List.foldl_cons, ih, hop, changeSelected_changeSelected]
      rfl

end Account

/-- The operations of libaccounts-qt, with what their documentation says of them. -/
structure Library where
  /-- Whether `setValue` can store a value: it ignores values of the other types. -/
  stores : QVariant → Bool
  /-- Whether `remove("")` removes a setting whose own key is empty. -/
  removesEmptyKey : Bool
  /-- The id that a new account gets. -/
  newId : Database → ℕ
  /-- The object that the `n`-th call of `account` or `createAccount` creates. -/
  object : ℕ → ℕ
  createAccount : String → Account
  account : Database → ℕ → Option Account
  accountList : Database → List ℕ
  accountListEnabled : Database → List ℕ
  selectService : Account → Option String → Account
  setValue : Account → String → QVariant → Account
  /-- `remove(key)`: one setting of the selected service, or all of them. -/
  removeKey : Account → String → Account
  /-- `remove()`: the account is deleted at the next sync. -/
  remove : Account → Account
  isEnabled : Account → Bool
  setEnabled : Account → Bool → Account
  credentialsId : Account → ℕ
  sync : Database → Account → Database
  newId_unused : ∀ db, newId db ≠ 0 ∧ db.accounts (newId db) = none
  object_injective : Function.Injective object
  createAccount_eq : ∀ provider, createAccount provider = { id := 0, provider := provider }
  /-- The stored account with that id, whatever its provider. -/
  account_eq : ∀ db id, account db id = (db.accounts id).map (StoredAccount.load id)
  mem_accountList : ∀ {db id}, id ∈ accountList db ↔ (db.accounts id).isSome = true
  mem_accountListEnabled : ∀ {db id}, id ∈ accountListEnabled db ↔
    ∃ a, db.accounts id = some a ∧ a.settings (none, "enabled") = some (.bool true)
  nodup_accountListEnabled : ∀ db, (accountListEnabled db).Nodup
  selectService_eq : ∀ a service, selectService a service = { a with selectedService := service }
  setValue_eq : ∀ a key value, setValue a key value =
    if stores value then
      { a with settings := Function.update a.settings (a.selectedService, key) (some value) }
    else a
  removeKey_eq : ∀ a key, key ≠ "" → removeKey a key =
    { a with settings := Function.update a.settings (a.selectedService, key) none }
  /-- The empty key stands for all keys of the selected service. -/
  removeKey_empty : ∀ a, removeKey a "" =
    { a with
      settings := fun k =>
        if k.1 = a.selectedService ∧ (k.2 ≠ "" ∨ removesEmptyKey = true) then none
        else a.settings k }
  remove_eq : ∀ a, remove a = { a with removed := true }
  isEnabled_eq : ∀ a, isEnabled a =
    decide (a.settings (a.selectedService, "enabled") = some (.bool true))
  setEnabled_eq : ∀ a enabled, setEnabled a enabled =
    { a with
      settings := Function.update a.settings (a.selectedService, "enabled") (some (.bool enabled)) }
  credentialsId_eq : ∀ a, a.selectedService = none →
    credentialsId a = ((a.settings (none, "CredentialsId")).map QVariant.toUInt).getD 0
  sync_new : ∀ db a, a.id = 0 → (sync db a).accounts =
    if a.removed then db.accounts
    else Function.update db.accounts (newId db) (some ⟨a.provider, a.settings⟩)
  /-- What has been changed on the object is stored. -/
  sync_stored : ∀ db a stored, db.accounts a.id = some stored → (sync db a).accounts =
    Function.update db.accounts a.id (if a.removed then none else some (stored.update a))

namespace Database

/-- Delete, insert or overwrite one account. -/
def put (db : Database) (id : ℕ) (a : Option StoredAccount) (h : id ≠ 0) : Database where
  accounts := Function.update db.accounts id a
  lastId := max db.lastId id
  unused := by
    intro i hi
    have hne : i ≠ id := by omega
    rw [Function.update_of_ne hne, db.unused i (by omega)]
  zero := by rw [Function.update_of_ne (Ne.symm h), db.zero]

/-- The database with the given accounts under the ids `1, 2, …`. -/
def ofList (as : List StoredAccount) : Database where
  accounts := fun id => match id with
    | 0 => none
    | id + 1 => as[id]?
  lastId := as.length
  unused := by
    intro id hid
    cases id with
    | zero => rfl
    | succ id => exact List.getElem?_eq_none (by omega)
  zero := rfl

theorem ne_zero_of_accounts {db : Database} {id : ℕ} {a : StoredAccount}
    (h : db.accounts id = some a) : id ≠ 0 := by
  rintro rfl
  rw [db.zero] at h
  cases h

theorem le_lastId_of_accounts {db : Database} {id : ℕ} (h : (db.accounts id).isSome = true) :
    id ≤ db.lastId := by
  by_contra hlt
  rw [db.unused id (not_le.mp hlt)] at h
  cases h

/-- Store an account object in memory: a removed account is deleted if it was stored, a new one
gets the next id. -/
def sync (db : Database) (a : Account) : Database :=
  if h : a.id = 0 then
    if a.removed then db
    else db.put (db.lastId + 1) (some ⟨a.provider, a.settings⟩) (Nat.succ_ne_zero _)
  else db.put a.id (if a.removed then none else (db.accounts a.id).map fun s => s.update a) h

end Database

/-- A library that keeps the accounts in memory.  Numbers, strings and booleans can be stored. -/
def Library.inMemory : Library where
  stores
    | .invalid | .map _ => false
    | _ => true
  removesEmptyKey := false
  newId db := db.lastId + 1
  object n := n
  createAccount provider := { id := 0, provider := provider }
  account db id := (db.accounts id).map (StoredAccount.load id)
  accountList db := (List.range (db.lastId + 1)).filter fun id => (db.accounts id).isSome
  accountListEnabled db := (List.range (db.lastId + 1)).filter fun id =>
    (db.accounts id).any fun a => a.settings (none, "enabled") = some (.bool true)
  selectService a service := { a with selectedService := service }
  setValue a key value :=
    match value with
    | .invalid | .map _ => a
    | value =>
        { a with settings := Function.update a.settings (a.selectedService, key) (some value) }
  removeKey a key :=
    { a with
      settings := fun k =>
        if k.1 = a.selectedService ∧ (k.2 = key ∨ key = "") ∧ (k.2 = "" → key ≠ "") then none
        else a.settings k }
  remove a := { a with removed := true }
  isEnabled a := a.settings (a.selectedService, "enabled") = some (.bool true)
  setEnabled a enabled :=
    { a with
      settings := Function.update a.settings (a.selectedService, "enabled") (some (.bool enabled)) }
  credentialsId a :=
    ((a.settings (a.selectedService, "CredentialsId")).map QVariant.toUInt).getD 0
  sync := Database.sync
  newId_unused db := ⟨Nat.succ_ne_zero _, db.unused _ (Nat.lt_succ_self _)⟩
  object_injective := Function.injective_id
  createAccount_eq _ := rfl
  account_eq _ _ := rfl
  mem_accountList := by
    intro db id
    rw [List.mem_filter, List.mem_range, and_iff_right_iff_imp]
    exact fun h => Nat.lt_succ_of_le (Database.le_lastId_of_accounts h)
  mem_accountListEnabled := by
    intro db id
    rw [List.mem_filter, List.mem_range]
    cases ha : db.accounts id with
    | none => simp
    | some a =>
        have hle : id ≤ db.lastId := Database.le_lastId_of_accounts (Option.isSome_of_eq_some ha)
        simp [Nat.lt_succ_of_le hle]
  nodup_accountListEnabled _ := List.nodup_range.filter _
  selectService_eq _ _ := rfl
  setValue_eq _ _ value := by cases value <;> rfl
  removeKey_eq a key hkey := by
    congr
    funext ⟨service, key'⟩
    by_cases hk : (service, key') = (a.selectedService, key)
    · obtain ⟨rfl, rfl⟩ := Prod.mk.inj hk
      simp [hkey]
    · rw [Function.update_of_ne hk, if_neg]
      rintro ⟨rfl, hor, -⟩
      exact hk (congrArg _ (hor.resolve_right hkey))
  removeKey_empty a := by simp
  remove_eq _ := rfl
  isEnabled_eq _ := rfl
  setEnabled_eq _ _ := rfl
  credentialsId_eq a h := by rw [h]
  sync_new db a h := by
    unfold Database.sync
    rw [dif_pos h]
    split_ifs <;> rfl
  sync_stored db a stored h := by
    unfold Database.sync
    rw [dif_neg (Database.ne_zero_of_accounts h), h]
    rfl

namespace Library

variable (lib : Library)

/-- Whether a key is removed with another one: all keys are removed with the empty key. -/
def removes (key key' : String) : Bool :=
  if key = "" then key' ≠ "" || lib.removesEmptyKey else key' = key

theorem setValue_eq_changeSelected (a : Account) (key : String) (value : QVariant) :
    lib.setValue a key value = a.changeSelected fun values =>
      if lib.stores value then Function.update values key (some value) else values := by
  rw [lib.setValue_eq]
  by_cases hstores : lib.stores value = true
  · simp only [hstores, if_true, Account.changeSelected]
    congr
    funext ⟨service, key'⟩
    by_cases hservice : service = a.selectedService
    · subst hservice
      by_cases hkey : key' = key <;> simp [hkey]
    · simp [hservice]
  · simp only [hstores]
    exact a.changeSelected_id.symm

theorem removeKey_eq_changeSelected (a : Account) (key : String) :
    lib.removeKey a key = a.changeSelected fun values key' =>
      if lib.removes key key' then none else values key' := by
  unfold removes Account.changeSelected
  by_cases hkey : key = ""
  · subst hkey
    rw [lib.removeKey_empty]
    congr
    funext ⟨service, key'⟩
    by_cases hservice : service = a.selectedService
    · simp [hservice]
    · simp [hservice]
  · rw [lib.removeKey_eq a key hkey]
    congr
    funext ⟨service, key'⟩
    by_cases hservice : service = a.selectedService
    · subst hservice
      by_cases hkey' : key' = key <;> simp [hkey, hkey']
    · simp [hservice]

theorem sync_loaded {db : Database} {a : Account} {stored : StoredAccount}
    (h : db.accounts a.id = some stored) (hloaded : a.loaded = stored.settings) :
    (lib.sync db a).accounts = Function.update db.accounts a.id
      (if a.removed then none else some ⟨stored.provider, a.settings⟩) := by
  rw [lib.sync_stored db a stored h, StoredAccount.update_of_loaded hloaded]

section

variable {db : Database} {id : ℕ} {a : StoredAccount}

theorem isEnabled_load (service : Option String) :
    lib.isEnabled (lib.selectService (a.load id) service) =
      decide (a.settings (service, "enabled") = some (.bool true)) := by
  rw [lib.isEnabled_eq, lib.selectService_eq]
  rfl

theorem credentialsId_load : lib.credentialsId (a.load id) =
    ((a.settings (none, "CredentialsId")).map QVariant.toUInt).getD 0 :=
  lib.credentialsId_eq _ rfl

theorem sync_setEnabled (h : db.accounts id = some a) (service : Option String) (enabled : Bool) :
    (lib.sync db (lib.setEnabled (lib.selectService (a.load id) service) enabled)).accounts =
      Function.update db.accounts id (some { a with
        settings := Function.update a.settings (service, "enabled") (some (.bool enabled)) }) := by
  rw [lib.setEnabled_eq, lib.selectService_eq]
  exact lib.sync_loaded h rfl

theorem sync_remove (h : db.accounts id = some a) :
    (lib.sync db (lib.remove (a.load id))).accounts = Function.update db.accounts id none := by
  rw [lib.remove_eq]
  exact lib.sync_loaded h rfl

end

end Library

structure Manager where
  library : Library := .inMemory
  service : String → Option Service := fun _ => none
  serviceList : List Service := []
  provider : String → Option Provider := fun _ => none
  application : String → Option Application := fun _ => none
  /-- The file `accounts/applications/<id>.application` of the user, if it can be opened and
  read as a document. -/
  applicationFile : String → Option Document := fun _ => none

end OnlineAccounts.Accounts
