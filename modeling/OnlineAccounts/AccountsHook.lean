import OnlineAccounts.Acl
import OnlineAccounts.ManifestFile
import OnlineAccounts.Wildcard

/-! # The second hook program

`online-accounts-hooks2` (`click-hooks/accounts.cpp`) runs at the start of every session and when
click packages change.  It first removes the files of applications that have gone, with their
accounts, and then processes the manifests that have no valid marker: a file `.processed` beside
the manifest with the same modification time.

A file is modelled by the nodes that `setContent` makes of its bytes, so that a document which is
written is read back as it was.  The outcomes of all operations are in the `Environment`. -/

namespace OnlineAccounts.AccountsHook

open Accounts Markup

/-! ### The directories -/

/-- The directory `accounts/`: its files, and for each of its directories the files in it in the
order in which they are listed. -/
structure AccountsDir where
  content : File → Option Content
  listing : String → List String
  listed : ∀ dir name, name ∈ listing dir ↔ '/' ∉ name.toList ∧ (content ⟨dir, name⟩).isSome = true

namespace AccountsDir

def empty : AccountsDir where
  content := fun _ => none
  listing := fun _ => []
  listed := by simp

/-- The listing of a directory after one file has changed. -/
def relist (names : List String) (name : String) (c? : Option Content) : List String :=
  if c?.isNone then names.filter (· ≠ name)
  else if '/' ∈ name.toList ∨ name ∈ names then names
  else names ++ [name]

theorem mem_relist {names : List String} {name : String} {c? : Option Content}
    (h : name ∈ names → '/' ∉ name.toList) (name' : String) :
    name' ∈ relist names name c? ↔
      if name' = name then '/' ∉ name.toList ∧ c?.isSome = true else name' ∈ names := by
  unfold relist
  cases c? with
  | none =>
      by_cases hname : name' = name
      · simp [hname]
      · simp [hname]
  | some c =>
      simp only [Option.isNone_some, Bool.false_eq_true, if_false, Option.isSome_some, and_true]
      split_ifs with hskip hname hname
      · subst hname
        rcases hskip with hslash | hmem
        · exact iff_of_false (fun hmem => h hmem hslash) (not_not.mpr hslash)
        · exact iff_of_true hmem (h hmem)
      · rfl
      · subst hname
        obtain ⟨hslash, -⟩ := not_or.mp hskip
        exact iff_of_true (by simp) hslash
      · simp [hname]

/-- One file changes. -/
def change (d : AccountsDir) (c : Change) : AccountsDir where
  content := Function.update d.content c.1 c.2
  listing := fun dir =>
    if dir = c.1.dir then relist (d.listing dir) c.1.name c.2 else d.listing dir
  listed := by
    obtain ⟨⟨dir, name⟩, c?⟩ := c
    intro dir' name'
    have hplain : name ∈ d.listing dir → '/' ∉ name.toList := fun h => ((d.listed dir name).mp h).1
    by_cases hdir : dir' = dir
    · subst hdir
      rw [if_pos rfl, mem_relist hplain, d.listed]
      by_cases hname : name' = name
      · subst hname
        simp
      · rw [if_neg hname, Function.update_of_ne (by simp [hname])]
    · rw [if_neg hdir, d.listed, Function.update_of_ne (by simp [hdir])]

def apply (d : AccountsDir) (changes : List Change) : AccountsDir := changes.foldl change d

@[simp] theorem change_content (d : AccountsDir) (c : Change) :
    (d.change c).content = Function.update d.content c.1 c.2 := rfl

theorem apply_content (d : AccountsDir) (changes : List Change) :
    (d.apply changes).content = Writes.applyWrites d.content changes := by
  unfold apply
  induction changes generalizing d with
  | nil => rfl
  | cons c changes ih =>
      rw [List.foldl_cons, ih]
      rfl

end AccountsDir

/-- The hooks directory: the manifests, at most one for each application, and the names of the
other entries.  The markers are not among these: no name that is looked for ends as theirs do. -/
structure HooksDir where
  hooks : List HookFile
  others : List String := []
  named : ∀ hook ∈ hooks, (split '_' hook.appId).length = 3
  single : (hooks.map HookFile.shortAppId).Nodup
  foreign : ∀ name ∈ others, ¬ ".accounts".toList <:+ name.toList

def HooksDir.entryList (dir : HooksDir) : List String := dir.hooks.map HookFile.fileName ++ dir.others

/-- What a run of the program reads and changes. -/
structure State where
  accounts : AccountsDir := .empty
  /-- The markers, by the names of the files that they are for. -/
  processed : String → Option ℕ := fun _ => none
  database : Database := .ofList []
  /-- The access control lists of the identities of signond. -/
  identities : ℕ → Option (List String) := fun _ => none

structure Environment extends Surroundings where
  library : Library := .inMemory
  readable : File → Bool := fun _ => true
  /-- The provider of a service, if it is valid; libaccounts reads it from the service file, or
  from one outside of the directory. -/
  service : String → Option Content → Option String := fun _ _ => none
  /-- Whether a stale file and a stale marker can be removed. -/
  removes : File → Bool := fun _ => true
  removesMarker : String → Bool := fun _ => true
  outcomes : String → Outcomes := fun _ => {}
  /-- Whether disabling a service on an account, and removing an account, are stored. -/
  disables : String → ℕ → Bool := fun _ _ => true
  removesAccount : ℕ → Bool := fun _ => true
  /-- Whether signond answers without an error. -/
  signond : ℕ → Bool := fun _ => true

/-! ### `LibAccountsFile` -/

def Content.nodes : Content → List Node
  | .document nodes => nodes
  | .link _ => []

/-- The first element of a document. -/
def documentElement (nodes : List Node) : Option Element := nodes.findSome? Node.toElement

def profile (nodes : List Node) : String :=
  ((documentElement nodes).map fun root => root.childText "profile").getD ""

/-- `contains(creatorMark)`, for a comment. -/
def isCreatorMark (env : Environment) : Node → Bool
  | .comment text => decide ((env.click.applicationName ++ ";").toList <:+: text.toList)
  | _ => false

def createdByUs (env : Environment) (nodes : List Node) : Bool := nodes.any (isCreatorMark env)

/-! ### Accounts of services that have gone -/

/-- `AclUpdater::removeApp`. -/
def removeApp (env : Environment) (shortAppId : String) (credentialsId : ℕ)
    (identities : ℕ → Option (List String)) : ℕ → Option (List String) :=
  if credentialsId = 0 ∨ '_' ∉ shortAppId.toList ∨ env.signond credentialsId = false then identities
  else match identities credentialsId with
    | none => identities
    | some acl => Function.update identities credentialsId
        (some (acl.filter fun token => !ApplicationManager.startsWith token shortAppId))

/-- One round of the loop in `disableService`. -/
def disableOn (env : Environment) (serviceId provider profile : String) (s : State) (id : ℕ) :
    State :=
  match env.library.account s.database id with
  | none => s
  | some account =>
      if account.provider ≠ provider then s
      else
        let credentialsId := env.library.credentialsId account
        let account := env.library.selectService account (some serviceId)
        if env.library.isEnabled account then
          { s with
            database :=
              if env.disables serviceId id then
                env.library.sync s.database (env.library.setEnabled account false)
              else s.database
            identities := removeApp env (stripVersion profile) credentialsId s.identities }
        else s

def disableService (env : Environment) (serviceId profile : String) (s : State) : State :=
  match env.service serviceId (s.accounts.content ⟨"services", serviceId ++ ".service"⟩) with
  | none => s
  | some provider =>
      (env.library.accountListEnabled s.database).foldl (disableOn env serviceId provider profile) s

/-- One round of the loop in `removeStaleAccounts`. -/
def removeAccount (env : Environment) (providerName : String) (s : State) (id : ℕ) : State :=
  match env.library.account s.database id with
  | none => s
  | some account =>
      if account.provider = providerName then
        { s with
          database :=
            if env.removesAccount id then
              env.library.sync s.database (env.library.remove account)
            else s.database }
      else s

def removeStaleAccounts (env : Environment) (providerName : String) (s : State) : State :=
  (env.library.accountList s.database).foldl (removeAccount env providerName) s

section

variable {env : Environment} {s : State} {id : ℕ} {a : StoredAccount}

theorem disableOn_none {serviceId provider profile : String} (h : s.database.accounts id = none) :
    disableOn env serviceId provider profile s id = s := by
  unfold disableOn
  rw [env.library.account_eq, h]
  rfl

theorem disableOn_some {serviceId provider profile : String}
    (h : s.database.accounts id = some a) :
    disableOn env serviceId provider profile s id =
      if a.provider = provider ∧ a.settings (some serviceId, "enabled") = some (.bool true) then
        { s with
          database :=
            if env.disables serviceId id then
              env.library.sync s.database
                (env.library.setEnabled (env.library.selectService (a.load id) (some serviceId))
                  false)
            else s.database
          identities := removeApp env (stripVersion profile)
            (((a.settings (none, "CredentialsId")).map QVariant.toUInt).getD 0) s.identities }
      else s := by
  have hprovider : (a.load id).provider = a.provider := rfl
  unfold disableOn
  rw [env.library.account_eq, h]
  dsimp only [Option.map_some]
  rw [env.library.isEnabled_load, env.library.credentialsId_load, hprovider, ite_not, ite_and]
  congr 1
  exact if_congr decide_eq_true_iff rfl rfl

theorem removeAccount_none {providerName : String} (h : s.database.accounts id = none) :
    removeAccount env providerName s id = s := by
  unfold removeAccount
  rw [env.library.account_eq, h]
  rfl

theorem removeAccount_some {providerName : String} (h : s.database.accounts id = some a) :
    removeAccount env providerName s id =
      if a.provider = providerName then
        { s with
          database :=
            if env.removesAccount id then
              env.library.sync s.database (env.library.remove (a.load id))
            else s.database }
      else s := by
  unfold removeAccount
  rw [env.library.account_eq, h]
  rfl

end

/-! ### Files of applications that have gone -/

/-- `completeBaseName()`: what stands before the last dot. -/
def completeBaseName (fileName : String) : String :=
  let components := split '.' fileName
  if components.length = 1 then fileName else join '.' components.dropLast

theorem completeBaseName_append (name : String) {suffix : String} (h : '.' ∉ suffix.toList) :
    completeBaseName (name ++ "." ++ suffix) = name := by
  have hsplit : split '.' (name ++ "." ++ suffix) = split '.' name ++ [suffix] := by
    have hlist : (name ++ "." ++ suffix).toList = name.toList ++ '.' :: suffix.toList := by simp
    unfold split
    rw [hlist, List.splitOn_append_cons_self, List.splitOn_eq_singleton h]
    simp
  have hne : split '.' name ≠ [] := by simp [split, List.splitOn_ne_nil]
  unfold completeBaseName
  dsimp only
  rw [hsplit, if_neg (by simp [hne]), List.dropLast_concat, join_split]

inductive FileType where
  | service
  | provider
  | application
deriving DecidableEq

def fileTypes : List FileType := [.service, .provider, .application]

def FileType.name : FileType → String
  | .service => "service"
  | .provider => "provider"
  | .application => "application"

def FileType.dir (fileType : FileType) : String := fileType.name ++ "s"

/-- The names that `entryInfoList` returns with the filters for a file type. -/
def entryInfoList (env : Environment) (accounts : AccountsDir) (fileType : FileType) :
    List String :=
  (accounts.listing fileType.dir).filter fun name =>
    env.readable ⟨fileType.dir, name⟩ && Wildcard.accepts ("*." ++ fileType.name) name

/-- The name filter for the manifest that a profile belongs to. -/
def hookFileName (profile : String) : String := stripVersion profile ++ "_*.accounts"

/-- The file was created by the program, and no manifest of its application is there. -/
def isStale (env : Environment) (hooksDirIn : HooksDir) (nodes : List Node) : Bool :=
  createdByUs env nodes &&
    !hooksDirIn.entryList.any (Wildcard.accepts (hookFileName (profile nodes)))

/-- One round of the loop over the files of one type. -/
def removeStaleFile (env : Environment) (hooksDirIn : HooksDir) (fileType : FileType) (s : State)
    (name : String) : State :=
  let file : File := ⟨fileType.dir, name⟩
  let nodes := ((s.accounts.content file).map Content.nodes).getD []
  if isStale env hooksDirIn nodes then
    let s := match fileType with
      | .service => disableService env (completeBaseName name) (profile nodes) s
      | .provider => removeStaleAccounts env (completeBaseName name) s
      | .application => s
    if env.removes file then { s with accounts := s.accounts.change (file, none) } else s
  else s

def removeStaleFilesOf (env : Environment) (hooksDirIn : HooksDir) (s : State)
    (fileType : FileType) : State :=
  (entryInfoList env s.accounts fileType).foldl (removeStaleFile env hooksDirIn fileType) s

def removeStaleFiles (env : Environment) (hooksDirIn : HooksDir) (s : State) : State :=
  fileTypes.foldl (removeStaleFilesOf env hooksDirIn) s

/-- A marker is removed unless its file is there. -/
def removeStaleTimestampFiles (env : Environment) (hooksDirIn : HooksDir) (s : State) : State :=
  { s with
    processed := fun name =>
      if name ∉ hooksDirIn.entryList ∧ env.removesMarker name = true then none
      else s.processed name }

/-! ### The loop over the manifests -/

/-- The marker of a manifest that was processed. -/
def setProcessed (outcome : MarkOutcome) (hook : HookFile) (processed : String → Option ℕ) :
    String → Option ℕ :=
  match outcome with
  | .notOpened => processed
  | .timeNotSet now => Function.update processed hook.fileName (some now)
  | .set => Function.update processed hook.fileName (some hook.lastModified)

def process (env : Environment) (s : State) (hook : HookFile) : State :=
  if s.processed hook.fileName = some hook.lastModified then s
  else
    let manifest := ManifestFile.ofHook env.toSurroundings hook
    if manifest.isValid then
      let outcomes := env.outcomes hook.appId
      let (changes, ok) := manifest.writeFiles env.toSurroundings outcomes
      let s := { s with accounts := s.accounts.apply changes }
      if ok then { s with processed := setProcessed outcomes.mark hook s.processed } else s
    else s

/-- One run of the program. -/
def run (env : Environment) (hooksDirIn : HooksDir) (s : State) : State :=
  let s := removeStaleFiles env hooksDirIn s
  let s := removeStaleTimestampFiles env hooksDirIn s
  hooksDirIn.hooks.foldl (process env) s

end OnlineAccounts.AccountsHook
