import OnlineAccounts.ProviderRequest

/-! # Publishing the hook files of click packages

The hook program (`click-hooks/main.cpp`) goes through the files that click packages install
as hooks, and publishes each of them for libaccounts: the document is read, marked, given the
application id of the package as its profile, and written below `accounts/`.  The file name of
a hook is the application id `package_app_version`, followed by the type of the file.

A file is modelled by what `setContent` makes of its bytes, so that a document which is written
is read back as it was.  Three readers take the profile of a published file from the first child
element named `profile` of its root.  `addProfile` appends its element behind those that the
package wrote, so they find the application id exactly for the documents of `OwnProfile`
(`published_profile_iff`). -/

namespace OnlineAccounts.ClickHooks

open Accounts Markup

/-- A file: its modification time, and its document if it holds one. -/
structure File where
  lastModified : ℕ
  document : Option Document

/-- The files of the user, by path. -/
abbrev Files := String → Option File

/-- What the hook program finds outside of the program. -/
structure Environment where
  applicationName : String := "online-accounts-hooks"
  /-- The directory `~/.local/share`. -/
  localShare : String := ""
  /-- `OAH_CLICK_DIR` -/
  clickDir : String := ""
  /-- The directory of a package, if the click database knows it. -/
  clickPath : String → Option String := fun _ => none
  /-- The canonical path of a file, if it exists. -/
  canonicalFilePath : String → Option String := fun _ => none
  /-- Whether a file can be opened for writing, and whether the bytes then get written. -/
  opens : String → Bool := fun _ => true
  writes : String → Bool := fun _ => true

/-- An entry of the hooks directory. -/
structure HookFile where
  fileName : String
  file : File

namespace HookFile

/-- `suffix()`: what stands behind the last dot. -/
def suffix (hook : HookFile) : String :=
  let components := split '.' hook.fileName
  if components.length = 1 then "" else components.getLastD ""

/-- `completeBaseName()`: what stands before the last dot. -/
def completeBaseName (hook : HookFile) : String :=
  let components := split '.' hook.fileName
  if components.length = 1 then hook.fileName else join '.' components.dropLast

end HookFile

def fileTypes : List String := ["provider", "service", "service-type", "application"]

/-- `findPackageDir(appId)`, empty when the directory is not found. -/
def findPackageDir (env : Environment) (appId : String) : String :=
  if env.clickDir ≠ "" then env.clickDir
  else (env.clickPath ((split '_' appId).headD "")).getD ""

/-- `QDir::isAbsolutePath`, for files and for resources. -/
def isAbsolutePath (path : String) : Bool :=
  path.toList.head? = some '/' || path.toList.head? = some ':'

/-! ### `LibAccountsFile` -/

namespace LibAccountsFile

variable (env : Environment) (xml : Document)

def addCreatorMark : Document :=
  { xml with
    after := xml.after ++
      [.comment ("this file is auto-generated by " ++ env.applicationName ++ "; do not modify")] }

/-- Change the root element. -/
def onRoot (f : Element → Element) : Document := { xml with root := f xml.root }

def checkId (shortAppId : String) : Document := onRoot xml (·.setAttribute "id" shortAppId)

/-- Append a child element with a text to the root. -/
def append (tag text : String) : Document :=
  onRoot xml (·.appendChild (Element.ofText tag text).toNode)

def addProfile (appId : String) : Document := append xml "profile" appId

def addPackageDir (appId : String) : Document :=
  let packageDir := findPackageDir env appId
  if packageDir = "" then xml else append xml "package-dir" packageDir

def checkIconPath (appId : String) : Document :=
  match xml.root.firstChildElement "icon" with
  | none => xml
  | some elem =>
      let icon := elem.text
      if isAbsolutePath icon then xml
      else
        let packageDir := findPackageDir env appId
        if packageDir = "" then xml
        else match env.canonicalFilePath (packageDir ++ "/" ++ icon) with
          | none => xml
          | some path => onRoot xml fun root =>
              { root with children := modifyFirst "icon" (fun _ => [.text path]) root.children }

/-- Append an element unless there is one with its tag. -/
def appendIfMissing (tag text : String) : Document :=
  if (xml.root.firstChildElement tag).isSome then xml else append xml tag text

def addDesktopFile (appId : String) : Document := appendIfMissing xml "desktop-entry" appId

def addServiceType (shortAppId : String) : Document := appendIfMissing xml "type" shortAppId

def profile : String := xml.root.childText "profile"

end LibAccountsFile

/-! ### The processing loop -/

open LibAccountsFile

/-- The document that is published for a hook file with document `xml`. -/
def published (env : Environment) (hook : HookFile) (xml : Document) : Document :=
  let appId := hook.completeBaseName
  let shortAppId := stripVersion appId
  let xml := addCreatorMark env xml
  let xml := checkId xml shortAppId
  let xml := addProfile xml appId
  let xml := addPackageDir env xml appId
  let xml := checkIconPath env xml appId
  if hook.suffix = "application" then addDesktopFile xml appId
  else if hook.suffix = "service" then addServiceType xml shortAppId
  else xml

def destination (env : Environment) (hook : HookFile) : String :=
  env.localShare ++ "/accounts/" ++ hook.suffix ++ "s/" ++
    stripVersion hook.completeBaseName ++ "." ++ hook.suffix

/-- The destination is there and up to date. -/
def upToDate (env : Environment) (hook : HookFile) (files : Files) : Bool :=
  match files (destination env hook) with
  | none => false
  | some file => file.lastModified = hook.file.lastModified

/-- `writeTo(fileName)`: a file that could not be written completely is removed. -/
def writeTo (env : Environment) (hook : HookFile) (xml : Document) (fileName : String)
    (files : Files) : Files :=
  if env.opens fileName then
    if env.writes fileName then
      Function.update files fileName (some ⟨hook.file.lastModified, some xml⟩)
    else Function.update files fileName none
  else files

/-- One round of the loop over the hook files. -/
def process (env : Environment) (files : Files) (hook : HookFile) : Files :=
  if hook.suffix ∈ fileTypes then
    if upToDate env hook files then files
    else match hook.file.document with
      | none => files
      | some xml => writeTo env hook (published env hook xml) (destination env hook) files
  else files

/-- The loop over the hook files. -/
def processAll (env : Environment) (files : Files) (hooks : List HookFile) : Files :=
  hooks.foldl (process env) files

theorem process_frame (env : Environment) (files : Files) (hook : HookFile) {path : String}
    (h : destination env hook ≠ path) : process env files hook path = files path := by
  have hwrite (xml : Document) :
      writeTo env hook xml (destination env hook) files path = files path := by
    unfold writeTo
    split_ifs
    · exact Function.update_of_ne h.symm _ _
    · exact Function.update_of_ne h.symm _ _
    · rfl
  unfold process
  by_cases hs : hook.suffix ∈ fileTypes
  · by_cases hu : upToDate env hook files = true
    · rw [if_pos hs, if_pos hu]
    · rw [if_pos hs, if_neg hu]
      cases hook.file.document with
      | none => rfl
      | some xml => exact hwrite _
  · rw [if_neg hs]

theorem processAll_frame (env : Environment) {path : String} :
    ∀ (hooks : List HookFile) (files : Files), (∀ h ∈ hooks, destination env h ≠ path) →
      processAll env files hooks path = files path
  | [], _, _ => rfl
  | hook :: hooks, files, h => by
      have hrest := processAll_frame env hooks (process env files hook)
        fun h' hm => h h' (List.mem_cons_of_mem _ hm)
      rw [processAll, List.foldl_cons, ← processAll, hrest]
      exact process_frame env files hook (h hook List.mem_cons_self)

/-- A hook file with document `xml` is published by the loop: it is processed and written, and
no later hook file has its destination. -/
structure Publishes (env : Environment) (files : Files) (hooks : List HookFile) (hook : HookFile)
    (xml : Document) : Prop where
  document : hook.file.document = some xml
  supported : hook.suffix ∈ fileTypes
  written : env.opens (destination env hook) = true ∧ env.writes (destination env hook) = true
  processed : ∃ before after, hooks = before ++ hook :: after ∧
    upToDate env hook (processAll env files before) = false ∧
      ∀ h ∈ after, destination env h ≠ destination env hook

theorem Publishes.result {env : Environment} {files : Files} {hooks : List HookFile}
    {hook : HookFile} {xml : Document} (h : Publishes env files hooks hook xml) :
    processAll env files hooks (destination env hook) =
      some ⟨hook.file.lastModified, some (published env hook xml)⟩ := by
  obtain ⟨before, after, rfl, hdate, hafter⟩ := h.processed
  have hsplit : processAll env files (before ++ hook :: after) =
      processAll env (process env (processAll env files before) hook) after := by
    simp [processAll]
  rw [hsplit, processAll_frame env after _ hafter]
  simp [process, writeTo, h.supported, hdate, h.document, h.written.1, h.written.2]

/-! ### The profile that is read back -/

/-- The first `profile` element that the package wrote is missing or is the application id. -/
def OwnProfile (xml : Document) (appId : String) : Prop :=
  ∀ elem, xml.root.firstChildElement "profile" = some elem → elem.text = appId

section Writers

variable (env : Environment) (xml : Document) {tag : String}

theorem append_other (text : String) {tag' : String} (h : tag' ≠ tag) :
    (append xml tag' text).root.firstChildElement tag = xml.root.firstChildElement tag :=
  Element.firstChildElement_appendChild_ne _ _ h

theorem appendIfMissing_other (text : String) {tag' : String} (h : tag' ≠ tag) :
    (appendIfMissing xml tag' text).root.firstChildElement tag =
      xml.root.firstChildElement tag := by
  unfold appendIfMissing
  split_ifs
  · rfl
  · exact append_other xml text h

theorem addPackageDir_other (appId : String) (h : "package-dir" ≠ tag) :
    (addPackageDir env xml appId).root.firstChildElement tag =
      xml.root.firstChildElement tag := by
  unfold addPackageDir
  by_cases hd : findPackageDir env appId = ""
  · simp only [hd, if_true]
  · simp only [hd, if_false]
    exact append_other xml _ h

theorem checkIconPath_other (appId : String) (h : "icon" ≠ tag) :
    (checkIconPath env xml appId).root.firstChildElement tag =
      xml.root.firstChildElement tag := by
  unfold checkIconPath
  cases xml.root.firstChildElement "icon" with
  | none => rfl
  | some elem =>
      simp only
      split_ifs
      · rfl
      · rfl
      · cases env.canonicalFilePath _ with
        | none => rfl
        | some path => exact firstElement_modifyFirst h _ _

/-- Of all the writers only `addProfile` can be seen by a reader of the profile. -/
theorem published_firstChildElement (hook : HookFile) :
    (published env hook xml).root.firstChildElement "profile" =
      (addProfile xml hook.completeBaseName).root.firstChildElement "profile" := by
  have hicon : (checkIconPath env (addPackageDir env (addProfile (checkId (addCreatorMark env xml)
      (stripVersion hook.completeBaseName)) hook.completeBaseName) hook.completeBaseName)
      hook.completeBaseName).root.firstChildElement "profile" =
        (addProfile xml hook.completeBaseName).root.firstChildElement "profile" := by
    rw [checkIconPath_other env _ _ (by decide), addPackageDir_other env _ _ (by decide)]
    rfl
  unfold published addDesktopFile addServiceType
  simp only
  split_ifs
  · rw [appendIfMissing_other _ _ (by decide), hicon]
  · rw [appendIfMissing_other _ _ (by decide), hicon]
  · exact hicon

end Writers

/-- The appended profile is read back unless the package wrote one. -/
theorem profile_addProfile (xml : Document) (appId : String) :
    profile (addProfile xml appId) =
      ((xml.root.firstChildElement "profile").map Element.text).getD appId := by
  have happend := Element.firstChildElement_appendChild xml.root (Element.ofText "profile" appId)
    "profile"
  unfold profile addProfile append onRoot Element.childText
  rw [happend]
  cases xml.root.firstChildElement "profile" with
  | none => exact Element.ofText_text "profile" appId
  | some elem => rfl

theorem profile_published (env : Environment) (hook : HookFile) (xml : Document) :
    profile (published env hook xml) = hook.completeBaseName ↔
      OwnProfile xml hook.completeBaseName := by
  have hprofile : profile (published env hook xml) =
      profile (addProfile xml hook.completeBaseName) := by
    unfold profile Element.childText
    rw [published_firstChildElement]
  rw [hprofile, profile_addProfile]
  unfold OwnProfile
  cases xml.root.firstChildElement "profile" with
  | none => simp
  | some elem => simp

/-- What the readers of the profile find in a published document: the hook program, the service
process for a provider, and the application manager for an application. -/
structure ReadAs (document : Document) (appId : String) : Prop where
  hooks : profile document = appId
  provider : ∀ (manager : Manager) (id : String) (provider : Provider), id ≠ "" →
    manager.provider id = some provider → provider.domDocument = document →
      UiProxy.findAppArmorProfile manager id = appId
  application : ∀ (manager : Manager) (id : String),
    manager.applicationFile id = some document →
      ApplicationManager.applicationProfile manager id = appId

theorem readAs_iff (document : Document) (appId : String) :
    ReadAs document appId ↔ profile document = appId := by
  constructor
  · exact fun h => h.hooks
  · intro h
    refine ⟨h, ?_, ?_⟩
    · rintro manager id provider hid hp rfl
      simp only [UiProxy.findAppArmorProfile, hid, if_false, hp]
      exact h
    · intro manager id hf
      simp only [ApplicationManager.applicationProfile, hf]
      exact h

/-- **The profile of a published hook file**: it is read back as the application id exactly if
the package did not write another one first. -/
theorem published_profile_iff (env : Environment) (files : Files) (hooks : List HookFile)
    (hook : HookFile) (xml : Document) (h : Publishes env files hooks hook xml) :
    ∃ document, processAll env files hooks (destination env hook) =
        some ⟨hook.file.lastModified, some document⟩ ∧
      (ReadAs document hook.completeBaseName ↔ OwnProfile xml hook.completeBaseName) :=
  ⟨_, h.result, (readAs_iff _ _).trans (profile_published env hook xml)⟩

/-- The provider file of a package that names the profile of another package. -/
def impostor : Document where
  root := { tag := "provider", children := [(Element.ofText "profile" "victim_app_1.0").toNode] }

def impostorHook : HookFile := ⟨"evil_plugin_1.0.provider", 7, some impostor⟩

theorem impostor_publishes :
    Publishes {} (fun _ => none) [impostorHook] impostorHook impostor where
  document := rfl
  supported := by decide
  written := ⟨rfl, rfl⟩
  processed := ⟨[], [], rfl, rfl, by simp⟩

/-- The theorem at the hook file of the impostor. -/
theorem published_profile_iff_impostor :
    ∃ document, processAll {} (fun _ => none) [impostorHook] (destination {} impostorHook) =
        some ⟨7, some document⟩ ∧
      (ReadAs document impostorHook.completeBaseName ↔
        OwnProfile impostor impostorHook.completeBaseName) :=
  published_profile_iff {} (fun _ => none) [impostorHook] impostorHook impostor impostor_publishes

/-- The published file of the impostor is read as belonging to `victim_app_1.0`. -/
theorem impostor_chooses_its_profile :
    ¬ ∃ document, processAll {} (fun _ => none) [impostorHook] (destination {} impostorHook) =
        some ⟨7, some document⟩ ∧ ReadAs document impostorHook.completeBaseName := by
  rintro ⟨document, hd, hread⟩
  rw [impostor_publishes.result] at hd
  simp only [Option.some.injEq, File.mk.injEq] at hd
  obtain ⟨-, rfl⟩ := hd
  have hprofile : profile (published {} impostorHook impostor) = "victim_app_1.0" := by
    decide
  rw [hread.hooks] at hprofile
  revert hprofile
  decide

end OnlineAccounts.ClickHooks
