import OnlineAccounts.ClickHooks
import OnlineAccounts.Writes

/-! # The manifests of the second hook program

A click package installs one manifest for each of its applications, a JSON object with services
and at most one plugin.  `ManifestFile` (`click-hooks/accounts.cpp`) makes the files of libaccounts
from it: a document for each service, an application and a provider, and a link to the QML files
of the plugin.

Nothing that `writeFiles` does depends on the files that are there already, so it is given as the
list of the changes it makes to the directory `accounts/`, with its result.  The outcome of every
file operation is an input (`Outcomes`). -/

namespace OnlineAccounts

/-! ### JSON -/

mutual

inductive QJsonValue where
  | null
  | bool (b : Bool)
  /-- A number; no value of one is ever read. -/
  | double
  | string (s : String)
  | array (values : QJsonArray)
  | object (members : QJsonObject)

inductive QJsonArray where
  | nil
  | cons (value : QJsonValue) (rest : QJsonArray)

/-- The members in the order of their keys. -/
inductive QJsonObject where
  | nil
  | cons (key : String) (value : QJsonValue) (rest : QJsonObject)

end

namespace QJsonArray

def toList : QJsonArray → List QJsonValue
  | nil => []
  | cons value rest => value :: rest.toList

end QJsonArray

namespace QJsonObject

/-- `value(key)`: null stands for a missing member. -/
def value : QJsonObject → String → QJsonValue
  | nil, _ => .null
  | cons k v rest, key => if k = key then v else rest.value key

def members : QJsonObject → List (String × QJsonValue)
  | nil => []
  | cons key value rest => (key, value) :: rest.members

end QJsonObject

namespace QJsonValue

def toBool : QJsonValue → Bool
  | bool b => b
  | _ => false

def toString : QJsonValue → String
  | string s => s
  | _ => ""

def toArray : QJsonValue → List QJsonValue
  | array values => values.toList
  | _ => []

def toObject : QJsonValue → QJsonObject
  | object members => members
  | _ => .nil

end QJsonValue

/-! ### `QString::arg` -/

namespace PlaceMarker

/-- The number of the place marker that follows a `%`, and its length. -/
def marker (cs : List Char) : Option (ℕ × ℕ) :=
  let locale := if cs.head? = some 'L' then 1 else 0
  match (cs.drop locale).takeWhile Char.isDigit with
  | [] => none
  | [a] => some (a.toNat - '0'.toNat, locale + 1)
  | a :: b :: _ => some (10 * (a.toNat - '0'.toNat) + (b.toNat - '0'.toNat), locale + 2)

/-- The characters of a text, and its place markers with their numbers; `skip` characters belong
to a marker. -/
def pieces (skip : ℕ) : List Char → List (Option ℕ × List Char)
  | [] => []
  | c :: cs => match skip with
    | skip + 1 => pieces skip cs
    | 0 => match if c = '%' then marker cs else none with
      | none => (none, [c]) :: pieces 0 cs
      | some (number, length) => (some number, c :: cs.take length) :: pieces length cs

end PlaceMarker

open PlaceMarker in
/-- `QString::arg`: the place markers with the lowest number are replaced. -/
def arg (s a : String) : String :=
  let ps := pieces 0 s.toList
  let lowest := (ps.filterMap Prod.fst).min?
  .ofList (ps.flatMap fun p => if p.1.isSome ∧ p.1 = lowest then a.toList else p.2)

namespace AccountsHook

open Markup

/-! ### The files -/

/-- A file below `accounts/`, by its directory and its name in it. -/
@[ext]
structure File where
  dir : String
  name : String
deriving DecidableEq

inductive Content where
  | document (nodes : List Node)
  | link (target : String)

/-- What happens to a file: it gets a content or is removed. -/
abbrev Change := File × Option Content

/-- How writing a file goes.  A file that was opened is empty; it is removed if writing fails. -/
inductive WriteOutcome where
  | notOpened
  | notWritten (removed : Bool)
  | written
deriving DecidableEq

/-- How the marker is set: it cannot be opened, its time cannot be set, or it gets the time of the
hook file. -/
inductive MarkOutcome where
  | notOpened
  | timeNotSet (now : ℕ)
  | set
deriving DecidableEq

/-- The outcomes of the file operations for a hook file. -/
structure Outcomes where
  service : ℕ → WriteOutcome := fun _ => .written
  /-- The old link is removed, and the new one is made. -/
  unlinks : Bool := true
  links : Bool := true
  provider : WriteOutcome := .written
  application : WriteOutcome := .written
  mark : MarkOutcome := .set

/-- A manifest `<appId>.accounts` in the hooks directory; null when it cannot be read as JSON. -/
structure HookFile where
  appId : String
  lastModified : ℕ
  document : QJsonValue

def HookFile.fileName (hook : HookFile) : String := hook.appId ++ ".accounts"

def HookFile.shortAppId (hook : HookFile) : String := stripVersion hook.appId

structure ManifestFile where
  packageDir : String
  services : List QJsonValue
  plugin : QJsonObject
  appId : String
  shortAppId : String
  trDomain : String
  isScope : Bool

/-- What surrounds the files: the click database and the file system. -/
structure Surroundings where
  click : ClickHooks.Environment := { applicationName := "online-accounts-hooks2" }
  /-- The file that a path in the directory `services` leads to. -/
  locate : String → String := id

namespace ManifestFile

/-! ### The constructor -/

def ofHook (env : Surroundings) (hook : HookFile) : ManifestFile :=
  let mainObject := hook.document.toObject
  { packageDir := ClickHooks.findPackageDir env.click hook.appId
    services := (mainObject.value "services").toArray
    plugin := (mainObject.value "plugin").toObject
    appId := hook.appId
    shortAppId := hook.shortAppId
    trDomain := (mainObject.value "translations").toString
    isScope := (mainObject.value "scope").toBool }

def isValid (m : ManifestFile) : Bool := !m.services.isEmpty || !m.plugin.members.isEmpty

/-! ### The parts of the documents -/

/-- `createDocument`, with the root element that is appended to it. -/
def createDocument (env : Surroundings) (root : Element) : List Node :=
  [.instruction "xml" "version=\"1.0\" encoding=\"UTF-8\"",
    .comment ("this file is auto-generated by " ++ env.click.applicationName ++ "; do not modify"),
    root.toNode]

def createGroup (name : String) (children : List Node) : Node :=
  .element "group" [("name", name)] children

def addSetting (name value type : String) : Node :=
  .element "setting" ([("name", name)] ++ if type = "" then [] else [("type", type)]) [.text value]

/-- The text of an array of strings; other values are skipped. -/
def arrayText (values : List QJsonValue) : String :=
  "[" ++ join ',' (values.filterMap fun
    | .string s => some ("'" ++ s ++ "'")
    | _ => none) ++ "]"

/-- The groups that the parts of a key in front of the last one open, one in the other. -/
def openGroups (parts : List String) (children : List Node) : List Node :=
  parts.foldr (fun groupName nodes => [createGroup groupName nodes]) children

mutual

/-- What `addSettings` appends for one value, in the innermost group. -/
def settingNodes (key : String) : QJsonValue → List Node
  | .bool b => [addSetting key (if b then "true" else "false") "b"]
  | .string s => if s = "" then [] else [addSetting key s ""]
  | .array values => [addSetting key (arrayText values.toList) "as"]
  | .object members => [createGroup key (addSettings members)]
  | .null => []
  | .double => []

def addSettings : QJsonObject → List Node
  | .nil => []
  | .cons key value rest =>
      let parts := split '/' key
      openGroups parts.dropLast (settingNodes (parts.getLastD "") value) ++ addSettings rest

end

/-- The groups of one method and mechanism; a key that is no pair is skipped. -/
def authNodes (key : String) (value : QJsonValue) : List Node :=
  match split '/' key with
  | [method, mechanism] =>
      [addSetting "method" method "", addSetting "mechanism" mechanism "",
        createGroup method [createGroup mechanism (addSettings value.toObject)]]
  | _ => []

def addTemplate (json : QJsonObject) : List Node :=
  let auth := (json.value "auth").toObject.members
  let authElem := createGroup "auth" (auth.flatMap fun member => authNodes member.1 member.2)
  let children := (if auth.isEmpty then [] else [authElem]) ++
    addSettings (json.value "settings").toObject
  if children.isEmpty then [] else [.element "template" [] children]

/-- An element with a text. -/
def textElement (tag text : String) : Node := (Element.ofText tag text).toNode

variable (env : Surroundings) (m : ManifestFile)

def addProfile : Node := textElement "profile" m.appId

def addPackageDir : List Node :=
  if m.packageDir = "" then [] else [textElement "package-dir" m.packageDir]

def addTranslations : List Node :=
  if m.trDomain = "" then [] else [textElement "translations" m.trDomain]

def addDesktopFile : Node :=
  textElement "desktop-entry" (if m.isScope then m.shortAppId else m.appId)

/-! ### The files of a manifest -/

/-- The id of the service for a provider. -/
def serviceId (provider : String) : String := arg (arg "%1_%2" m.shortAppId) provider

def serviceFile (service : QJsonObject) : File :=
  ⟨"services", env.locate (m.serviceId (service.value "provider").toString ++ ".service")⟩

def providerFile : File := ⟨"providers", m.shortAppId ++ ".provider"⟩

def applicationFile : File := ⟨"applications", m.shortAppId ++ ".application"⟩

def qmlDestination : File := ⟨"qml-plugins", m.shortAppId⟩

/-- A text that is missing or empty is replaced by a dot. -/
def orDot (text : String) : String := if text = "" then "." else text

def serviceDocument (json : QJsonObject) : List Node :=
  let provider := (json.value "provider").toString
  createDocument env
    { tag := "service"
      attributes := [("id", m.serviceId provider)]
      children :=
        [textElement "type" m.shortAppId, textElement "provider" provider,
          textElement "name" (orDot (json.value "name").toString), m.addProfile] ++
        m.addTranslations ++ addTemplate json }

/-- The document of the application, when the files of all services have been written. -/
def applicationDocument : List Node :=
  let services := m.services.map fun v =>
    .element "service" [("id", m.serviceId (v.toObject.value "provider").toString)]
      [textElement "description" (orDot (v.toObject.value "description").toString)]
  createDocument env
    { tag := "application"
      attributes := [("id", m.shortAppId)]
      children := [m.addProfile] ++ m.addPackageDir ++ [m.addDesktopFile] ++ m.addTranslations ++
        [.element "services" [] services] }

/-- The icon: a relative path in the package when there is such a file. -/
def iconPath (icon : String) : String :=
  if ClickHooks.isAbsolutePath icon then icon
  else
    let test := m.packageDir ++ "/" ++ icon
    if (env.click.canonicalFilePath test).isSome then test else icon

def providerDocument (name icon : String) : List Node :=
  createDocument env
    { tag := "provider"
      attributes := [("id", m.shortAppId)]
      children :=
        [textElement "name" name, textElement "icon" (m.iconPath env icon), m.addProfile] ++
        m.addTranslations ++ addTemplate m.plugin ++ m.addPackageDir }

/-! ### Writing them -/

def writeXmlFile (outcome : WriteOutcome) (document : List Node) (file : File) :
    List Change × Bool :=
  match outcome with
  | .notOpened => ([], false)
  | .notWritten true => ([(file, none)], false)
  | .notWritten false => ([(file, some (.document []))], false)
  | .written => ([(file, some (.document document))], true)

/-- The loop over the services, from the service with number `i` on. -/
def writeServiceFiles (outcomes : Outcomes) : ℕ → List QJsonValue → List Change × Bool
  | _, [] => ([], true)
  | i, v :: services =>
      let (changes, ok) := writeXmlFile (outcomes.service i) (m.serviceDocument env v.toObject)
        (m.serviceFile env v.toObject)
      if ok then
        let (rest, ok) := writeServiceFiles outcomes (i + 1) services
        (changes ++ rest, ok)
      else (changes, false)

def writeProviderFile (outcomes : Outcomes) : List Change × Bool :=
  let name := (m.plugin.value "name").toString
  let icon := (m.plugin.value "icon").toString
  if name = "" then ([], false)
  else if icon = "" then ([], false)
  else writeXmlFile outcomes.provider (m.providerDocument env name icon) m.providerFile

/-- The path of the QML files. -/
def qmlPath (qmlPlugin : String) : String :=
  if ClickHooks.isAbsolutePath qmlPlugin then qmlPlugin else m.packageDir ++ "/" ++ qmlPlugin

def writePlugins (outcomes : Outcomes) : List Change × Bool :=
  if m.plugin.members.isEmpty then ([], true)
  else
    let qmlPlugin := (m.plugin.value "qml").toString
    if qmlPlugin = "" then ([], false)
    else if (env.click.canonicalFilePath (m.qmlPath qmlPlugin)).isNone then ([], false)
    else
      let unlinked := if outcomes.unlinks then [(m.qmlDestination, none)] else []
      if outcomes.links then
        let (changes, ok) := m.writeProviderFile env outcomes
        (unlinked ++ [(m.qmlDestination, some (.link (m.qmlPath qmlPlugin)))] ++ changes, ok)
      else (unlinked, false)

def writeFiles (outcomes : Outcomes) : List Change × Bool :=
  let (services, ok) := m.writeServiceFiles env outcomes 0 m.services
  let (plugins, ok') := m.writePlugins env outcomes
  if ok && ok' && !m.services.isEmpty then
    let (application, ok) :=
      writeXmlFile outcomes.application (m.applicationDocument env) m.applicationFile
    (services ++ plugins ++ application, ok)
  else (services ++ plugins, ok && ok')

end ManifestFile

end AccountsHook

end OnlineAccounts
